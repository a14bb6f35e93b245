import PgKronika.BudgetOrder
import PgKronika.CheckedArith
import PgKronika.CoverageUnion
import PgKronika.DescriptorSelection
import PgKronika.HealthCell

/-! The metadata of one index view over a range: the quality axes, the spans and the dropped count
of its facts, folded in one pass within a span budget. -/
namespace PgKronika
namespace Timeline

open CheckedArith

structure LossCoverage where
  covered : Coverage
  knownGaps : Coverage
  sourceCompleteness : SourceCompleteness
  retainedExactness : RetainedExactness
  physicalCount : PhysicalCountSemantics
  droppedLowerBound : UInt64

/-- What the metadata reads of the facts of one segment. -/
structure SegmentFacts where
  sourceMinTsUs : Int64
  sourceMaxTsUs : Int64
  lossCoverage : LossCoverage

structure IndexView where
  sealed : List SegmentFacts
  live : List SegmentFacts
  liveQueryable : Bool
  freshness : Option Int64
  omittedRanges : List OmittedRange

structure TimelineMetadata where
  dataThroughUs : Option Int64
  covered : Coverage
  knownGaps : Coverage
  sourceCompleteness : SourceCompleteness
  retainedExactness : RetainedExactness
  physicalCount : PhysicalCountSemantics
  droppedLowerBound : Option ℕ

inductive MetadataError
  | countOverflow
  | spanLimitExceeded
  deriving DecidableEq

structure MetadataAccumulator where
  dataThroughUs : Option Int64
  covered : List CoverageSpan
  knownGaps : List CoverageSpan
  sourceCompleteness : Option SourceCompleteness
  retainedExactness : Option RetainedExactness
  physicalCount : Option PhysicalCountSemantics
  droppedLowerBound : Option ℕ
  droppedCountUnavailable : Bool
  remainingSpans : ℕ

def mergeSourceCompleteness : SourceCompleteness → SourceCompleteness → SourceCompleteness
  | .unknown,_ | _,.unknown => .unknown
  | .boundedSubset,_ | _,.boundedSubset => .boundedSubset
  | .full,.full => .full

def mergeRetainedExactness : RetainedExactness → RetainedExactness → RetainedExactness
  | .unknown,_ | _,.unknown => .unknown
  | .lowerBound,_ | _,.lowerBound => .lowerBound
  | .exact,.exact => .exact

/-- A lower bound absorbs a count that does not apply, while an exact one does not. -/
def mergePhysicalCount :
    PhysicalCountSemantics → PhysicalCountSemantics → PhysicalCountSemantics
  | .unknown,_ | _,.unknown | .exact,.notApplicable | .notApplicable,.exact => .unknown
  | .lowerBound,_ | _,.lowerBound => .lowerBound
  | .exact,.exact => .exact
  | .notApplicable,.notApplicable => .notApplicable

/-- The first value is taken as it is. -/
def meld {α : Type} (merge : α → α → α) (current : Option α) (next : α) : Option α :=
  some (current.elim next fun current => merge current next)

def clip (range span : CoverageSpan) : Option CoverageSpan :=
  CoverageSpan.new (max span.fromUs range.fromUs) (min span.toUs range.toUs)

def extendClipped (range : CoverageSpan) :
    List CoverageSpan → List CoverageSpan → ℕ → Except MetadataError (List CoverageSpan × ℕ)
  | [],output,remaining => .ok (output,remaining)
  | span::spans,output,remaining =>
    match clip range span with
    | none => extendClipped range spans output remaining
    | some clipped =>
      if remaining = 0 then .error .spanLimitExceeded
      else extendClipped range spans (output++[clipped]) (remaining-1)

def pushGaps : List OmittedRange → MetadataAccumulator → Except MetadataError MetadataAccumulator
  | [],acc => .ok acc
  | gap::gaps,acc =>
    if acc.remainingSpans = 0 then .error .spanLimitExceeded
    else pushGaps gaps { acc with
      knownGaps := acc.knownGaps++[gap.span]
      remainingSpans := acc.remainingSpans-1
      sourceCompleteness := some .boundedSubset }

namespace SegmentFacts

variable (range : CoverageSpan) (facts : SegmentFacts)

def overlaps : Bool :=
  !(decide (facts.sourceMaxTsUs < range.fromUs) || decide (range.toUs ≤ facts.sourceMinTsUs))

def fullySelected : Bool :=
  decide (range.fromUs ≤ facts.sourceMinTsUs) && decide (facts.sourceMaxTsUs < range.toUs)

end SegmentFacts

def MetadataAccumulator.add (range : CoverageSpan) (acc : MetadataAccumulator)
    (facts : SegmentFacts) : Except MetadataError MetadataAccumulator :=
  let loss := facts.lossCoverage
  let acc := { acc with dataThroughUs := meld max acc.dataThroughUs facts.sourceMaxTsUs }
  if facts.overlaps range then
    match extendClipped range loss.covered.spans acc.covered acc.remainingSpans with
    | .error e => .error e
    | .ok (covered,remaining) =>
      match extendClipped range loss.knownGaps.spans acc.knownGaps remaining with
      | .error e => .error e
      | .ok (knownGaps,remainingSpans) =>
        let acc := { acc with
          covered
          knownGaps
          remainingSpans
          sourceCompleteness :=
            meld mergeSourceCompleteness acc.sourceCompleteness loss.sourceCompleteness
          retainedExactness :=
            meld mergeRetainedExactness acc.retainedExactness loss.retainedExactness
          physicalCount := meld mergePhysicalCount acc.physicalCount loss.physicalCount }
        if loss.droppedLowerBound ≠ 0 ∧ facts.fullySelected range = false then
          .ok { acc with droppedCountUnavailable := true, droppedLowerBound := none }
        else if acc.droppedCountUnavailable then .ok acc
        else
          match checkedAdd (acc.droppedLowerBound.getD 0) loss.droppedLowerBound.toNat with
          | none => .error .countOverflow
          | some sum => .ok { acc with droppedLowerBound := some sum }
  else .ok acc

def addAll (range : CoverageSpan) :
    List SegmentFacts → MetadataAccumulator → Except MetadataError MetadataAccumulator
  | [],acc => .ok acc
  | facts::rest,acc =>
    match acc.add range facts with
    | .error e => .error e
    | .ok acc => addAll range rest acc

def MetadataAccumulator.finish (acc : MetadataAccumulator) : TimelineMetadata where
  dataThroughUs := acc.dataThroughUs
  covered := .fromSpans acc.covered
  knownGaps := .fromSpans acc.knownGaps
  sourceCompleteness := acc.sourceCompleteness.getD .unknown
  retainedExactness := acc.retainedExactness.getD .unknown
  physicalCount := acc.physicalCount.getD .notApplicable
  droppedLowerBound := acc.droppedLowerBound

namespace IndexView

variable (view : IndexView)

def queryableFacts : List SegmentFacts :=
  view.sealed++if view.liveQueryable then view.live else []

def opening (maxSpans : ℕ) : MetadataAccumulator where
  dataThroughUs := view.freshness
  covered := []
  knownGaps := []
  sourceCompleteness := none
  retainedExactness := none
  physicalCount := none
  droppedLowerBound := none
  droppedCountUnavailable := false
  remainingSpans := maxSpans

/-- The metadata when the facts are visited in a given order. -/
def metadataIn (order : List SegmentFacts) (range : CoverageSpan) (maxSpans : ℕ) :
    Except MetadataError TimelineMetadata :=
  match pushGaps view.omittedRanges (view.opening maxSpans) with
  | .error e => .error e
  | .ok acc =>
    match addAll range order acc with
    | .error e => .error e
    | .ok acc => .ok acc.finish

def metadata (range : CoverageSpan) (maxSpans : ℕ) : Except MetadataError TimelineMetadata :=
  view.metadataIn view.queryableFacts range maxSpans

end IndexView

end Timeline
end PgKronika
