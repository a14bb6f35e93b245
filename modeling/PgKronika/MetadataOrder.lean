import PgKronika.TimelineMetadata

/-! When the metadata of a view depends on the order of its facts. -/
namespace PgKronika
namespace Timeline

open BudgetOrder CheckedArith
open GreedyPrefix (total total_append)

variable {range : CoverageSpan} {maxSpans : ℕ}

def clips (range : CoverageSpan) (coverage : Coverage) : List CoverageSpan :=
  coverage.spans.filterMap (clip range)

namespace SegmentFacts

def clipCost (range : CoverageSpan) (facts : SegmentFacts) : ℕ :=
  if facts.overlaps range then
    (clips range facts.lossCoverage.covered).length+
      (clips range facts.lossCoverage.knownGaps).length
  else 0

def dropped (range : CoverageSpan) (facts : SegmentFacts) : ℕ :=
  if facts.overlaps range then facts.lossCoverage.droppedLowerBound.toNat else 0

/-- Something was dropped, but not all of the facts are in the range. -/
def dropsOutside (range : CoverageSpan) (facts : SegmentFacts) : Bool :=
  facts.overlaps range && decide (facts.lossCoverage.droppedLowerBound ≠ 0) &&
    !facts.fullySelected range

end SegmentFacts

def ledger (range : CoverageSpan) (maxSpans : ℕ) : BudgetOrder.Ledger SegmentFacts where
  cost := SegmentFacts.clipCost range
  weight := SegmentFacts.dropped range
  voids := SegmentFacts.dropsOutside range
  budget := maxSpans
  cap := u64Max

def errorOf : Refusal → MetadataError
  | .spent => .spanLimitExceeded
  | .overflow => .countOverflow

theorem errorOf_injective {a b : Refusal} (h : errorOf a = errorOf b) : a = b := by
  cases a <;> cases b <;> simp_all [errorOf]

theorem extendClipped_eq (spans output : List CoverageSpan) (remaining : ℕ) :
    extendClipped range spans output remaining =
      if (spans.filterMap (clip range)).length ≤ remaining then
        .ok (output++spans.filterMap (clip range),
          remaining-(spans.filterMap (clip range)).length)
      else .error .spanLimitExceeded := by
  induction spans generalizing output remaining with
  | nil => simp [extendClipped]
  | cons span spans ih =>
    rw [extendClipped]
    cases hclip : clip range span with
    | none => simp only [List.filterMap_cons_none hclip,ih]
    | some clipped =>
      simp only [List.filterMap_cons_some hclip,List.length_cons,ih]
      by_cases hzero : remaining = 0
      · simp [hzero]
      · rw [if_neg hzero]
        by_cases hfits : (spans.filterMap (clip range)).length ≤ remaining-1
        · rw [if_pos hfits,if_pos (by omega),List.append_assoc,Nat.sub_sub,Nat.add_comm 1]
          rfl
        · rw [if_neg hfits,if_neg (by omega)]

theorem extendClipped_clips (coverage : Coverage) (output : List CoverageSpan) (remaining : ℕ) :
    extendClipped range coverage.spans output remaining =
      if (clips range coverage).length ≤ remaining then
        .ok (output++clips range coverage,remaining-(clips range coverage).length)
      else .error .spanLimitExceeded := extendClipped_eq coverage.spans output remaining

/-- The fold has charged and counted what the ledger says. -/
structure MetadataAccumulator.Matches (acc : MetadataAccumulator) (range : CoverageSpan)
    (maxSpans : ℕ) (s : State) : Prop where
  within : s.Within (ledger range maxSpans)
  remaining : acc.remainingSpans+s.spent = maxSpans
  unavailable : acc.droppedCountUnavailable = s.void
  dropped : acc.droppedLowerBound =
    if s.void then none else if acc.physicalCount.isSome then some s.sum else none
  unseen : acc.physicalCount = none → s.void = false → s.sum = 0

theorem MetadataAccumulator.Matches.dropped_getD {acc : MetadataAccumulator} {s : State}
    (h : acc.Matches range maxSpans s) (hvoid : s.void = false) :
    acc.droppedLowerBound.getD 0 = s.sum := by
  rw [h.dropped,hvoid]
  cases hcount : acc.physicalCount with
  | none => exact (h.unseen hcount hvoid).symm
  | some _ => rfl

/-- The accumulator after some facts that are not refused. -/
def MetadataAccumulator.after (acc : MetadataAccumulator) (range : CoverageSpan) (maxSpans : ℕ)
    (l : List SegmentFacts) (t : State) : MetadataAccumulator :=
  let seen := l.filter (SegmentFacts.overlaps range)
  let physicalCount :=
    (seen.map fun f => f.lossCoverage.physicalCount).foldl (meld mergePhysicalCount) acc.physicalCount
  { dataThroughUs := (l.map SegmentFacts.sourceMaxTsUs).foldl (meld max) acc.dataThroughUs
    covered := acc.covered++seen.flatMap fun f => clips range f.lossCoverage.covered
    knownGaps := acc.knownGaps++seen.flatMap fun f => clips range f.lossCoverage.knownGaps
    sourceCompleteness := (seen.map fun f => f.lossCoverage.sourceCompleteness).foldl
      (meld mergeSourceCompleteness) acc.sourceCompleteness
    retainedExactness := (seen.map fun f => f.lossCoverage.retainedExactness).foldl
      (meld mergeRetainedExactness) acc.retainedExactness
    physicalCount
    droppedLowerBound :=
      if t.void then none else if physicalCount.isSome then some t.sum else none
    droppedCountUnavailable := t.void
    remainingSpans := maxSpans-t.spent }

theorem step_outside {s : State} {facts : SegmentFacts} (hs : s.Within (ledger range maxSpans))
    (hout : facts.overlaps range = false) : step (ledger range maxSpans) s facts = .ok s := by
  have hspent : ¬(ledger range maxSpans).budget < s.spent := not_lt.mpr hs.spent
  have hsum : ¬(ledger range maxSpans).cap < s.sum := not_lt.mpr hs.sum
  have hcost : (ledger range maxSpans).cost facts = 0 := by
    simp [ledger,SegmentFacts.clipCost,hout]
  have hweight : (ledger range maxSpans).weight facts = 0 := by
    simp [ledger,SegmentFacts.dropped,hout]
  have hvoids : (ledger range maxSpans).voids facts = false := by
    simp [ledger,SegmentFacts.dropsOutside,hout]
  obtain ⟨spent,sum,void⟩ := s
  rw [step,hcost,hweight,hvoids]
  cases void with
  | true => simp [hspent]
  | false => simp [hspent,hsum]

theorem add_outside {acc : MetadataAccumulator} {s : State} (h : acc.Matches range maxSpans s)
    {facts : SegmentFacts} (hout : facts.overlaps range = false) :
    acc.add range facts = .ok (acc.after range maxSpans [facts] s) := by
  have hremaining : maxSpans-s.spent = acc.remainingSpans := by
    have hsum := h.remaining
    omega
  simp [MetadataAccumulator.add,MetadataAccumulator.after,hout,hremaining,h.unavailable,
    ← h.dropped]

theorem add_inside {acc : MetadataAccumulator} {s : State} (h : acc.Matches range maxSpans s)
    {facts : SegmentFacts} (hin : facts.overlaps range = true) :
    acc.add range facts = match step (ledger range maxSpans) s facts with
      | .error e => .error (errorOf e)
      | .ok t => .ok (acc.after range maxSpans [facts] t) := by
  have hremaining := h.remaining
  have hcost : (ledger range maxSpans).cost facts =
      (clips range facts.lossCoverage.covered).length+
        (clips range facts.lossCoverage.knownGaps).length := by
    simp [ledger,SegmentFacts.clipCost,hin]
  have hweight : (ledger range maxSpans).weight facts =
      facts.lossCoverage.droppedLowerBound.toNat := by
    simp [ledger,SegmentFacts.dropped,hin]
  have hvoids : (ledger range maxSpans).voids facts = true ↔
      facts.lossCoverage.droppedLowerBound ≠ 0 ∧ facts.fullySelected range = false := by
    simp [ledger,SegmentFacts.dropsOutside,hin]
  have hbudget : (ledger range maxSpans).budget = maxSpans := rfl
  have hcap : (ledger range maxSpans).cap = u64Max := rfl
  rw [MetadataAccumulator.add,if_pos hin,extendClipped_clips]
  by_cases hfits : s.spent+(ledger range maxSpans).cost facts ≤ maxSpans
  · have hfirst : (clips range facts.lossCoverage.covered).length ≤ acc.remainingSpans := by omega
    have hsecond : (clips range facts.lossCoverage.knownGaps).length ≤
        acc.remainingSpans-(clips range facts.lossCoverage.covered).length := by omega
    have hleft : acc.remainingSpans-(clips range facts.lossCoverage.covered).length-
        (clips range facts.lossCoverage.knownGaps).length =
          maxSpans-(s.spent+(ledger range maxSpans).cost facts) := by omega
    have hbudget : ¬(ledger range maxSpans).budget < s.spent+(ledger range maxSpans).cost facts :=
      not_lt.mpr hfits
    rw [if_pos hfirst]
    dsimp only
    rw [extendClipped_clips,if_pos hsecond,hleft,step,if_neg hbudget]
    dsimp only
    by_cases hvoid : facts.lossCoverage.droppedLowerBound ≠ 0 ∧
        facts.fullySelected range = false
    · rw [if_pos hvoid,if_pos (by rw [hvoids.mpr hvoid,Bool.or_true])]
      simp [MetadataAccumulator.after,hin]
    · have hkeeps : (ledger range maxSpans).voids facts = false :=
        eq_false_of_ne_true fun hv => hvoid (hvoids.mp hv)
      rw [if_neg hvoid,hkeeps,Bool.or_false,h.unavailable]
      by_cases hsvoid : s.void = true
      · rw [if_pos hsvoid,if_pos hsvoid]
        simp [MetadataAccumulator.after,hin,h.dropped,hsvoid]
      · rw [if_neg hsvoid,if_neg hsvoid,h.dropped_getD (eq_false_of_ne_true hsvoid),hweight]
        by_cases hover : s.sum+facts.lossCoverage.droppedLowerBound.toNat ≤ u64Max
        · rw [checkedAdd_of_le hover,hcap,if_neg (not_lt.mpr hover)]
          simp [MetadataAccumulator.after,hin,meld,eq_false_of_ne_true hsvoid]
        · have hnone : checkedAdd s.sum facts.lossCoverage.droppedLowerBound.toNat = none :=
            if_neg hover
          rw [hnone,hcap,if_pos (not_le.mp hover)]
          rfl
  · have hspent : (ledger range maxSpans).budget < s.spent+(ledger range maxSpans).cost facts :=
      not_le.mp hfits
    rw [step,if_pos hspent]
    by_cases hfirst : (clips range facts.lossCoverage.covered).length ≤ acc.remainingSpans
    · rw [if_pos hfirst]
      dsimp only
      rw [extendClipped_clips,if_neg (by omega)]
      rfl
    · rw [if_neg hfirst]
      rfl

theorem add_eq {acc : MetadataAccumulator} {s : State} (h : acc.Matches range maxSpans s)
    (facts : SegmentFacts) :
    acc.add range facts = match step (ledger range maxSpans) s facts with
      | .error e => .error (errorOf e)
      | .ok t => .ok (acc.after range maxSpans [facts] t) := by
  cases hin : facts.overlaps range with
  | true => exact add_inside h hin
  | false =>
    rw [step_outside h.within hin]
    exact add_outside h hin

theorem matches_after {acc : MetadataAccumulator} {s t : State}
    (h : acc.Matches range maxSpans s) {facts : SegmentFacts}
    (hstep : step (ledger range maxSpans) s facts = .ok t) :
    (acc.after range maxSpans [facts] t).Matches range maxSpans t where
  within := step_within h.within hstep
  remaining := by
    have hle : t.spent ≤ maxSpans := (step_within h.within hstep).spent
    exact Nat.sub_add_cancel hle
  unavailable := rfl
  dropped := rfl
  unseen := by
    intro hnone hvoid
    cases hin : facts.overlaps range with
    | true => simp [MetadataAccumulator.after,hin,meld] at hnone
    | false =>
      rw [step_outside h.within hin] at hstep
      cases hstep
      simp [MetadataAccumulator.after,hin] at hnone
      exact h.unseen hnone hvoid

theorem after_after (acc : MetadataAccumulator) (facts : SegmentFacts) (l : List SegmentFacts)
    (s t : State) :
    (acc.after range maxSpans [facts] s).after range maxSpans l t =
      acc.after range maxSpans (facts::l) t := by
  cases hin : facts.overlaps range with
  | true => simp [MetadataAccumulator.after,hin]
  | false => simp [MetadataAccumulator.after,hin]

theorem after_nil {acc : MetadataAccumulator} {s : State} (h : acc.Matches range maxSpans s) :
    acc.after range maxSpans [] s = acc := by
  have hremaining : maxSpans-s.spent = acc.remainingSpans := by
    have hsum := h.remaining
    omega
  have hdropped := h.dropped
  rw [← h.unavailable] at hdropped
  simp [MetadataAccumulator.after,hremaining,← h.unavailable,← hdropped]

theorem addAll_eq {acc : MetadataAccumulator} {s : State} (h : acc.Matches range maxSpans s)
    (l : List SegmentFacts) :
    addAll range l acc = match run (ledger range maxSpans) s l with
      | .error e => .error (errorOf e)
      | .ok t => .ok (acc.after range maxSpans l t) := by
  induction l generalizing acc s with
  | nil =>
    rw [addAll,run]
    dsimp only
    rw [after_nil h]
  | cons facts l ih =>
    rw [addAll,run,add_eq h]
    cases hstep : step (ledger range maxSpans) s facts with
    | error e => rfl
    | ok t =>
      dsimp only
      rw [ih (matches_after h hstep)]
      simp only [after_after]

/-- The accumulator after the omitted ranges. -/
def IndexView.opened (view : IndexView) (maxSpans : ℕ) : MetadataAccumulator :=
  { view.opening maxSpans with
    knownGaps := view.omittedRanges.map OmittedRange.span
    sourceCompleteness := if view.omittedRanges = [] then none else some .boundedSubset
    remainingSpans := maxSpans-view.omittedRanges.length }

theorem pushGaps_eq (gaps : List OmittedRange) (acc : MetadataAccumulator) :
    pushGaps gaps acc =
      if gaps.length ≤ acc.remainingSpans then .ok { acc with
        knownGaps := acc.knownGaps++gaps.map OmittedRange.span
        remainingSpans := acc.remainingSpans-gaps.length
        sourceCompleteness := if gaps = [] then acc.sourceCompleteness else some .boundedSubset }
      else .error .spanLimitExceeded := by
  induction gaps generalizing acc with
  | nil => simp [pushGaps]
  | cons gap gaps ih =>
    rw [pushGaps]
    by_cases hzero : acc.remainingSpans = 0
    · rw [if_pos hzero,if_neg (by simp [hzero])]
    · rw [if_neg hzero,ih]
      dsimp only
      by_cases hfits : gaps.length ≤ acc.remainingSpans-1
      · have hleft : acc.remainingSpans-1-gaps.length = acc.remainingSpans-(gap::gaps).length := by
          rw [List.length_cons]
          omega
        have hall : (gap::gaps).length ≤ acc.remainingSpans := by
          rw [List.length_cons]
          omega
        rw [if_pos hfits,if_pos hall,hleft]
        simp
      · have hall : ¬(gap::gaps).length ≤ acc.remainingSpans := by
          rw [List.length_cons]
          omega
        rw [if_neg hfits,if_neg hall]

theorem opened_matches {view : IndexView} (h : view.omittedRanges.length ≤ maxSpans) :
    (view.opened maxSpans).Matches range maxSpans (start view.omittedRanges.length) where
  within := start_within h
  remaining := Nat.sub_add_cancel h
  unavailable := rfl
  dropped := rfl
  unseen _ _ := rfl

/-- The metadata of some facts in a given order, as the ledger refuses them. -/
theorem metadataIn_eq (view : IndexView) (order : List SegmentFacts) :
    view.metadataIn order range maxSpans =
      if view.omittedRanges.length ≤ maxSpans then
        match run (ledger range maxSpans) (start view.omittedRanges.length) order with
        | .error e => .error (errorOf e)
        | .ok t => .ok ((view.opened maxSpans).after range maxSpans order t).finish
      else .error .spanLimitExceeded := by
  have hgaps : pushGaps view.omittedRanges (view.opening maxSpans) =
      if view.omittedRanges.length ≤ maxSpans then .ok (view.opened maxSpans)
      else .error .spanLimitExceeded := pushGaps_eq _ _
  rw [IndexView.metadataIn,hgaps]
  by_cases h : view.omittedRanges.length ≤ maxSpans
  · rw [if_pos h,if_pos h]
    dsimp only
    rw [addAll_eq (opened_matches h) order]
    cases run (ledger range maxSpans) (start view.omittedRanges.length) order with
    | error e => rfl
    | ok t => rfl
  · rw [if_neg h,if_neg h]

/-! The folds over the values of the facts. -/

theorem meld_comm {α : Type} {merge : α → α → α} (hcomm : ∀ a b, merge a b = merge b a)
    (hassoc : ∀ a b c, merge (merge a b) c = merge a (merge b c)) (o : Option α) (a b : α) :
    meld merge (meld merge o a) b = meld merge (meld merge o b) a := by
  cases o with
  | none => simp [meld,hcomm]
  | some c => simp [meld,hassoc,hcomm a b]

theorem meld_perm {α : Type} {merge : α → α → α} (hcomm : ∀ a b, merge a b = merge b a)
    (hassoc : ∀ a b c, merge (merge a b) c = merge a (merge b c)) {l l' : List α}
    (hperm : l'.Perm l) (o : Option α) : l'.foldl (meld merge) o = l.foldl (meld merge) o :=
  hperm.foldl_eq' (fun _ _ _ _ _ => meld_comm hcomm hassoc _ _ _) o

theorem mergeSourceCompleteness_comm (a b : SourceCompleteness) :
    mergeSourceCompleteness a b = mergeSourceCompleteness b a := by
  cases a <;> cases b <;> rfl

theorem mergeSourceCompleteness_assoc (a b c : SourceCompleteness) :
    mergeSourceCompleteness (mergeSourceCompleteness a b) c =
      mergeSourceCompleteness a (mergeSourceCompleteness b c) := by
  cases a <;> cases b <;> cases c <;> rfl

theorem mergeRetainedExactness_comm (a b : RetainedExactness) :
    mergeRetainedExactness a b = mergeRetainedExactness b a := by
  cases a <;> cases b <;> rfl

theorem mergeRetainedExactness_assoc (a b c : RetainedExactness) :
    mergeRetainedExactness (mergeRetainedExactness a b) c =
      mergeRetainedExactness a (mergeRetainedExactness b c) := by
  cases a <;> cases b <;> cases c <;> rfl

theorem max_comm_us (a b : Int64) : max a b = max b a := by
  apply Int64.toInt_inj.mp
  rw [Int64.toInt_max,Int64.toInt_max,max_comm]

theorem max_assoc_us (a b c : Int64) : max (max a b) c = max a (max b c) := by
  apply Int64.toInt_inj.mp
  simp only [Int64.toInt_max,max_assoc]

/-- An exact count, one that does not apply and a lower bound, and none that is unknown. -/
def Mixed (counts : List PhysicalCountSemantics) : Prop :=
  (.exact ∈ counts ∧ .notApplicable ∈ counts ∧ .lowerBound ∈ counts) ∧ .unknown ∉ counts

/-- The merged count as the values alone tell it. -/
def countOf (counts : List PhysicalCountSemantics) : Option PhysicalCountSemantics :=
  if counts = [] then none
  else if .unknown ∈ counts ∨ (.exact ∈ counts ∧ .notApplicable ∈ counts) then some .unknown
  else if .lowerBound ∈ counts then some .lowerBound
  else if .exact ∈ counts then some .exact
  else some .notApplicable

theorem foldl_unknown (counts : List PhysicalCountSemantics) :
    counts.foldl (meld mergePhysicalCount) (some .unknown) = some .unknown := by
  induction counts with
  | nil => rfl
  | cons count counts ih =>
    have hstep : meld mergePhysicalCount (some .unknown) count = some .unknown := by
      cases count <;> rfl
    rw [List.foldl_cons,hstep,ih]

theorem foldl_lowerBound {counts : List PhysicalCountSemantics} (h : .unknown ∉ counts) :
    counts.foldl (meld mergePhysicalCount) (some .lowerBound) = some .lowerBound := by
  induction counts with
  | nil => rfl
  | cons count counts ih =>
    rw [List.mem_cons,not_or] at h
    have hstep : meld mergePhysicalCount (some .lowerBound) count = some .lowerBound := by
      cases count with
      | unknown => exact absurd rfl h.1
      | _ => rfl
    rw [List.foldl_cons,hstep,ih h.2]

theorem foldl_countOf {counts : List PhysicalCountSemantics} (h : ¬Mixed counts) :
    counts.foldl (meld mergePhysicalCount) none = countOf counts := by
  induction counts using List.reverseRecOn with
  | nil => rfl
  | append_singleton counts count ih =>
    rw [List.foldl_append,List.foldl_cons,List.foldl_nil]
    by_cases hunknown : count = .unknown
    · subst hunknown
      have hmem : PhysicalCountSemantics.unknown ∈ counts++[.unknown] := by simp
      rw [countOf,if_neg (by simp),if_pos (.inl hmem)]
      cases counts.foldl (meld mergePhysicalCount) none with
      | none => rfl
      | some current => cases current <;> rfl
    · have hfront : ¬Mixed counts := by
        rintro ⟨⟨he,hn,hl⟩,hu⟩
        refine h ⟨⟨by simp [he],by simp [hn],by simp [hl]⟩,?_⟩
        simpa [hu] using Ne.symm hunknown
      rw [ih hfront]
      by_cases hnil : counts = []
      · subst hnil
        cases count <;> simp_all [countOf,meld]
      · simp only [Mixed,List.mem_append,List.mem_singleton] at h
        simp only [countOf,hnil,List.mem_append,List.mem_singleton,List.append_eq_nil_iff,
          false_and,if_false]
        by_cases hu : PhysicalCountSemantics.unknown ∈ counts
        · simp [hu,meld,mergePhysicalCount]
        · have hsome : PhysicalCountSemantics.exact ∈ counts ∨
              PhysicalCountSemantics.notApplicable ∈ counts ∨
                PhysicalCountSemantics.lowerBound ∈ counts := by
            obtain ⟨current,hcurrent⟩ := List.exists_mem_of_ne_nil counts hnil
            cases current with
            | exact => exact .inl hcurrent
            | notApplicable => exact .inr (.inl hcurrent)
            | lowerBound => exact .inr (.inr hcurrent)
            | unknown => exact absurd hcurrent hu
          by_cases he : PhysicalCountSemantics.exact ∈ counts <;>
            by_cases hn : PhysicalCountSemantics.notApplicable ∈ counts <;>
              by_cases hl : PhysicalCountSemantics.lowerBound ∈ counts <;>
                cases count <;> simp_all [meld,mergePhysicalCount]

theorem countOf_perm {counts counts' : List PhysicalCountSemantics}
    (h : counts'.Perm counts) : countOf counts' = countOf counts := by
  have hnil : counts' = [] ↔ counts = [] :=
    ⟨fun he => (he ▸ h).nil_eq.symm,fun he => List.Perm.eq_nil (he ▸ h)⟩
  simp only [countOf,hnil,h.mem_iff]

theorem mixed_perm {counts counts' : List PhysicalCountSemantics} (h : counts'.Perm counts) :
    Mixed counts' ↔ Mixed counts := by
  simp only [Mixed,h.mem_iff]

/-- The physical counts of the facts that overlap a range. -/
def countsIn (range : CoverageSpan) (l : List SegmentFacts) : List PhysicalCountSemantics :=
  (l.filter (SegmentFacts.overlaps range)).map fun f => f.lossCoverage.physicalCount

theorem countsIn_perm {l l' : List SegmentFacts} (h : l'.Perm l) :
    (countsIn range l').Perm (countsIn range l) := (h.filter _).map _

theorem mem_countsIn {l : List SegmentFacts} {count : PhysicalCountSemantics}
    (h : count ∈ countsIn range l) :
    ∃ f ∈ l, f.overlaps range = true ∧ f.lossCoverage.physicalCount = count := by
  obtain ⟨f,hf,rfl⟩ := List.mem_map.mp h
  exact ⟨f,(List.mem_filter.mp hf).1,(List.mem_filter.mp hf).2,rfl⟩

/-- A mixed list has an order that ends in a lower bound and one that ends in an unknown count. -/
theorem mixed_orders {l : List SegmentFacts} (h : Mixed (countsIn range l)) :
    (∃ l', l'.Perm l ∧ (countsIn range l').foldl (meld mergePhysicalCount) none =
      some .lowerBound) ∧
    ∃ l', l'.Perm l ∧ (countsIn range l').foldl (meld mergePhysicalCount) none =
      some .unknown := by
  obtain ⟨⟨hexact,hnot,hlow⟩,hunknown⟩ := h
  constructor
  · obtain ⟨f,hf,hin,hcount⟩ := mem_countsIn hlow
    obtain ⟨rest,hrest⟩ := perm_head hf
    refine ⟨f::rest,hrest,?_⟩
    have hfree : .unknown ∉ countsIn range rest := by
      intro hmem
      apply hunknown
      rw [← (countsIn_perm hrest).mem_iff]
      simp only [countsIn,List.filter_cons_of_pos hin,List.map_cons]
      exact List.mem_cons_of_mem _ hmem
    have hhead : countsIn range (f::rest) = .lowerBound::countsIn range rest := by
      rw [countsIn,List.filter_cons_of_pos hin,List.map_cons,hcount]
      rfl
    rw [hhead]
    exact foldl_lowerBound hfree
  · obtain ⟨e,he,hein,hecount⟩ := mem_countsIn hexact
    obtain ⟨rest,hrest⟩ := perm_head he
    obtain ⟨f,hf,hfin,hfcount⟩ := mem_countsIn hnot
    have hne : f ≠ e := by
      rintro rfl
      rw [hecount] at hfcount
      cases hfcount
    have hmem : f ∈ rest := (List.mem_cons.mp (hrest.symm.subset hf)).resolve_left hne
    obtain ⟨last,hlast⟩ := perm_head hmem
    refine ⟨e::f::last,(hlast.cons e).trans hrest,?_⟩
    have hhead : countsIn range (e::f::last) =
        .exact::.notApplicable::countsIn range last := by
      rw [countsIn,List.filter_cons_of_pos hein,List.filter_cons_of_pos hfin,List.map_cons,
        List.map_cons,hecount,hfcount]
      rfl
    rw [hhead]
    exact foldl_unknown _

namespace IndexView

variable (view : IndexView)

/-- No order of the facts changes the metadata: the refusal is the same in every order, and facts
that are not refused do not mix the counts. -/
def OrderFree (range : CoverageSpan) (maxSpans : ℕ) : Prop :=
  maxSpans < view.omittedRanges.length ∨
    (BudgetOrder.OrderFree (ledger range maxSpans) view.omittedRanges.length view.queryableFacts ∧
      (view.omittedRanges.length+total (ledger range maxSpans).cost view.queryableFacts ≤ maxSpans →
        counted (ledger range maxSpans) view.queryableFacts ≤ u64Max →
          ¬Mixed (countsIn range view.queryableFacts)))

variable {view}

theorem refusal_of_metadata {order : List SegmentFacts}
    (hg : view.omittedRanges.length ≤ maxSpans) (e : Refusal) :
    view.metadataIn order range maxSpans = .error (errorOf e) ↔
      refusal (ledger range maxSpans) (start view.omittedRanges.length) order = some e := by
  rw [metadataIn_eq,if_pos hg,refusal]
  cases run (ledger range maxSpans) (start view.omittedRanges.length) order with
  | error e' =>
    simp only [Except.error.injEq,Option.some.injEq]
    exact ⟨errorOf_injective,congrArg errorOf⟩
  | ok t => simp

theorem refusal_same {order : List SegmentFacts} (hg : view.omittedRanges.length ≤ maxSpans)
    (h : view.metadataIn order range maxSpans = view.metadata range maxSpans) :
    refusal (ledger range maxSpans) (start view.omittedRanges.length) order =
      refusal (ledger range maxSpans) (start view.omittedRanges.length) view.queryableFacts := by
  apply Option.ext
  intro e
  rw [← refusal_of_metadata hg,← refusal_of_metadata hg,h]
  rfl

theorem fromSpans_perm {a b : List CoverageSpan} (h : a.Perm b) :
    Coverage.fromSpans a = Coverage.fromSpans b :=
  Coverage.eq_of_covered fun t => by
    rw [Coverage.fromSpans_covered,Coverage.fromSpans_covered]
    simp only [CoveredAt,SpanSet.Covered,h.mem_iff]

/-- Two orders that are not refused finish alike when the counts do not mix. -/
theorem finish_perm {acc : MetadataAccumulator} {l l' : List SegmentFacts} {s t t' : State}
    (hperm : l'.Perm l) (hcount : acc.physicalCount = none)
    (hmixed : ¬Mixed (countsIn range l)) (ht : run (ledger range maxSpans) s l = .ok t)
    (ht' : run (ledger range maxSpans) s l' = .ok t') :
    (acc.after range maxSpans l' t').finish = (acc.after range maxSpans l t).finish := by
  have hseen := hperm.filter (SegmentFacts.overlaps range)
  have hphysical : (countsIn range l').foldl (meld mergePhysicalCount) none =
      (countsIn range l).foldl (meld mergePhysicalCount) none := by
    rw [foldl_countOf hmixed,foldl_countOf (by rwa [mixed_perm (countsIn_perm hperm)]),
      countOf_perm (countsIn_perm hperm)]
  have hvoid : t'.void = t.void := by
    rw [void_of_ok ht,void_of_ok ht',hperm.any_eq]
  have hsum : t.void = false → t'.sum = t.sum := by
    intro hfalse
    rw [sum_of_ok ht hfalse,sum_of_ok ht' (hvoid.trans hfalse),GreedyPrefix.total_perm hperm]
  simp only [countsIn] at hphysical
  simp only [MetadataAccumulator.finish,MetadataAccumulator.after,hcount,hphysical,hvoid]
  congr 1
  · exact meld_perm max_comm_us max_assoc_us (hperm.map _) _
  · exact fromSpans_perm ((hseen.flatMap_right _).append_left _)
  · exact fromSpans_perm ((hseen.flatMap_right _).append_left _)
  · rw [meld_perm mergeSourceCompleteness_comm mergeSourceCompleteness_assoc (hseen.map _)]
  · rw [meld_perm mergeRetainedExactness_comm mergeRetainedExactness_assoc (hseen.map _)]
  · cases hv : t.void with
    | true => rfl
    | false => rw [hsum hv]

/-- Facts that are not refused, in an order that does not matter, stay within both bounds. -/
theorem bounds_of_ok {order : List SegmentFacts} {g : ℕ} {t : State} (hg : g ≤ maxSpans)
    (hfree : BudgetOrder.OrderFree (ledger range maxSpans) g order)
    (ht : run (ledger range maxSpans) (start g) order = .ok t) :
    g+total (ledger range maxSpans).cost order ≤ maxSpans ∧
      counted (ledger range maxSpans) order ≤ u64Max := by
  obtain ⟨hspent,hwithin⟩ := spent_of_ok (start_within hg) ht
  have hfits : g+total (ledger range maxSpans).cost order ≤ maxSpans := by
    have hle : t.spent ≤ maxSpans := hwithin.spent
    rw [hspent] at hle
    exact hle
  refine ⟨hfits,?_⟩
  have hbudget : (ledger range maxSpans).budget = maxSpans := rfl
  rw [BudgetOrder.OrderFree,hbudget,if_pos hfits] at hfree
  rcases hfree with hvoids | hcap
  · by_contra hcap
    have hall : order.filter (fun f => !(ledger range maxSpans).voids f) = order :=
      List.filter_eq_self.mpr fun f hf => by simp [hvoids f hf]
    rw [counted,hall,not_le] at hcap
    have hover := (overflow_iff_of_fits hg hfits hvoids).mpr hcap
    rw [refusal,ht] at hover
    cases hover
  · exact hcap

theorem run_ok_of_bounds {order : List SegmentFacts} {g : ℕ} (hg : g ≤ maxSpans)
    (hfits : g+total (ledger range maxSpans).cost order ≤ maxSpans)
    (hcap : counted (ledger range maxSpans) order ≤ u64Max) :
    ∃ t, run (ledger range maxSpans) (start g) order = .ok t := by
  have hrefusal : refusal (ledger range maxSpans) (start g) order = none := by
    rcases refusal_cases (L := ledger range maxSpans) (start g) order with h | h | h
    · exact h
    · exact absurd h (spent_le_of_fits hfits)
    · exact absurd (counted_le_of_overflow hg h) (not_lt.mpr hcap)
  rw [refusal] at hrefusal
  cases hrun : run (ledger range maxSpans) (start g) order with
  | error e =>
    rw [hrun] at hrefusal
    cases hrefusal
  | ok t => exact ⟨t,rfl⟩

theorem metadata_orderFree_iff (view : IndexView) (range : CoverageSpan) (maxSpans : ℕ) :
    (∀ order : List SegmentFacts, order.Perm view.queryableFacts →
      view.metadataIn order range maxSpans = view.metadata range maxSpans) ↔
    view.OrderFree range maxSpans := by
  by_cases hg : view.omittedRanges.length ≤ maxSpans
  · constructor
    · intro hsame
      refine .inr ⟨(orderFree_iff hg).mp fun order hperm => refusal_same hg (hsame order hperm),
        fun hfits hcap hmixed => ?_⟩
      -- a mixed list finishes with two different counts
      obtain ⟨⟨low,hlow,hlowcount⟩,other,hother,hothercount⟩ := mixed_orders hmixed
      have hfinish : ∀ order, order.Perm view.queryableFacts → ∃ t, view.metadataIn order range
          maxSpans = .ok ((view.opened maxSpans).after range maxSpans order t).finish := by
        intro order hperm
        have htotal : total (ledger range maxSpans).cost order = _ := GreedyPrefix.total_perm hperm
        obtain ⟨t,ht⟩ := run_ok_of_bounds hg (by rw [htotal]; exact hfits)
          (by rw [counted_perm hperm]; exact hcap)
        exact ⟨t,by rw [metadataIn_eq,if_pos hg,ht]⟩
      obtain ⟨t,ht⟩ := hfinish low hlow
      obtain ⟨u,hu⟩ := hfinish other hother
      rw [hsame low hlow,← hsame other hother,hu] at ht
      have hcount := congrArg TimelineMetadata.physicalCount (Except.ok.inj ht)
      have hnone : (view.opened maxSpans).physicalCount = none := rfl
      simp only [countsIn] at hlowcount hothercount
      simp only [MetadataAccumulator.finish,MetadataAccumulator.after,hnone,hlowcount,
        hothercount] at hcount
      cases hcount
    · rintro (hlt | ⟨hfree,hmixed⟩) order hperm
      · omega
      · have hrefusal := (orderFree_iff hg).mpr hfree order hperm
        rw [IndexView.metadata,metadataIn_eq,metadataIn_eq,if_pos hg,if_pos hg]
        simp only [refusal] at hrefusal
        cases hrun : run (ledger range maxSpans) (start view.omittedRanges.length)
            view.queryableFacts with
        | error e =>
          rw [hrun] at hrefusal
          cases horder : run (ledger range maxSpans) (start view.omittedRanges.length) order with
          | error e' =>
            rw [horder] at hrefusal
            cases hrefusal
            rfl
          | ok t =>
            rw [horder] at hrefusal
            cases hrefusal
        | ok t =>
          rw [hrun] at hrefusal
          cases horder : run (ledger range maxSpans) (start view.omittedRanges.length) order with
          | error e' =>
            rw [horder] at hrefusal
            cases hrefusal
          | ok t' =>
            obtain ⟨hfits,hcap⟩ := bounds_of_ok hg hfree hrun
            dsimp only
            rw [finish_perm hperm rfl (hmixed hfits hcap) hrun horder]
  · refine ⟨fun _ => .inl (not_le.mp hg),fun _ order _ => ?_⟩
    rw [IndexView.metadata,metadataIn_eq,metadataIn_eq,if_neg hg,if_neg hg]

def instantFacts (count : PhysicalCountSemantics) : SegmentFacts :=
  ⟨0,0,.empty,.empty,.full,.exact,count,0⟩

/-- One segment of each kind of count. -/
def threeCounts : IndexView where
  sealed := [instantFacts .exact,instantFacts .notApplicable,instantFacts .lowerBound]
  live := []
  liveQueryable := false
  freshness := none
  omittedRanges := []

theorem grouping_shows : ¬∀ (view : IndexView) (range : CoverageSpan) (maxSpans : ℕ)
    (order : List SegmentFacts), order.Perm view.queryableFacts →
      view.metadataIn order range maxSpans = view.metadata range maxSpans := by
  intro hclaim
  have hperm : [instantFacts .lowerBound,instantFacts .exact,instantFacts .notApplicable].Perm
      threeCounts.queryableFacts :=
    (List.perm_append_singleton (instantFacts .lowerBound)
      [instantFacts .exact,instantFacts .notApplicable]).symm
  have hsame := hclaim threeCounts ⟨0,1,by decide⟩ 8 _ hperm
  have hcount := congrArg (fun r => r.toOption.map TimelineMetadata.physicalCount) hsame
  exact absurd hcount (by decide)

end IndexView

end Timeline
end PgKronika
