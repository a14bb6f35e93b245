import PgKronika.AlignedMerge
import PgKronika.CheckedArith
import PgKronika.SeriesDiff

/-! Sums of counter columns over the intervals they share. The sums of a group of columns visit the
shared endpoints of all its tracks; the sums of a pair also count what they leave out. -/
namespace PgKronika
namespace TypedSums

open AlignedMerge CheckedArith

structure CounterPoint where
  endUs : Int64
  point : DiffPoint

/-- When a point's interval ends. -/
def CounterPoint.time (point : CounterPoint) : ℤ := point.endUs.toInt

/-- The folded diffs of one series, in the order of their time. -/
structure CounterTrack where
  points : List CounterPoint
  ascending : Ascending CounterPoint.time points

def maxExactInteger : ℤ := 2^53

def maxExactFloat : Float := floatOfInt maxExactInteger

structure CounterDelta where
  value : Float
  integer : Bool

inductive CounterDeltaError
  | unusable | numericLimit
  deriving DecidableEq

def CounterPoint.delta (point : CounterPoint) : Except CounterDeltaError CounterDelta :=
  match point.point with
  | .value (.int delta) _ _ =>
    if 0 ≤ delta ∧ delta ≤ maxExactInteger then .ok ⟨floatOfInt delta,true⟩
    else if maxExactInteger < delta then .error .numericLimit
    else .error .unusable
  | .value (.float delta) _ _ =>
    if delta.isFinite ∧ 0 ≤ delta then .ok ⟨delta,false⟩ else .error .unusable
  | .noData _ => .error .unusable

def CounterPoint.intervalUs (point : CounterPoint) : Option ℕ :=
  match point.point with
  | .value _ _ dtMicros => if 0 < dtMicros.toInt then some dtMicros.toInt.toNat else none
  | .noData _ => none

/-- Where an interval begins, if that is a time. -/
def startUs (endUs : Int64) (intervalUs : ℕ) : Option Int64 :=
  if intervalUs < 2^63 ∧ -2^63 ≤ endUs.toInt-intervalUs then
    some (Int64.ofInt (endUs.toInt-intervalUs))
  else none

structure SourceWindow where
  windowSpanUs : ℕ
  observedPeriodUs : Option ℕ
  usableSamples : ℕ
  deriving DecidableEq

def SourceWindow.fromBounds (fromUs toUs : Int64) (observedPeriodUs : Option ℕ) (samples : ℕ) :
    SourceWindow :=
  let spanUs := toUs.toInt-fromUs.toInt
  ⟨if 0 ≤ spanUs ∧ spanUs < 2^63 then spanUs.toNat else 0,observedPeriodUs,samples⟩

/-- The middle duration, or the mean of the middle two rounded up. -/
def medianUs (durations : List ℕ) : Option ℕ :=
  let sorted := durations.mergeSort fun a b => decide (a ≤ b)
  let middle := durations.length/2
  if durations.length % 2 = 1 then sorted[middle]?
  else if durations = [] then none
  else
    sorted[middle-1]?.bind fun low => sorted[middle]?.bind fun high =>
      if (low+high+1)/2 ≤ u64Max then some ((low+high+1)/2) else none

def observedPeriodFromDurations (durations : List ℕ) : Option ℕ :=
  if 3 ≤ durations.length then medianUs durations else none

/-- One running sum, and whether it holds integers alone. -/
structure Lane where
  sum : Float
  integer : Bool

def Lane.add (lane : Lane) (delta : CounterDelta) : Lane :=
  ⟨lane.sum+delta.value,lane.integer && delta.integer⟩

/-- An integer sum stays exact. -/
def Lane.exact (lane : Lane) (delta : CounterDelta) : Bool :=
  !lane.integer || !delta.integer || decide (lane.sum ≤ maxExactFloat-delta.value)

def Lane.fits (lane : Lane) (delta : CounterDelta) : Bool :=
  (lane.sum+delta.value).isFinite && lane.exact delta

structure AlignedInterval where
  deltas : List CounterDelta
  durationUs : ℕ

def alignedDeltas : Option ℕ → List CounterPoint → Option (List CounterDelta × Option ℕ)
  | durationUs,[] => some ([],durationUs)
  | durationUs,point::row =>
    match point.delta with
    | .error _ => none
    | .ok delta =>
      point.intervalUs.bind fun pointDurationUs =>
        (startUs point.endUs pointDurationUs).bind fun _ =>
          if durationUs.any fun expected => expected ≠ pointDurationUs then none
          else (alignedDeltas (some pointDurationUs) row).map fun rest => (delta::rest.1,rest.2)

def alignedInterval (row : List CounterPoint) : Option AlignedInterval :=
  (alignedDeltas none row).bind fun found => found.2.map fun durationUs => ⟨found.1,durationUs⟩

/-- The sums of a group while its tracks are walked. -/
structure AlignedRun where
  lanes : List Lane
  intervals : ℕ
  lastEndUs : Int64
  elapsedUs : ℕ
  durationsUs : List ℕ

def accumulateAlignedInterval (run : AlignedRun) (interval : AlignedInterval) (endUs : Int64) :
    Option AlignedRun :=
  (checkedAdd run.elapsedUs interval.durationUs).bind fun nextElapsedUs =>
    if (run.lanes.zip interval.deltas).all fun pair => pair.1.fits pair.2 then
      some
        { lanes := List.zipWith Lane.add run.lanes interval.deltas
          intervals := run.intervals+1
          lastEndUs := endUs
          elapsedUs := nextElapsedUs
          durationsUs := run.durationsUs ++ [interval.durationUs] }
    else none

structure AlignedSums where
  sums : List Float
  len : ℕ
  intervals : ℕ
  lastEndUs : Int64
  elapsedUs : ℕ
  sourceWindow : SourceWindow

def inWindow (fromUs toUs endUs : Int64) : Bool := decide (fromUs ≤ endUs ∧ endUs ≤ toUs)

/-- One shared endpoint. -/
def visitAligned (fromUs toUs : Int64) (run : AlignedRun) (row : List CounterPoint) : AlignedRun :=
  match row with
  | [] => run
  | point::_ =>
    if inWindow fromUs toUs point.endUs then
      ((alignedInterval row).bind fun interval =>
        accumulateAlignedInterval run interval point.endUs).getD run
    else run

/-- The counter tracks of a request by section, column and identity. -/
structure TypedInputs (ι : Type) where
  counter : String → String → ι → Option CounterTrack

section Inputs

variable {ι : Type} (inputs : TypedInputs ι) (logicalSection : String) (identity : ι)

/-- The sums of a group of columns. The walk has a turn for every point, and one to end. -/
def alignedDeltaSums (columns : List String) (fromUs toUs : Int64) : Option AlignedSums :=
  if columns = [] ∨ 16 < columns.length ∨ toUs < fromUs then none
  else
    (columns.mapM fun column => inputs.counter logicalSection column identity).bind fun tracks =>
      let points := tracks.map CounterTrack.points
      (walk CounterPoint.time (-2^63) (2^63-1) (visitAligned fromUs toUs)
          ((points.map List.length).sum+1) points
          ⟨List.replicate tracks.length ⟨0,true⟩,0,fromUs,0,[]⟩).map fun run =>
        { sums := run.lanes.map Lane.sum
          len := tracks.length
          intervals := run.intervals
          lastEndUs := run.lastEndUs
          elapsedUs := run.elapsedUs
          sourceWindow := .fromBounds fromUs toUs (observedPeriodFromDurations run.durationsUs)
            run.intervals }

end Inputs

structure PairedSums where
  sumA : Float
  sumB : Float
  intervals : ℕ
  candidateIntervals : ℕ
  unmatchedEndpointIntervals : ℕ
  unusableDeltaIntervals : ℕ
  unalignedDurationIntervals : ℕ
  numericLimitIntervals : ℕ
  firstStartUs : Option Int64
  firstEndUs : Option Int64
  lastEndUs : Option Int64
  elapsedUs : ℕ
  observedPeriodUs : Option ℕ

def PairedSums.start : PairedSums := ⟨0,0,0,0,0,0,0,0,none,none,none,0,none⟩

inductive PairExclusion
  | unusableDelta | unalignedDuration | numericLimit
  deriving DecidableEq

/-- The sums of a pair while its tracks are walked. -/
structure PairedRun where
  sums : PairedSums
  firstInteger : Bool
  secondInteger : Bool
  durationsUs : List ℕ

def PairedRun.first (run : PairedRun) : Lane := ⟨run.sums.sumA,run.firstInteger⟩

def PairedRun.second (run : PairedRun) : Lane := ⟨run.sums.sumB,run.secondInteger⟩

def pairDeltas (first second : CounterPoint) : Except PairExclusion (CounterDelta × CounterDelta) :=
  match first.delta,second.delta with
  | .ok firstDelta,.ok secondDelta => .ok (firstDelta,secondDelta)
  | .error .numericLimit,_ => .error .numericLimit
  | _,.error .numericLimit => .error .numericLimit
  | _,_ => .error .unusableDelta

def pairInterval (first second : CounterPoint) : Except PairExclusion (ℕ × Int64) :=
  match first.intervalUs,second.intervalUs with
  | some firstIntervalUs,some secondIntervalUs =>
    if firstIntervalUs ≠ secondIntervalUs then .error .unalignedDuration
    else
      match startUs first.endUs firstIntervalUs with
      | none => .error .unalignedDuration
      | some intervalStartUs => .ok (firstIntervalUs,intervalStartUs)
  | _,_ => .error .unalignedDuration

def accumulateCounterPair (run : PairedRun) (first second : CounterPoint) :
    Except PairExclusion PairedRun := do
  let deltas ← pairDeltas first second
  let interval ← pairInterval first second
  let elapsedUs ← (checkedAdd run.sums.elapsedUs interval.1).elim (.error .numericLimit) .ok
  refuse .numericLimit (!(run.sums.sumA+deltas.1.value).isFinite ||
    !(run.sums.sumB+deltas.2.value).isFinite || !run.first.exact deltas.1 ||
      !run.second.exact deltas.2)
  .ok
    { sums :=
        { run.sums with
          sumA := run.sums.sumA+deltas.1.value
          sumB := run.sums.sumB+deltas.2.value
          intervals := run.sums.intervals+1
          firstStartUs := run.sums.firstStartUs.or (some interval.2)
          firstEndUs := run.sums.firstEndUs.or (some first.endUs)
          lastEndUs := some first.endUs
          elapsedUs }
      firstInteger := run.firstInteger && deltas.1.integer
      secondInteger := run.secondInteger && deltas.2.integer
      durationsUs := run.durationsUs ++ [interval.1] }

/-- One more endpoint of either column. -/
def PairedRun.candidate (run : PairedRun) : PairedRun :=
  { run with sums := { run.sums with candidateIntervals := run.sums.candidateIntervals+1 } }

/-- An endpoint that is left out, and why. -/
def PairedRun.exclude (run : PairedRun) (exclusion : PairExclusion) : PairedRun :=
  match exclusion with
  | .unusableDelta =>
    { run with
      sums := { run.sums with unusableDeltaIntervals := run.sums.unusableDeltaIntervals+1 } }
  | .unalignedDuration =>
    { run with
      sums := { run.sums with
        unalignedDurationIntervals := run.sums.unalignedDurationIntervals+1 } }
  | .numericLimit =>
    { run with
      sums := { run.sums with numericLimitIntervals := run.sums.numericLimitIntervals+1 } }

/-- An endpoint of one column alone. -/
def visitUnmatched (fromUs toUs : Int64) (run : PairedRun) (point : CounterPoint) : PairedRun :=
  if inWindow fromUs toUs point.endUs then
    { run.candidate with
      sums := { run.candidate.sums with
        unmatchedEndpointIntervals := run.sums.unmatchedEndpointIntervals+1 } }
  else run

/-- An endpoint of both columns. -/
def visitMatched (fromUs toUs : Int64) (run : PairedRun) (a b : CounterPoint) : PairedRun :=
  if inWindow fromUs toUs a.endUs then
    match accumulateCounterPair run.candidate a b with
    | .ok next => next
    | .error exclusion => run.candidate.exclude exclusion
  else run

def pairedRun (fromUs toUs : Int64) (trackA trackB : CounterTrack) : PairedRun :=
  walkTwo CounterPoint.time (visitUnmatched fromUs toUs) (visitUnmatched fromUs toUs)
    (visitMatched fromUs toUs) trackA.points trackB.points ⟨.start,true,true,[]⟩

section Inputs

variable {ι : Type} (inputs : TypedInputs ι) (logicalSection : String) (identity : ι)

def pairedDeltaSums (columnA columnB : String) (fromUs toUs : Int64) : Option PairedSums :=
  (inputs.counter logicalSection columnA identity).bind fun trackA =>
    (inputs.counter logicalSection columnB identity).map fun trackB =>
      let run := pairedRun fromUs toUs trackA trackB
      { run.sums with observedPeriodUs := observedPeriodFromDurations run.durationsUs }

end Inputs

end TypedSums

end PgKronika
