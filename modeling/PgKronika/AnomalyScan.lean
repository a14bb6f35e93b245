import PgKronika.EpisodeClusters
import PgKronika.SortedSlices
import PgKronika.WindowScore

/-! The anomaly scan of one timeline: the positions of the window, the score at each of them against
the rest of the run between two breaks, the counters and the episodes. -/
namespace PgKronika
namespace Anomaly

open Incident (checkedSubUs)

/-- All times in microseconds. -/
structure ScanParams where
  fromUs : Int64
  toUs : Int64
  window : Int64
  step : Int64
  threshold : Float
  epsRel : Float

structure ScanCounts where
  seriesTotal : ℕ := 0
  evaluated : ℕ := 0
  refTooSmall : ℕ := 0
  curTooSmall : ℕ := 0
  allNoData : ℕ := 0
  nonFinite : ℕ := 0
  discontinuity : ℕ := 0
  nodataPoints : ℕ := 0
  episodesTruncated : ℕ := 0

structure Episode where
  start : Int64
  stop : Int64
  peakTs : Int64
  peak : Evaluated
  deriving DecidableEq

def checkedAddUs (a b : Int64) : Option Int64 :=
  if Int64.minValue.toInt ≤ a.toInt+b.toInt ∧ a.toInt+b.toInt ≤ Int64.maxValue.toInt then
    some (a+b)
  else none

section Positions

/-- The positions before the end. Without fuel there is no answer. -/
def positionsFrom (toUs step : Int64) : ℕ → Int64 → Option (List Int64)
  | 0,_ => none
  | fuel+1,position =>
    if position < toUs then
      match checkedAddUs position step with
      | none => some [position]
      | some next => (positionsFrom toUs step fuel next).map fun rest => position::rest
    else some []

def positions (fuel : ℕ) (params : ScanParams) : Option (List Int64) :=
  match checkedAddUs params.fromUs params.window with
  | none => some []
  | some first =>
    if params.toUs < first then some []
    else (positionsFrom params.toUs params.step fuel first).map fun out => out++[params.toUs]

end Positions

section Score

/-- Where the run behind the last break not later than a position starts. -/
def segmentLo (ts breaks : List Int64) : ℕ → Option ℕ
  | 0 => some 0
  | last+1 => breaks[last]?.map fun stop => partitionPoint (fun t => decide (t ≤ stop)) ts

/-- Where the run before the first later break ends. -/
def segmentHi (ts breaks : List Int64) (breakEnd : ℕ) : ℕ :=
  match breaks[breakEnd]? with
  | none => ts.length
  | some next => partitionPoint (fun t => decide (t < next)) ts

/-- The score at a position. There is none where a slice or an index would be out of range. -/
def scoreAt (ts : List Int64) (values : List Float) (breaks : List Int64) (window : Int64)
    (score : ScoreParams) (previous : Option Int64) (position : Int64) : Option Scored := do
  let windowStart := (checkedSubUs position window).getD Int64.minValue
  let breakEnd := partitionPoint (fun stop => decide (stop ≤ position)) breaks
  let previousPosition := previous.getD windowStart
  let breakStart := partitionPoint (fun stop => decide (stop ≤ previousPosition)) breaks
  if breakStart < breakEnd then return .notEvaluated .discontinuity
  else
    let runLo ← segmentLo ts breaks breakEnd
    let runHi := segmentHi ts breaks breakEnd
    let lo := max (partitionPoint (fun t => decide (t < windowStart)) ts) runLo
    let hi := partitionPoint (fun t => decide (t ≤ position)) ts
    let before ← subslice values runLo lo
    let behind ← subslice values hi runHi
    let cur ← subslice values lo hi
    return scoreWindow cur (before++behind) score

/-- The scores at positions, where `previous` is the position before them. -/
def scoreSeries (ts : List Int64) (values : List Float) (breaks : List Int64) (window : Int64)
    (score : ScoreParams) (previous : Option Int64) :
    List Int64 → Option (List (Int64 × Scored))
  | [] => some []
  | position::rest => do
    let scored ← scoreAt ts values breaks window score previous position
    let profile ← scoreSeries ts values breaks window score (some position) rest
    return (position,scored)::profile

end Score

section Tally

def ScanCounts.tallyOne (counts : ScanCounts) : Scored → ScanCounts
  | .evaluated _ => { counts with evaluated := counts.evaluated+1 }
  | .notEvaluated .refTooSmall => { counts with refTooSmall := counts.refTooSmall+1 }
  | .notEvaluated .curTooSmall => { counts with curTooSmall := counts.curTooSmall+1 }
  | .notEvaluated .allNoData => { counts with allNoData := counts.allNoData+1 }
  | .notEvaluated .nonFinite => { counts with nonFinite := counts.nonFinite+1 }
  | .notEvaluated .discontinuity => { counts with discontinuity := counts.discontinuity+1 }

def tally (profile : List (Int64 × Scored)) (counts : ScanCounts) : ScanCounts :=
  profile.foldl (fun counts p => counts.tallyOne p.2) counts

/-- The six outcomes together. -/
def ScanCounts.outcomes (counts : ScanCounts) : ℕ :=
  counts.evaluated+counts.refTooSmall+counts.curTooSmall+counts.allNoData+counts.nonFinite+
    counts.discontinuity

theorem tally_outcomes (profile : List (Int64 × Scored)) (counts : ScanCounts) :
    (tally profile counts).outcomes = counts.outcomes+profile.length := by
  induction profile generalizing counts with
  | nil => rfl
  | cons p profile ih =>
    have hone : (counts.tallyOne p.2).outcomes = counts.outcomes+1 := by
      unfold ScanCounts.tallyOne ScanCounts.outcomes
      split <;> dsimp only <;> omega
    change (tally profile (counts.tallyOne p.2)).outcomes = _
    rw [ih,hone,List.length_cons]
    omega

end Tally

section Episodes

def infinity : Float := .ofBits 0x7FF0000000000000

/-- The score of a position above the threshold. -/
def hit (threshold : Float) : Scored → Option Evaluated
  | .evaluated e => if threshold < e.m.abs then some e else none
  | .notEvaluated _ => none

/-- The episodes of a profile with the open one. -/
def episodesFrom (threshold : Float) : List (Int64 × Scored) → Option Episode → List Episode
  | [],current => current.toList
  | (ts,scored)::profile,current =>
    match hit threshold scored,current with
    | some e,some episode =>
      episodesFrom threshold profile (some
        (if episode.peak.m.abs < e.m.abs then { episode with stop := ts, peak := e, peakTs := ts }
          else { episode with stop := ts }))
    | some e,none => episodesFrom threshold profile (some ⟨ts,ts,ts,e⟩)
    | none,some episode => episode :: episodesFrom threshold profile none
    | none,none => episodesFrom threshold profile none

def episodes (profile : List (Int64 × Scored)) (threshold : Float) : List Episode :=
  episodesFrom (if threshold.isFinite ∧ 0 ≤ threshold then threshold else infinity) profile none

end Episodes

end Anomaly
end PgKronika
