import PgKronika.AnomalyScan
import PgKronika.CheckedArith
import PgKronika.SeriesDiff
import PgKronika.SortedFront

/-! The hits of an anomaly scan: the episodes of all timelines, in a total order of what a response
shows of them, cut to a limit while they come in. -/
namespace PgKronika
namespace Anomaly

open CheckedArith SortedFront Utf8Text

structure EpisodeHit where
  key : List Value
  column : String
  epsAbs : Float
  episode : Episode
  deriving DecidableEq

section Order

def directionRank : Direction → ℕ
  | .down => 0
  | .flat => 1
  | .up => 2

def totalOrder (a b : Float) : Ordering := compare (totalKey a) (totalKey b)

/-- The first values that differ decide, else the lengths. -/
def compareValueSlices (left right : List Value) : Ordering :=
  ((left.zip right).map fun p => compareValues p.1 p.2).foldr Ordering.then
    (compare left.length right.length)

def compareHitDetails (left right : EpisodeHit) : Ordering :=
  (compare (utf8 left.column) (utf8 right.column)).then <|
  (compareValueSlices left.key right.key).then <|
  (compare left.episode.start right.episode.start).then <|
  (compare left.episode.stop right.episode.stop).then <|
  (compare left.episode.peakTs right.episode.peakTs).then <|
  (totalOrder left.episode.peak.m right.episode.peak.m).then <|
  (compare (directionRank left.episode.peak.dir) (directionRank right.episode.peak.dir)).then <|
  (totalOrder left.episode.peak.medCur right.episode.peak.medCur).then <|
  (totalOrder left.episode.peak.medRef right.episode.peak.medRef).then <|
  (totalOrder left.episode.peak.madRef right.episode.peak.madRef).then <|
  (totalOrder left.episode.peak.sigmaUsed right.episode.peak.sigmaUsed).then <|
  (compare left.episode.peak.nCur right.episode.peak.nCur).then <|
  (compare left.episode.peak.nRef right.episode.peak.nRef).then <|
  totalOrder left.epsAbs right.epsAbs

def compareHits (left right : EpisodeHit) : Ordering :=
  (totalOrder right.episode.peak.m.abs left.episode.peak.m.abs).then
    (compareHitDetails left right)

/-- The order of hits across sections. -/
def compareRanked (a b : String × EpisodeHit) : Ordering :=
  (totalOrder b.2.episode.peak.m.abs a.2.episode.peak.m.abs).then <|
  (compare (utf8 a.1) (utf8 b.1)).then <|
  compareHitDetails a.2 b.2

instance totalOrder_trans : Std.TransCmp totalOrder :=
  inferInstanceAs (Std.TransCmp (compareOn totalKey))

theorem totalOrder_eq {a b : Float} : totalOrder a b = .eq ↔ a = b := by
  rw [totalOrder,compare_eq_iff_eq,totalKey_injective.eq_iff]

theorem compareValueSlices_eq (left right : List Value) :
    compareValueSlices left right = List.compareLex compareValues left right := by
  induction left generalizing right with
  | nil =>
    cases right with
    | nil => rfl
    | cons b right => exact compare_lt_iff_lt.2 (Nat.succ_pos right.length)
  | cons a left ih =>
    cases right with
    | nil => exact compare_gt_iff_gt.2 (Nat.succ_pos left.length)
    | cons b right =>
      have hlength : compare (left.length+1) (right.length+1) = compare left.length right.length := by
        simp [Nat.compare_eq_ite_lt]
      rw [List.compareLex_cons_cons,← ih right,compareValueSlices,compareValueSlices,List.zip_cons_cons,
        List.map_cons,List.foldr_cons,List.length_cons,List.length_cons,hlength]

theorem compareValues_lawful : Std.LawfulEqCmp compareValues :=
  { eq_of_compare := compareValues_eq_iff.1, compare_self := Std.ReflCmp.compare_self }

/-- A comparison of what a function gives. -/
theorem transCmp_of {α β : Type} {cmp : β → β → Ordering} [Std.TransCmp cmp] (f : α → β) :
    Std.TransCmp fun a b => cmp (f a) (f b) :=
  { eq_swap := Std.OrientedCmp.eq_swap, isLE_trans := Std.TransCmp.isLE_trans }

instance compareValueSlices_trans : Std.TransCmp compareValueSlices := by
  rw [funext fun left => funext fun right => compareValueSlices_eq left right]
  infer_instance

theorem compareValueSlices_eq_iff {left right : List Value} :
    compareValueSlices left right = .eq ↔ left = right := by
  have := compareValues_lawful
  rw [compareValueSlices_eq]
  exact Std.LawfulEqCmp.compare_eq_iff_eq

/-- The details one after the other. -/
theorem compareHitDetails_eq : compareHitDetails =
    compareLex (compareOn fun hit => utf8 hit.column) (compareLex
    (fun left right => compareValueSlices left.key right.key) (compareLex
    (compareOn fun hit => hit.episode.start) (compareLex
    (compareOn fun hit => hit.episode.stop) (compareLex
    (compareOn fun hit => hit.episode.peakTs) (compareLex
    (compareOn fun hit => totalKey hit.episode.peak.m) (compareLex
    (compareOn fun hit => directionRank hit.episode.peak.dir) (compareLex
    (compareOn fun hit => totalKey hit.episode.peak.medCur) (compareLex
    (compareOn fun hit => totalKey hit.episode.peak.medRef) (compareLex
    (compareOn fun hit => totalKey hit.episode.peak.madRef) (compareLex
    (compareOn fun hit => totalKey hit.episode.peak.sigmaUsed) (compareLex
    (compareOn fun hit => hit.episode.peak.nCur) (compareLex
    (compareOn fun hit => hit.episode.peak.nRef)
    (compareOn fun hit => totalKey hit.epsAbs))))))))))))) := rfl

instance compareHitDetails_trans : Std.TransCmp compareHitDetails := by
  have hkey : Std.TransCmp fun left right : EpisodeHit =>
      compareValueSlices left.key right.key := transCmp_of EpisodeHit.key
  rw [compareHitDetails_eq]
  infer_instance

theorem directionRank_injective {a b : Direction} (h : directionRank a = directionRank b) :
    a = b := by
  cases a <;> cases b <;> first | rfl | cases h

theorem compareHitDetails_eq_iff {left right : EpisodeHit} :
    compareHitDetails left right = .eq ↔ left = right := by
  refine ⟨fun h => ?_,fun h => h ▸ Std.ReflCmp.compare_self⟩
  simp only [compareHitDetails,Ordering.then_eq_eq,totalOrder_eq,compareValueSlices_eq_iff,
    Std.LawfulEqOrd.compare_eq_iff_eq] at h
  obtain ⟨hcolumn,hkey,hstart,hstop,hpeak,hm,hdir,hmedCur,hmedRef,hmadRef,hsigma,hnCur,hnRef,heps⟩ := h
  have hcolumn := utf8_injective hcolumn
  have hdir := directionRank_injective hdir
  obtain ⟨key,column,epsAbs,start,stop,peakTs,m,dir,medCur,medRef,madRef,sigmaUsed,nCur,nRef⟩ := left
  cases right
  simp_all

/-- The greater magnitude comes first. -/
theorem descending_trans {α : Type} (f : α → ℤ) : Std.TransCmp fun a b => compareOn f b a :=
  @Std.TransCmp.opposite α (compareOn f) inferInstance

instance compareHits_trans : Std.TransCmp compareHits := by
  have hpeak := descending_trans fun hit : EpisodeHit => totalKey hit.episode.peak.m.abs
  have h : compareHits = compareLex
      (fun left right => compareOn (fun hit => totalKey hit.episode.peak.m.abs) right left)
      compareHitDetails := rfl
  rw [h]
  infer_instance

instance compareHits_lawful : Std.LawfulEqCmp compareHits :=
  { eq_of_compare := fun h => compareHitDetails_eq_iff.1 (Ordering.then_eq_eq.1 h).2
    compare_self := Std.ReflCmp.compare_self }

instance compareRanked_trans : Std.TransCmp compareRanked := by
  have hpeak := descending_trans fun hit : String × EpisodeHit => totalKey hit.2.episode.peak.m.abs
  have hdetails : Std.TransCmp fun a b : String × EpisodeHit => compareHitDetails a.2 b.2 :=
    transCmp_of Prod.snd
  have h : compareRanked = compareLex
      (fun a b => compareOn (fun hit => totalKey hit.2.episode.peak.m.abs) b a)
      (compareLex (compareOn fun hit => utf8 hit.1) fun a b => compareHitDetails a.2 b.2) := rfl
  rw [h]
  infer_instance

instance compareRanked_lawful : Std.LawfulEqCmp compareRanked :=
  { eq_of_compare := fun {a b} h => by
      have hparts := Ordering.then_eq_eq.1 (Ordering.then_eq_eq.1 h).2
      exact Prod.ext (utf8_injective (Std.LawfulEqOrd.compare_eq_iff_eq.1 hparts.1))
        (compareHitDetails_eq_iff.1 hparts.2)
    compare_self := Std.ReflCmp.compare_self }

/-- Within a section the orders agree. -/
theorem compareRanked_section (name : String) (left right : EpisodeHit) :
    compareRanked (name,left) (name,right) = compareHits left right := by
  simp [compareRanked,compareHits]

end Order

section Timelines

/-- The raw values of one gauge column. -/
structure ColumnValues where
  name : String
  points : List (Int64 × Float)
  breaks : List Int64
  skipped : ℕ

structure SeriesValues where
  key : List Value
  columns : List ColumnValues

/-- One column of one series, as it is scored. -/
structure Timeline where
  key : List Value
  column : String
  points : List (Int64 × Float)
  breaks : List Int64
  nodataPoints : ℕ
  score : ScoreParams

def minRef : ℕ := 20

def minCur : ℕ := 3

def epsAbsCumulative : Float := 1e-6

def epsAbsGauge : Float := 1e-6

def ratePoint (sample : DiffAt) : Option (Int64 × Float) :=
  match sample.point with
  | .value _ rate _ => if rate.isFinite then some (sample.ts,rate) else none
  | .noData _ => none

/-- A point without a rate breaks the timeline, unless it is the first one. -/
def breakPoint (sample : DiffAt) : Option Int64 :=
  match sample.point with
  | .value _ rate _ => if rate.isFinite then none else some sample.ts
  | .noData .firstPoint => none
  | .noData _ => some sample.ts

def diffTimeline (params : ScanParams) (key : List Value) (column : ColumnDiff) : Timeline where
  key := key
  column := column.name
  points := column.points.filterMap ratePoint
  breaks := column.points.filterMap breakPoint
  nodataPoints := (column.points.filter fun sample => (ratePoint sample).isNone).length
  score := .new minRef minCur epsAbsCumulative params.epsRel

def gaugeTimeline (params : ScanParams) (key : List Value) (column : ColumnValues) : Timeline where
  key := key
  column := column.name
  points := column.points
  breaks := column.breaks
  nodataPoints := column.skipped
  score := .new minRef minCur epsAbsGauge params.epsRel

/-- The timelines of a section in the order of the scan. -/
def timelines (params : ScanParams) (diffs : List SeriesDiff) (gauges : List SeriesValues) :
    List Timeline :=
  (diffs.flatMap fun series => series.columns.map (diffTimeline params series.key)) ++
    gauges.flatMap fun series => series.columns.map (gaugeTimeline params series.key)

end Timelines

section Scan

/-- One unit of work for each point of a column, and one for the column. -/
def columnWork (sum points : ℕ) : Option ℕ := (checkedAdd points 1).bind (checkedAdd sum)

def scoreWork (diffs : List SeriesDiff) (gauges : List SeriesValues) (positions : ℕ) : Option ℕ := do
  let diffPoints ← (diffs.flatMap SeriesDiff.columns).foldlM
    (fun sum column => columnWork sum column.points.length) 0
  let gaugePoints ← (gauges.flatMap SeriesValues.columns).foldlM
    (fun sum column => columnWork sum column.points.length) 0
  let sum ← checkedAdd diffPoints gaugePoints
  checkedMul sum positions

structure ScanLimit where
  required : ℕ
  available : ℕ
  deriving DecidableEq

def retentionCeiling (limit : ℕ) : ℕ := min (limit*2) u64Max

/-- The hits that remain, and how many are removed. -/
def rankSection (hits : List EpisodeHit) (limit : ℕ) : List EpisodeHit × ℕ :=
  if hits.length ≤ limit then (hits,0) else (front compareHits hits limit,hits.length-limit)

def rank (hits : List (String × EpisodeHit)) (limit : ℕ) : List (String × EpisodeHit) × ℕ :=
  (front compareRanked hits limit,hits.length-limit)

variable (scanPositions : List Int64) (params : ScanParams)

def Timeline.profile (timeline : Timeline) : Option (List (Int64 × Scored)) :=
  scoreSeries (timeline.points.map Prod.fst) (timeline.points.map Prod.snd) timeline.breaks
    params.window timeline.score none scanPositions

def Timeline.hitsOf (timeline : Timeline) (profile : List (Int64 × Scored)) : List EpisodeHit :=
  (episodes profile params.threshold).map fun episode =>
    ⟨timeline.key,timeline.column,timeline.score.epsAbs,episode⟩

def ScanCounts.truncate (counts : ScanCounts) (removed : ℕ) : ScanCounts :=
  { counts with episodesTruncated := saturatingAdd counts.episodesTruncated removed }

/-- One timeline's counts and hits. The hits are cut when they pass the ceiling. -/
def scanTimeline (hitLimit : ℕ) (state : ScanCounts × List EpisodeHit) (timeline : Timeline) :
    Option (ScanCounts × List EpisodeHit) :=
  (timeline.profile scanPositions params).map fun profile =>
    let counts := tally profile
      { state.1 with nodataPoints := state.1.nodataPoints+timeline.nodataPoints }
    let hits := state.2 ++ timeline.hitsOf params profile
    if retentionCeiling hitLimit < hits.length then
      (counts.truncate (rankSection hits hitLimit).2,(rankSection hits hitLimit).1)
    else (counts,hits)

/-- Without fuel there is no answer. -/
def scanSection (fuel : ℕ) (params : ScanParams) (diffs : List SeriesDiff)
    (gauges : List SeriesValues) (maxWork hitLimit : ℕ) :
    Option (Except ScanLimit (List EpisodeHit × ScanCounts × ℕ)) :=
  (positions fuel params).bind fun scanPositions =>
    match scoreWork diffs gauges scanPositions.length with
    | none => some (.error ⟨u64Max,maxWork⟩)
    | some work =>
      if maxWork < work then some (.error ⟨work,maxWork⟩)
      else
        ((timelines params diffs gauges).foldlM (scanTimeline scanPositions params hitLimit)
          ({ seriesTotal := max diffs.length gauges.length },[])).map fun scanned =>
            .ok ((rankSection scanned.2 hitLimit).1,
              scanned.1.truncate (rankSection scanned.2 hitLimit).2,work)

end Scan

section Run

def maxScoreWork : ℕ := 50000000

/-- A section with the rows that are read of it. What else it costs depends on the work that is
left. -/
structure SectionInput where
  name : String
  diffs : List SeriesDiff
  gauges : List SeriesValues
  planWork : ℕ → ℕ

/-- What a request keeps from section to section. -/
structure RankedHits where
  hits : List (String × EpisodeHit) := []
  remainingWork : ℕ := maxScoreWork
  scanned : List String := []
  skipped : List (String × ScanLimit) := []
  sectionEpisodesDropped : ℕ := 0
  globalEpisodesDropped : ℕ := 0

def RankedHits.rank (state : RankedHits) (limit : ℕ) : RankedHits :=
  { state with
    hits := (Anomaly.rank state.hits limit).1
    globalEpisodesDropped :=
      saturatingAdd state.globalEpisodesDropped (Anomaly.rank state.hits limit).2 }

def runSection (fuel : ℕ) (scan : ScanParams) (limit : ℕ) (state : RankedHits)
    (input : SectionInput) : Option RankedHits :=
  (scanSection fuel scan input.diffs input.gauges state.remainingWork limit).map fun scanned =>
    match scanned with
    | .error reason => { state with skipped := state.skipped ++ [(input.name,reason)] }
    | .ok (hits,counts,work) =>
      { state with
        hits := state.hits ++ hits.map fun hit => (input.name,hit)
        remainingWork := state.remainingWork -
          saturatingAdd work (input.planWork (state.remainingWork-work))
        scanned := state.scanned ++ [input.name]
        sectionEpisodesDropped :=
          saturatingAdd state.sectionEpisodesDropped counts.episodesTruncated }.rank limit

def run (fuel : ℕ) (scan : ScanParams) (limit : ℕ) (sections : List SectionInput) :
    Option RankedHits :=
  (sections.foldlM (runSection fuel scan limit) {}).map fun state => state.rank limit

end Run

end Anomaly
end PgKronika
