import PgKronika.IntervalSums

/-! Gauge windows over shared timestamps. A pair, a triple and a snapshot of gauge columns are
reduced to the worst of their common readings, and say at which times these were taken. -/
namespace PgKronika
namespace TypedSums

open AlignedMerge

structure GaugePoint where
  ts : Int64
  value : Float

def GaugePoint.time (point : GaugePoint) : ℤ := point.ts.toInt

/-- The readings of one gauge column in a window, in the order of their time. -/
structure GaugeSlice where
  points : List GaugePoint
  ascending : Ascending GaugePoint.time points

inductive GaugeObjective
  | shareMax | ratioMax | ratioMin | diffMax | ratioAbsOneMax
  deriving DecidableEq

def notANumber : Float := 0/0

def GaugeObjective.score (objective : GaugeObjective) (a b : Float) : Float :=
  match objective with
  | .shareMax => if 0 < a+b then a/(a+b) else notANumber
  | .ratioMax | .ratioMin => if 0 < b then a/b else notANumber
  | .diffMax => a-b
  | .ratioAbsOneMax => a/(if 1 ≤ b.abs then b.abs else 1)

def GaugeObjective.maximizes : GaugeObjective → Bool
  | .shareMax | .ratioMax | .diffMax | .ratioAbsOneMax => true
  | .ratioMin => false

/-- The distances of neighbouring timestamps. -/
def sampleGaps (sampleTs : List Int64) : List ℕ :=
  (sampleTs.zip sampleTs.tail).filterMap fun pair =>
    let gap := pair.2.toInt-pair.1.toInt
    if 0 < gap ∧ gap < 2^63 then some gap.toNat else none

/-- Samples span one interval less than their number. -/
def gaugeSourceWindow (fromUs toUs : Int64) (sampleTs : List Int64) (samples : ℕ) : SourceWindow :=
  .fromBounds fromUs toUs (observedPeriodFromDurations (sampleGaps sampleTs)) (samples-1)

/-- The worst reading so far with its score, and the timestamps of all readings. -/
structure GaugeRun (β : Type) where
  best : Option (Float × β)
  sharedTs : List Int64

variable {β : Type}

def GaugeRun.take (maximizes : Bool) (run : GaugeRun β) (score : Float) (reading : β) (ts : Int64) :
    GaugeRun β :=
  let improves := run.best.all fun best =>
    if maximizes then decide (best.1 < score) else decide (score < best.1)
  ⟨if improves then some (score,reading) else run.best,run.sharedTs ++ [ts]⟩

structure PairedGaugeWindow where
  a : GaugeSlice
  b : GaugeSlice
  fromUs : Int64
  toUs : Int64

structure PairedGauge where
  a : Float
  b : Float
  observedAtUs : Int64
  samples : ℕ
  sourceWindow : SourceWindow

/-- A shared timestamp counts if its score is finite. -/
def visitPair (objective : GaugeObjective) (run : GaugeRun (GaugePoint × GaugePoint))
    (a b : GaugePoint) : GaugeRun (GaugePoint × GaugePoint) :=
  let score := objective.score a.value b.value
  if score.isFinite then run.take objective.maximizes score (a,b) a.ts else run

def PairedGaugeWindow.reduce (window : PairedGaugeWindow) (objective : GaugeObjective) :
    Option PairedGauge :=
  let run := walkTwo GaugePoint.time (fun run _ => run) (fun run _ => run) (visitPair objective)
    window.a.points window.b.points ⟨none,[]⟩
  run.best.map fun best =>
    { a := best.2.1.value
      b := best.2.2.value
      observedAtUs := best.2.1.ts
      samples := run.sharedTs.length
      sourceWindow := gaugeSourceWindow window.fromUs window.toUs run.sharedTs
        run.sharedTs.length }

structure TripleGaugeWindow where
  a : GaugeSlice
  b : GaugeSlice
  denominator : GaugeSlice
  fromUs : Int64
  toUs : Int64

structure TripleGauge where
  a : Float
  b : Float
  denominator : Float
  observedAtUs : Int64
  samples : ℕ
  sourceWindow : SourceWindow

/-- A shared timestamp counts if its denominator is positive and its score finite. -/
def visitTriple (run : GaugeRun (GaugePoint × GaugePoint × GaugePoint))
    (first second denominator : GaugePoint) : GaugeRun (GaugePoint × GaugePoint × GaugePoint) :=
  if 0 < denominator.value then
    let score := (first.value+second.value)/denominator.value
    if score.isFinite then run.take true score (first,second,denominator) first.ts else run
  else run

def TripleGaugeWindow.sumRatioMax (window : TripleGaugeWindow) : Option TripleGauge :=
  let run := walkThree GaugePoint.time visitTriple window.a.points window.b.points
    window.denominator.points ⟨none,[]⟩
  run.best.map fun best =>
    { a := best.2.1.value
      b := best.2.2.1.value
      denominator := best.2.2.2.value
      observedAtUs := best.2.1.ts
      samples := run.sharedTs.length
      sourceWindow := gaugeSourceWindow window.fromUs window.toUs run.sharedTs
        run.sharedTs.length }

structure GaugeSnapshotWindow where
  tracks : List GaugeSlice
  fromUs : Int64
  toUs : Int64

structure GaugeSnapshot where
  values : List Float
  len : ℕ
  observedAtUs : Int64
  samples : ℕ
  sourceWindow : SourceWindow

/-- The value that a snapshot is scored by. -/
def scoreAt (scoreIndex : ℕ) (row : List GaugePoint) : Float :=
  ((row.map GaugePoint.value)[scoreIndex]?).getD 0

def visitSnapshot (scoreIndex : ℕ) (maximize : Bool) (run : GaugeRun (List Float × Int64))
    (row : List GaugePoint) : GaugeRun (List Float × Int64) :=
  match row with
  | [] => run
  | point::_ =>
    run.take maximize (scoreAt scoreIndex row) (row.map GaugePoint.value,point.ts) point.ts

/-- The extreme snapshot. The walk has a turn for every point, and one to end. -/
def GaugeSnapshotWindow.extremeWithSourceWindow (window : GaugeSnapshotWindow) (scoreIndex : ℕ)
    (maximize : Bool) (sourceWindow : List Int64 → SourceWindow) : Option GaugeSnapshot :=
  if window.tracks = [] ∨ 8 < window.tracks.length ∨ window.tracks.length ≤ scoreIndex then none
  else
    let points := window.tracks.map GaugeSlice.points
    (walk GaugePoint.time (-2^63) (2^63-1) (visitSnapshot scoreIndex maximize)
        ((points.map List.length).sum+1) points ⟨none,[]⟩).bind fun run =>
      run.best.map fun best =>
        { values := best.2.1
          len := window.tracks.length
          observedAtUs := best.2.2
          samples := run.sharedTs.length
          sourceWindow := sourceWindow run.sharedTs }

def GaugeSnapshotWindow.extreme (window : GaugeSnapshotWindow) (scoreIndex : ℕ) (maximize : Bool) :
    Option GaugeSnapshot :=
  window.extremeWithSourceWindow scoreIndex maximize fun sharedTs =>
    gaugeSourceWindow window.fromUs window.toUs sharedTs sharedTs.length

/-- A reading with its score and its time. -/
structure Reading (β : Type) where
  score : Float
  reading : β
  ts : Int64

/-- The run has taken the readings one by one. -/
structure TakesAll (run : GaugeRun β) (readings : List (Reading β)) : Prop where
  times : run.sharedTs = readings.map Reading.ts
  taken : readings ≠ [] → run.best ≠ none
  chosen : ∀ best, run.best = some best →
    ∃ reading ∈ readings, reading.score = best.1 ∧ reading.reading = best.2

theorem takesAll_start : TakesAll (⟨none,[]⟩ : GaugeRun β) [] :=
  ⟨rfl,fun h => absurd rfl h,by simp⟩

/-- The best reading is the new one or the one before. -/
theorem take_best (run : GaugeRun β) (maximizes : Bool) (score : Float) (reading : β) (ts : Int64) :
    (run.take maximizes score reading ts).best = some (score,reading) ∨
      (run.best ≠ none ∧ (run.take maximizes score reading ts).best = run.best) := by
  rw [GaugeRun.take]
  cases hbest : run.best with
  | none => exact .inl rfl
  | some best =>
    simp only [Option.all_some]
    split_ifs
    · exact .inl rfl
    · exact .inr ⟨by simp,rfl⟩
    · exact .inl rfl
    · exact .inr ⟨by simp,rfl⟩

theorem TakesAll.take {run : GaugeRun β} {readings : List (Reading β)} (h : TakesAll run readings)
    (maximizes : Bool) (reading : Reading β) :
    TakesAll (run.take maximizes reading.score reading.reading reading.ts) (readings++[reading]) := by
  have hbest := take_best run maximizes reading.score reading.reading reading.ts
  constructor
  · simp [GaugeRun.take,h.times]
  · intro _ hnone
    rcases hbest with hnew | ⟨hne,hold⟩
    · cases hnew.symm.trans hnone
    · exact hne (hold.symm.trans hnone)
  · intro best hchosen
    rcases hbest with hnew | ⟨-,hold⟩
    · cases hnew.symm.trans hchosen
      exact ⟨reading,by simp,rfl,rfl⟩
    · obtain ⟨kept,hkept,heq⟩ := h.chosen best (hold.symm.trans hchosen)
      exact ⟨kept,List.mem_append_left _ hkept,heq⟩

/-- What a walk offers is taken in order. -/
theorem TakesAll.foldl (visit : GaugeRun β → List GaugePoint → GaugeRun β)
    (offer : List GaugePoint → Option (Reading β)) (maximizes : Bool)
    (hvisit : ∀ run row, visit run row = match offer row with
      | none => run
      | some reading => run.take maximizes reading.score reading.reading reading.ts)
    (rows : List (List GaugePoint)) {run : GaugeRun β} {readings : List (Reading β)}
    (h : TakesAll run readings) :
    TakesAll (rows.foldl visit run) (readings ++ rows.filterMap offer) := by
  induction rows generalizing run readings with
  | nil => simpa using h
  | cons row rows ih =>
    rw [List.foldl_cons,hvisit]
    cases hrow : offer row with
    | none => simpa [hrow] using ih h
    | some reading => simpa [hrow] using ih (h.take maximizes reading)

/-- A result is made of one of the readings and of the times of all of them. -/
structure UsesReadings {γ : Type} (readings : List (Reading β))
    (make : Float × β → List Int64 → γ) (result : Option γ) : Prop where
  empty : result = none ↔ readings = []
  made : ∀ found, result = some found → ∃ reading ∈ readings,
    found = make (reading.score,reading.reading) (readings.map Reading.ts)

theorem TakesAll.uses {γ : Type} {run : GaugeRun β} {readings : List (Reading β)}
    (h : TakesAll run readings) (make : Float × β → List Int64 → γ) :
    UsesReadings readings make (run.best.map fun best => make best run.sharedTs) := by
  constructor
  · rw [Option.map_eq_none_iff]
    constructor
    · intro hnone
      by_contra hne
      exact h.taken hne hnone
    · rintro rfl
      cases hbest : run.best with
      | none => rfl
      | some best =>
        obtain ⟨reading,hreading,-⟩ := h.chosen best hbest
        cases hreading
  · intro found hfound
    obtain ⟨best,hbest,rfl⟩ := Option.map_eq_some_iff.mp hfound
    obtain ⟨reading,hreading,hscore,hpayload⟩ := h.chosen best hbest
    exact ⟨reading,hreading,by rw [hscore,hpayload,h.times]⟩

/-- The reading at a shared timestamp of a pair. -/
def pairReading (objective : GaugeObjective) (row : List GaugePoint) :
    Option (Reading (GaugePoint × GaugePoint)) :=
  match row with
  | [a,b] =>
    if (objective.score a.value b.value).isFinite then
      some ⟨objective.score a.value b.value,(a,b),a.ts⟩
    else none
  | _ => none

def tripleReading (row : List GaugePoint) : Option (Reading (GaugePoint × GaugePoint × GaugePoint)) :=
  match row with
  | [first,second,denominator] =>
    if 0 < denominator.value ∧ ((first.value+second.value)/denominator.value).isFinite then
      some ⟨(first.value+second.value)/denominator.value,(first,second,denominator),first.ts⟩
    else none
  | _ => none

def snapshotReading (scoreIndex : ℕ) (row : List GaugePoint) :
    Option (Reading (List Float × Int64)) :=
  row.head?.map fun point =>
    ⟨scoreAt scoreIndex row,(row.map GaugePoint.value,point.ts),point.ts⟩

def PairedGaugeWindow.made (window : PairedGaugeWindow)
    (best : Float × GaugePoint × GaugePoint) (times : List Int64) : PairedGauge :=
  { a := best.2.1.value
    b := best.2.2.value
    observedAtUs := best.2.1.ts
    samples := times.length
    sourceWindow := gaugeSourceWindow window.fromUs window.toUs times times.length }

def TripleGaugeWindow.made (window : TripleGaugeWindow)
    (best : Float × GaugePoint × GaugePoint × GaugePoint) (times : List Int64) : TripleGauge :=
  { a := best.2.1.value
    b := best.2.2.1.value
    denominator := best.2.2.2.value
    observedAtUs := best.2.1.ts
    samples := times.length
    sourceWindow := gaugeSourceWindow window.fromUs window.toUs times times.length }

def GaugeSnapshotWindow.made (window : GaugeSnapshotWindow) (best : Float × List Float × Int64)
    (times : List Int64) : GaugeSnapshot :=
  { values := best.2.1
    len := window.tracks.length
    observedAtUs := best.2.2
    samples := times.length
    sourceWindow := gaugeSourceWindow window.fromUs window.toUs times times.length }

/-- A pair uses the shared timestamps of its columns whose score is finite. -/
theorem reduce_uses (window : PairedGaugeWindow) (objective : GaugeObjective) :
    UsesReadings
      ((sharedRows GaugePoint.time [window.a.points,window.b.points]).filterMap
        (pairReading objective))
      window.made (window.reduce objective) := by
  have htakes := takesAll_start.foldl (visitTwo (visitPair objective))
    (pairReading objective) objective.maximizes
    (fun run row => by
      rcases row with _ | ⟨a,_ | ⟨b,_ | ⟨c,row⟩⟩⟩
      · rfl
      · rfl
      · simp only [visitTwo,visitPair,pairReading]
        by_cases hfinite : (objective.score a.value b.value).isFinite = true
        · simp [hfinite]
        · simp [hfinite]
      · rfl)
    (sharedRows GaugePoint.time [window.a.points,window.b.points])
  rw [← walkTwo_shared _ window.a.ascending window.b.ascending] at htakes
  exact htakes.uses window.made

/-- A triple uses the shared timestamps with a positive denominator and a finite score. -/
theorem sumRatioMax_uses (window : TripleGaugeWindow) :
    UsesReadings
      ((sharedRows GaugePoint.time
        [window.a.points,window.b.points,window.denominator.points]).filterMap tripleReading)
      window.made window.sumRatioMax := by
  have htakes := takesAll_start.foldl (visitThree visitTriple)
    tripleReading true
    (fun run row => by
      rcases row with _ | ⟨a,_ | ⟨b,_ | ⟨c,_ | ⟨d,row⟩⟩⟩⟩
      · rfl
      · rfl
      · rfl
      · simp only [visitThree,visitTriple,tripleReading]
        by_cases hpositive : 0 < c.value
        · by_cases hfinite : ((a.value+b.value)/c.value).isFinite = true
          · simp [hpositive,hfinite]
          · simp [hpositive,hfinite]
        · simp [hpositive]
      · rfl)
    (sharedRows GaugePoint.time [window.a.points,window.b.points,window.denominator.points])
  rw [← walkThree_eq _ window.a.ascending window.b.ascending window.denominator.ascending] at htakes
  exact htakes.uses window.made

/-- A snapshot uses all shared timestamps of its columns. -/
theorem extreme_uses (window : GaugeSnapshotWindow) {scoreIndex : ℕ} (maximize : Bool)
    (hlength : window.tracks.length ≤ 8) (hindex : scoreIndex < window.tracks.length) :
    UsesReadings
      ((sharedRows GaugePoint.time (window.tracks.map GaugeSlice.points)).filterMap
        (snapshotReading scoreIndex))
      window.made (window.extreme scoreIndex maximize) := by
  have htakes := takesAll_start.foldl (visitSnapshot scoreIndex maximize)
    (snapshotReading scoreIndex) maximize
    (fun run row => by cases row <;> rfl)
    (sharedRows GaugePoint.time (window.tracks.map GaugeSlice.points))
  have hne : window.tracks.map GaugeSlice.points ≠ [] := by
    intro hnil
    rw [List.map_eq_nil_iff.mp hnil] at hindex
    cases hindex
  have hguard : ¬(window.tracks = [] ∨ 8 < window.tracks.length ∨
      window.tracks.length ≤ scoreIndex) := by
    rintro (hnil | hlong | hshort)
    · simp [hnil] at hindex
    · omega
    · omega
  rw [GaugeSnapshotWindow.extreme,GaugeSnapshotWindow.extremeWithSourceWindow,if_neg hguard]
  dsimp only
  rw [walk_eq hne ?_ ?_ (Nat.lt_succ_self _)]
  · exact htakes.uses window.made
  · intro track htrack
    obtain ⟨slice,-,rfl⟩ := List.mem_map.mp htrack
    exact slice.ascending
  · intro track _ point _
    have hlow := point.ts.le_toInt
    have hhigh := point.ts.toInt_lt
    exact ⟨hlow,by rw [GaugePoint.time]; omega⟩

/-- The gauge windows use the timestamps that their columns share, where the score counts. -/
structure WindowsUseShared : Prop where
  pair : ∀ (window : PairedGaugeWindow) (objective : GaugeObjective),
    UsesReadings
      ((sharedRows GaugePoint.time [window.a.points,window.b.points]).filterMap
        (pairReading objective))
      window.made (window.reduce objective)
  triple : ∀ window : TripleGaugeWindow,
    UsesReadings
      ((sharedRows GaugePoint.time
        [window.a.points,window.b.points,window.denominator.points]).filterMap tripleReading)
      window.made window.sumRatioMax
  snapshot : ∀ (window : GaugeSnapshotWindow) (scoreIndex : ℕ) (maximize : Bool),
    window.tracks.length ≤ 8 → scoreIndex < window.tracks.length →
      UsesReadings
        ((sharedRows GaugePoint.time (window.tracks.map GaugeSlice.points)).filterMap
          (snapshotReading scoreIndex))
        window.made (window.extreme scoreIndex maximize)

theorem windowsUseShared : WindowsUseShared :=
  ⟨reduce_uses,sumRatioMax_uses,fun window _ maximize => extreme_uses window maximize⟩

section Inputs

variable {ι : Type} (inputs : TypedInputs ι) (logicalSection : String) (identity : ι)

/-- The sums of a pair of columns next to those of the group of the two. -/
structure PairSumsAgree (fromUs toUs : Int64) (columnA columnB : String)
    (trackA trackB : CounterTrack) (aligned : AlignedSums) (pair : PairedSums) : Prop where
  alignedSums : alignedDeltaSums inputs logicalSection identity [columnA,columnB] fromUs toUs =
    some aligned
  pairedSums : pairedDeltaSums inputs logicalSection identity columnA columnB fromUs toUs =
    some pair
  agrees : PairAgrees aligned pair
  counts : PairCounts fromUs toUs trackA trackB pair

variable {inputs logicalSection identity} {fromUs toUs : Int64}

theorem length_of_mapM {α β : Type} {f : α → Option β} {l : List α} {r : List β}
    (h : l.mapM f = some r) : l.length = r.length := by
  induction l generalizing r with
  | nil =>
    cases h
    rfl
  | cons a l ih =>
    rw [List.mapM_cons] at h
    obtain ⟨b,-,h⟩ := Option.bind_eq_some_iff.mp h
    obtain ⟨bs,hbs,h⟩ := Option.bind_eq_some_iff.mp h
    cases h
    simp [ih hbs]

/-- Counter sums and gauge windows visit what their columns share. -/
theorem sums_visit_shared {columns : List String} {tracks : List CounterTrack}
    (htracks : (columns.mapM fun column => inputs.counter logicalSection column identity) =
      some tracks)
    (hne : tracks ≠ []) (hlength : tracks.length ≤ 16) (horder : fromUs ≤ toUs) :
    (alignedDeltaSums inputs logicalSection identity columns fromUs toUs =
        some (.of tracks.length fromUs toUs
          (admitted tracks.length (candidates fromUs toUs tracks) [])) ∧
      ((candidates fromUs toUs tracks).Pairwise fun taken next => taken.endUs < next.endUs) ∧
      ∀ taken, taken ∈ candidates fromUs toUs tracks ↔ SharedBy fromUs toUs tracks taken) ∧
    (∀ columnA columnB trackA trackB,
      inputs.counter logicalSection columnA identity = some trackA →
      inputs.counter logicalSection columnB identity = some trackB →
      ∃ aligned pair, PairSumsAgree inputs logicalSection identity fromUs toUs columnA columnB trackA
        trackB aligned pair) ∧
    WindowsUseShared := by
  have hcolumns : columns.length = tracks.length := length_of_mapM htracks
  refine ⟨⟨?_,candidates_ascending tracks,fun taken => mem_candidates hne⟩,?_,windowsUseShared⟩
  · refine alignedDeltaSums_eq inputs logicalSection identity htracks ?_ ?_ horder hne
    · intro hnil
      rw [hnil] at hcolumns
      exact hne (List.length_eq_zero_iff.mp hcolumns.symm)
    · omega
  · intro columnA columnB trackA trackB hA hB
    obtain ⟨pair,hpair,hagrees,hcounts⟩ := @pairedDeltaSums_eq fromUs toUs _
      inputs logicalSection identity _ _ _ _ hA hB
    have hpairTracks : ([columnA,columnB].mapM fun column =>
        inputs.counter logicalSection column identity) = some [trackA,trackB] := by
      simp [hA,hB]
    have haligned := alignedDeltaSums_eq inputs logicalSection identity hpairTracks (by simp)
      (by simp) horder (by simp)
    exact ⟨_,pair,haligned,hpair,hagrees,hcounts⟩

section Witness

def readPoint (endUs : Int64) : CounterPoint := ⟨endUs,.value (.int 5) 0 10⟩

theorem readTrack_ascending :
    Ascending CounterPoint.time [readPoint 10,readPoint 20,readPoint 30] := by
  simp only [Ascending]
  decide

def readTrack : CounterTrack := ⟨[readPoint 10,readPoint 20,readPoint 30],readTrack_ascending⟩

theorem writtenTrack_ascending : Ascending CounterPoint.time [readPoint 10,readPoint 30] := by
  simp only [Ascending]
  decide

/-- It lacks the interval that ends at 20. -/
def writtenTrack : CounterTrack := ⟨[readPoint 10,readPoint 30],writtenTrack_ascending⟩

def readInputs : TypedInputs Unit :=
  ⟨fun _ column _ => if column = "read" then some readTrack else some writtenTrack⟩

theorem sums_visit_shared_read :
    (∃ sums, alignedDeltaSums readInputs "io" () ["read","write"] 0 100 = some sums ∧
      sums.len = 2) ∧ (candidates 0 100 [readTrack,writtenTrack]).map Taken.endUs = [10,30] := by
  have hshared := @sums_visit_shared Unit readInputs "io" () 0 100 ["read","write"]
    [readTrack,writtenTrack] rfl (by simp) (by decide) (by decide)
  exact ⟨⟨_,hshared.1.1,rfl⟩,by decide⟩

end Witness

end Inputs

end TypedSums

end PgKronika
