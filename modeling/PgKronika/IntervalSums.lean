import PgKronika.CounterSums

/-! What the sums of counter columns visit. Those of a group take the usable shared intervals in
ascending order, but for the ones the numeric limit rejects; those of a pair take the same ones. -/
namespace PgKronika
namespace TypedSums

open AlignedMerge CheckedArith

/-- The point has a delta over a duration. -/
structure UsableAs (durationUs : ℕ) (point : CounterPoint) (delta : CounterDelta) : Prop where
  delta : point.delta = .ok delta
  interval : point.intervalUs = some durationUs
  start : startUs point.endUs durationUs ≠ none

theorem alignedDeltas_eq_some {durationUs : ℕ} {row : List CounterPoint}
    {found : List CounterDelta × Option ℕ} :
    alignedDeltas (some durationUs) row = some found ↔
      found.2 = some durationUs ∧ List.Forall₂ (UsableAs durationUs) row found.1 := by
  induction row generalizing found with
  | nil =>
    obtain ⟨deltas,last⟩ := found
    simp only [alignedDeltas,Option.some.injEq,Prod.mk.injEq,List.forall₂_nil_left_iff]
    exact ⟨fun h => ⟨h.2.symm,h.1.symm⟩,fun h => ⟨h.2.symm,h.1.symm⟩⟩
  | cons point row ih =>
    obtain ⟨deltas,last⟩ := found
    rw [alignedDeltas]
    cases hdelta : point.delta with
    | error e =>
      simp only [reduceCtorEq,false_iff,not_and]
      intro _ hrow
      obtain ⟨delta,rest,husable,-,-⟩ := List.forall₂_cons_left_iff.mp hrow
      cases hdelta.symm.trans husable.delta
    | ok delta =>
      dsimp only
      simp only [Option.bind_eq_some_iff]
      constructor
      · rintro ⟨pointDurationUs,hinterval,start,hstart,hrest⟩
        by_cases heq : durationUs = pointDurationUs
        · subst heq
          simp only [Option.any_some,ne_eq,not_true_eq_false,decide_false,Bool.false_eq_true,if_false,
            Option.map_eq_some_iff] at hrest
          obtain ⟨rest,hrest,hfound⟩ := hrest
          cases hfound
          obtain ⟨hlast,hrow⟩ := ih.mp hrest
          exact ⟨hlast,.cons ⟨hdelta,hinterval,by simp [hstart]⟩ hrow⟩
        · simp [heq] at hrest
      · rintro ⟨hlast,hrow⟩
        obtain ⟨delta',rest,husable,hrest,hfound⟩ := List.forall₂_cons_left_iff.mp hrow
        subst hfound
        cases hdelta.symm.trans husable.delta
        obtain ⟨start,hstart⟩ := Option.ne_none_iff_exists'.mp husable.start
        refine ⟨durationUs,husable.interval,start,hstart,?_⟩
        have hnext := (@ih (rest,last)).mpr ⟨hlast,hrest⟩
        simp [hnext]

/-- The shared interval of a row: all its points are usable over one duration. -/
theorem alignedInterval_eq_some {row : List CounterPoint} {interval : AlignedInterval} :
    alignedInterval row = some interval ↔
      row ≠ [] ∧ List.Forall₂ (UsableAs interval.durationUs) row interval.deltas := by
  obtain ⟨deltas,durationUs⟩ := interval
  cases row with
  | nil => simp [alignedInterval,alignedDeltas]
  | cons point row =>
    simp only [alignedInterval,alignedDeltas,ne_eq,reduceCtorEq,not_false_eq_true,true_and]
    cases hdelta : point.delta with
    | error e =>
      simp only [Option.bind_none,reduceCtorEq,false_iff]
      intro hrow
      obtain ⟨delta,rest,husable,-,-⟩ := List.forall₂_cons_left_iff.mp hrow
      cases hdelta.symm.trans husable.delta
    | ok delta =>
      simp only [Option.any_none,Bool.false_eq_true,if_false,Option.bind_eq_some_iff,
        Option.map_eq_some_iff]
      constructor
      · rintro ⟨found,⟨pointDurationUs,hinterval,start,hstart,rest,hrest,rfl⟩,duration,hlast,heq⟩
        cases heq
        obtain ⟨hlast',hrow⟩ := alignedDeltas_eq_some.mp hrest
        cases hlast'.symm.trans hlast
        exact .cons ⟨hdelta,hinterval,by simp [hstart]⟩ hrow
      · intro hrow
        obtain ⟨delta',rest,husable,hrest,heq⟩ := List.forall₂_cons_left_iff.mp hrow
        subst heq
        cases hdelta.symm.trans husable.delta
        obtain ⟨start,hstart⟩ := Option.ne_none_iff_exists'.mp husable.start
        have hnext := alignedDeltas_eq_some.mpr
          (show ((rest,some durationUs) : List CounterDelta × Option ℕ).2 = some durationUs ∧ _ from
            ⟨rfl,hrest⟩)
        exact ⟨_,⟨durationUs,husable.interval,start,hstart,_,hnext,rfl⟩,durationUs,rfl,rfl⟩

/-- A shared interval and its endpoint. -/
structure Taken where
  interval : AlignedInterval
  endUs : Int64

/-- The shared interval of a row that ends in the window. -/
def candidate (fromUs toUs : Int64) (row : List CounterPoint) : Option Taken :=
  match row with
  | [] => none
  | point::_ =>
    if inWindow fromUs toUs point.endUs then
      (alignedInterval row).map fun interval => ⟨interval,point.endUs⟩
    else none

section Admitted

variable (n : ℕ)

/-- The sums of all lanes, added in order. -/
def lanesOf (taken : List Taken) : List Lane :=
  taken.foldl (fun lanes next => List.zipWith Lane.add lanes next.interval.deltas)
    (List.replicate n ⟨0,true⟩)

def durationsOf (taken : List Taken) : List ℕ := taken.map fun next => next.interval.durationUs

/-- The numeric limit admits one more interval. -/
def Admits (taken : List Taken) (next : Taken) : Prop :=
  (durationsOf taken).sum + next.interval.durationUs ≤ u64Max ∧
    ((lanesOf n taken).zip next.interval.deltas).all (fun pair => pair.1.fits pair.2) = true

instance (taken : List Taken) (next : Taken) : Decidable (Admits n taken next) :=
  inferInstanceAs (Decidable (_ ∧ _))

/-- The intervals admitted one by one, the others skipped. -/
def admitted (candidates : List Taken) (taken : List Taken) : List Taken :=
  candidates.foldl (fun taken next => if Admits n taken next then taken++[next] else taken) taken

def AlignedRun.of (fromUs : Int64) (taken : List Taken) : AlignedRun :=
  { lanes := lanesOf n taken
    intervals := taken.length
    lastEndUs := (taken.getLast?.map Taken.endUs).getD fromUs
    elapsedUs := (durationsOf taken).sum
    durationsUs := durationsOf taken }

/-- What a group of columns sums to over the intervals taken. -/
def AlignedSums.of (fromUs toUs : Int64) (taken : List Taken) : AlignedSums :=
  { sums := (lanesOf n taken).map Lane.sum
    len := n
    intervals := taken.length
    lastEndUs := (taken.getLast?.map Taken.endUs).getD fromUs
    elapsedUs := (durationsOf taken).sum
    sourceWindow := .fromBounds fromUs toUs (observedPeriodFromDurations (durationsOf taken))
      taken.length }

variable {n}

theorem accumulate_of (fromUs : Int64) (taken : List Taken) (next : Taken) :
    accumulateAlignedInterval (.of n fromUs taken) next.interval next.endUs =
      if Admits n taken next then some (.of n fromUs (taken++[next])) else none := by
  rw [accumulateAlignedInterval]
  by_cases hsum : (durationsOf taken).sum + next.interval.durationUs ≤ u64Max
  · have hadd : checkedAdd (AlignedRun.of n fromUs taken).elapsedUs next.interval.durationUs =
        some ((durationsOf taken).sum + next.interval.durationUs) := checkedAdd_of_le hsum
    have hlanes : (AlignedRun.of n fromUs taken).lanes = lanesOf n taken := rfl
    rw [hadd,Option.bind_some,hlanes]
    by_cases hfits :
        ((lanesOf n taken).zip next.interval.deltas).all (fun pair => pair.1.fits pair.2) = true
    · rw [if_pos hfits,if_pos ⟨hsum,hfits⟩]
      simp [AlignedRun.of,lanesOf,durationsOf]
    · rw [if_neg hfits,if_neg fun hadmits => hfits hadmits.2]
  · have hnone : checkedAdd (AlignedRun.of n fromUs taken).elapsedUs next.interval.durationUs =
        none := if_neg hsum
    rw [hnone,Option.bind_none,if_neg fun hadmits => hsum hadmits.1]

/-- A row takes its candidate, or leaves all sums as they are. -/
theorem visitAligned_of {fromUs toUs : Int64} (taken : List Taken) (row : List CounterPoint) :
    visitAligned fromUs toUs (.of n fromUs taken) row =
      .of n fromUs (admitted n (candidate fromUs toUs row).toList taken) := by
  cases row with
  | nil => rfl
  | cons point row =>
    rw [visitAligned,candidate]
    by_cases hin : inWindow fromUs toUs point.endUs = true
    · rw [if_pos hin,if_pos hin]
      cases hinterval : alignedInterval (point::row) with
      | none => rfl
      | some interval =>
        have hstep := accumulate_of (n := n) fromUs taken ⟨interval,point.endUs⟩
        rw [Option.bind_some,hstep]
        by_cases hadmits : Admits n taken ⟨interval,point.endUs⟩
        · simp [admitted,hadmits]
        · simp [admitted,hadmits]
    · rw [if_neg hin,if_neg hin]
      rfl

theorem foldl_visitAligned {fromUs toUs : Int64} (rows : List (List CounterPoint))
    (taken : List Taken) :
    rows.foldl (visitAligned fromUs toUs) (.of n fromUs taken) =
      .of n fromUs (admitted n (rows.filterMap (candidate fromUs toUs)) taken) := by
  induction rows generalizing taken with
  | nil => rfl
  | cons row rows ih =>
    rw [List.foldl_cons,visitAligned_of,ih]
    cases hrow : candidate fromUs toUs row <;> simp [admitted,hrow]

end Admitted

section Group

variable {fromUs toUs : Int64} {tracks : List CounterTrack}

/-- The usable shared intervals of a group that end in the window, in the order of their ends. -/
def candidates (fromUs toUs : Int64) (tracks : List CounterTrack) : List Taken :=
  (sharedRows CounterPoint.time (tracks.map CounterTrack.points)).filterMap (candidate fromUs toUs)

theorem points_ascending (tracks : List CounterTrack) :
    ∀ points ∈ tracks.map CounterTrack.points, Ascending CounterPoint.time points := by
  intro points hpoints
  obtain ⟨track,-,rfl⟩ := List.mem_map.mp hpoints
  exact track.ascending

theorem candidate_eq_some {row : List CounterPoint} {taken : Taken} :
    candidate fromUs toUs row = some taken ↔ (row.head?.map CounterPoint.endUs = some taken.endUs ∧
      inWindow fromUs toUs taken.endUs = true) ∧
        List.Forall₂ (UsableAs taken.interval.durationUs) row taken.interval.deltas := by
  obtain ⟨interval,endUs⟩ := taken
  cases row with
  | nil => simp [candidate]
  | cons point row =>
    simp only [candidate,List.head?_cons,Option.map_some,Option.some.injEq]
    by_cases hin : inWindow fromUs toUs point.endUs = true
    · rw [if_pos hin,Option.map_eq_some_iff]
      constructor
      · rintro ⟨found,hfound,heq⟩
        cases heq
        exact ⟨⟨rfl,hin⟩,(alignedInterval_eq_some.mp hfound).2⟩
      · rintro ⟨⟨rfl,-⟩,hrow⟩
        exact ⟨interval,alignedInterval_eq_some.mpr ⟨List.cons_ne_nil _ _,hrow⟩,rfl⟩
    · rw [if_neg hin]
      simp only [reduceCtorEq,false_iff]
      rintro ⟨⟨rfl,hwithin⟩,-⟩
      exact hin hwithin

/-- Every track has a usable interval of one duration with this end, and it lies in the window. -/
structure SharedBy (fromUs toUs : Int64) (tracks : List CounterTrack) (taken : Taken) : Prop where
  within : fromUs ≤ taken.endUs ∧ taken.endUs ≤ toUs
  shared : ∃ row, List.Forall₂ (fun track point => point ∈ track.points ∧
    point.endUs = taken.endUs) tracks row ∧
      List.Forall₂ (UsableAs taken.interval.durationUs) row taken.interval.deltas

theorem forall₂_points {endUs : Int64} {row : List CounterPoint} :
    List.Forall₂ (fun points point => point ∈ points ∧ point.time = endUs.toInt)
        (tracks.map CounterTrack.points) row ↔
      List.Forall₂ (fun track point => point ∈ track.points ∧ point.endUs = endUs) tracks row := by
  simp only [List.forall₂_map_left_iff,CounterPoint.time,Int64.toInt_inj]

theorem mem_candidates (hne : tracks ≠ []) {taken : Taken} :
    taken ∈ candidates fromUs toUs tracks ↔ SharedBy fromUs toUs tracks taken := by
  have hmapped : tracks.map CounterTrack.points ≠ [] := by simpa using hne
  simp only [candidates,List.mem_filterMap,mem_sharedRows hmapped (points_ascending tracks),
    candidate_eq_some]
  constructor
  · rintro ⟨row,⟨k,hrow⟩,⟨hhead,hin⟩,husable⟩
    have hk : k = taken.endUs.toInt := by
      obtain ⟨first,rest,rfl⟩ := List.exists_cons_of_ne_nil hne
      obtain ⟨point,row',⟨-,hpoint⟩,-,rfl⟩ := List.forall₂_cons_left_iff.mp hrow
      have hend : point.endUs = taken.endUs := by simpa using hhead
      rw [← hend]
      exact hpoint.symm
    subst hk
    exact ⟨by simpa [inWindow] using hin,row,forall₂_points.mp hrow,husable⟩
  · rintro ⟨hwithin,row,hrow,husable⟩
    refine ⟨row,⟨taken.endUs.toInt,forall₂_points.mpr hrow⟩,⟨?_,by simpa [inWindow] using hwithin⟩,
      husable⟩
    obtain ⟨first,rest,rfl⟩ := List.exists_cons_of_ne_nil hne
    obtain ⟨point,row',⟨-,hpoint⟩,-,rfl⟩ := List.forall₂_cons_left_iff.mp hrow
    simp [hpoint]

theorem candidates_ascending (tracks : List CounterTrack) :
    (candidates fromUs toUs tracks).Pairwise fun taken next => taken.endUs < next.endUs := by
  refine List.pairwise_filterMap.mpr ((sharedRows_ascending (points_ascending tracks)).imp ?_)
  intro row row' hlt taken htaken next hnext
  obtain ⟨point,hpoint,hend⟩ := Option.map_eq_some_iff.mp (candidate_eq_some.mp htaken).1.1
  obtain ⟨point',hpoint',hend'⟩ := Option.map_eq_some_iff.mp (candidate_eq_some.mp hnext).1.1
  rw [← hend,← hend',Int64.lt_iff_toInt_lt]
  exact hlt point (List.mem_of_head? hpoint) point' (List.mem_of_head? hpoint')

variable {ι : Type} (inputs : TypedInputs ι) (logicalSection : String) (identity : ι)

/-- The merge of a group ends, and its sums are those of the candidates that the numeric limit
admits. -/
theorem alignedDeltaSums_eq {columns : List String}
    (htracks : (columns.mapM fun column => inputs.counter logicalSection column identity) =
      some tracks)
    (hne : columns ≠ []) (hlength : columns.length ≤ 16) (horder : fromUs ≤ toUs)
    (htracksNe : tracks ≠ []) :
    alignedDeltaSums inputs logicalSection identity columns fromUs toUs =
      some (.of tracks.length fromUs toUs
        (admitted tracks.length (candidates fromUs toUs tracks) [])) := by
  have hguard : ¬(columns = [] ∨ 16 < columns.length ∨ toUs < fromUs) := by
    rintro (hnil | hlong | hlt)
    · exact hne hnil
    · omega
    · rw [Int64.lt_iff_toInt_lt] at hlt
      rw [Int64.le_iff_toInt_le] at horder
      omega
  have hbounds : ∀ points ∈ tracks.map CounterTrack.points, ∀ point ∈ points,
      (-2^63 : ℤ) ≤ point.time ∧ point.time ≤ 2^63-1 := by
    intro points _ point _
    have hlow := point.endUs.le_toInt
    have hhigh := point.endUs.toInt_lt
    exact ⟨hlow,by rw [CounterPoint.time]; omega⟩
  have hmapped : tracks.map CounterTrack.points ≠ [] := by simpa using htracksNe
  rw [alignedDeltaSums,if_neg hguard,htracks,Option.bind_some]
  dsimp only
  rw [walk_eq hmapped (points_ascending tracks) hbounds (Nat.lt_succ_self _)]
  have hrun := @foldl_visitAligned tracks.length fromUs toUs
    (sharedRows CounterPoint.time (tracks.map CounterTrack.points)) []
  have hstart : (⟨List.replicate tracks.length ⟨0,true⟩,0,fromUs,0,[]⟩ : AlignedRun) =
      .of tracks.length fromUs [] := rfl
  rw [hstart,hrun]
  rfl

end Group

section Pairs

variable {a b : CounterPoint}

theorem pairDeltas_eq_ok {deltas : CounterDelta × CounterDelta} :
    pairDeltas a b = .ok deltas ↔ a.delta = .ok deltas.1 ∧ b.delta = .ok deltas.2 := by
  obtain ⟨first,second⟩ := deltas
  rw [pairDeltas]
  rcases a.delta with (_ | _) | firstDelta <;> rcases b.delta with (_ | _) | secondDelta <;> simp

theorem pairInterval_eq_ok {interval : ℕ × Int64} :
    pairInterval a b = .ok interval ↔ a.intervalUs = some interval.1 ∧
      b.intervalUs = some interval.1 ∧ startUs a.endUs interval.1 = some interval.2 := by
  obtain ⟨durationUs,start⟩ := interval
  rw [pairInterval]
  cases a.intervalUs with
  | none => simp
  | some first =>
    cases b.intervalUs with
    | none => simp
    | some second =>
      by_cases heq : first = second
      · subst heq
        simp only [ne_eq,not_true_eq_false,if_false,Option.some.injEq]
        cases hstart : startUs a.endUs first with
        | none =>
          simp only [reduceCtorEq,false_iff,not_and]
          rintro rfl -
          simp [hstart]
        | some found =>
          simp only [Except.ok.injEq,Prod.mk.injEq]
          constructor
          · rintro ⟨rfl,rfl⟩
            exact ⟨rfl,rfl,hstart⟩
          · rintro ⟨rfl,-,hfound⟩
            exact ⟨rfl,Option.some.inj (hstart.symm.trans hfound)⟩
      · simp only [ne_eq,heq,not_false_eq_true,if_true,reduceCtorEq,Option.some.injEq,false_iff,
          not_and]
        rintro rfl rfl
        exact absurd rfl heq

/-- A pair of points has a shared interval just when the pair is not excluded before its sums. -/
theorem alignedInterval_pair (h : a.endUs = b.endUs) {interval : AlignedInterval} :
    alignedInterval [a,b] = some interval ↔
      ∃ deltas duration, pairDeltas a b = .ok deltas ∧ pairInterval a b = .ok duration ∧
        interval = ⟨[deltas.1,deltas.2],duration.1⟩ := by
  rw [alignedInterval_eq_some]
  constructor
  · rintro ⟨-,hrow⟩
    obtain ⟨deltas,durationUs⟩ := interval
    obtain ⟨first,rest,ha,hrest,rfl⟩ := List.forall₂_cons_left_iff.mp hrow
    obtain ⟨second,rest',hb,hnil,rfl⟩ := List.forall₂_cons_left_iff.mp hrest
    rw [List.forall₂_nil_left_iff] at hnil
    subst hnil
    obtain ⟨start,hstart⟩ := Option.ne_none_iff_exists'.mp ha.start
    exact ⟨(first,second),(durationUs,start),pairDeltas_eq_ok.mpr ⟨ha.delta,hb.delta⟩,
      pairInterval_eq_ok.mpr ⟨ha.interval,hb.interval,hstart⟩,rfl⟩
  · rintro ⟨deltas,duration,hdeltas,hduration,rfl⟩
    obtain ⟨ha,hb⟩ := pairDeltas_eq_ok.mp hdeltas
    obtain ⟨hfirst,hsecond,hstart⟩ := pairInterval_eq_ok.mp hduration
    exact ⟨List.cons_ne_nil _ _,.cons ⟨ha,hfirst,by simp [hstart]⟩
      (.cons ⟨hb,hsecond,by simp [← h,hstart]⟩ .nil)⟩

/-- An interval is refused unless both sums stay finite and exact. -/
theorem excluded_eq (finiteA finiteB exactA exactB : Bool) :
    (!finiteA || !finiteB || !exactA || !exactB) = !((finiteA && exactA) && (finiteB && exactB)) := by
  cases finiteA <;> cases finiteB <;> cases exactA <;> cases exactB <;> rfl

/-- The pair's sums are those of a group of two. -/
structure Agrees (run : PairedRun) (aligned : AlignedRun) : Prop where
  lanes : aligned.lanes = [run.first,run.second]
  intervals : aligned.intervals = run.sums.intervals
  elapsed : aligned.elapsedUs = run.sums.elapsedUs
  durations : aligned.durationsUs = run.durationsUs

variable {run : PairedRun} {aligned : AlignedRun} {fromUs toUs : Int64}

theorem Agrees.exclude (h : Agrees run aligned) (exclusion : PairExclusion) :
    Agrees (run.candidate.exclude exclusion) aligned := by
  cases exclusion <;> exact ⟨h.lanes,h.intervals,h.elapsed,h.durations⟩

theorem Agrees.unmatched (h : Agrees run aligned) (point : CounterPoint) :
    Agrees (visitUnmatched fromUs toUs run point) aligned := by
  rw [visitUnmatched]
  split_ifs
  · exact ⟨h.lanes,h.intervals,h.elapsed,h.durations⟩
  · exact h

theorem Agrees.matched (h : Agrees run aligned) (hend : a.endUs = b.endUs) :
    Agrees (visitMatched fromUs toUs run a b) (visitAligned fromUs toUs aligned [a,b]) := by
  rw [visitMatched,visitAligned]
  by_cases hin : inWindow fromUs toUs a.endUs = true
  · rw [if_pos hin,if_pos hin]
    cases hinterval : alignedInterval [a,b] with
    | none =>
      have herror : ∃ exclusion, accumulateCounterPair run.candidate a b = .error exclusion := by
        rw [accumulateCounterPair]
        cases hdeltas : pairDeltas a b with
        | error exclusion => exact ⟨exclusion,rfl⟩
        | ok deltas =>
          cases hduration : pairInterval a b with
          | error exclusion => exact ⟨exclusion,rfl⟩
          | ok duration =>
            have hsome := (alignedInterval_pair hend).mpr ⟨deltas,duration,hdeltas,hduration,rfl⟩
            cases hinterval.symm.trans hsome
      obtain ⟨exclusion,herror⟩ := herror
      rw [herror]
      exact h.exclude exclusion
    | some interval =>
      obtain ⟨deltas,duration,hdeltas,hduration,rfl⟩ := (alignedInterval_pair hend).mp hinterval
      rw [Option.bind_some,accumulateAlignedInterval,accumulateCounterPair,hdeltas,hduration,
        h.elapsed,h.lanes]
      have helapsed : run.candidate.sums.elapsedUs = run.sums.elapsedUs := rfl
      have hfits : ([run.first,run.second].zip [deltas.1,deltas.2]).all
          (fun pair => pair.1.fits pair.2) =
            (run.first.fits deltas.1 && run.second.fits deltas.2) := by simp
      have hexcluded : (!(run.candidate.sums.sumA+deltas.1.value).isFinite ||
          !(run.candidate.sums.sumB+deltas.2.value).isFinite || !run.candidate.first.exact deltas.1 ||
            !run.candidate.second.exact deltas.2) =
          !(run.first.fits deltas.1 && run.second.fits deltas.2) := excluded_eq _ _ _ _
      rw [helapsed,hfits]
      simp only [bind,Except.bind,hexcluded]
      by_cases hsum : run.sums.elapsedUs+duration.1 ≤ u64Max
      · rw [checkedAdd_of_le hsum]
        cases run.first.fits deltas.1 && run.second.fits deltas.2 with
        | false => exact h.exclude .numericLimit
        | true => exact ⟨rfl,congrArg (· + 1) h.intervals,rfl,congrArg (· ++ [duration.1]) h.durations⟩
      · rw [checkedAdd,if_neg hsum]
        exact h.exclude .numericLimit
  · rw [if_neg hin,if_neg hin]
    exact h

theorem end_eq_of_time (h : a.time = b.time) : a.endUs = b.endUs := Int64.toInt_inj.mp h

/-- Over all endpoints of two tracks, the sums agree with those over the shared ones. -/
theorem Agrees.foldl {events : List (Met CounterPoint)}
    (heven : ∀ a b, .both a b ∈ events → a.time = b.time) (h : Agrees run aligned) :
    Agrees (events.foldl (Met.visit (visitUnmatched fromUs toUs) (visitUnmatched fromUs toUs)
        (visitMatched fromUs toUs)) run)
      ((events.filterMap Met.row).foldl (visitAligned fromUs toUs) aligned) := by
  induction events generalizing run aligned with
  | nil => exact h
  | cons event events ih =>
    have hrest : ∀ a b, .both a b ∈ events → a.time = b.time := fun a b hmem =>
      heven a b (List.mem_cons_of_mem _ hmem)
    cases event with
    | left a => exact ih hrest (h.unmatched a)
    | right b => exact ih hrest (h.unmatched b)
    | both a b =>
      exact ih hrest (h.matched (end_eq_of_time (heven a b (List.mem_cons_self ..))))

/-- Every candidate is accepted or counted under one reason to leave it out. -/
def Balanced (sums : PairedSums) : Prop :=
  sums.candidateIntervals = sums.intervals + sums.unmatchedEndpointIntervals +
    sums.unusableDeltaIntervals + sums.unalignedDurationIntervals + sums.numericLimitIntervals

theorem accumulate_balanced {next : PairedRun} (h : accumulateCounterPair run a b = .ok next) :
    next.sums.candidateIntervals = run.sums.candidateIntervals ∧
      next.sums.intervals = run.sums.intervals+1 ∧
      next.sums.unmatchedEndpointIntervals = run.sums.unmatchedEndpointIntervals ∧
      next.sums.unusableDeltaIntervals = run.sums.unusableDeltaIntervals ∧
      next.sums.unalignedDurationIntervals = run.sums.unalignedDurationIntervals ∧
      next.sums.numericLimitIntervals = run.sums.numericLimitIntervals := by
  obtain ⟨deltas,-,h⟩ := bind_ok h
  obtain ⟨interval,-,h⟩ := bind_ok h
  obtain ⟨elapsedUs,-,h⟩ := bind_ok h
  obtain ⟨_,-,h⟩ := bind_ok h
  cases h
  exact ⟨rfl,rfl,rfl,rfl,rfl,rfl⟩

def Within (fromUs toUs : Int64) (t : ℤ) : Prop := fromUs.toInt ≤ t ∧ t ≤ toUs.toInt

instance (fromUs toUs : Int64) (t : ℤ) : Decidable (Within fromUs toUs t) :=
  inferInstanceAs (Decidable (_ ∧ _))

theorem inWindow_iff {point : CounterPoint} :
    inWindow fromUs toUs point.endUs = true ↔ Within fromUs toUs point.time := by
  simp [inWindow,Within,Int64.le_iff_toInt_le,CounterPoint.time]

theorem unmatched_counts (h : Balanced run.sums) (point : CounterPoint) :
    Balanced (visitUnmatched fromUs toUs run point).sums ∧
      (visitUnmatched fromUs toUs run point).sums.candidateIntervals =
        run.sums.candidateIntervals + if Within fromUs toUs point.time then 1 else 0 := by
  rw [Balanced] at h
  rw [visitUnmatched]
  by_cases hin : inWindow fromUs toUs point.endUs = true
  · rw [if_pos hin,if_pos (inWindow_iff.mp hin)]
    refine ⟨?_,rfl⟩
    change run.sums.candidateIntervals+1 = run.sums.intervals +
      (run.sums.unmatchedEndpointIntervals+1) + run.sums.unusableDeltaIntervals +
        run.sums.unalignedDurationIntervals + run.sums.numericLimitIntervals
    omega
  · rw [if_neg hin,if_neg fun hwithin => hin (inWindow_iff.mpr hwithin)]
    exact ⟨h,rfl⟩

/-- A candidate that is left out is counted under its reason. -/
theorem exclude_counts (h : Balanced run.sums) (exclusion : PairExclusion) :
    Balanced (run.candidate.exclude exclusion).sums ∧
      (run.candidate.exclude exclusion).sums.candidateIntervals =
        run.sums.candidateIntervals+1 := by
  rw [Balanced] at h
  cases exclusion with
  | unusableDelta =>
    refine ⟨?_,rfl⟩
    change run.sums.candidateIntervals+1 = run.sums.intervals +
      run.sums.unmatchedEndpointIntervals + (run.sums.unusableDeltaIntervals+1) +
        run.sums.unalignedDurationIntervals + run.sums.numericLimitIntervals
    omega
  | unalignedDuration =>
    refine ⟨?_,rfl⟩
    change run.sums.candidateIntervals+1 = run.sums.intervals +
      run.sums.unmatchedEndpointIntervals + run.sums.unusableDeltaIntervals +
        (run.sums.unalignedDurationIntervals+1) + run.sums.numericLimitIntervals
    omega
  | numericLimit =>
    refine ⟨?_,rfl⟩
    change run.sums.candidateIntervals+1 = run.sums.intervals +
      run.sums.unmatchedEndpointIntervals + run.sums.unusableDeltaIntervals +
        run.sums.unalignedDurationIntervals + (run.sums.numericLimitIntervals+1)
    omega

theorem matched_counts (h : Balanced run.sums) (a b : CounterPoint) :
    Balanced (visitMatched fromUs toUs run a b).sums ∧
      (visitMatched fromUs toUs run a b).sums.candidateIntervals =
        run.sums.candidateIntervals + if Within fromUs toUs a.time then 1 else 0 := by
  rw [visitMatched]
  by_cases hin : inWindow fromUs toUs a.endUs = true
  · rw [if_pos hin,if_pos (inWindow_iff.mp hin)]
    cases hpair : accumulateCounterPair run.candidate a b with
    | error exclusion => exact exclude_counts h exclusion
    | ok next =>
      obtain ⟨hcandidate,hintervals,hunmatched,hunusable,hunaligned,hnumeric⟩ :=
        accumulate_balanced hpair
      refine ⟨?_,hcandidate⟩
      change next.sums.candidateIntervals = _
      rw [Balanced] at h
      rw [hcandidate,hintervals,hunmatched,hunusable,hunaligned,hnumeric]
      change run.sums.candidateIntervals+1 = run.sums.intervals+1 +
        run.sums.unmatchedEndpointIntervals + run.sums.unusableDeltaIntervals +
          run.sums.unalignedDurationIntervals + run.sums.numericLimitIntervals
      omega
  · rw [if_neg hin,if_neg fun hwithin => hin (inWindow_iff.mpr hwithin)]
    exact ⟨h,rfl⟩

theorem foldl_counts (events : List (Met CounterPoint)) (h : Balanced run.sums) :
    Balanced (events.foldl (Met.visit (visitUnmatched fromUs toUs) (visitUnmatched fromUs toUs)
        (visitMatched fromUs toUs)) run).sums ∧
      (events.foldl (Met.visit (visitUnmatched fromUs toUs) (visitUnmatched fromUs toUs)
        (visitMatched fromUs toUs)) run).sums.candidateIntervals =
        run.sums.candidateIntervals + ((events.map (Met.keyOf CounterPoint.time)).filter
          fun t => decide (Within fromUs toUs t)).length := by
  induction events generalizing run with
  | nil => exact ⟨h,rfl⟩
  | cons event events ih =>
    have hstep : Balanced (Met.visit (visitUnmatched fromUs toUs) (visitUnmatched fromUs toUs)
        (visitMatched fromUs toUs) run event).sums ∧
        (Met.visit (visitUnmatched fromUs toUs) (visitUnmatched fromUs toUs)
          (visitMatched fromUs toUs) run event).sums.candidateIntervals =
          run.sums.candidateIntervals +
            if Within fromUs toUs (event.keyOf CounterPoint.time) then 1 else 0 := by
      cases event with
      | left a => exact unmatched_counts h a
      | right b => exact unmatched_counts h b
      | both a b => exact matched_counts h a b
    obtain ⟨hbalanced,hcount⟩ := ih hstep.1
    refine ⟨hbalanced,?_⟩
    rw [List.foldl_cons,hcount,hstep.2,List.map_cons,List.filter_cons]
    by_cases hwithin : Within fromUs toUs (event.keyOf CounterPoint.time)
    · simp only [hwithin,if_true,decide_true,List.length_cons]
      omega
    · simp [hwithin]

/-- The distinct endpoints of two tracks inside the window. -/
def endpointsIn (fromUs toUs : Int64) (trackA trackB : CounterTrack) : Finset ℤ :=
  (trackA.points.map CounterPoint.time ++ trackB.points.map CounterPoint.time).toFinset.filter
    (Within fromUs toUs)

theorem card_endpointsIn (trackA trackB : CounterTrack) :
    (endpointsIn fromUs toUs trackA trackB).card =
      (((align CounterPoint.time trackA.points trackB.points).map
        (Met.keyOf CounterPoint.time)).filter fun t => decide (Within fromUs toUs t)).length := by
  have hascending := align_ascending trackA.ascending trackB.ascending
  have hnodup : ((align CounterPoint.time trackA.points trackB.points).map
      (Met.keyOf CounterPoint.time)).Nodup :=
    List.pairwise_map.mpr (hascending.imp fun hlt => hlt.ne)
  rw [← List.toFinset_card_of_nodup (hnodup.filter _),List.toFinset_filter]
  congr 1
  ext t
  simp only [endpointsIn,Finset.mem_filter,List.mem_toFinset,List.mem_append,mem_align_key,
    decide_eq_true_eq]

theorem pairedRun_counts (trackA trackB : CounterTrack) :
    Balanced (pairedRun fromUs toUs trackA trackB).sums ∧
      (pairedRun fromUs toUs trackA trackB).sums.candidateIntervals =
        (endpointsIn fromUs toUs trackA trackB).card := by
  rw [pairedRun,walkTwo_eq,card_endpointsIn]
  have hcounts := @foldl_counts ⟨.start,true,true,[]⟩ fromUs toUs
    (align CounterPoint.time trackA.points trackB.points) rfl
  simpa [PairedSums.start] using hcounts

/-- The sums of a pair are those of the group of the two. -/
theorem pairedRun_agrees (trackA trackB : CounterTrack) :
    Agrees (pairedRun fromUs toUs trackA trackB)
      ((sharedRows CounterPoint.time [trackA.points,trackB.points]).foldl (visitAligned fromUs toUs)
        (.of 2 fromUs [])) := by
  rw [pairedRun,walkTwo_eq,← align_rows trackA.ascending trackB.ascending]
  exact Agrees.foldl (fun a b => align_even) ⟨rfl,rfl,rfl,rfl⟩

/-- The sums of a pair are those of the group of its two columns. -/
structure PairAgrees (aligned : AlignedSums) (pair : PairedSums) : Prop where
  sums : aligned.sums = [pair.sumA,pair.sumB]
  intervals : aligned.intervals = pair.intervals
  elapsed : aligned.elapsedUs = pair.elapsedUs
  observedPeriod : aligned.sourceWindow.observedPeriodUs = pair.observedPeriodUs

/-- Every distinct endpoint in the window is a candidate, and is accepted or left out once. -/
structure PairCounts (fromUs toUs : Int64) (trackA trackB : CounterTrack) (pair : PairedSums) :
    Prop where
  balanced : Balanced pair
  endpoints : pair.candidateIntervals = (endpointsIn fromUs toUs trackA trackB).card

theorem pairedDeltaSums_eq {ι : Type} (inputs : TypedInputs ι) (logicalSection : String)
    (identity : ι) {columnA columnB : String} {trackA trackB : CounterTrack}
    (hA : inputs.counter logicalSection columnA identity = some trackA)
    (hB : inputs.counter logicalSection columnB identity = some trackB) :
    ∃ pair, pairedDeltaSums inputs logicalSection identity columnA columnB fromUs toUs = some pair ∧
      PairAgrees (.of 2 fromUs toUs (admitted 2 (candidates fromUs toUs [trackA,trackB]) [])) pair ∧
        PairCounts fromUs toUs trackA trackB pair := by
  have hagrees := @pairedRun_agrees fromUs toUs trackA trackB
  obtain ⟨hbalanced,hcandidates⟩ := @pairedRun_counts fromUs toUs trackA trackB
  rw [foldl_visitAligned] at hagrees
  rw [pairedDeltaSums,hA,hB]
  refine ⟨_,rfl,?_,⟨hbalanced,hcandidates⟩⟩
  constructor
  · exact congrArg (List.map Lane.sum) hagrees.lanes
  · exact hagrees.intervals
  · exact hagrees.elapsed
  · exact congrArg observedPeriodFromDurations hagrees.durations

end Pairs

end TypedSums

end PgKronika
