import PgKronika.AnomalyEpisodes

/-! The windows of an anomaly scan: where they stand, which points each of them scores and against
which others, and that no episode spans a break. -/
namespace PgKronika
namespace Anomaly

open Incident (checkedSubUs checkedSubUs_some)
open MaximalRuns

section Positions

variable {a b c toUs step position : Int64} {fuel fuel' : ℕ} {out : List Int64}

theorem checkedAddUs_some (h : checkedAddUs a b = some c) : c.toInt = a.toInt+b.toInt := by
  unfold checkedAddUs at h
  split_ifs at h with hrange
  cases h
  have hmin : Int64.minValue.toInt = -2^63 := rfl
  have hmax : Int64.maxValue.toInt = 2^63-1 := rfl
  rw [Int64.toInt_add,Int.bmod_eq_of_le (by omega) (by omega)]

theorem checkedAddUs_none (h : checkedAddUs a b = none) (hb : 0 < b) :
    Int64.maxValue.toInt < a.toInt+b.toInt := by
  have hpos := Int64.lt_iff_toInt_lt.mp hb
  have hmin := Int64.le_toInt a
  have hzero : (0 : Int64).toInt = 0 := rfl
  have hleast : Int64.minValue.toInt = -2^63 := rfl
  unfold checkedAddUs at h
  split_ifs at h with hrange
  omega

/-- Ascending, and no two neighbours farther apart than a step. -/
def Spaced (step : Int64) (out : List Int64) : Prop :=
  out.IsChain fun a b => a < b ∧ b.toInt-a.toInt ≤ step.toInt

theorem Spaced.ascending (h : Spaced step out) : out.Pairwise (· < ·) := by
  apply List.IsChain.pairwise
  exact h.imp fun _ _ hab => hab.1

theorem positionsFrom_mono (h : positionsFrom toUs step fuel position = some out)
    (hfuel : fuel ≤ fuel') : positionsFrom toUs step fuel' position = some out := by
  induction fuel generalizing fuel' position out with
  | zero => cases h
  | succ fuel ih =>
    obtain ⟨fuel',rfl⟩ : ∃ k, fuel' = k+1 := ⟨fuel'-1,by omega⟩
    rw [positionsFrom] at h ⊢
    by_cases hlt : position < toUs
    · rw [if_pos hlt] at h ⊢
      cases hnext : checkedAddUs position step with
      | none => rwa [hnext] at h
      | some next =>
        rw [hnext] at h
        obtain ⟨rest,hrest,rfl⟩ := Option.map_eq_some_iff.mp h
        dsimp only
        rw [ih hrest (by omega)]
        rfl
    · rwa [if_neg hlt] at h ⊢

/-- With fuel for every microsecond the positions lead from the first one to the end. -/
theorem positionsFrom_spaced (hstep : 0 < step) (hle : position ≤ toUs)
    (hfuel : (toUs.toInt-position.toInt).toNat < fuel) :
    ∃ out, positionsFrom toUs step fuel position = some out ∧
      (out++[toUs]).head? = some position ∧ Spaced step (out++[toUs]) := by
  have hpos : 0 < step.toInt := Int64.lt_iff_toInt_lt.mp hstep
  induction fuel generalizing position with
  | zero => omega
  | succ fuel ih =>
    have hle' := Int64.le_iff_toInt_le.mp hle
    rw [positionsFrom]
    by_cases hlt : position < toUs
    · have hlt' := Int64.lt_iff_toInt_lt.mp hlt
      have hlast : toUs.toInt-position.toInt ≤ step.toInt →
          ([position]++[toUs]).head? = some position ∧ Spaced step ([position]++[toUs]) :=
        fun hnear => ⟨rfl,List.isChain_pair.mpr ⟨hlt,hnear⟩⟩
      rw [if_pos hlt]
      cases hnext : checkedAddUs position step with
      | none =>
        have hover := checkedAddUs_none hnext hstep
        have hmax := Int64.toInt_le toUs
        exact ⟨_,rfl,hlast (by omega)⟩
      | some next =>
        have hsum := checkedAddUs_some hnext
        dsimp only
        by_cases hbeyond : toUs < next
        · have hbeyond' := Int64.lt_iff_toInt_lt.mp hbeyond
          obtain ⟨fuel,rfl⟩ : ∃ k, fuel = k+1 := ⟨fuel-1,by omega⟩
          have hstop : ¬next < toUs := fun h => by
            have := Int64.lt_iff_toInt_lt.mp h
            omega
          rw [positionsFrom,if_neg hstop]
          exact ⟨[position],rfl,hlast (by omega)⟩
        · have hwithin : next ≤ toUs := by
            rw [Int64.le_iff_toInt_le]
            rw [Int64.lt_iff_toInt_lt] at hbeyond
            omega
          obtain ⟨rest,hrest,hhead,hspaced⟩ := ih hwithin (by omega)
          rw [hrest]
          refine ⟨position::rest,rfl,rfl,?_⟩
          rw [Spaced,List.cons_append,List.isChain_cons]
          refine ⟨fun next' hnext' => ?_,hspaced⟩
          rw [hhead] at hnext'
          obtain rfl := Option.some.inj hnext'
          exact ⟨Int64.lt_iff_toInt_lt.mpr (by omega),by omega⟩
    · have heq : position = toUs := by
        rw [Int64.lt_iff_toInt_lt] at hlt
        exact Int64.toInt_inj.mp (by omega)
      rw [if_neg hlt,heq]
      exact ⟨[],rfl,rfl,by simp [Spaced]⟩

/-- The positions of a scan: none if the window does not fit, else from the end of the first window
to the end of the period. -/
def IsScan (params : ScanParams) (out : List Int64) : Prop :=
  out = [] ∨ (out.head?.map Int64.toInt = some (params.fromUs.toInt+params.window.toInt) ∧
    out.getLast? = some params.toUs ∧ out.Pairwise (· < ·) ∧ Spaced params.step out)

/-- No window starts before the period. -/
theorem IsScan.starts {params : ScanParams} (h : IsScan params out) :
    ∀ position ∈ out, Int64.minValue.toInt ≤ position.toInt-params.window.toInt := by
  intro position hposition
  have hmin := Int64.le_toInt params.fromUs
  have hleast : Int64.minValue.toInt = -2^63 := rfl
  rcases h with rfl | ⟨hhead,-,hascending,-⟩
  · cases hposition
  · cases out with
    | nil => cases hposition
    | cons first rest =>
      have hfirst : first.toInt = params.fromUs.toInt+params.window.toInt := Option.some.inj hhead
      rcases List.mem_cons.mp hposition with rfl | hrest
      · omega
      · have hlt := Int64.lt_iff_toInt_lt.mp ((List.pairwise_cons.mp hascending).1 position hrest)
        omega

theorem positions_isScan {params : ScanParams} (hstep : 0 < params.step) :
    ∃ out, (∀ fuel, 2^64 ≤ fuel → positions fuel params = some out) ∧ IsScan params out := by
  simp only [positions]
  cases hfirst : checkedAddUs params.fromUs params.window with
  | none => exact ⟨[],fun _ _ => rfl,.inl rfl⟩
  | some first =>
    dsimp only
    by_cases hbeyond : params.toUs < first
    · simp only [if_pos hbeyond]
      exact ⟨[],fun _ _ => rfl,.inl rfl⟩
    · have hle : first ≤ params.toUs := by
        rw [Int64.le_iff_toInt_le]
        rw [Int64.lt_iff_toInt_lt] at hbeyond
        omega
      have hmin := Int64.le_toInt first
      have hmax := Int64.toInt_lt params.toUs
      obtain ⟨out,hout,hhead,hspaced⟩ := @positionsFrom_spaced _ _ _ (2^64) hstep hle (by omega)
      simp only [if_neg hbeyond]
      refine ⟨out++[params.toUs],fun fuel hfuel => ?_,.inr ⟨?_,by simp,hspaced.ascending,hspaced⟩⟩
      · rw [positionsFrom_mono hout hfuel]
        rfl
      · rw [hhead,Option.map_some,checkedAddUs_some hfirst]

end Positions

section Windows

variable {points : List (Int64 × Float)} {breaks : List Int64} {window position : Int64}
  {score : ScoreParams} {previous : Option Int64}

/-- Strictly behind the breaks that are not later than a position and before those that are. -/
def inRun (breaks : List Int64) (position t : Int64) : Bool :=
  breaks.all fun stop => if stop ≤ position then decide (stop < t) else decide (t < stop)

def inWindow (window position t : Int64) : Bool :=
  decide (position.toInt-window.toInt ≤ t.toInt) && decide (t ≤ position)

/-- The points of the window in the run. -/
def current (points : List (Int64 × Float)) (breaks : List Int64) (window position : Int64) :
    List (Int64 × Float) :=
  points.filter fun p => inRun breaks position p.1 && inWindow window position p.1

/-- The other points of the run. -/
def reference (points : List (Int64 × Float)) (breaks : List Int64) (window position : Int64) :
    List (Int64 × Float) :=
  points.filter fun p => inRun breaks position p.1 && !inWindow window position p.1

/-- A break lies between the position before, or the start of the window, and the position. -/
def Crosses (breaks : List Int64) (window : Int64) (previous : Option Int64) (position : Int64) :
    Prop :=
  ∃ stop ∈ breaks,
    (previous.map Int64.toInt).getD (position.toInt-window.toInt) < stop.toInt ∧ stop ≤ position

/-- A discontinuity exactly where a break is crossed, else the score of the window's points against
the other points of the run. -/
structure WindowScored (points : List (Int64 × Float)) (breaks : List Int64) (window : Int64)
    (score : ScoreParams) (previous : Option Int64) (position : Int64) (scored : Scored) : Prop where
  broken : scored = .notEvaluated .discontinuity ↔ Crosses breaks window previous position
  whole : ¬Crosses breaks window previous position →
    scored = scoreWindow ((current points breaks window position).map Prod.snd)
      ((reference points breaks window position).map Prod.snd) score

theorem partitioned_of_antitone {p : Int64 → Bool}
    (hpoints : points.Pairwise fun a b => a.1 ≤ b.1) (hp : ∀ s t, s ≤ t → p t → p s) :
    Partitioned (fun q : Int64 × Float => p q.1) points :=
  .of_sorted hpoints fun a b hab => hp a.1 b.1 hab

theorem partitioned_le (hbreaks : breaks.Pairwise (· ≤ ·)) (position : Int64) :
    Partitioned (fun stop => decide (stop ≤ position)) breaks :=
  .of_sorted hbreaks fun a b hab hb => by
    rw [decide_eq_true_iff] at hb ⊢
    exact Int64.le_trans hab hb

/-- At or before some break that is not later than the position. -/
def isBefore (breaks : List Int64) (position t : Int64) : Bool :=
  breaks.any fun stop => decide (stop ≤ position) && decide (t ≤ stop)

/-- Before every break that is later than the position. -/
def isBelow (breaks : List Int64) (position t : Int64) : Bool :=
  breaks.all fun stop => decide (stop ≤ position) || decide (t < stop)

/-- The last break not later than the position stands for all of them. -/
theorem segmentLo_eq (hbreaks : breaks.Pairwise (· ≤ ·)) (ts : List Int64) :
    segmentLo ts breaks (partitionPoint (fun stop => decide (stop ≤ position)) breaks) =
      some (partitionPoint (isBefore breaks position) ts) := by
  have hpart := partitioned_le hbreaks position
  have htake := hpart.take_partitionPoint
  cases hcount : partitionPoint (fun stop => decide (stop ≤ position)) breaks with
  | zero =>
    rw [hcount,List.take_zero] at htake
    have hnone : isBefore breaks position = fun _ => false := by
      funext t
      rw [isBefore,List.any_eq_false]
      intro stop hstop
      have hlate := List.filter_eq_nil_iff.mp htake.symm stop hstop
      simp [hlate]
    have hempty : Partitioned (fun _ : Int64 => false) ts := .of_sorted
      (List.pairwise_of_forall (R := fun _ _ => True) fun _ _ => trivial) fun _ _ _ h => h
    rw [segmentLo,hnone,hempty.partitionPoint_filter]
    simp
  | succ last =>
    rw [hcount] at htake
    have hle : last+1 ≤ breaks.length := hcount ▸ hpart.partitionPoint_le
    have hlast : breaks[last] ∈ breaks.filter fun stop => decide (stop ≤ position) := by
      rw [← htake]
      exact List.mem_take_iff_getElem.mpr ⟨last,by omega,rfl⟩
    have hearly := of_decide_eq_true (List.mem_filter.mp hlast).2
    have hgreatest : ∀ stop ∈ breaks, stop ≤ position → stop ≤ breaks[last] := by
      intro stop hstop hpos
      have hmem : stop ∈ breaks.take (last+1) := by
        rw [htake]
        exact List.mem_filter.mpr ⟨hstop,decide_eq_true hpos⟩
      obtain ⟨k,hk,rfl⟩ := List.mem_take_iff_getElem.mp hmem
      by_cases hkl : k = last
      · subst hkl
        exact Int64.le_refl _
      · exact List.pairwise_iff_getElem.mp hbreaks k last (by omega) (by omega) (by omega)
    have hsame : isBefore breaks position = fun t => decide (t ≤ breaks[last]) := by
      funext t
      rw [isBefore,Bool.eq_iff_iff,List.any_eq_true]
      simp only [Bool.and_eq_true,decide_eq_true_eq]
      constructor
      · rintro ⟨stop,hstop,hpos,ht⟩
        exact Int64.le_trans ht (hgreatest stop hstop hpos)
      · exact fun ht => ⟨breaks[last],List.getElem_mem _,hearly,ht⟩
    rw [segmentLo,List.getElem?_eq_getElem (by omega),hsame]
    rfl

/-- The first break later than the position stands for all of them. -/
theorem segmentHi_eq (hbreaks : breaks.Pairwise (· ≤ ·)) (ts : List Int64) :
    segmentHi ts breaks (partitionPoint (fun stop => decide (stop ≤ position)) breaks) =
      partitionPoint (isBelow breaks position) ts := by
  have hpart := partitioned_le hbreaks position
  have hsplit := List.takeWhile_append_dropWhile (p := fun stop => decide (stop ≤ position)) (l := breaks)
  rw [segmentHi,hpart.getElem?_partitionPoint]
  cases hdrop : breaks.dropWhile fun stop => decide (stop ≤ position) with
  | nil =>
    rw [hdrop,List.append_nil] at hsplit
    have hall : isBelow breaks position = fun _ => true := by
      funext t
      rw [isBelow,List.all_eq_true]
      intro stop hstop
      have hearly := List.mem_takeWhile_imp (hsplit.symm ▸ hstop)
      simp [of_decide_eq_true hearly]
    have hfull : Partitioned (fun _ : Int64 => true) ts := .of_sorted
      (List.pairwise_of_forall (R := fun _ _ => True) fun _ _ => trivial) fun _ _ _ h => h
    rw [hall,hfull.partitionPoint_filter]
    simp
  | cons next rest =>
    have hlate : ¬next ≤ position := by
      have hnot := hpart.dropWhile_not next (hdrop ▸ List.mem_cons_self)
      exact of_decide_eq_false hnot
    have hmem : next ∈ breaks := by
      rw [← hsplit,hdrop]
      exact List.mem_append_right _ List.mem_cons_self
    have hleast : ∀ stop ∈ breaks, ¬stop ≤ position → next ≤ stop := by
      intro stop hstop hpos
      rw [← hsplit,hdrop] at hstop hbreaks
      rcases List.mem_append.mp hstop with htake | hrest
      · have hearly := List.mem_takeWhile_imp htake
        exact absurd (of_decide_eq_true hearly) hpos
      · rcases List.mem_cons.mp hrest with rfl | hrest
        · exact Int64.le_refl _
        · exact (List.pairwise_cons.mp (List.pairwise_append.mp hbreaks).2.1).1 stop hrest
    have hsame : isBelow breaks position = fun t => decide (t < next) := by
      funext t
      rw [isBelow,Bool.eq_iff_iff,List.all_eq_true]
      simp only [Bool.or_eq_true,decide_eq_true_eq]
      constructor
      · exact fun h => (h next hmem).resolve_left hlate
      · intro ht stop hstop
        by_cases hpos : stop ≤ position
        · exact .inl hpos
        · exact .inr (Int64.lt_of_lt_of_le ht (hleast stop hstop hpos))
    rw [hsame]
    rfl

/-- A break is crossed where more breaks are not later than the position than are not later than
the one before. -/
theorem crosses_iff (hbreaks : breaks.Pairwise (· ≤ ·)) (least : Int64) :
    partitionPoint (fun stop => decide (stop ≤ least)) breaks <
        partitionPoint (fun stop => decide (stop ≤ position)) breaks ↔
      ∃ stop ∈ breaks, least < stop ∧ stop ≤ position := by
  have hleast := partitioned_le hbreaks least
  have hposition := partitioned_le hbreaks position
  constructor
  · intro h
    by_contra hnone
    have hle := hposition.partitionPoint_mono hleast fun stop hstop hpos => by
      rw [decide_eq_true_iff] at hpos ⊢
      exact Int64.not_lt.mp fun hlt => hnone ⟨stop,hstop,hlt,hpos⟩
    omega
  · rintro ⟨stop,hstop,hlt,hpos⟩
    by_contra hge
    have himp := hposition.imp_of_le hleast (not_lt.mp hge) stop hstop (decide_eq_true hpos)
    exact Int64.not_lt.mpr (of_decide_eq_true himp) hlt

theorem isBelow_of_le (breaks : List Int64) {t : Int64} (h : t ≤ position) :
    isBelow breaks position t = true := by
  rw [isBelow,List.all_eq_true]
  intro stop _
  rw [Bool.or_eq_true,decide_eq_true_iff,decide_eq_true_iff]
  by_cases hstop : stop ≤ position
  · exact .inl hstop
  · exact .inr (Int64.lt_of_le_of_lt h (Int64.not_le.mp hstop))

theorem le_of_isBefore {t : Int64} (h : isBefore breaks position t = true) : t ≤ position := by
  simp only [isBefore,List.any_eq_true,Bool.and_eq_true,decide_eq_true_eq] at h
  obtain ⟨stop,-,hstop,ht⟩ := h
  exact Int64.le_trans ht hstop

theorem inRun_eq (breaks : List Int64) (position t : Int64) :
    inRun breaks position t = (!isBefore breaks position t && isBelow breaks position t) := by
  induction breaks with
  | nil => rfl
  | cons stop breaks ih =>
    simp only [inRun,isBefore,isBelow,List.all_cons,List.any_cons] at ih ⊢
    rw [ih]
    by_cases hstop : stop ≤ position
    · have hle : decide (stop < t) = !decide (t ≤ stop) := by
        rw [← decide_not]
        exact decide_eq_decide.mpr Int64.not_le.symm
      simp only [hstop,if_true,hle,decide_true,Bool.true_and,Bool.true_or,Bool.not_or,Bool.and_assoc]
    · simp only [hstop,if_false,decide_false,Bool.false_and,Bool.false_or]
      exact Bool.and_left_comm _ _ _

theorem inWindow_eq {windowStart : Int64} (h : windowStart.toInt = position.toInt-window.toInt)
    (t : Int64) : inWindow window position t = (!decide (t < windowStart) && decide (t ≤ position)) := by
  rw [inWindow,← decide_not,← h]
  congr 1
  rw [decide_eq_decide,Int64.lt_iff_toInt_lt,not_lt]

/-- The slices that a score reads: the run before the window, behind it, and the window. -/
theorem slices_eq (hpoints : points.Pairwise fun a b => a.1 ≤ b.1) (breaks : List Int64)
    (hpos : 0 < window.toInt) {windowStart : Int64}
    (hvalue : windowStart.toInt = position.toInt-window.toInt) :
    ∃ before behind cur,
      subslice (points.map Prod.snd)
        (partitionPoint (isBefore breaks position) (points.map Prod.fst))
        (max (partitionPoint (fun t => decide (t < windowStart)) (points.map Prod.fst))
          (partitionPoint (isBefore breaks position) (points.map Prod.fst))) = some before ∧
      subslice (points.map Prod.snd)
        (partitionPoint (fun t => decide (t ≤ position)) (points.map Prod.fst))
        (partitionPoint (isBelow breaks position) (points.map Prod.fst)) = some behind ∧
      subslice (points.map Prod.snd)
        (max (partitionPoint (fun t => decide (t < windowStart)) (points.map Prod.fst))
          (partitionPoint (isBefore breaks position) (points.map Prod.fst)))
        (partitionPoint (fun t => decide (t ≤ position)) (points.map Prod.fst)) = some cur ∧
      before++behind = (reference points breaks window position).map Prod.snd ∧
      cur = (current points breaks window position).map Prod.snd := by
  have hbefore : Partitioned (fun q : Int64 × Float => isBefore breaks position q.1) points :=
    partitioned_of_antitone hpoints fun s t hst ht => by
      simp only [isBefore,List.any_eq_true,Bool.and_eq_true,decide_eq_true_eq] at ht ⊢
      obtain ⟨stop,hstop,hle,hts⟩ := ht
      exact ⟨stop,hstop,hle,Int64.le_trans hst hts⟩
  have hbelow : Partitioned (fun q : Int64 × Float => isBelow breaks position q.1) points :=
    partitioned_of_antitone hpoints fun s t hst ht => by
      simp only [isBelow,List.all_eq_true,Bool.or_eq_true,decide_eq_true_eq] at ht ⊢
      exact fun stop hstop => (ht stop hstop).imp id fun hts => Int64.lt_of_le_of_lt hst hts
  have hearly : Partitioned (fun q : Int64 × Float => decide (q.1 < windowStart)) points :=
    partitioned_of_antitone (p := fun t => decide (t < windowStart)) hpoints fun s t hst ht => by
      rw [decide_eq_true_iff] at ht ⊢
      exact Int64.lt_of_le_of_lt hst ht
  have hupto : Partitioned (fun q : Int64 × Float => decide (q.1 ≤ position)) points :=
    partitioned_of_antitone (p := fun t => decide (t ≤ position)) hpoints fun s t hst ht => by
      rw [decide_eq_true_iff] at ht ⊢
      exact Int64.le_trans hst ht
  have hlo := hearly.or hbefore
  have hstart : ∀ t : Int64, decide (t < windowStart) = true → t ≤ position := fun t ht => by
    rw [decide_eq_true_iff,Int64.lt_iff_toInt_lt] at ht
    rw [Int64.le_iff_toInt_le]
    omega
  have hplaces : ∀ t, (decide (t ≤ position) = true → isBelow breaks position t = true) ∧
      (isBefore breaks position t = true → decide (t ≤ position) = true) ∧
      (decide (t < windowStart) = true → decide (t ≤ position) = true) := fun t =>
    ⟨fun ht => isBelow_of_le breaks (of_decide_eq_true ht),
      fun ht => decide_eq_true (le_of_isBefore ht),fun ht => decide_eq_true (hstart t ht)⟩
  simp only [partitionPoint_map]
  rw [← hearly.partitionPoint_or hbefore]
  refine ⟨_,_,_,subslice_between hbefore hlo ?_ Prod.snd,subslice_between hupto hbelow ?_ Prod.snd,
    subslice_between hlo hupto ?_ Prod.snd,?_,?_⟩
  · exact fun q _ hq => by simp [hq]
  · exact fun q _ hq => isBelow_of_le breaks (of_decide_eq_true hq)
  · exact fun q _ hq => (Bool.or_eq_true_iff.mp hq).elim (fun he => decide_eq_true (hstart _ he))
      fun hb => decide_eq_true (le_of_isBefore hb)
  · rw [← List.map_append,reference,hupto.filter_split fun q : Int64 × Float =>
      inRun breaks position q.1 && !inWindow window position q.1]
    congr 2
    · apply List.filter_congr
      intro q _
      obtain ⟨hbelow,hbefore,hearly⟩ := hplaces q.1
      revert hbelow hbefore hearly
      rw [inRun_eq,inWindow_eq hvalue]
      cases isBefore breaks position q.1 <;> cases isBelow breaks position q.1 <;>
        cases decide (q.1 < windowStart) <;> cases decide (q.1 ≤ position) <;> simp
    · apply List.filter_congr
      intro q _
      obtain ⟨hbelow,hbefore,hearly⟩ := hplaces q.1
      revert hbelow hbefore hearly
      rw [inRun_eq,inWindow_eq hvalue]
      cases isBefore breaks position q.1 <;> cases isBelow breaks position q.1 <;>
        cases decide (q.1 < windowStart) <;> cases decide (q.1 ≤ position) <;> simp
  · rw [current]
    congr 1
    apply List.filter_congr
    intro q _
    obtain ⟨hbelow,hbefore,hearly⟩ := hplaces q.1
    revert hbelow hbefore hearly
    rw [inRun_eq,inWindow_eq hvalue]
    cases isBefore breaks position q.1 <;> cases isBelow breaks position q.1 <;>
      cases decide (q.1 < windowStart) <;> cases decide (q.1 ≤ position) <;> simp

theorem scoreAt_exact (hpoints : points.Pairwise fun a b => a.1 ≤ b.1)
    (hbreaks : breaks.Pairwise (· ≤ ·)) (hwindow : 0 < window)
    (hstart : Int64.minValue.toInt ≤ position.toInt-window.toInt) (score : ScoreParams)
    (previous : Option Int64) :
    ∃ scored, scoreAt (points.map Prod.fst) (points.map Prod.snd) breaks window score previous
        position = some scored ∧
      WindowScored points breaks window score previous position scored := by
  have hpos : 0 < window.toInt := Int64.lt_iff_toInt_lt.mp hwindow
  obtain ⟨windowStart,hsub,hvalue⟩ : ∃ windowStart, checkedSubUs position window = some windowStart ∧
      windowStart.toInt = position.toInt-window.toInt := by
    have hmax := Int64.toInt_le position
    have hrange : checkedSubUs position window = some (position-window) :=
      if_pos ⟨hstart,by omega⟩
    exact ⟨_,hrange,checkedSubUs_some hrange⟩
  have hcrosses : partitionPoint (fun stop => decide (stop ≤ previous.getD windowStart)) breaks <
        partitionPoint (fun stop => decide (stop ≤ position)) breaks ↔
      Crosses breaks window previous position := by
    rw [crosses_iff hbreaks,Crosses]
    cases previous with
    | none => simp [Int64.lt_iff_toInt_lt,hvalue]
    | some last => simp [Int64.lt_iff_toInt_lt]
  rw [scoreAt,hsub,Option.getD_some]
  by_cases hcross : Crosses breaks window previous position
  · refine ⟨.notEvaluated .discontinuity,?_,⟨fun _ => hcross,fun _ => rfl⟩,fun hnot => absurd hcross hnot⟩
    simp only [hcrosses.mpr hcross,if_true]
    rfl
  · have hnot : ¬partitionPoint (fun stop => decide (stop ≤ previous.getD windowStart)) breaks <
        partitionPoint (fun stop => decide (stop ≤ position)) breaks := fun h => hcross (hcrosses.mp h)
    have hslices := slices_eq hpoints breaks hpos hvalue
    obtain ⟨before,behind,cur,hbefore,hbehind,hcur,hreference,hcurrent⟩ := hslices
    refine ⟨scoreWindow ((current points breaks window position).map Prod.snd)
      ((reference points breaks window position).map Prod.snd) score,?_,
      ⟨fun h => absurd h (scoreWindow_ne_discontinuity _ _ _),fun h => absurd h hcross⟩,fun _ => rfl⟩
    simp only [hnot,if_false,segmentLo_eq hbreaks,segmentHi_eq hbreaks,Option.bind_eq_bind,
      Option.bind_some,hbefore,hbehind,hcur,hreference,hcurrent]
    rfl

/-- Each position of a profile is scored with the position before it. -/
def ExactProfile (points : List (Int64 × Float)) (breaks : List Int64) (window : Int64)
    (score : ScoreParams) (previous : Option Int64) (profile : List (Int64 × Scored)) : Prop :=
  ∀ before p after, profile = before ++ p::after →
    WindowScored points breaks window score ((before.map Prod.fst).getLast?.or previous) p.1 p.2

theorem ExactProfile.cons {profile : List (Int64 × Scored)} {scored : Scored}
    (h : WindowScored points breaks window score previous position scored)
    (hrest : ExactProfile points breaks window score (some position) profile) :
    ExactProfile points breaks window score previous ((position,scored)::profile) := by
  intro before p after hsplit
  cases before with
  | nil =>
    obtain ⟨rfl,rfl⟩ := List.cons.inj hsplit
    exact h
  | cons first before =>
    obtain ⟨rfl,hafter⟩ := List.cons.inj hsplit
    have hexact := hrest before p after hafter
    cases before with
    | nil => exact hexact
    | cons second before => simpa [List.getLast?_cons] using hexact

theorem scoreSeries_exact (hpoints : points.Pairwise fun a b => a.1 ≤ b.1)
    (hbreaks : breaks.Pairwise (· ≤ ·)) (hwindow : 0 < window) (score : ScoreParams)
    (previous : Option Int64) {scanPositions : List Int64}
    (hstart : ∀ position ∈ scanPositions,
      Int64.minValue.toInt ≤ position.toInt-window.toInt) :
    ∃ profile, scoreSeries (points.map Prod.fst) (points.map Prod.snd) breaks window score previous
        scanPositions = some profile ∧ profile.map Prod.fst = scanPositions ∧
      ExactProfile points breaks window score previous profile := by
  induction scanPositions generalizing previous with
  | nil => exact ⟨[],rfl,rfl,fun before p after h => by simp at h⟩
  | cons position scanPositions ih =>
    obtain ⟨scored,hscored,hexact⟩ := scoreAt_exact hpoints hbreaks hwindow
      (hstart position List.mem_cons_self) score previous
    obtain ⟨profile,hprofile,hpositions,hrest⟩ := ih (some position) fun other hother =>
      hstart other (List.mem_cons_of_mem _ hother)
    refine ⟨(position,scored)::profile,?_,by rw [List.map_cons,hpositions],.cons hexact hrest⟩
    rw [scoreSeries,hscored,hprofile]
    rfl

end Windows

section Episodes

variable {points : List (Int64 × Float)} {breaks : List Int64} {window : Int64}
  {score : ScoreParams} {profile : List (Int64 × Scored)} {threshold : Float}

/-- An episode is told of a run of positions above the threshold. -/
theorem mem_episodes {episode : Episode} (h : episode ∈ episodes profile threshold) :
    ∃ first last, IsRun (fun p => exceeds threshold p.2) profile first last ∧
      EpisodeOf profile episode first last := by
  have hopen : Open (fun p => exceeds threshold p.2) profile 0 none := fun k hk => by omega
  have hruns := @episodesFrom_runs profile
    (if threshold.isFinite ∧ 0 ≤ threshold then threshold else infinity) 0 profile rfl none none
    trivial
  simp only [above_cutoff] at hruns
  obtain ⟨k,hk,rfl⟩ := List.getElem_of_mem h
  obtain ⟨hlen,hget⟩ := List.forall₂_iff_get.mp hruns
  have hk' : k < (runsFrom (fun p : Int64 × Scored => exceeds threshold p.2) 0 profile none).length :=
    hlen ▸ hk
  have hmem := List.get_mem (runsFrom (fun p : Int64 × Scored => exceeds threshold p.2) 0 profile none)
    ⟨k,hk'⟩
  exact ⟨_,_,((mem_runsFrom rfl hopen).mp hmem).1,hget k hk hk'⟩

/-- The position before an index. -/
theorem ExactProfile.get (h : ExactProfile points breaks window score none profile) {k : ℕ}
    (hk : k < profile.length) :
    WindowScored points breaks window score ((profile.take k).map Prod.fst).getLast? profile[k].1
      profile[k].2 := by
  have hsplit : profile = profile.take k ++ profile[k]::profile.drop (k+1) := by
    rw [List.getElem_cons_drop,List.take_append_drop]
  simpa using h _ _ _ hsplit

theorem getLast?_take_map {m : ℕ} (hm : m+1 < profile.length) :
    ((profile.take (m+1)).map Prod.fst).getLast? = some profile[m].1 := by
  rw [List.take_succ_eq_append_getElem (by omega),List.map_append,List.getLast?_append]
  rfl

theorem not_crosses (h : ExactProfile points breaks window score none profile) {first last k : ℕ}
    (hrun : IsRun (fun p => exceeds threshold p.2) profile first last) (hfirst : first ≤ k)
    (hlast : k ≤ last) (hk : k < profile.length) :
    ¬Crosses breaks window ((profile.take k).map Prod.fst).getLast? profile[k].1 := by
  intro hcross
  have hinside := hrun.inside k hfirst hlast
  rw [List.getElem?_eq_getElem hk,Option.any_some,((h.get hk).broken.mpr hcross)] at hinside
  simp [exceeds,above] at hinside

/-- No break lies within an episode, and every position within it exceeds the threshold. -/
theorem episode_whole (h : ExactProfile points breaks window score none profile)
    (hascending : (profile.map Prod.fst).Pairwise (· < ·)) (hwindow : 0 < window)
    {episode : Episode} (hmem : episode ∈ episodes profile threshold) :
    (∀ stop ∈ breaks, episode.start ≤ stop → ¬stop ≤ episode.stop) ∧
    ∀ p ∈ profile, episode.start ≤ p.1 → p.1 ≤ episode.stop → exceeds threshold p.2 = true := by
  obtain ⟨first,last,hrun,hepisode⟩ := mem_episodes hmem
  have hlastLt : last < profile.length := by
    by_contra hge
    have hstop := hepisode.stop
    rw [List.getElem?_eq_none (not_lt.mp hge)] at hstop
    cases hstop
  have hfirstLt : first < profile.length := hrun.ordered.trans_lt hlastLt
  have hstart : profile[first].1 = episode.start := by
    have hvalue := hepisode.start
    rw [List.getElem?_eq_getElem hfirstLt] at hvalue
    exact Option.some.inj hvalue
  have hstop : profile[last].1 = episode.stop := by
    have hvalue := hepisode.stop
    rw [List.getElem?_eq_getElem hlastLt] at hvalue
    exact Option.some.inj hvalue
  have hless : ∀ i j (hi : i < profile.length) (hj : j < profile.length), i < j →
      profile[i].1 < profile[j].1 := by
    intro i j hi hj hij
    have hpair := List.pairwise_iff_getElem.mp hascending i j (by simpa using hi) (by simpa using hj) hij
    simpa using hpair
  have hwindow := Int64.lt_iff_toInt_lt.mp hwindow
  have hzero : (0 : Int64).toInt = 0 := rfl
  constructor
  · intro stop hbreak hafter hbefore
    -- No position of the episode reaches the break, but the last one does.
    have hshort : ∀ k, first ≤ k → k ≤ last → ∀ hk : k < profile.length, profile[k].1 < stop := by
      intro k hk
      induction k, hk using Nat.le_induction with
      | base =>
        intro hle hk
        by_contra hreach
        refine not_crosses h hrun (le_refl _) hle hk ⟨stop,hbreak,?_,Int64.not_lt.mp hreach⟩
        rw [← hstart] at hafter
        cases first with
        | zero =>
          have hafter := Int64.le_iff_toInt_le.mp hafter
          simp only [List.take_zero,List.map_nil,List.getLast?_nil,Option.map_none,Option.getD_none]
          omega
        | succ m =>
          have hnext := hless m (m+1) (by omega) hk (by omega)
          rw [getLast?_take_map hk,Option.map_some,Option.getD_some,← Int64.lt_iff_toInt_lt]
          exact Int64.lt_of_lt_of_le hnext hafter
      | succ k hk ih =>
        intro hle hk'
        by_contra hreach
        refine not_crosses h hrun (by omega) hle hk' ⟨stop,hbreak,?_,Int64.not_lt.mp hreach⟩
        rw [getLast?_take_map hk',Option.map_some,Option.getD_some,← Int64.lt_iff_toInt_lt]
        exact ih (by omega) (by omega)
    have hlast := hshort last hrun.ordered (le_refl _) hlastLt
    rw [hstop] at hlast
    exact Int64.not_le.mpr hlast hbefore
  · intro p hp hafter hbefore
    obtain ⟨k,hk,rfl⟩ := List.getElem_of_mem hp
    have hfirst : first ≤ k := by
      by_contra hlt
      have hearly := hless k first hk hfirstLt (by omega)
      rw [hstart] at hearly
      exact Int64.not_le.mpr hearly hafter
    have hlast : k ≤ last := by
      by_contra hlt
      have hlate := hless last k hlastLt hk (by omega)
      rw [hstop] at hlate
      exact Int64.not_le.mpr hlate hbefore
    have hinside := hrun.inside k hfirst hlast
    rwa [List.getElem?_eq_getElem hk,Option.any_some] at hinside

/-- The scan of a timeline: its positions cover the period, each is scored with the window and the
run it stands in, one counter grows for each, and no episode spans a break. -/
theorem scan_windows_exact {params : ScanParams} (hwindow : 0 < params.window)
    (hstep : 0 < params.step) {points : List (Int64 × Float)}
    (hpoints : points.Pairwise fun a b => a.1 ≤ b.1) {breaks : List Int64}
    (hbreaks : breaks.Pairwise (· ≤ ·)) (score : ScoreParams) :
    ∃ scanPositions, (∀ fuel, 2^64 ≤ fuel → positions fuel params = some scanPositions) ∧
      IsScan params scanPositions ∧
      ∃ profile, scoreSeries (points.map Prod.fst) (points.map Prod.snd) breaks params.window score
          none scanPositions = some profile ∧
        profile.map Prod.fst = scanPositions ∧
        ExactProfile points breaks params.window score none profile ∧
        (∀ counts, (tally profile counts).outcomes = counts.outcomes+scanPositions.length) ∧
        ∀ episode ∈ episodes profile params.threshold,
          (∀ stop ∈ breaks, episode.start ≤ stop → ¬stop ≤ episode.stop) ∧
          ∀ p ∈ profile, episode.start ≤ p.1 → p.1 ≤ episode.stop →
            exceeds params.threshold p.2 = true := by
  obtain ⟨scanPositions,hpositions,hscan⟩ := positions_isScan hstep
  have hstart : ∀ position ∈ scanPositions,
      Int64.minValue.toInt ≤ position.toInt-params.window.toInt := hscan.starts
  have hascending : scanPositions.Pairwise (· < ·) := hscan.elim (fun h => h ▸ .nil) fun h => h.2.2.1
  obtain ⟨profile,hprofile,hmap,hexact⟩ := scoreSeries_exact hpoints hbreaks hwindow score none hstart
  refine ⟨scanPositions,hpositions,hscan,profile,hprofile,hmap,hexact,fun counts => ?_,
    fun episode hepisode => episode_whole hexact (by rwa [hmap]) hwindow hepisode⟩
  rw [tally_outcomes,← hmap,List.length_map]

def sampleScan : ScanParams := ⟨0,10,4,3,3,0⟩

/-- Two points and a break between the positions 4, 7 and 10. -/
theorem scan_windows_exact_sample :
    ∃ scanPositions profile, positions (2^64) sampleScan = some scanPositions ∧
      scoreSeries [1,5] [2,2] [6] 4 (.new 20 3 0 0) none scanPositions = some profile ∧
      profile.map Prod.fst = scanPositions := by
  obtain ⟨scanPositions,hpositions,-,profile,hprofile,hmap,-⟩ :=
    @scan_windows_exact sampleScan (by decide) (by decide) [(1,2),(5,2)] (by simp) [6] (by simp)
      (.new 20 3 0 0)
  exact ⟨scanPositions,profile,hpositions _ (le_refl _),hprofile,hmap⟩

end Episodes

end Anomaly
end PgKronika
