import Mathlib
import PgKronika.CounterReduction
import PgKronika.CoverageUnion

/-! Gauge samples and their time-weighted mean. A sample holds its value until the next one, the
cap or a known gap. -/
namespace PgKronika

open CheckedArith

/-- A finite number, with one zero. -/
structure FiniteF64 where
  get : Float
  finite : get.isFinite = true
  oneZero : get == 0 → get = 0

def FiniteF64.new (value : Float) : Option FiniteF64 :=
  if hfinite : value.isFinite = true then
    if hzero : value == 0 then some ⟨0,by decide,fun _ => rfl⟩
    else some ⟨value,hfinite,fun h => absurd h hzero⟩
  else none

structure GaugeSample where
  seriesId : MetricSeriesId
  tsUs : Int64
  value : FiniteF64

def GaugeSample.new (seriesId : MetricSeriesId) (tsUs : Int64) (value : Float) : Option GaugeSample :=
  (FiniteF64.new value).map fun value => ⟨seriesId,tsUs,value⟩

structure GaugeLimits extends ReductionLimits where
  maxGaugeSamples : UInt64

structure HoldModel where
  maxGapUs : UInt64

structure TimeWeightedReduction where
  mean : Float
  coveredDurationUs : ℕ

def finiteAdd (left right : Float) : Except ReductionError Float :=
  if (left + right).isFinite then .ok (left + right) else .error .nonFiniteResult

def saturatingAddUnsigned (a : Int64) (b : UInt64) : Int64 := .ofIntClamp (a.toInt + b.toNat)

/-- Where a sample stops when no gap is known. -/
def holdCapped (hold : HoldModel) (sample : GaugeSample) (next : Option GaugeSample) : Int64 :=
  let holdCap := saturatingAddUnsigned sample.tsUs hold.maxGapUs
  next.elim holdCap fun next => min next.tsUs holdCap

/-- Where a sample stops; `gaps` are those from the cursor on. -/
def holdEnd (hold : HoldModel) (gaps : List CoverageSpan) (sample : GaugeSample)
    (next : Option GaugeSample) : Int64 :=
  let capped := holdCapped hold sample next
  match gaps.head? with
  | none => capped
  | some gap =>
    if gap.fromUs < capped ∧ sample.tsUs < gap.toUs then min capped (max gap.fromUs sample.tsUs)
    else capped

def passEnded (gaps : List CoverageSpan) (tsUs : Int64) : List CoverageSpan :=
  gaps.dropWhile fun gap => decide (gap.toUs ≤ tsUs)

/-- What of the hold lies in the bucket, as a half-open range. -/
def holdOverlap (hold : HoldModel) (bucket : CoverageSpan) (gaps : List CoverageSpan)
    (sample : GaugeSample) (next : Option GaugeSample) : Int64 × Int64 :=
  (max sample.tsUs bucket.fromUs,min (holdEnd hold gaps sample next) bucket.toUs)

def overlapUs (overlap : Int64 × Int64) : ℕ :=
  if overlap.1 < overlap.2 then (overlap.2 - overlap.1).toUInt64.toNat else 0

/-- The weighted sum and the weight after one more sample. -/
def addHold (state : Float × ℕ) (sample : GaugeSample) (overlap : Int64 × Int64) :
    Except ReductionError (Float × ℕ) :=
  if overlap.1 < overlap.2 then
    let duration := (overlap.2 - overlap.1).toUInt64
    let weighted := sample.value.get * duration.toFloat
    if weighted.isFinite then
      finiteAdd state.1 weighted >>= fun weightedSum =>
      match checkedAdd state.2 duration.toNat with
      | none => .error .countOverflow
      | some weightUs => .ok (weightedSum,weightUs)
    else .error .nonFiniteResult
  else .ok state

def holdSamples (hold : HoldModel) (bucket : CoverageSpan) :
    List CoverageSpan → Float × ℕ → List GaugeSample → Except ReductionError (Float × ℕ)
  | _,state,[] => .ok state
  | gaps,state,sample::samples =>
    let gaps := passEnded gaps sample.tsUs
    addHold state sample (holdOverlap hold bucket gaps sample samples.head?) >>= fun state =>
    holdSamples hold bucket gaps state samples

/-- The first samples out of order refuse the series. -/
def checkOrder : List GaugeSample → Except ReductionError Unit
  | previous::current::samples =>
    if current.tsUs ≤ previous.tsUs then
      .error (if current.tsUs = previous.tsUs then .duplicateTimestamp else .nonMonotonicSamples)
    else checkOrder (current::samples)
  | _ => .ok ()

def mixedSeries (samples : List GaugeSample) : Bool :=
  samples.head?.any fun first => samples.any fun sample => decide (sample.seriesId ≠ first.seriesId)

def meanOfHolds (state : Float × ℕ) : Except ReductionError (Option TimeWeightedReduction) :=
  if state.2 = 0 then .ok none
  else
    let mean := state.1 / (UInt64.ofNat state.2).toFloat
    if mean.isFinite then .ok (some ⟨mean,state.2⟩) else .error .nonFiniteResult

def timeWeightedMean (haloPrevious : Option GaugeSample) (samples : List GaugeSample)
    (bucket : CoverageSpan) (hold : HoldModel) (knownGaps : Coverage) (limits : GaugeLimits) :
    Except ReductionError (Option TimeWeightedReduction) :=
  match checkedAdd samples.length haloPrevious.toList.length with
  | none => .error .limitExceeded
  | some totalSamples =>
    let all := haloPrevious.toList ++ samples
    if limits.maxInputItems.toNat < totalSamples ∨ limits.maxGaugeSamples.toNat < totalSamples ∨
        limits.maxGapSpans.toNat < knownGaps.spans.length then .error .limitExceeded
    else if mixedSeries all then .error .mixedSeries
    else
      checkOrder all >>= fun _ =>
      holdSamples hold bucket knownGaps.spans (0,0) all >>= meanOfHolds

/-- Where a sample stops: the next one, the cap, or the first gap that meets the hold. -/
def holdStop (hold : HoldModel) (knownGaps : Coverage) (sample : GaugeSample)
    (next : Option GaugeSample) : ℤ :=
  let cap := min (sample.tsUs.toInt + hold.maxGapUs.toNat) Int64.maxValue.toInt
  let stop := next.elim cap fun next => min next.tsUs.toInt cap
  match knownGaps.spans.find? fun gap =>
      decide (max gap.lo sample.tsUs.toInt < min gap.hi stop) with
  | none => stop
  | some gap => min stop gap.lo

/-- The microseconds of the bucket that a sample holds. -/
noncomputable def heldMicros (hold : HoldModel) (knownGaps : Coverage) (bucket : CoverageSpan)
    (sample : GaugeSample) (next : Option GaugeSample) : Finset ℤ :=
  Finset.Ico sample.tsUs.toInt (holdStop hold knownGaps sample next) ∩
    Finset.Ico bucket.lo bucket.hi

noncomputable def overlapMicros (overlap : Int64 × Int64) : Finset ℤ :=
  Finset.Ico overlap.1.toInt overlap.2.toInt

/-- The overlap of every sample, each against all known gaps. -/
def holdOverlaps (hold : HoldModel) (bucket : CoverageSpan) (knownGaps : Coverage) :
    List GaugeSample → List (Int64 × Int64)
  | [] => []
  | sample::samples =>
    holdOverlap hold bucket (passEnded knownGaps.spans sample.tsUs) sample samples.head? ::
      holdOverlaps hold bucket knownGaps samples

/-- Samples of one series in strictly increasing time order. -/
structure GaugeSeries (seriesId : MetricSeriesId) (samples : List GaugeSample) : Prop where
  series : ∀ s ∈ samples, s.seriesId = seriesId
  ascending : samples.Pairwise fun a b => a.tsUs < b.tsUs

section Hold

variable (hold : HoldModel) (bucket : CoverageSpan) (knownGaps : Coverage)

theorem overlapUs_eq (overlap : Int64 × Int64) : overlapUs overlap = (overlapMicros overlap).card := by
  rw [overlapUs,overlapMicros,Int.card_Ico]
  by_cases h : overlap.1 < overlap.2
  · rw [if_pos h,Int64.toNat_sub_of_lt h]
  · rw [Int64.lt_iff_toInt_lt] at h
    rw [if_neg (by rwa [Int64.lt_iff_toInt_lt])]
    omega

theorem toInt_saturatingAddUnsigned (a : Int64) (b : UInt64) :
    (saturatingAddUnsigned a b).toInt = min (a.toInt + b.toNat) Int64.maxValue.toInt := by
  have hmin := a.minValue_le_toInt
  by_cases h : a.toInt + b.toNat ≤ Int64.maxValue.toInt
  · rw [saturatingAddUnsigned,Int64.toInt_ofIntClamp (by omega) h,min_eq_left h]
  · rw [saturatingAddUnsigned,Int64.ofIntClamp,min_eq_right (by omega)]
    rw [dif_pos (by omega),dif_neg h]

theorem toInt_holdCapped (sample : GaugeSample) (next : Option GaugeSample) :
    (holdCapped hold sample next).toInt =
      next.elim (min (sample.tsUs.toInt + hold.maxGapUs.toNat) Int64.maxValue.toInt) fun next =>
        min next.tsUs.toInt (min (sample.tsUs.toInt + hold.maxGapUs.toNat) Int64.maxValue.toInt) := by
  cases next with
  | none => exact toInt_saturatingAddUnsigned _ _
  | some next =>
    rw [holdCapped,Option.elim_some,Int64.toInt_min,toInt_saturatingAddUnsigned,Option.elim_some]

/-- The first gap of a kind starts before all others of that kind. -/
theorem Coverage.before_all_iff {gaps : Coverage} {q : CoverageSpan → Bool} {t : ℤ} :
    (∀ gap ∈ gaps.spans, q gap → t < gap.lo) ↔ ∀ gap, gaps.spans.find? q = some gap → t < gap.lo := by
  constructor
  · intro h gap hfind
    exact h gap (List.mem_of_find?_eq_some hfind) (List.find?_some hfind)
  · intro h gap hgap hq
    obtain ⟨first,hfirst⟩ := Option.isSome_iff_exists.mp (List.find?_isSome.mpr ⟨gap,hgap,hq⟩)
    have hlt := h first hfirst
    obtain ⟨_,before,after,hsplit,hnot⟩ := List.find?_eq_some_iff_append.mp hfirst
    have happart := gaps.apart
    rw [hsplit] at hgap happart
    rcases List.mem_append.mp hgap with hgap | hgap
    · have hno := hnot gap hgap
      rw [hq] at hno
      cases hno
    · rcases List.mem_cons.mp hgap with rfl | hgap
      · exact hlt
      · have hlo := (List.pairwise_cons.mp (List.pairwise_append.mp happart).2.1).1 gap hgap
        have hhi := first.lo_lt_hi
        omega

/-- The hold meets the gap. -/
def MeetsHold (sample : GaugeSample) (stop : ℤ) (gap : CoverageSpan) : Prop :=
  max gap.lo sample.tsUs.toInt < min gap.hi stop

instance (sample : GaugeSample) (stop : ℤ) (gap : CoverageSpan) :
    Decidable (MeetsHold sample stop gap) := inferInstanceAs (Decidable (_ < _))

theorem lt_holdStop_iff {sample : GaugeSample} {next : Option GaugeSample} {t : ℤ} :
    t < holdStop hold knownGaps sample next ↔ t < (holdCapped hold sample next).toInt ∧
      ∀ gap ∈ knownGaps.spans, MeetsHold sample (holdCapped hold sample next).toInt gap →
        t < gap.lo := by
  have hall := @Coverage.before_all_iff knownGaps
    (fun gap => decide (MeetsHold sample (holdCapped hold sample next).toInt gap)) t
  simp only [decide_eq_true_eq] at hall
  rw [hall,holdStop,← toInt_holdCapped]
  change _ < (match knownGaps.spans.find? fun gap =>
      decide (MeetsHold sample (holdCapped hold sample next).toInt gap) with
    | none => _
    | some gap => _) ↔ _
  cases knownGaps.spans.find? fun gap =>
      decide (MeetsHold sample (holdCapped hold sample next).toInt gap) with
  | none => simp
  | some gap => simp

theorem lt_holdEnd_iff {sample : GaugeSample} {next : Option GaugeSample} {t : ℤ}
    (h : sample.tsUs.toInt ≤ t) :
    t < (holdEnd hold (passEnded knownGaps.spans sample.tsUs) sample next).toInt ↔
      t < (holdCapped hold sample next).toInt ∧
        ∀ gap ∈ knownGaps.spans, MeetsHold sample (holdCapped hold sample next).toInt gap →
          t < gap.lo := by
  have hhead : (passEnded knownGaps.spans sample.tsUs).head? =
      knownGaps.spans.find? fun gap => decide (sample.tsUs < gap.toUs) := by
    rw [List.find?_eq_head?_dropWhile_not,passEnded]
    congr 2
    funext gap
    have hle : gap.toUs ≤ sample.tsUs ↔ ¬sample.tsUs < gap.toUs := by
      simp only [Int64.lt_iff_toInt_lt,Int64.le_iff_toInt_le]
      omega
    rw [decide_eq_decide.mpr hle,decide_not]
  have hall := @Coverage.before_all_iff knownGaps
    (fun gap => decide (sample.tsUs < gap.toUs)) t
  -- Before the stop, a gap that does not end before the sample matters as if it met the hold.
  have hmeets : t < (holdCapped hold sample next).toInt →
      ((∀ gap ∈ knownGaps.spans, MeetsHold sample (holdCapped hold sample next).toInt gap →
        t < gap.lo) ↔ ∀ gap ∈ knownGaps.spans, decide (sample.tsUs < gap.toUs) = true →
          t < gap.lo) := by
    intro hstop
    refine forall₂_congr fun gap _ => ?_
    have hlo := gap.lo_lt_hi
    have hhi : gap.hi = gap.toUs.toInt := rfl
    simp only [MeetsHold,decide_eq_true_eq,Int64.lt_iff_toInt_lt]
    omega
  rw [holdEnd,hhead]
  by_cases hstop : t < (holdCapped hold sample next).toInt
  · rw [hmeets hstop,hall,and_iff_right hstop]
    cases hfirst : knownGaps.spans.find? fun gap => decide (sample.tsUs < gap.toUs) with
    | none => simpa using hstop
    | some gap =>
      have hfound := List.find?_some hfirst
      have hends := of_decide_eq_true hfound
      have hlo : gap.lo = gap.fromUs.toInt := rfl
      simp only [Option.some.injEq,forall_eq']
      by_cases hfrom : gap.fromUs < holdCapped hold sample next
      · rw [if_pos ⟨hfrom,hends⟩,Int64.toInt_min,Int64.toInt_max]
        omega
      · rw [if_neg fun hboth => hfrom hboth.1]
        rw [Int64.lt_iff_toInt_lt] at hfrom
        omega
  · rw [iff_false_right (fun hboth => hstop hboth.1)]
    cases knownGaps.spans.find? fun gap => decide (sample.tsUs < gap.toUs) with
    | none => exact hstop
    | some gap =>
      dsimp only
      split_ifs
      · rw [Int64.toInt_min]
        omega
      · exact hstop

/-- The overlap that the code weighs is what the sample holds of the bucket. -/
theorem overlapMicros_holdOverlap (sample : GaugeSample) (next : Option GaugeSample) :
    overlapMicros (holdOverlap hold bucket (passEnded knownGaps.spans sample.tsUs) sample next) =
      heldMicros hold knownGaps bucket sample next := by
  ext t
  have hlo : bucket.lo = bucket.fromUs.toInt := rfl
  have hhi : bucket.hi = bucket.toUs.toInt := rfl
  rw [overlapMicros,heldMicros,holdOverlap,Int64.toInt_max,Int64.toInt_min]
  simp only [Finset.mem_inter,Finset.mem_Ico]
  by_cases hts : sample.tsUs.toInt ≤ t
  · rw [lt_holdStop_iff,← lt_holdEnd_iff hold knownGaps hts]
    omega
  · omega

/-- No gap has a point that a sample holds. -/
theorem heldMicros_disjoint_gap (sample : GaugeSample) (next : Option GaugeSample)
    {gap : CoverageSpan} (hgap : gap ∈ knownGaps.spans) :
    Disjoint (heldMicros hold knownGaps bucket sample next) (Finset.Ico gap.lo gap.hi) := by
  rw [Finset.disjoint_left]
  intro t ht hin
  rw [heldMicros,Finset.mem_inter,Finset.mem_Ico,lt_holdStop_iff] at ht
  rw [Finset.mem_Ico] at hin
  have hbefore := ht.1.2.2 gap hgap (by rw [MeetsHold]; omega)
  omega

theorem heldMicros_lt_next {sample next : GaugeSample} {t : ℤ}
    (h : t ∈ heldMicros hold knownGaps bucket sample (some next)) : t < next.tsUs.toInt := by
  rw [heldMicros,Finset.mem_inter,Finset.mem_Ico,lt_holdStop_iff,toInt_holdCapped,
    Option.elim_some] at h
  omega

theorem heldMicros_ge {sample : GaugeSample} {next : Option GaugeSample} {t : ℤ}
    (h : t ∈ heldMicros hold knownGaps bucket sample next) : sample.tsUs.toInt ≤ t := by
  rw [heldMicros,Finset.mem_inter,Finset.mem_Ico] at h
  exact h.1.1

theorem passEnded_passEnded {gaps : List CoverageSpan} {a b : Int64} (h : a ≤ b) :
    passEnded (passEnded gaps a) b = passEnded gaps b := by
  induction gaps with
  | nil => rfl
  | cons gap gaps ih =>
    by_cases ha : gap.toUs ≤ a
    · have hb : gap.toUs ≤ b := by
        rw [Int64.le_iff_toInt_le] at *
        omega
      simpa [passEnded,ha,hb] using ih
    · simp [passEnded,ha]

/-- One step weighs the overlap, or finds a sum that is not finite. -/
theorem addHold_eq (state : Float × ℕ) (sample : GaugeSample) {overlap : Int64 × Int64}
    (h : state.2 + overlapUs overlap ≤ u64Max) :
    addHold state sample overlap = .error .nonFiniteResult ∨
      ∃ sum, addHold state sample overlap = .ok (sum,state.2 + overlapUs overlap) := by
  rw [addHold]
  by_cases hlt : overlap.1 < overlap.2
  · rw [overlapUs,if_pos hlt] at h ⊢
    rw [if_pos hlt]
    dsimp only
    rw [checkedAdd_of_le h,finiteAdd]
    split_ifs
    · exact .inr ⟨_,rfl⟩
    · exact .inl rfl
    · exact .inl rfl
  · rw [overlapUs,if_neg hlt,if_neg hlt]
    exact .inr ⟨state.1,rfl⟩

def weighHolds (state : Float × ℕ) (pairs : List (GaugeSample × (Int64 × Int64))) :
    Except ReductionError (Float × ℕ) :=
  pairs.foldlM (fun state pair => addHold state pair.1 pair.2) state

def weightUs (overlaps : List (Int64 × Int64)) : ℕ := (overlaps.map overlapUs).sum

theorem weighHolds_eq {state : Float × ℕ} {pairs : List (GaugeSample × (Int64 × Int64))}
    (h : state.2 + weightUs (pairs.map Prod.snd) ≤ u64Max) :
    weighHolds state pairs = .error .nonFiniteResult ∨
      ∃ sum, weighHolds state pairs = .ok (sum,state.2 + weightUs (pairs.map Prod.snd)) := by
  induction pairs generalizing state with
  | nil => exact .inr ⟨state.1,rfl⟩
  | cons pair pairs ih =>
    rw [weightUs,List.map_cons,List.map_cons,List.sum_cons,← weightUs] at h ⊢
    rw [weighHolds,List.foldlM_cons]
    have hone : state.2 + overlapUs pair.2 ≤ u64Max := by omega
    rcases addHold_eq state pair.1 hone with hadd | ⟨sum,hadd⟩
    · exact .inl (by rw [hadd]; rfl)
    · rw [hadd,← Nat.add_assoc]
      have hrest : (sum,state.2 + overlapUs pair.2).2 + weightUs (pairs.map Prod.snd) ≤ u64Max := by
        dsimp only
        omega
      exact ih hrest

/-- Nothing is added up while nothing is held. -/
theorem weighHolds_of_zero {state : Float × ℕ} {pairs : List (GaugeSample × (Int64 × Int64))}
    (h : weightUs (pairs.map Prod.snd) = 0) : weighHolds state pairs = .ok state := by
  induction pairs with
  | nil => rfl
  | cons pair pairs ih =>
    rw [weightUs,List.map_cons,List.map_cons,List.sum_cons,← weightUs] at h
    have hnot : ¬pair.2.1 < pair.2.2 := by
      intro hlt
      have hpos : overlapUs pair.2 = 0 := by omega
      rw [overlapUs,if_pos hlt,Int64.toNat_sub_of_lt hlt] at hpos
      rw [Int64.lt_iff_toInt_lt] at hlt
      omega
    rw [weighHolds,List.foldlM_cons,addHold,if_neg hnot]
    exact ih (by omega)

theorem meanOfHolds_cases (state : Float × ℕ) :
    (state.2 = 0 ∧ meanOfHolds state = .ok none) ∨
    (state.2 ≠ 0 ∧ meanOfHolds state = .error .nonFiniteResult) ∨
    (state.2 ≠ 0 ∧ ∃ mean, meanOfHolds state = .ok (some ⟨mean,state.2⟩)) := by
  rw [meanOfHolds]
  by_cases h : state.2 = 0
  · exact .inl ⟨h,if_pos h⟩
  · rw [if_neg h]
    dsimp only
    split_ifs
    · exact .inr (.inr ⟨h,_,rfl⟩)
    · exact .inr (.inl ⟨h,rfl⟩)

/-- The loop weighs the overlaps one after another: the cursor hides no gap that counts. -/
theorem holdSamples_eq {samples : List GaugeSample} {gaps : List CoverageSpan} {state : Float × ℕ}
    (hascending : samples.Pairwise fun a b => a.tsUs < b.tsUs)
    (hgaps : ∀ s ∈ samples, passEnded gaps s.tsUs = passEnded knownGaps.spans s.tsUs) :
    holdSamples hold bucket gaps state samples =
      weighHolds state (samples.zip (holdOverlaps hold bucket knownGaps samples)) := by
  induction samples generalizing gaps state with
  | nil => rfl
  | cons sample samples ih =>
    obtain ⟨hlow,hrest⟩ := List.pairwise_cons.mp hascending
    rw [holdSamples,holdOverlaps,List.zip_cons_cons,weighHolds,List.foldlM_cons,
      hgaps sample (by simp)]
    refine congrArg _ (funext fun state => ih hrest fun s hs => ?_)
    refine passEnded_passEnded ?_
    have hlt := hlow s hs
    rw [Int64.lt_iff_toInt_lt] at hlt
    rw [Int64.le_iff_toInt_le]
    omega

theorem length_holdOverlaps (samples : List GaugeSample) :
    (holdOverlaps hold bucket knownGaps samples).length = samples.length := by
  induction samples with
  | nil => rfl
  | cons sample samples ih => simp [holdOverlaps,ih]

theorem holdOverlaps_get {samples : List GaugeSample} {k : ℕ} {sample : GaugeSample}
    (h : samples[k]? = some sample) :
    (holdOverlaps hold bucket knownGaps samples)[k]? =
      some (holdOverlap hold bucket (passEnded knownGaps.spans sample.tsUs) sample
        samples[k+1]?) := by
  induction samples generalizing k with
  | nil => simp at h
  | cons s samples ih =>
    cases k with
    | zero =>
      obtain rfl := Option.some.inj h
      simp [holdOverlaps,List.head?_eq_getElem?]
    | succ k => exact ih h

theorem mem_holdOverlaps {samples : List GaugeSample} {overlap : Int64 × Int64}
    (h : overlap ∈ holdOverlaps hold bucket knownGaps samples) :
    ∃ sample ∈ samples, ∃ next, overlapMicros overlap =
      heldMicros hold knownGaps bucket sample next := by
  obtain ⟨k,hk⟩ := List.mem_iff_getElem?.mp h
  have hlt := (List.getElem?_eq_some_iff.mp hk).1
  rw [length_holdOverlaps] at hlt
  have hsample := List.getElem?_eq_getElem hlt
  rw [holdOverlaps_get hold bucket knownGaps hsample] at hk
  exact ⟨_,List.getElem_mem hlt,_,Option.some.inj hk ▸ overlapMicros_holdOverlap _ _ _ _ _⟩

theorem holdOverlaps_disjoint {samples : List GaugeSample}
    (h : samples.Pairwise fun a b => a.tsUs < b.tsUs) :
    (holdOverlaps hold bucket knownGaps samples).Pairwise fun a b =>
      Disjoint (overlapMicros a) (overlapMicros b) := by
  induction samples with
  | nil => exact .nil
  | cons sample samples ih =>
    obtain ⟨hlow,hrest⟩ := List.pairwise_cons.mp h
    rw [holdOverlaps]
    refine List.pairwise_cons.mpr ⟨fun later hlater => ?_,ih hrest⟩
    obtain ⟨s,hs,next,heq⟩ := mem_holdOverlaps hold bucket knownGaps hlater
    rw [overlapMicros_holdOverlap,heq,Finset.disjoint_left]
    intro t ht hin
    have hge := heldMicros_ge hold bucket knownGaps hin
    cases samples with
    | nil => simp at hs
    | cons follower samples =>
      have hlt := heldMicros_lt_next hold bucket knownGaps ht
      rcases List.mem_cons.mp hs with rfl | hs
      · omega
      · have hnext := (List.pairwise_cons.mp hrest).1 s hs
        rw [Int64.lt_iff_toInt_lt] at hnext
        omega

/-- Disjoint parts of a set are together no more than the set. -/
theorem sum_card_le {parts : List (Finset ℤ)} {whole : Finset ℤ}
    (hdisjoint : parts.Pairwise Disjoint) (hsub : ∀ part ∈ parts, part ⊆ whole) :
    (parts.map Finset.card).sum ≤ whole.card := by
  induction parts generalizing whole with
  | nil => simp
  | cons part parts ih =>
    obtain ⟨hhead,htail⟩ := List.pairwise_cons.mp hdisjoint
    have hpart := hsub part (by simp)
    have hrest := @ih (whole \ part) htail fun p hp =>
      Finset.subset_sdiff.mpr ⟨hsub p (by simp [hp]),(hhead p hp).symm⟩
    have hle := Finset.card_le_card hpart
    rw [Finset.card_sdiff_of_subset hpart] at hrest
    rw [List.map_cons,List.sum_cons]
    omega

theorem weightUs_le {samples : List GaugeSample}
    (h : samples.Pairwise fun a b => a.tsUs < b.tsUs) :
    weightUs (holdOverlaps hold bucket knownGaps samples) ≤ bucket.durationUs := by
  have hcards : (holdOverlaps hold bucket knownGaps samples).map overlapUs =
      ((holdOverlaps hold bucket knownGaps samples).map overlapMicros).map Finset.card := by
    rw [List.map_map]
    exact List.map_congr_left fun overlap _ => overlapUs_eq overlap
  rw [weightUs,hcards,bucket.durationUs_eq,← Int.card_Ico]
  refine sum_card_le (List.pairwise_map.mpr (holdOverlaps_disjoint hold bucket knownGaps h)) ?_
  intro part hpart
  obtain ⟨overlap,hoverlap,rfl⟩ := List.mem_map.mp hpart
  obtain ⟨sample,_,next,heq⟩ := mem_holdOverlaps hold bucket knownGaps hoverlap
  rw [heq,heldMicros]
  exact Finset.inter_subset_right

end Hold

section Mean

variable {seriesId : MetricSeriesId}

theorem GaugeSeries.checkOrder_ok {samples : List GaugeSample} (h : GaugeSeries seriesId samples) :
    checkOrder samples = .ok () := by
  have hascending := h.ascending
  clear h
  induction samples with
  | nil => rfl
  | cons a samples ih =>
    cases samples with
    | nil => rfl
    | cons b samples =>
      have hlt := (List.pairwise_cons.mp hascending).1 b (by simp)
      have hnot : ¬b.tsUs ≤ a.tsUs := by
        simp only [Int64.lt_iff_toInt_lt,Int64.le_iff_toInt_le] at hlt ⊢
        omega
      rw [checkOrder,if_neg hnot]
      exact ih hascending.tail

theorem GaugeSeries.not_mixed {samples : List GaugeSample} (h : GaugeSeries seriesId samples) :
    mixedSeries samples = false := by
  cases samples with
  | nil => rfl
  | cons first samples =>
    rw [mixedSeries,List.head?_cons,Option.any_some,List.any_eq_false]
    intro s hs
    simp [h.series s hs,h.series first (by simp)]

/-- The limits leave room for the samples and the gaps. -/
structure GaugeLimits.Allow (limits : GaugeLimits) (samples gaps : ℕ) : Prop where
  items : samples ≤ limits.maxInputItems.toNat
  gauges : samples ≤ limits.maxGaugeSamples.toNat
  gaps : gaps ≤ limits.maxGapSpans.toNat

theorem timeWeightedMean_eq {haloPrevious : Option GaugeSample} {samples : List GaugeSample}
    {knownGaps : Coverage} {limits : GaugeLimits} (bucket : CoverageSpan) (hold : HoldModel)
    (h : GaugeSeries seriesId (haloPrevious.toList ++ samples))
    (hlimits : limits.Allow (haloPrevious.toList ++ samples).length knownGaps.spans.length) :
    timeWeightedMean haloPrevious samples bucket hold knownGaps limits =
      weighHolds (0,0) ((haloPrevious.toList ++ samples).zip
        (holdOverlaps hold bucket knownGaps (haloPrevious.toList ++ samples))) >>= meanOfHolds := by
  obtain ⟨hitems,hgauges,hgaps⟩ := hlimits
  rw [List.length_append] at hitems hgauges
  have hmax := limits.maxInputItems.toNat_lt
  rw [timeWeightedMean,checkedAdd_of_le (by rw [u64Max]; omega)]
  dsimp only
  rw [if_neg (by omega),h.not_mixed,h.checkOrder_ok,← holdSamples_eq hold bucket knownGaps
    h.ascending fun _ _ => rfl]
  rfl

/-- Hold coverage is exact: every sample weighs the microseconds of the bucket that it holds. -/
theorem timeWeightedMean_holds {haloPrevious : Option GaugeSample} {samples : List GaugeSample}
    {knownGaps : Coverage} {limits : GaugeLimits} (bucket : CoverageSpan) (hold : HoldModel)
    (h : GaugeSeries seriesId (haloPrevious.toList ++ samples))
    (hlimits : limits.Allow (haloPrevious.toList ++ samples).length knownGaps.spans.length) :
    let all := haloPrevious.toList ++ samples
    let result := timeWeightedMean haloPrevious samples bucket hold knownGaps limits
    ∃ overlaps : List (Int64 × Int64), overlaps.length = all.length ∧
      result = weighHolds (0,0) (all.zip overlaps) >>= meanOfHolds ∧
      (∀ k sample, all[k]? = some sample → ∃ overlap, overlaps[k]? = some overlap ∧
        overlapMicros overlap = heldMicros hold knownGaps bucket sample all[k+1]? ∧
        overlapUs overlap = (heldMicros hold knownGaps bucket sample all[k+1]?).card) ∧
      (overlaps.Pairwise fun a b => Disjoint (overlapMicros a) (overlapMicros b)) ∧
      (∀ overlap ∈ overlaps, ∀ gap ∈ knownGaps.spans,
        Disjoint (overlapMicros overlap) (Finset.Ico gap.lo gap.hi)) ∧
      weightUs overlaps ≤ bucket.durationUs ∧
      (∀ reduction, result = .ok (some reduction) →
        reduction.coveredDurationUs = weightUs overlaps) ∧
      (result = .ok none ↔ weightUs overlaps = 0) ∧
      ∀ e, result = .error e → e = .nonFiniteResult := by
  intro all result
  have hlength := length_holdOverlaps hold bucket knownGaps all
  have hle : weightUs (holdOverlaps hold bucket knownGaps all) ≤ bucket.durationUs :=
    weightUs_le hold bucket knownGaps h.ascending
  have hmax := bucket.durationUs_le
  have hresult : result = weighHolds (0,0) (all.zip (holdOverlaps hold bucket knownGaps all)) >>=
      meanOfHolds := timeWeightedMean_eq bucket hold h hlimits
  have hweigh := @weighHolds_eq (0,0) (all.zip (holdOverlaps hold bucket knownGaps all))
  rw [List.map_snd_zip (by omega),Nat.zero_add] at hweigh
  have hcases : (result = .error .nonFiniteResult ∧
        weightUs (holdOverlaps hold bucket knownGaps all) ≠ 0) ∨
      (result = .ok none ∧ weightUs (holdOverlaps hold bucket knownGaps all) = 0) ∨
      ((∃ mean, result = .ok (some ⟨mean,weightUs (holdOverlaps hold bucket knownGaps all)⟩)) ∧
        weightUs (holdOverlaps hold bucket knownGaps all) ≠ 0) := by
    by_cases hzero : weightUs (holdOverlaps hold bucket knownGaps all) = 0
    · refine .inr (.inl ⟨?_,hzero⟩)
      rw [hresult,weighHolds_of_zero (by rw [List.map_snd_zip (by omega)]; exact hzero)]
      rfl
    · rcases hweigh (by omega) with herror | ⟨sum,hok⟩
      · exact .inl ⟨by rw [hresult,herror]; rfl,hzero⟩
      · rw [hresult,hok]
        rcases meanOfHolds_cases (sum,weightUs (holdOverlaps hold bucket knownGaps all))
          with hmean | hmean | hmean
        · exact absurd hmean.1 hzero
        · exact .inl ⟨hmean.2,hzero⟩
        · exact .inr (.inr ⟨hmean.2,hzero⟩)
  refine ⟨holdOverlaps hold bucket knownGaps all,hlength,hresult,fun k sample hsample => ?_,
    holdOverlaps_disjoint hold bucket knownGaps h.ascending,fun overlap hoverlap gap hgap => ?_,hle,
    ?_,?_,?_⟩
  · have hmicros := overlapMicros_holdOverlap hold bucket knownGaps sample all[k+1]?
    exact ⟨_,holdOverlaps_get hold bucket knownGaps hsample,hmicros,by rw [overlapUs_eq,hmicros]⟩
  · obtain ⟨sample,_,next,heq⟩ := mem_holdOverlaps hold bucket knownGaps hoverlap
    rw [heq]
    exact heldMicros_disjoint_gap hold bucket knownGaps sample next hgap
  · intro reduction hok
    rcases hcases with ⟨hr,_⟩ | ⟨hr,_⟩ | ⟨⟨mean,hr⟩,_⟩ <;> rw [hr] at hok
    · cases hok
    · cases hok
    · rw [← Option.some.inj (Except.ok.inj hok)]
  · rcases hcases with ⟨hr,hw⟩ | ⟨hr,hw⟩ | ⟨⟨mean,hr⟩,hw⟩ <;> simp [hr,hw]
  · intro e herror
    rcases hcases with ⟨hr,_⟩ | ⟨hr,_⟩ | ⟨⟨mean,hr⟩,_⟩ <;> rw [hr] at herror <;> cases herror
    rfl

end Mean

/-- A sample holds from before the bucket to the first gap, the next one up to the cap. -/
theorem timeWeightedMean_holds_sample :
    let sample := fun tsUs : Int64 => GaugeSample.mk ⟨.replicate 16 1⟩ tsUs
      ⟨2,by decide,fun h => absurd h (by decide)⟩
    ∃ overlaps : List (Int64 × Int64), overlaps.length = 2 ∧
      timeWeightedMean (some (sample 0)) [sample 10] ⟨2,40,by decide⟩ ⟨20⟩
          ⟨[⟨5,8,by decide⟩],by decide⟩ ⟨⟨8,8,8⟩,8⟩ =
        weighHolds (0,0) ([sample 0,sample 10].zip overlaps) >>= meanOfHolds := by
  intro sample
  obtain ⟨overlaps,hlength,hresult,_⟩ := @timeWeightedMean_holds ⟨.replicate 16 1⟩ (some (sample 0))
    [sample 10] ⟨[⟨5,8,by decide⟩],by decide⟩ ⟨⟨8,8,8⟩,8⟩ ⟨2,40,by decide⟩ ⟨20⟩
    ⟨by simp [sample],by simp [sample]⟩ ⟨by decide,by decide,by decide⟩
  exact ⟨overlaps,hlength,hresult⟩

end PgKronika
