import PgKronika.BoundedQuery
import PgKronika.Sha256
import PgKronika.WorstPoint

/-! The health line: floor evidence over the buckets of a range. The buckets cut the range
without a gap, and lines over adjacent aligned ranges concatenate. -/
namespace PgKronika

open ByteCodec CheckedArith

inductive EvidenceQuality
  | structured | parsed | heuristic | derivedExact
  deriving DecidableEq

/-- An observation with the evidence quality its floor depends on. -/
abbrev LineObservation := RetainedObservation EvidenceQuality

def sqlstateDataCorrupted : SqlState := ⟨#v[0x58,0x58,0x30,0x30,0x31]⟩

def sqlstateIndexCorrupted : SqlState := ⟨#v[0x58,0x58,0x30,0x30,0x32]⟩

def errorFloor (quality : EvidenceQuality) (severity : Severity) (sqlstate : Option SqlState) :
    Option FloorClass :=
  if ¬(quality = .structured ∨ quality = .derivedExact) then none
  else if severity = .panic then some .availability
  else if sqlstate = some sqlstateDataCorrupted ∨ sqlstate = some sqlstateIndexCorrupted then
    some .integrity
  else none

def observationFloor (o : LineObservation) : Option FloorClass :=
  match o.payload with
  | .errorGroup payload => errorFloor o.rest payload.severity payload.sqlstate
  | _ => none

def overviewHealthFactor : FactorId := ⟨1⟩

def overviewHealthDomain : DomainId := .databaseErrorPressure

def overviewHealthLimits : HealthLimits := ⟨8,8,8,65536,10000⟩

inductive HealthConfigError
  | profile (error : InvalidFactorProfile)
  | policy (error : InvalidHealthPolicy)

def healthPolicyVersion : UInt32 := 1

def reductionSemanticsVersion : UInt32 := 1

def overviewHealthPolicy (sha : Bytes → Digest) : Except HealthConfigError HealthPolicy := do
  let profile ← (RequiredFactorProfile.new sha 1 [(overviewHealthDomain,[overviewHealthFactor])] []
    overviewHealthLimits).mapError .profile
  (HealthPolicy.new healthPolicyVersion reductionSemanticsVersion profile (8/10) (5/10)
    overviewHealthLimits).mapError .policy

def uncoveredRequiredCoverage (bucket : CoverageSpan) : FactorCoverage where
  factorId := overviewHealthFactor
  applicability := .applicable
  state := .notCollected
  interval := bucket
  expectedPeriodUs := none
  periodQuality := .unknown
  cadenceEpochId := none
  crossesCadenceBoundary := false
  presentSamples := 0
  coveredDurationUs := 0
  sourcePopulation := none
  lossReasons := []
  lostCountLowerBound := none
  retainedExactness := .unknown
  sourceCompleteness := .unknown
  physicalCountSemantics := .notApplicable
  boundaryQuality := .unknown

/-- A step that does not fit is the largest one. -/
def lineStep (stepUs : UInt64) : Int64 :=
  if max stepUs.toNat 1 < 2^63 then .ofNat (max stepUs.toNat 1) else .maxValue

def saturatingAdd64 (a b : Int64) : Int64 := .ofIntClamp (a.toInt + b.toInt)

/-- The buckets from a start on, at most so many. -/
def lineBuckets (stop step : Int64) : ℕ → Int64 → Except HealthEvaluationError (List CoverageSpan)
  | 0,start => if start < stop then .error (.limitExceeded .downsamplePoints) else .ok []
  | left+1,start =>
    if start < stop then
      match CoverageSpan.new start (min (saturatingAdd64 start step) stop) with
      | none => .ok []
      | some bucket => (lineBuckets stop step left bucket.toUs).map fun rest => bucket::rest
    else .ok []

abbrev LineBucket := CoverageSpan × List FloorEvidence

def placeObservation (range : CoverageSpan) (step : Int64) (buckets : List LineBucket)
    (o : LineObservation) : Except HealthEvaluationError (List LineBucket) :=
  let ts := o.time.sortTsUs
  if ts < range.fromUs ∨ range.toUs ≤ ts then .ok buckets
  else
    let index := ((ts.toInt - range.fromUs.toInt) / step.toInt).toNat
    match buckets[index]? with
    | none => .error (.limitExceeded .downsamplePoints)
    | some (bucket,floors) =>
      match observationFloor o with
      | none => .ok buckets
      | some floorClass =>
        if floors.length = overviewHealthLimits.maxFloorEvidence then
          .error (.limitExceeded .floorEvidence)
        else .ok (buckets.set index (bucket,floors++[⟨floorClass,o.observationId⟩]))

def healthLine (sha : Bytes → Digest) (observations : List LineObservation) (range : CoverageSpan)
    (stepUs : UInt64) (policy : HealthPolicy) : Except HealthEvaluationError (List HealthPoint) := do
  let step := lineStep stepUs
  let buckets ← lineBuckets range.toUs step overviewHealthLimits.maxDownsamplePoints range.fromUs
  let filled ← observations.foldlM (placeObservation range step) (buckets.map fun b => (b,[]))
  filled.mapM fun entry =>
    policy.evaluateCell sha entry.1 [] [uncoveredRequiredCoverage entry.1] entry.2

section Buckets

variable {stop step start : Int64} {left : ℕ} {buckets : List CoverageSpan}

theorem lineStep_pos (stepUs : UInt64) : 0 < (lineStep stepUs).toInt := by
  rw [lineStep]
  split_ifs with hfits
  · rw [Int64.toInt_ofNat_of_lt hfits]
    omega
  · decide

theorem toInt_saturatingAdd64 (hstep : 0 < step.toInt) : (saturatingAdd64 start step).toInt =
    min (start.toInt + step.toInt) Int64.maxValue.toInt := by
  have hmin := start.minValue_le_toInt
  by_cases h : start.toInt + step.toInt ≤ Int64.maxValue.toInt
  · rw [saturatingAdd64,Int64.toInt_ofIntClamp (by omega) h,min_eq_left h]
  · rw [saturatingAdd64,Int64.ofIntClamp,min_eq_right (by omega)]
    rw [dif_pos (by omega),dif_neg h]

/-- The end of a bucket is exact, whatever the range. -/
theorem bucketEnd (start stop : Int64) (hstep : 0 < step.toInt) : (min (saturatingAdd64 start step) stop).toInt =
    min (start.toInt + step.toInt) stop.toInt := by
  have hmax := stop.toInt_le
  rw [Int64.toInt_min,toInt_saturatingAdd64 hstep]
  omega

/-- Buckets of one step each from a start on, the last one up to the end. -/
structure Cut (start stop step : ℤ) (buckets : List CoverageSpan) : Prop where
  lo : ∀ i (h : i < buckets.length), buckets[i].lo = start + i*step
  hi : ∀ i (h : i < buckets.length), buckets[i].hi = min (start + (i+1)*step) stop
  reach : stop ≤ start + buckets.length*step
  needed : ∀ i < buckets.length, start + i*step < stop

theorem Cut.unique {start stop step : ℤ} {bs bs' : List CoverageSpan} (h : Cut start stop step bs)
    (h' : Cut start stop step bs') : bs = bs' := by
  have hlen : ∀ {xs ys : List CoverageSpan}, Cut start stop step xs → Cut start stop step ys →
      xs.length ≤ ys.length := by
    intro xs ys hx hy
    by_contra hlt
    have hneeded := hx.needed ys.length (not_le.mp hlt)
    have hreach := hy.reach
    omega
  refine List.ext_getElem (le_antisymm (hlen h h') (hlen h' h)) fun i hi hi' => ?_
  exact CoverageSpan.ext_points _ _ ((h.lo i hi).trans (h'.lo i hi').symm)
    ((h.hi i hi).trans (h'.hi i hi').symm)

theorem Cut.empty {start stop step : ℤ} (h : stop ≤ start) : Cut start stop step [] :=
  ⟨by simp,by simp,by simpa using h,by simp⟩

theorem Cut.cons {start stop step : ℤ} {bucket : CoverageSpan} {bs : List CoverageSpan}
    (hstart : start < stop) (hlo : bucket.lo = start) (hhi : bucket.hi = min (start+step) stop)
    (h : Cut bucket.hi stop step bs) : Cut start stop step (bucket::bs) := by
  have hfull : bs ≠ [] → bucket.hi = start+step := by
    intro hne
    have hneeded := h.needed 0 (List.length_pos_iff.mpr hne)
    omega
  constructor
  · intro i hi
    cases i with
    | zero => simpa using hlo
    | succ i =>
      have hi' : i < bs.length := by simpa using hi
      rw [List.getElem_cons_succ,h.lo i hi',hfull (List.ne_nil_of_length_pos (by omega))]
      push_cast
      ring
  · intro i hi
    cases i with
    | zero => simpa using hhi
    | succ i =>
      have hi' : i < bs.length := by simpa using hi
      rw [List.getElem_cons_succ,h.hi i hi',hfull (List.ne_nil_of_length_pos (by omega))]
      push_cast
      ring_nf
  · cases bs with
    | nil =>
      have hreach := h.reach
      simp at hreach ⊢
      omega
    | cons b bs =>
      have hreach := h.reach
      rw [hfull (by simp)] at hreach
      rw [List.length_cons]
      push_cast at hreach ⊢
      linarith
  · intro i hi
    cases i with
    | zero => simpa using hstart
    | succ i =>
      have hi' : i < bs.length := by simpa using hi
      have hneeded := h.needed i hi'
      rw [hfull (List.ne_nil_of_length_pos (by omega))] at hneeded
      push_cast
      linarith

/-- The buckets cut the range, or there are too many of them. -/
theorem lineBuckets_cut (left : ℕ) (hstep : 0 < step.toInt) (hstart : start ≤ stop) :
    (∃ bs, lineBuckets stop step left start = .ok bs ∧ bs.length ≤ left ∧
      Cut start.toInt stop.toInt step.toInt bs) ∨
    lineBuckets stop step left start = .error (.limitExceeded .downsamplePoints) ∧
      start.toInt + left*step.toInt < stop.toInt := by
  rw [Int64.le_iff_toInt_le] at hstart
  induction left generalizing start with
  | zero =>
    rw [lineBuckets]
    by_cases hlt : start < stop
    · rw [if_pos hlt]
      rw [Int64.lt_iff_toInt_lt] at hlt
      exact .inr ⟨rfl,by simpa using hlt⟩
    · rw [if_neg hlt]
      rw [Int64.lt_iff_toInt_lt] at hlt
      exact .inl ⟨[],rfl,le_rfl,.empty (by omega)⟩
  | succ left ih =>
    rw [lineBuckets]
    by_cases hlt : start < stop
    · have hlt' := Int64.lt_iff_toInt_lt.mp hlt
      have hend := bucketEnd start stop hstep
      have hnew : start < min (saturatingAdd64 start step) stop := by
        rw [Int64.lt_iff_toInt_lt,hend]
        omega
      rw [if_pos hlt,CoverageSpan.new,dif_pos hnew]
      dsimp only
      rcases @ih (min (saturatingAdd64 start step) stop) (by omega) with
        ⟨bs,hbs,hlen,hcut⟩ | ⟨herror,hmany⟩
      · left
        refine ⟨_,by rw [hbs]; rfl,by simpa using hlen,?_⟩
        exact Cut.cons hlt' rfl hend hcut
      · right
        rw [herror]
        refine ⟨rfl,?_⟩
        rw [hend] at hmany
        push_cast
        have hle := min_le_left (start.toInt + step.toInt) stop.toInt
        by_cases hfull : start.toInt + step.toInt ≤ stop.toInt
        · rw [min_eq_left hfull] at hmany
          linarith
        · rw [min_eq_right (by omega)] at hmany
          nlinarith
    · rw [if_neg hlt]
      rw [Int64.lt_iff_toInt_lt] at hlt
      exact .inl ⟨[],rfl,Nat.zero_le _,.empty (by omega)⟩

theorem Cut.cover {start stop step : ℤ} {bs : List CoverageSpan} (h : Cut start stop step bs)
    (hstep : 0 < step) {t : ℤ} (hlow : start ≤ t) (hhigh : t < stop) :
    ∃ hi : ((t - start) / step).toNat < bs.length,
      bs[((t - start) / step).toNat].lo ≤ t ∧ t < bs[((t - start) / step).toNat].hi := by
  have hdiv := Int.ediv_nonneg (sub_nonneg.mpr hlow) hstep.le
  have hlo := Int.ediv_mul_le (t - start) hstep.ne'
  have hhi := Int.lt_ediv_add_one_mul_self (t - start) hstep
  have hindex : (((t - start) / step).toNat : ℤ) = (t - start) / step := Int.toNat_of_nonneg hdiv
  have hlen : ((t - start) / step).toNat < bs.length := by
    have hreach := h.reach
    by_contra hge
    have hge' : (bs.length : ℤ) ≤ (t - start) / step := by omega
    nlinarith
  refine ⟨hlen,?_,?_⟩
  · rw [h.lo _ hlen,hindex]
    linarith
  · rw [h.hi _ hlen,hindex]
    exact lt_min (by linarith) hhigh

/-- Every time of the range lies in exactly one bucket, and only those do. -/
theorem Cut.partition {start stop step : ℤ} {bs : List CoverageSpan} (h : Cut start stop step bs)
    (hstep : 0 < step) (t : ℤ) :
    (start ≤ t ∧ t < stop ↔ ∃ i, ∃ hi : i < bs.length, bs[i].lo ≤ t ∧ t < bs[i].hi) ∧
      ∀ i j (hi : i < bs.length) (hj : j < bs.length), bs[i].lo ≤ t → t < bs[i].hi →
        bs[j].lo ≤ t → t < bs[j].hi → i = j := by
  constructor
  · constructor
    · rintro ⟨hlow,hhigh⟩
      obtain ⟨hi,hin⟩ := h.cover hstep hlow hhigh
      exact ⟨_,hi,hin⟩
    · rintro ⟨i,hi,hlow,hhigh⟩
      rw [h.lo i hi] at hlow
      rw [h.hi i hi] at hhigh
      have hi0 : 0 ≤ (i : ℤ)*step := by positivity
      exact ⟨by linarith,lt_of_lt_of_le hhigh (min_le_right _ _)⟩
  · intro i j hi hj hilo hihi hjlo hjhi
    rw [h.lo i hi] at hilo
    rw [h.lo j hj] at hjlo
    rw [h.hi i hi] at hihi
    rw [h.hi j hj] at hjhi
    have hihi' := lt_of_lt_of_le hihi (min_le_left _ _)
    have hjhi' := lt_of_lt_of_le hjhi (min_le_left _ _)
    have hij : (i : ℤ) < j+1 := by nlinarith
    have hji : (j : ℤ) < i+1 := by nlinarith
    omega

/-- Cuts of two ranges that meet on a step make one. -/
theorem Cut.append {start middle stop step : ℤ} {xs ys : List CoverageSpan}
    (hx : Cut start middle step xs) (hy : Cut middle stop step ys)
    (hmiddle : middle = start + xs.length*step) (hstop : middle ≤ stop) (hstep : 0 < step) :
    Cut start stop step (xs++ys) := by
  have hlast : ∀ i < xs.length, start + ((i : ℤ)+1)*step ≤ middle := by
    intro i hi
    have hle : ((i : ℤ)+1) ≤ xs.length := by omega
    rw [hmiddle]
    nlinarith
  constructor
  · intro i hi
    by_cases hleft : i < xs.length
    · rw [List.getElem_append_left hleft,hx.lo i hleft]
    · have hi' : i - xs.length < ys.length := by simp at hi; omega
      have hcast : ((i - xs.length : ℕ) : ℤ) = i - xs.length := by omega
      rw [List.getElem_append_right (not_lt.mp hleft),hy.lo _ hi',hmiddle,hcast]
      ring
  · intro i hi
    by_cases hleft : i < xs.length
    · have hfit := hlast i hleft
      rw [List.getElem_append_left hleft,hx.hi i hleft,min_eq_left hfit,
        min_eq_left (hfit.trans hstop)]
    · have hi' : i - xs.length < ys.length := by simp at hi; omega
      have hcast : ((i - xs.length : ℕ) : ℤ) = i - xs.length := by omega
      rw [List.getElem_append_right (not_lt.mp hleft),hy.hi _ hi',hmiddle,hcast]
      ring_nf
  · have hreach := hy.reach
    rw [hmiddle] at hreach
    rw [List.length_append]
    push_cast
    linarith
  · intro i hi
    by_cases hleft : i < xs.length
    · exact (hx.needed i hleft).trans_le hstop
    · have hi' : i - xs.length < ys.length := by simp at hi; omega
      have hcast : ((i - xs.length : ℕ) : ℤ) = i - xs.length := by omega
      have hneeded := hy.needed _ hi'
      rw [hmiddle,hcast] at hneeded
      linarith

end Buckets

section Placement

variable {range : CoverageSpan} {step : Int64} {bs : List CoverageSpan} {o : LineObservation}
  {observations : List LineObservation}

/-- The floor that an observation gives a bucket. -/
def floorIn (bucket : CoverageSpan) (o : LineObservation) : Option FloorEvidence :=
  if bucket.lo ≤ o.time.sortTsUs.toInt ∧ o.time.sortTsUs.toInt < bucket.hi then
    (observationFloor o).map fun floorClass => ⟨floorClass,o.observationId⟩
  else none

def bucketFloors (bucket : CoverageSpan) (observations : List LineObservation) :
    List FloorEvidence := observations.filterMap (floorIn bucket)

/-- An observation joins the floors of its bucket, unless these are full. -/
theorem placeObservation_eq (hcut : Cut range.lo range.hi step.toInt bs) (hstep : 0 < step.toInt)
    (f : CoverageSpan → List FloorEvidence) :
    placeObservation range step (bs.map fun b => (b,f b)) o =
      if ∃ b ∈ bs, (floorIn b o).isSome = true ∧
          (f b).length = overviewHealthLimits.maxFloorEvidence then
        .error (.limitExceeded .floorEvidence)
      else .ok (bs.map fun b => (b,f b ++ (floorIn b o).toList)) := by
  obtain ⟨hpart,hunique⟩ := hcut.partition hstep o.time.sortTsUs.toInt
  rw [placeObservation]
  have hsame : (∀ b ∈ bs, floorIn b o = none) →
      (bs.map fun b => (b,f b ++ (floorIn b o).toList)) = bs.map fun b => (b,f b) := by
    intro hnone
    exact List.map_congr_left fun b hb => by simp [hnone b hb]
  by_cases hout : o.time.sortTsUs < range.fromUs ∨ range.toUs ≤ o.time.sortTsUs
  · have hnone : ∀ b ∈ bs, floorIn b o = none := by
      intro b hb
      obtain ⟨i,hi,rfl⟩ := List.getElem_of_mem hb
      refine if_neg fun hin => ?_
      have hrange := hpart.mpr ⟨i,hi,hin⟩
      rw [Int64.lt_iff_toInt_lt,Int64.le_iff_toInt_le] at hout
      simp only [CoverageSpan.lo,CoverageSpan.hi] at hrange
      omega
    dsimp only
    rw [if_pos hout,hsame hnone,if_neg (by
      rintro ⟨b,hb,hsome,-⟩
      simp [hnone b hb] at hsome)]
  · have hin : range.lo ≤ o.time.sortTsUs.toInt ∧ o.time.sortTsUs.toInt < range.hi := by
      rw [Int64.lt_iff_toInt_lt,Int64.le_iff_toInt_le] at hout
      simp only [CoverageSpan.lo,CoverageSpan.hi]
      omega
    obtain ⟨hi,hbucket⟩ := hcut.cover hstep hin.1 hin.2
    dsimp only
    rw [if_neg hout]
    set index := ((o.time.sortTsUs.toInt - range.lo) / step.toInt).toNat with hindex
    have hget : (bs.map fun b => (b,f b))[((o.time.sortTsUs.toInt - range.fromUs.toInt) /
        step.toInt).toNat]? = some (bs[index],f bs[index]) := by
      rw [List.getElem?_map]
      change (bs[index]?).map _ = _
      rw [List.getElem?_eq_getElem hi]
      rfl
    have hothers : ∀ j (hj : j < bs.length), j ≠ index → floorIn bs[j] o = none := by
      intro j hj hne
      exact if_neg fun hjin => hne (hunique j index hj hi hjin.1 hjin.2 hbucket.1 hbucket.2)
    rw [hget]
    dsimp only
    cases hfloor : observationFloor o with
    | none =>
      have hnone : ∀ b ∈ bs, floorIn b o = none := by
        intro b _
        rw [floorIn,hfloor]
        simp
      dsimp only
      rw [hsame hnone,if_neg (by
        rintro ⟨b,hb,hsome,-⟩
        simp [hnone b hb] at hsome)]
    | some floorClass =>
      have hself : floorIn bs[index] o = some ⟨floorClass,o.observationId⟩ := by
        rw [floorIn,if_pos hbucket,hfloor]
        rfl
      have hfull : (∃ b ∈ bs, (floorIn b o).isSome = true ∧
          (f b).length = overviewHealthLimits.maxFloorEvidence) ↔
            (f bs[index]).length = overviewHealthLimits.maxFloorEvidence := by
        constructor
        · rintro ⟨b,hb,hsome,hlen⟩
          obtain ⟨j,hj,rfl⟩ := List.getElem_of_mem hb
          by_cases hji : j = index
          · subst hji
            exact hlen
          · rw [hothers j hj hji] at hsome
            cases hsome
        · exact fun hlen => ⟨bs[index],List.getElem_mem hi,by rw [hself]; rfl,hlen⟩
      dsimp only
      simp only [hfull]
      split_ifs
      · rfl
      · refine congrArg Except.ok (List.ext_getElem (by simp) fun j hj hj' => ?_)
        have hjlen : j < bs.length := by simpa using hj'
        rw [List.getElem_map]
        by_cases hji : j = index
        · subst hji
          rw [hself]
          exact List.getElem_set_self ..
        · rw [hothers j hjlen hji,Option.toList_none,List.append_nil]
          refine (List.getElem_set_ne (Ne.symm hji) _).trans ?_
          rw [List.getElem_map]

theorem bucketFloors_cons (b : CoverageSpan) :
    bucketFloors b (o::observations) = (floorIn b o).toList ++ bucketFloors b observations := by
  cases h : floorIn b o <;> simp [bucketFloors,h]

/-- The floors of a bucket are those of its observations, in order, or too many. -/
theorem placeObservations_eq (hcut : Cut range.lo range.hi step.toInt bs) (hstep : 0 < step.toInt)
    (f : CoverageSpan → List FloorEvidence)
    (hf : ∀ b ∈ bs, (f b).length ≤ overviewHealthLimits.maxFloorEvidence) :
    observations.foldlM (placeObservation range step) (bs.map fun b => (b,f b)) =
      if ∀ b ∈ bs, (f b ++ bucketFloors b observations).length ≤
          overviewHealthLimits.maxFloorEvidence then
        .ok (bs.map fun b => (b,f b ++ bucketFloors b observations))
      else .error (.limitExceeded .floorEvidence) := by
  induction observations generalizing f with
  | nil =>
    rw [List.foldlM_nil,if_pos (by simpa [bucketFloors] using hf)]
    simp [bucketFloors]
    rfl
  | cons o rest ih =>
    rw [List.foldlM_cons,placeObservation_eq hcut hstep]
    by_cases hfull : ∃ b ∈ bs, (floorIn b o).isSome = true ∧
        (f b).length = overviewHealthLimits.maxFloorEvidence
    · have hmany : ¬∀ b ∈ bs, (f b ++ bucketFloors b (o::rest)).length ≤
          overviewHealthLimits.maxFloorEvidence := by
        obtain ⟨b,hb,hsome,hlen⟩ := hfull
        obtain ⟨floor,hfloor⟩ := Option.isSome_iff_exists.mp hsome
        intro hall
        have hle := hall b hb
        rw [bucketFloors_cons,hfloor] at hle
        simp only [List.length_append,Option.toList_some,List.length_cons] at hle
        omega
      rw [if_pos hfull,if_neg hmany]
      rfl
    · have hnext : ∀ b ∈ bs, (f b ++ (floorIn b o).toList).length ≤
          overviewHealthLimits.maxFloorEvidence := by
        intro b hb
        have hle := hf b hb
        cases hfloor : floorIn b o with
        | none => simpa using hle
        | some floor =>
          have hne : (f b).length ≠ overviewHealthLimits.maxFloorEvidence := fun hlen =>
            hfull ⟨b,hb,by rw [hfloor]; rfl,hlen⟩
          simp only [List.length_append,Option.toList_some,List.length_cons,List.length_nil]
          omega
      rw [if_neg hfull]
      refine (ih _ hnext).trans ?_
      simp only [bucketFloors_cons,List.append_assoc]

end Placement

section Line

variable {sha : Bytes → Digest} {observations : List LineObservation}
  {range left right whole : CoverageSpan} {stepUs : UInt64} {policy : HealthPolicy}
  {points : List HealthPoint} {bs : List CoverageSpan}

def lineCell (sha : Bytes → Digest) (policy : HealthPolicy) (observations : List LineObservation)
    (bucket : CoverageSpan) : Except HealthEvaluationError HealthPoint :=
  policy.evaluateCell sha bucket [] [uncoveredRequiredCoverage bucket]
    (bucketFloors bucket observations)

/-- The buckets of a line that is answered. -/
structure LineOf (range : CoverageSpan) (stepUs : UInt64) (observations : List LineObservation)
    (bs : List CoverageSpan) : Prop where
  few : bs.length ≤ overviewHealthLimits.maxDownsamplePoints
  cut : Cut range.lo range.hi (lineStep stepUs).toInt bs
  floors : ∀ b ∈ bs, (bucketFloors b observations).length ≤ overviewHealthLimits.maxFloorEvidence

theorem LineOf.buckets (h : LineOf range stepUs observations bs) :
    lineBuckets range.toUs (lineStep stepUs) overviewHealthLimits.maxDownsamplePoints range.fromUs =
      .ok bs := by
  have hstart : range.fromUs ≤ range.toUs := by
    rw [Int64.le_iff_toInt_le]
    exact range.lo_lt_hi.le
  have hstep := lineStep_pos stepUs
  rcases lineBuckets_cut overviewHealthLimits.maxDownsamplePoints hstep hstart with
    ⟨bs',hbs',-,hcut⟩ | ⟨-,hmany⟩
  · rw [hbs',h.cut.unique hcut]
  · have hreach := h.cut.reach
    have hfew : (bs.length : ℤ) ≤ overviewHealthLimits.maxDownsamplePoints := by
      exact_mod_cast h.few
    simp only [CoverageSpan.lo,CoverageSpan.hi] at hreach
    nlinarith

theorem healthLine_eq_ok : healthLine sha observations range stepUs policy = .ok points ↔
    ∃ bs, LineOf range stepUs observations bs ∧ bs.mapM (lineCell sha policy observations) = .ok points := by
  have hstart : range.fromUs ≤ range.toUs := by
    rw [Int64.le_iff_toInt_le]
    exact range.lo_lt_hi.le
  have hstep := lineStep_pos stepUs
  have hplaced : ∀ bs, Cut range.lo range.hi (lineStep stepUs).toInt bs →
      observations.foldlM (placeObservation range (lineStep stepUs)) (bs.map fun b => (b,[])) =
        if ∀ b ∈ bs, (bucketFloors b observations).length ≤
            overviewHealthLimits.maxFloorEvidence then
          .ok (bs.map fun b => (b,bucketFloors b observations))
        else .error (.limitExceeded .floorEvidence) := fun bs hcut =>
    placeObservations_eq hcut hstep (fun _ => []) fun _ _ => Nat.zero_le _
  have hcells : ∀ bs : List CoverageSpan, ((bs.map fun b => (b,bucketFloors b observations)).mapM
      fun entry => policy.evaluateCell sha entry.1 [] [uncoveredRequiredCoverage entry.1] entry.2) =
        bs.mapM (lineCell sha policy observations) := fun bs => List.mapM_map ..
  constructor
  · intro h
    obtain ⟨bs,hbs,h⟩ := bind_ok h
    obtain ⟨filled,hfilled,h⟩ := bind_ok h
    rcases lineBuckets_cut overviewHealthLimits.maxDownsamplePoints hstep hstart with
      ⟨bs',hbs',hfew,hcut⟩ | ⟨herror,-⟩
    · rw [hbs] at hbs'
      cases hbs'
      rw [hplaced bs hcut] at hfilled
      split_ifs at hfilled with hfloors
      cases hfilled
      exact ⟨bs,⟨hfew,hcut,hfloors⟩,(hcells bs).symm.trans h⟩
    · rw [hbs] at herror
      cases herror
  · rintro ⟨bs,hline,h⟩
    rw [healthLine,hline.buckets]
    simp only [bind,Except.bind]
    rw [hplaced bs hline.cut,if_pos hline.floors]
    exact (hcells bs).trans h

theorem cells_spans (h : List.Forall₂ (fun b p => lineCell sha policy observations b = .ok p) bs points) :
    points.map HealthPoint.interval = bs := by
  induction h with
  | nil => rfl
  | cons hcell _ ih => rw [List.map_cons,(evaluateCell_ok hcell).span,ih]

theorem cells_floors (h : List.Forall₂ (fun b p => lineCell sha policy observations b = .ok p) bs points) :
    ∀ point ∈ points, normalizeFloors (bucketFloors point.interval observations) =
      .ok point.floorEvidence := by
  induction h with
  | nil => simp
  | cons hcell _ ih =>
    refine List.forall_mem_cons.mpr ⟨?_,ih⟩
    have hpoint := evaluateCell_ok hcell
    rw [hpoint.span]
    exact hpoint.floorsKept

/-- The points of a line: one for each bucket, with its floors. -/
theorem healthLine_points (h : healthLine sha observations range stepUs policy = .ok points) :
    LineOf range stepUs observations (points.map HealthPoint.interval) ∧
      ∀ point ∈ points, ∀ floor, floor ∈ point.floorEvidence ↔
        ∃ o ∈ observations, floorIn point.interval o = some floor := by
  obtain ⟨bs,hline,hcells⟩ := healthLine_eq_ok.mp h
  have hcells := mapM_eq_ok.mp hcells
  refine ⟨by rwa [cells_spans hcells],fun point hpoint floor => ?_⟩
  rw [(normalizeFloors_ok (cells_floors hcells point hpoint)).2,bucketFloors,List.mem_filterMap]

/-- Every range has its buckets. -/
theorem exists_cut (range : CoverageSpan) (stepUs : UInt64) :
    ∃ bs, Cut range.lo range.hi (lineStep stepUs).toInt bs := by
  have hstart : range.fromUs ≤ range.toUs := by
    rw [Int64.le_iff_toInt_le]
    exact range.lo_lt_hi.le
  have hstep := lineStep_pos stepUs
  rcases lineBuckets_cut (range.hi - range.lo).toNat hstep hstart with
    ⟨bs,-,-,hcut⟩ | ⟨-,hmany⟩
  · exact ⟨bs,hcut⟩
  · have hlt := range.lo_lt_hi
    have hcast : ((range.hi - range.lo).toNat : ℤ) = range.hi - range.lo :=
      Int.toNat_of_nonneg (by omega)
    rw [hcast] at hmany
    simp only [CoverageSpan.lo,CoverageSpan.hi] at hmany hlt
    nlinarith

/-- A line that ends on a step has that many buckets. -/
theorem Cut.length_of_aligned {start stop step : ℤ} (h : Cut start stop step bs) (hstep : 0 < step)
    {k : ℕ} (hk : stop = start + k*step) : bs.length = k := by
  have hreach := h.reach
  have hle : (k : ℤ) ≤ bs.length := by nlinarith
  by_contra hne
  have hneeded := h.needed k (by omega)
  omega

/-- The line of a range is the lines of its two parts, if they meet on a step and together keep
to the number of buckets. -/
theorem healthLine_append (hmeet : left.toUs = right.fromUs) (hfrom : whole.fromUs = left.fromUs)
    (hto : whole.toUs = right.toUs) {k : ℕ}
    (haligned : left.hi = left.lo + k*(lineStep stepUs).toInt) :
    healthLine sha observations whole stepUs policy = .ok points ↔
      ∃ ps qs, healthLine sha observations left stepUs policy = .ok ps ∧
        healthLine sha observations right stepUs policy = .ok qs ∧ points = ps ++ qs ∧
        ps.length + qs.length ≤ overviewHealthLimits.maxDownsamplePoints := by
  have hstep := lineStep_pos stepUs
  have hmeet' : left.hi = right.lo := congrArg Int64.toInt hmeet
  have hfrom' : whole.lo = left.lo := congrArg Int64.toInt hfrom
  have hto' : whole.hi = right.hi := congrArg Int64.toInt hto
  have hjoin : ∀ {xs ys : List CoverageSpan}, Cut left.lo left.hi (lineStep stepUs).toInt xs →
      Cut right.lo right.hi (lineStep stepUs).toInt ys →
      Cut whole.lo whole.hi (lineStep stepUs).toInt (xs++ys) := by
    intro xs ys hx hy
    rw [hfrom',hto']
    have hlen := hx.length_of_aligned hstep haligned
    refine hx.append (hmeet' ▸ hy) ?_ ?_ hstep
    · rw [haligned,hlen]
    · rw [hmeet']
      exact right.lo_lt_hi.le
  have hlengths : ∀ {bs : List CoverageSpan} {ps : List HealthPoint},
      bs.mapM (lineCell sha policy observations) = .ok ps → ps.length = bs.length :=
    fun h => (mapM_eq_ok.mp h).length_eq.symm
  constructor
  · intro h
    obtain ⟨bs,hline,hcells⟩ := healthLine_eq_ok.mp h
    obtain ⟨xs,ys,hx,hy,rfl⟩ : ∃ xs ys, Cut left.lo left.hi (lineStep stepUs).toInt xs ∧
        Cut right.lo right.hi (lineStep stepUs).toInt ys ∧ bs = xs++ys := by
      obtain ⟨xs,hx⟩ := exists_cut left stepUs
      obtain ⟨ys,hy⟩ := exists_cut right stepUs
      exact ⟨xs,ys,hx,hy,hline.cut.unique (hjoin hx hy)⟩
    rw [List.mapM_append] at hcells
    obtain ⟨ps,hps,hcells⟩ := bind_ok hcells
    obtain ⟨qs,hqs,hcells⟩ := bind_ok hcells
    cases hcells
    have hfew := hline.few
    rw [List.length_append] at hfew
    refine ⟨ps,qs,healthLine_eq_ok.mpr ⟨xs,⟨by omega,hx,fun b hb => hline.floors b ?_⟩,hps⟩,
      healthLine_eq_ok.mpr ⟨ys,⟨by omega,hy,fun b hb => hline.floors b ?_⟩,hqs⟩,rfl,?_⟩
    · exact List.mem_append_left _ hb
    · exact List.mem_append_right _ hb
    · rw [hlengths hps,hlengths hqs]
      exact hfew
  · rintro ⟨ps,qs,hps,hqs,rfl,hfew⟩
    obtain ⟨xs,hx,hps⟩ := healthLine_eq_ok.mp hps
    obtain ⟨ys,hy,hqs⟩ := healthLine_eq_ok.mp hqs
    rw [hlengths hps,hlengths hqs] at hfew
    refine healthLine_eq_ok.mpr ⟨xs++ys,⟨by rwa [List.length_append],hjoin hx.cut hy.cut,?_⟩,?_⟩
    · intro b hb
      exact (List.mem_append.mp hb).elim (hx.floors b) (hy.floors b)
    · rw [List.mapM_append,hps]
      simp only [bind,Except.bind,hqs]
      rfl

end Line

/-- Reductions do not depend on the order or grouping of the points, up to ties, and lines cut
their range and concatenate. -/
theorem worst_points_and_lines :
    (∀ {β : Type} (g : HealthPoint → β) (points : List HealthPoint) (bucket : CoverageSpan)
      (limits : HealthLimits), TiesAgree g points →
      (∀ points' : List HealthPoint, points'.Perm points →
        (downsampleWorst points' bucket limits).map (Option.map (DownsampledHealthPoint.view g)) =
          (downsampleWorst points bucket limits).map (Option.map (DownsampledHealthPoint.view g))) ∧
      ∀ result, downsampleWorst points bucket limits = .ok (some result) →
        ∀ groups : List (List HealthPoint × CoverageSpan),
          (groups.map Prod.fst).flatten.Perm points → (∀ group ∈ groups, group.1 ≠ []) →
          (∀ group ∈ groups, ∀ point ∈ group.1, ¬(point.interval.fromUs < group.2.fromUs ∨
            group.2.toUs < point.interval.toUs)) →
          (∀ group ∈ groups, ∃ part, downsampleWorst group.1 group.2 limits = .ok (some part)) ∧
          ∀ reduce : List HealthPoint × CoverageSpan → DownsampledHealthPoint,
            (∀ group ∈ groups, downsampleWorst group.1 group.2 limits = .ok (some (reduce group))) →
            (∃ again, downsampleWorst (groups.map fun group => (reduce group).representative)
              bucket limits = .ok (some again) ∧
                g again.representative = g result.representative) ∧
            ∀ floor, floor ∈ result.floorEvidence ↔
              ∃ group ∈ groups, floor ∈ (reduce group).floorEvidence) ∧
    (∀ (policy : HealthPolicy) sha (points : List HealthPoint),
      (∀ point ∈ points, ∃ interval factors coverage floors,
        policy.evaluateCell sha interval factors coverage floors = .ok point) →
      TiesAgree HealthPoint.overallState points ∧
        TiesAgree (fun point => if point.hasFloor then none else point.overallScore) points) ∧
    (∀ (points : List HealthPoint) bucket limits result,
      downsampleWorst points bucket limits = .ok (some result) →
      ∀ point ∈ points, point.hasFloor = true → result.representative.hasFloor = true) ∧
    (∀ sha observations range stepUs policy points,
      healthLine sha observations range stepUs policy = .ok points →
      Cut range.lo range.hi (lineStep stepUs).toInt (points.map HealthPoint.interval) ∧
      (∀ t : ℤ, range.lo ≤ t ∧ t < range.hi ↔
        ∃ point ∈ points, point.interval.lo ≤ t ∧ t < point.interval.hi) ∧
      ∀ o ∈ observations, ∀ floorClass, observationFloor o = some floorClass →
        range.lo ≤ o.time.sortTsUs.toInt → o.time.sortTsUs.toInt < range.hi →
        ∃ i, ∃ hi : i < points.length, ⟨floorClass,o.observationId⟩ ∈ points[i].floorEvidence ∧
          ∀ j (hj : j < points.length), floorIn points[j].interval o ≠ none ↔ j = i) ∧
    ∀ sha observations (left right whole : CoverageSpan) stepUs policy points (k : ℕ),
      left.toUs = right.fromUs → whole.fromUs = left.fromUs → whole.toUs = right.toUs →
      left.hi = left.lo + k*(lineStep stepUs).toInt →
      (healthLine sha observations whole stepUs policy = .ok points ↔
        ∃ ps qs, healthLine sha observations left stepUs policy = .ok ps ∧
          healthLine sha observations right stepUs policy = .ok qs ∧ points = ps ++ qs ∧
          ps.length + qs.length ≤ overviewHealthLimits.maxDownsamplePoints) := by
  refine ⟨fun g points bucket limits hties => ⟨fun points' hperm =>
    downsampleWorst_perm hperm hties,fun result h groups hgroups hne hinside =>
      downsample_groups hgroups hne hinside h hties⟩,fun _ _ _ => ties_of_policy,?_,?_,?_⟩
  · intro points bucket limits result h point hpoint hfloor
    exact (downsampleWorst_ok h).2.worst.hasFloor hpoint hfloor
  · intro sha observations range stepUs policy points h
    obtain ⟨hline,hfloors⟩ := healthLine_points h
    have hstep := lineStep_pos stepUs
    refine ⟨hline.cut,fun t => ?_,fun o ho floorClass hclass hlow hhigh => ?_⟩
    · rw [(hline.cut.partition hstep t).1]
      constructor
      · rintro ⟨i,hi,hin⟩
        have hi' : i < points.length := by simpa using hi
        rw [List.getElem_map] at hin
        exact ⟨points[i],List.getElem_mem hi',hin⟩
      · rintro ⟨point,hpoint,hin⟩
        obtain ⟨i,hi,rfl⟩ := List.getElem_of_mem hpoint
        exact ⟨i,by simpa using hi,by simpa using hin⟩
    · obtain ⟨i,hi,hin⟩ := (hline.cut.partition hstep _).1.mp ⟨hlow,hhigh⟩
      have hi' : i < points.length := by simpa using hi
      rw [List.getElem_map] at hin
      have hself : floorIn points[i].interval o = some ⟨floorClass,o.observationId⟩ := by
        rw [floorIn,if_pos hin,hclass]
        rfl
      refine ⟨i,hi',(hfloors _ (List.getElem_mem hi') _).mpr ⟨o,ho,hself⟩,fun j hj => ?_⟩
      constructor
      · intro hne
        have hjin : points[j].interval.lo ≤ o.time.sortTsUs.toInt ∧
            o.time.sortTsUs.toInt < points[j].interval.hi := by
          by_contra hout
          exact hne (if_neg hout)
        exact (hline.cut.partition hstep o.time.sortTsUs.toInt).2 j i (by simpa using hj) hi
          (by simpa using hjin.1) (by simpa using hjin.2) (by simpa using hin.1)
          (by simpa using hin.2)
      · rintro rfl
        rw [hself]
        simp
  · intro sha observations left right whole stepUs policy points k hmeet hfrom hto haligned
    exact healthLine_append hmeet hfrom hto haligned

section Sample

variable {sha : Bytes → Digest} {bucket : CoverageSpan} {coverage : List FactorCoverage}
  {floors kept : List FloorEvidence} {policy : HealthPolicy}

/-- The fixed policy of the overview. -/
structure IsOverview (policy : HealthPolicy) : Prop where
  required : policy.profile.requiredFactorsByDomain = [(overviewHealthDomain,[overviewHealthFactor])]
  limits : policy.limits = overviewHealthLimits

theorem overviewHealthPolicy_isOk (sha : Bytes → Digest) :
    ∃ policy, overviewHealthPolicy sha = .ok policy ∧ IsOverview policy := by
  have hchecked : checkProfile [(overviewHealthDomain,[overviewHealthFactor])] []
      overviewHealthLimits = .ok ([(overviewHealthDomain,[overviewHealthFactor])],[]) := rfl
  obtain ⟨profile,hprofile,hrequired,hcount⟩ : ∃ profile, RequiredFactorProfile.new sha 1
      [(overviewHealthDomain,[overviewHealthFactor])] [] overviewHealthLimits = .ok profile ∧
      profile.requiredFactorsByDomain = [(overviewHealthDomain,[overviewHealthFactor])] ∧
      profile.factorCount = 1 := by
    rw [RequiredFactorProfile.new]
    split
    · next herror =>
      rw [hchecked] at herror
      cases herror
    · next required optional hok =>
      rw [hchecked] at hok
      cases hok
      exact ⟨_,rfl,rfl,rfl⟩
  have hversions : healthPolicyVersion ≠ 0 ∧ reductionSemanticsVersion ≠ 0 := by decide
  have hthresholds : (0 : ℚ) ≤ 5/10 ∧ (5/10 : ℚ) ≤ 8/10 ∧ (8/10 : ℚ) ≤ 1 := by norm_num
  have hfits : profile.factorCount ≤ overviewHealthLimits.maxProfileFactors ∧
      profile.factorCount ≤ overviewHealthLimits.maxCellFactors ∧
      profile.factorCount ≤ overviewHealthLimits.maxCoverageEntries := by
    rw [hcount]
    decide
  rw [overviewHealthPolicy,hprofile]
  simp only [bind,Except.bind,Except.mapError]
  rw [HealthPolicy.new,dif_pos hversions,dif_pos hthresholds,dif_pos hfits]
  exact ⟨_,rfl,⟨hrequired,rfl⟩⟩

/-- Coverage of the one factor of the overview, or none. -/
def OverviewCoverage (bucket : CoverageSpan) (coverage : List FactorCoverage) : Prop :=
  coverage = [] ∨ ∃ entry, coverage = [entry] ∧ entry.factorId = overviewHealthFactor ∧
    entry.interval = bucket ∧ entry.isConsistent = true ∧ entry.lossReasons = []

theorem IsOverview.cell_isOk (h : IsOverview policy) (sha : Bytes → Digest)
    (hcoverage : OverviewCoverage bucket coverage)
    (hfloors : normalizeFloors floors = .ok kept)
    (hcount : floors.length ≤ overviewHealthLimits.maxFloorEvidence) :
    ∃ point, policy.evaluateCell sha bucket [] coverage floors = .ok point ∧
      ((∀ entry ∈ coverage, entry.applicability ≠ .applicable) →
        point.factorSetId = FactorSetId.derive sha policy.version policy.reductionSemanticsVersion
          policy.profile.profileId policy.profile.topologyId [] []) := by
  have hconfigured : policy.profile.configuredDomain overviewHealthFactor =
      some overviewHealthDomain := by
    simp [RequiredFactorProfile.configuredDomain,h.required]
  have hroom := refuse_ok (e := HealthEvaluationError.limitExceeded .floorEvidence) (u := ())
    |>.mpr (not_lt.mpr hcount)
  rcases hcoverage with rfl | ⟨entry,rfl,hfactor,hinterval,hconsistent,hloss⟩
  · rw [HealthPolicy.evaluateCell,h.limits]
    simp only [bind,Except.bind,hroom,hfloors]
    exact ⟨_,rfl,fun _ => rfl⟩
  · have hsame : {entry with lossReasons := sortedUnique entry.lossReasons} = entry := by
      obtain ⟨_,_,_,_,_,_,_,_,_,_,_,reasons,_,_,_,_,_⟩ := entry
      cases hloss
      rfl
    have hadmit : policy.admitCoverage bucket entry = .ok entry := by
      rw [HealthPolicy.admitCoverage,hsame]
      simp [refuse,hloss,hinterval,hconsistent,hfactor,hconfigured]
      rfl
    rw [HealthPolicy.evaluateCell,h.limits]
    have hcell : [entry].mapM (policy.admitCoverage bucket) = .ok [entry] :=
      mapM_eq_ok.mpr (.cons hadmit .nil)
    have hsort : SmallestKept.sortByKey FactorCoverage.factorId [entry] = [entry] := rfl
    simp only [bind,Except.bind,hroom,hfloors,hsort,hcell]
    refine ⟨_,rfl,fun hnone => ?_⟩
    have hno : decide (entry.applicability = .applicable) = false :=
      decide_eq_false (hnone entry List.mem_cons_self)
    simp only [List.filter_cons,hno,List.filter_nil]
    rfl

theorem OverviewCoverage.none (bucket : CoverageSpan) : OverviewCoverage bucket [] := .inl rfl

/-- The required factor does not apply. -/
def notApplicableCoverage (bucket : CoverageSpan) : FactorCoverage :=
  {uncoveredRequiredCoverage bucket with applicability := .notApplicable}

theorem notApplicableCoverage_valid (bucket : CoverageSpan) :
    (notApplicableCoverage bucket).isValidNotApplicable bucket = true := by
  simp [notApplicableCoverage,uncoveredRequiredCoverage,FactorCoverage.isValidNotApplicable]

theorem OverviewCoverage.notApplicable (bucket : CoverageSpan) :
    OverviewCoverage bucket [notApplicableCoverage bucket] := by
  refine .inr ⟨_,rfl,rfl,rfl,?_,rfl⟩
  have hvalid := notApplicableCoverage_valid bucket
  simp only [FactorCoverage.isConsistent,FactorCoverage.stateIsConsistent,notApplicableCoverage,
    uncoveredRequiredCoverage,FactorCoverage.populationIsConsistent,
    FactorCoverage.lossIsConsistent] at hvalid ⊢
  simpa using hvalid

theorem OverviewCoverage.uncovered :
    OverviewCoverage bucket [uncoveredRequiredCoverage bucket] := by
  refine .inr ⟨_,rfl,rfl,rfl,?_,rfl⟩
  simp [FactorCoverage.isConsistent,FactorCoverage.stateIsConsistent,uncoveredRequiredCoverage,
    FactorCoverage.populationIsConsistent,FactorCoverage.lossIsConsistent]

/-- Without observations a line fails only for its length. -/
theorem IsOverview.emptyLine (h : IsOverview policy) {range : CoverageSpan} {k : ℕ}
    (haligned : range.hi = range.lo + k*(lineStep 1).toInt) :
    (∃ points, healthLine sha [] range 1 policy = .ok points) ↔
      k ≤ overviewHealthLimits.maxDownsamplePoints := by
  have hstep := lineStep_pos 1
  constructor
  · rintro ⟨points,hpoints⟩
    obtain ⟨bs,hline,-⟩ := healthLine_eq_ok.mp hpoints
    rw [← hline.cut.length_of_aligned hstep haligned]
    exact hline.few
  · intro hfew
    obtain ⟨bs,hcut⟩ := exists_cut range 1
    have hcells : ∀ b ∈ bs, ∃ point, lineCell sha policy [] b = .ok point := by
      intro b _
      have hnone : normalizeFloors [] = .ok [] := rfl
      obtain ⟨point,hpoint,-⟩ := h.cell_isOk sha .uncovered hnone (Nat.zero_le _)
      exact ⟨point,hpoint⟩
    obtain ⟨points,hpoints⟩ : ∃ points, bs.mapM (lineCell sha policy []) = .ok points := by
      clear hcut
      induction bs with
      | nil => exact ⟨[],rfl⟩
      | cons b rest ih =>
        obtain ⟨point,hpoint⟩ := hcells b List.mem_cons_self
        obtain ⟨points,hpoints⟩ := ih fun b hb => hcells b (List.mem_cons_of_mem _ hb)
        exact ⟨point::points,mapM_eq_ok.mpr (.cons hpoint (mapM_eq_ok.mp hpoints))⟩
    refine ⟨points,healthLine_eq_ok.mpr ⟨bs,⟨?_,hcut,fun b _ => Nat.zero_le _⟩,hpoints⟩⟩
    rw [hcut.length_of_aligned hstep haligned]
    exact hfew

def sampleFloor (fact : UInt8) : FloorEvidence := ⟨.availability,⟨.replicate 32 fact⟩⟩

/-- A point of the overview policy with one floor. -/
structure FloorPoint (sha : Bytes → Digest) (policy : HealthPolicy) (bucket : CoverageSpan)
    (coverage : List FactorCoverage) (floor : FloorEvidence) (point : HealthPoint) : Prop where
  evaluated : policy.evaluateCell sha bucket [] coverage [floor] = .ok point
  floors : point.floorEvidence = [floor]
  axes : point.axes = (policy.version,policy.reductionSemanticsVersion,policy.profile.topologyId)
  span : point.interval = bucket

theorem IsOverview.floorPoint (h : IsOverview policy) (sha : Bytes → Digest)
    (hcoverage : OverviewCoverage bucket coverage)
    (floor : FloorEvidence) : ∃ point, FloorPoint sha policy bucket coverage floor point ∧
      ((∀ entry ∈ coverage, entry.applicability ≠ .applicable) →
        point.factorSetId = FactorSetId.derive sha policy.version policy.reductionSemanticsVersion
          policy.profile.profileId policy.profile.topologyId [] []) := by
  have hkept : normalizeFloors [floor] = .ok [floor] := rfl
  obtain ⟨point,hpoint,hset⟩ := h.cell_isOk sha hcoverage hkept
    (by rw [List.length_singleton]; decide)
  have hevaluated := evaluateCell_ok hpoint
  have hfloors := hevaluated.floorsKept
  rw [hkept] at hfloors
  exact ⟨point,⟨hpoint,(Except.ok.inj hfloors).symm,hevaluated.versions,hevaluated.span⟩,hset⟩

theorem FloorPoint.hasFloor {floor : FloorEvidence} {point : HealthPoint}
    (h : FloorPoint sha policy bucket coverage floor point) : point.hasFloor = true := by
  rw [HealthPoint.hasFloor,h.floors]
  rfl

theorem selectWorst_tied {a b first : HealthPoint} (ha : a.hasFloor = true) (hb : b.hasFloor = true)
    (h : a.floorOrder = b.floorOrder) : selectWorst first [a,b] = a := by
  simp [selectWorst,ha,hb,firstMin,h]

theorem FloorPoint.admitted {coverage' : List FactorCoverage} {floor floor' : FloorEvidence}
    {point point' : HealthPoint} {bucket' outer : CoverageSpan}
    (h : FloorPoint sha policy bucket coverage floor point)
    (h' : FloorPoint sha policy bucket' coverage' floor' point')
    (hin : outer.fromUs ≤ bucket.fromUs ∧ bucket.toUs ≤ outer.toUs)
    (hin' : outer.fromUs ≤ bucket'.fromUs ∧ bucket'.toUs ≤ outer.toUs)
    (hfact : floor.floorClass = floor'.floorClass) :
    Admitted [point,point'] outer overviewHealthLimits := by
  have hflat : allFloors [point,point'] = [floor,floor'] := by simp [allFloors,h.floors,h'.floors]
  constructor
  · rw [List.length_cons,List.length_singleton]
    decide
  · have haxes : ∀ a ∈ [point,point'], a.axes =
        (policy.version,policy.reductionSemanticsVersion,policy.profile.topologyId) := by
      simp [h.axes,h'.axes]
    exact fun a ha b hb => (haxes a ha).trans (haxes b hb).symm
  · simp only [List.mem_cons,List.not_mem_nil,or_false]
    rintro a (rfl | rfl)
    · rw [h.span,Int64.lt_iff_toInt_lt,Int64.lt_iff_toInt_lt]
      simp only [Int64.le_iff_toInt_le] at hin
      omega
    · rw [h'.span,Int64.lt_iff_toInt_lt,Int64.lt_iff_toInt_lt]
      simp only [Int64.le_iff_toInt_le] at hin'
      omega
  · rw [hflat,List.length_cons,List.length_singleton]
    decide
  · rw [hflat]
    simp only [List.mem_cons,List.not_mem_nil,or_false]
    rintro a (rfl | rfl) b (rfl | rfl) -
    · rfl
    · exact hfact
    · exact hfact.symm
    · rfl

/-- Points with the same start, fact and factor set tie, and may differ in their scores. -/
theorem IsOverview.tie (h : IsOverview policy) (bucket : CoverageSpan) : ∃ p q d e,
    policy.evaluateCell sha bucket [] [notApplicableCoverage bucket] [sampleFloor 0] = .ok p ∧
    policy.evaluateCell sha bucket [] [] [sampleFloor 0] = .ok q ∧
    downsampleWorst [p,q] bucket overviewHealthLimits = .ok (some d) ∧
    downsampleWorst [q,p] bucket overviewHealthLimits = .ok (some e) ∧
    d.representative.overallScore = some 0 ∧ e.representative.overallScore = none := by
  obtain ⟨p,hp,hpset⟩ := h.floorPoint sha (.notApplicable bucket) (sampleFloor 0)
  obtain ⟨q,hq,hqset⟩ := h.floorPoint sha (.none bucket) (sampleFloor 0)
  have hin : bucket.fromUs ≤ bucket.fromUs ∧ bucket.toUs ≤ bucket.toUs :=
    ⟨Int64.le_refl _,Int64.le_refl _⟩
  have hset : p.factorSetId = q.factorSetId := by
    rw [hpset (by simp [notApplicableCoverage]),hqset (by simp)]
  have horder : p.floorOrder = q.floorOrder := by
    rw [HealthPoint.floorOrder,HealthPoint.floorOrder,HealthPoint.leastFact,HealthPoint.leastFact,
      HealthPoint.factorSetBytes,HealthPoint.factorSetBytes,hset,hp.floors,hq.floors,hp.span,hq.span]
  obtain ⟨d,hd⟩ := (hp.admitted hq hin hin rfl).reduces (by simp)
  obtain ⟨e,he⟩ := (hq.admitted hp hin hin rfl).reduces (by simp)
  obtain ⟨first,hdrep⟩ := (downsampleWorst_ok hd).2.selected
  obtain ⟨first',herep⟩ := (downsampleWorst_ok he).2.selected
  rw [selectWorst_tied hp.hasFloor hq.hasFloor horder] at hdrep
  rw [selectWorst_tied hq.hasFloor hp.hasFloor horder.symm] at herep
  have hpe := evaluateCell_ok hp.evaluated
  have hqe := evaluateCell_ok hq.evaluated
  have hrequired : policy.profile.requiredFactors = [overviewHealthFactor] := by
    simp [RequiredFactorProfile.requiredFactors,requiredIds,h.required]
  have hknown := hpe.known
  have hunknown := hqe.known
  rw [hrequired] at hknown hunknown
  refine ⟨p,q,d,e,hp.evaluated,hq.evaluated,hd,he,?_,?_⟩
  · obtain ⟨score,hscore⟩ := Option.isSome_iff_exists.mp (hknown.mpr (by
      simp only [List.mem_singleton,forall_eq]
      exact ⟨_,List.mem_cons_self,rfl,.inl (notApplicableCoverage_valid bucket)⟩))
    rw [hdrep,hpe.overall,hscore]
    rfl
  · have hnone : q.continuousScore = Option.none := by
      rw [← Option.not_isSome_iff_eq_none,hunknown]
      simp [FactorKnown]
    rw [herep,hqe.overall,hnone]
    rfl

/-- A worst point carries its own floors only. -/
theorem IsOverview.ownFloors (h : IsOverview policy) (bucket : CoverageSpan) : ∃ p q d e,
    policy.evaluateCell sha bucket [] [] [sampleFloor 0] = .ok p ∧
    policy.evaluateCell sha bucket [] [] [sampleFloor 1] = .ok q ∧
    downsampleWorst [p,q] bucket overviewHealthLimits = .ok (some d) ∧
    downsampleWorst [d.representative] bucket overviewHealthLimits = .ok (some e) ∧
    ∃ floor ∈ d.floorEvidence, floor ∉ e.floorEvidence := by
  obtain ⟨p,hp,-⟩ := h.floorPoint sha (.none bucket) (sampleFloor 0)
  obtain ⟨q,hq,-⟩ := h.floorPoint sha (.none bucket) (sampleFloor 1)
  have hin : bucket.fromUs ≤ bucket.fromUs ∧ bucket.toUs ≤ bucket.toUs :=
    ⟨Int64.le_refl _,Int64.le_refl _⟩
  have hboth := hp.admitted hq hin hin rfl
  obtain ⟨d,hd⟩ := hboth.reduces (by simp)
  have hreduced := (downsampleWorst_ok hd).2
  have hsub : [d.representative].Sublist [p,q] := List.singleton_sublist.mpr hreduced.worst.mem
  obtain ⟨e,he⟩ := (hboth.sub (.inl hsub)).reduces (by simp)
  have hfloors : ∀ floor, floor ∈ d.floorEvidence ↔ floor = sampleFloor 0 ∨ floor = sampleFloor 1 := by
    intro floor
    rw [(normalizeFloors_ok hreduced.floors).2,mem_allFloors]
    simp [hp.floors,hq.floors]
  have hown : ∀ floor, floor ∈ e.floorEvidence ↔ floor ∈ d.representative.floorEvidence := by
    intro floor
    rw [(normalizeFloors_ok (downsampleWorst_ok he).2.floors).2,mem_allFloors]
    simp
  have hne : sampleFloor 0 ≠ sampleFloor 1 := by decide
  refine ⟨p,q,d,e,hp.evaluated,hq.evaluated,hd,he,?_⟩
  rcases List.mem_pair.mp hreduced.worst.mem with hrep | hrep
  · exact ⟨sampleFloor 1,(hfloors _).mpr (.inr rfl),by rw [hown,hrep,hp.floors]; simpa using hne.symm⟩
  · exact ⟨sampleFloor 0,(hfloors _).mpr (.inl rfl),by rw [hown,hrep,hq.floors]; simpa using hne⟩

/-- Lines of six thousand buckets each are answered, and their union is refused. -/
theorem worst_points_tie_and_lines_end :
    ∃ policy, overviewHealthPolicy Sha256.sha256 = .ok policy ∧
      (∃ p q d e,
        policy.evaluateCell Sha256.sha256 ⟨0,1,by decide⟩ [] [notApplicableCoverage ⟨0,1,by decide⟩]
          [sampleFloor 0] = .ok p ∧
        policy.evaluateCell Sha256.sha256 ⟨0,1,by decide⟩ [] [] [sampleFloor 0] = .ok q ∧
        downsampleWorst [p,q] ⟨0,1,by decide⟩ overviewHealthLimits = .ok (some d) ∧
        downsampleWorst [q,p] ⟨0,1,by decide⟩ overviewHealthLimits = .ok (some e) ∧
        d.representative.overallScore = some 0 ∧ e.representative.overallScore = none) ∧
      (∃ p q d e,
        policy.evaluateCell Sha256.sha256 ⟨0,1,by decide⟩ [] [] [sampleFloor 0] = .ok p ∧
        policy.evaluateCell Sha256.sha256 ⟨0,1,by decide⟩ [] [] [sampleFloor 1] = .ok q ∧
        downsampleWorst [p,q] ⟨0,1,by decide⟩ overviewHealthLimits = .ok (some d) ∧
        downsampleWorst [d.representative] ⟨0,1,by decide⟩ overviewHealthLimits = .ok (some e) ∧
        ∃ floor ∈ d.floorEvidence, floor ∉ e.floorEvidence) ∧
      (∃ points, healthLine Sha256.sha256 [] ⟨0,6000,by decide⟩ 1 policy = .ok points) ∧
      (∃ points, healthLine Sha256.sha256 [] ⟨6000,12000,by decide⟩ 1 policy = .ok points) ∧
      ¬∃ points, healthLine Sha256.sha256 [] ⟨0,12000,by decide⟩ 1 policy = .ok points := by
  obtain ⟨policy,hpolicy,hoverview⟩ := overviewHealthPolicy_isOk Sha256.sha256
  refine ⟨policy,hpolicy,hoverview.tie _,hoverview.ownFloors _,?_,?_,?_⟩
  · exact (hoverview.emptyLine (k := 6000) (by decide)).mpr (by decide)
  · exact (hoverview.emptyLine (k := 6000) (by decide)).mpr (by decide)
  · rw [hoverview.emptyLine (k := 12000) (by decide)]
    decide

end Sample

end PgKronika
