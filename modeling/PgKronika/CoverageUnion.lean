import PgKronika.Coverage
import PgKronika.SpanSet

/-! Coverage is built from raw spans by union, and measured inside a bucket. -/
namespace PgKronika

open CheckedArith SpanSet

theorem Int64.toInt_max (a b : Int64) : (max a b).toInt = max a.toInt b.toInt := by
  by_cases h : a ≤ b
  · rw [show max a b = b from if_pos h,max_eq_right (Int64.le_iff_toInt_le.mp h)]
  · rw [show max a b = a from if_neg h,max_eq_left]
    rw [Int64.le_iff_toInt_le] at h
    omega

theorem Int64.toInt_min (a b : Int64) : (min a b).toInt = min a.toInt b.toInt := by
  by_cases h : a ≤ b
  · rw [show min a b = a from if_pos h,min_eq_left (Int64.le_iff_toInt_le.mp h)]
  · rw [show min a b = b from if_neg h,min_eq_right]
    rw [Int64.le_iff_toInt_le] at h
    omega

/-- A wrapping difference, read without its sign, is the distance. -/
theorem Int64.toNat_sub_of_lt {a b : Int64} (h : a < b) :
    (b - a).toUInt64.toNat = (b.toInt - a.toInt).toNat := by
  have hcond (x : Int64) : x.toInt = if 2*x.toUInt64.toNat < 2^64 then (x.toUInt64.toNat : ℤ)
      else x.toUInt64.toNat - (2^64 : ℕ) := BitVec.toInt_eq_toNat_cond x.toBitVec
  have ha := a.toUInt64.toNat_lt
  have hb := b.toUInt64.toNat_lt
  rw [Int64.lt_iff_toInt_lt] at h
  rw [Int64.toUInt64_sub,UInt64.toNat_sub]
  rw [hcond a,hcond b] at h ⊢
  split_ifs at h ⊢ <;> omega

/-- Spans are ordered by their start, then by their end. -/
def CoverageSpan.le (a b : CoverageSpan) : Bool :=
  decide (a.fromUs < b.fromUs ∨ a.fromUs = b.fromUs ∧ a.toUs ≤ b.toUs)

def CoverageSpan.durationUs (span : CoverageSpan) : ℕ := (span.toUs - span.fromUs).toUInt64.toNat

theorem CoverageSpan.lt_max {span : CoverageSpan} (toUs : Int64) :
    span.fromUs < max span.toUs toUs := by
  have h := span.lt
  rw [Int64.lt_iff_toInt_lt] at h ⊢
  rw [Int64.toInt_max]
  omega

/-- Extend the open span by what overlaps or touches it, else push it and open the next one. -/
def mergeSpans (last : CoverageSpan) : List CoverageSpan → List CoverageSpan
  | [] => [last]
  | span::rest =>
    if span.fromUs ≤ last.toUs then
      mergeSpans ⟨last.fromUs,max last.toUs span.toUs,CoverageSpan.lt_max span.toUs⟩ rest
    else last :: mergeSpans span rest

def CoverageSpan.lo (span : CoverageSpan) : ℤ := span.fromUs.toInt

def CoverageSpan.hi (span : CoverageSpan) : ℤ := span.toUs.toInt

def mergedSpans : List CoverageSpan → List CoverageSpan
  | [] => []
  | span::rest => mergeSpans span rest

section Merge

theorem CoverageSpan.lo_lt_hi (span : CoverageSpan) : span.lo < span.hi :=
  Int64.lt_iff_toInt_lt.mp span.lt

theorem CoverageSpan.ext_points (a b : CoverageSpan) (hlo : a.lo = b.lo) (hhi : a.hi = b.hi) :
    a = b := by
  obtain ⟨afrom,ato,ha⟩ := a
  obtain ⟨bfrom,bto,hb⟩ := b
  cases Int64.toInt_inj.mp hlo
  cases Int64.toInt_inj.mp hhi
  rfl

theorem mergeSpans_covered {last : CoverageSpan} {spans : List CoverageSpan}
    (hsorted : (last::spans).Pairwise fun a b => a.lo ≤ b.lo) {t : ℤ} :
    Covered CoverageSpan.lo CoverageSpan.hi (mergeSpans last spans) t ↔
      Covered CoverageSpan.lo CoverageSpan.hi (last::spans) t := by
  induction spans generalizing last with
  | nil => rfl
  | cons span rest ih =>
    rw [List.pairwise_cons,List.pairwise_cons] at hsorted
    obtain ⟨hlast,hspan,hrest⟩ := hsorted
    have hle := hlast span (List.mem_cons_self ..)
    rw [mergeSpans]
    split_ifs with htouch
    · rw [ih]
      · have hlt := span.lo_lt_hi
        have hlt' := last.lo_lt_hi
        rw [Int64.le_iff_toInt_le] at htouch
        simp only [covered_cons,CoverageSpan.lo,CoverageSpan.hi,Int64.toInt_max] at *
        rw [← or_assoc]
        refine or_congr_left ?_
        omega
      · exact List.pairwise_cons.mpr ⟨fun r hr => hlast r (List.mem_cons_of_mem _ hr),hrest⟩
    · rw [covered_cons,ih (List.pairwise_cons.mpr ⟨hspan,hrest⟩),← covered_cons]

theorem mergeSpans_lo {last : CoverageSpan} {spans : List CoverageSpan}
    (hsorted : (last::spans).Pairwise fun a b => a.lo ≤ b.lo) :
    ∀ s ∈ mergeSpans last spans, last.lo ≤ s.lo := by
  induction spans generalizing last with
  | nil => simp [mergeSpans]
  | cons span rest ih =>
    rw [List.pairwise_cons,List.pairwise_cons] at hsorted
    obtain ⟨hlast,hspan,hrest⟩ := hsorted
    rw [mergeSpans]
    split_ifs with htouch
    · exact ih (List.pairwise_cons.mpr ⟨fun r hr => hlast r (List.mem_cons_of_mem _ hr),hrest⟩)
    · intro s hs
      rcases List.mem_cons.mp hs with rfl | hs
      · exact le_rfl
      · exact (hlast span (List.mem_cons_self ..)).trans
          (ih (List.pairwise_cons.mpr ⟨hspan,hrest⟩) s hs)

/-- What has been pushed ends before the next span starts. -/
theorem mergeSpans_apart {last : CoverageSpan} {spans : List CoverageSpan}
    (hsorted : (last::spans).Pairwise fun a b => a.lo ≤ b.lo) :
    (mergeSpans last spans).Pairwise fun a b => a.toUs < b.fromUs := by
  induction spans generalizing last with
  | nil => exact List.pairwise_singleton _ _
  | cons span rest ih =>
    rw [List.pairwise_cons,List.pairwise_cons] at hsorted
    obtain ⟨hlast,hspan,hrest⟩ := hsorted
    rw [mergeSpans]
    split_ifs with htouch
    · exact ih (List.pairwise_cons.mpr ⟨fun r hr => hlast r (List.mem_cons_of_mem _ hr),hrest⟩)
    · have hbehind := List.pairwise_cons.mpr ⟨hspan,hrest⟩
      refine List.pairwise_cons.mpr ⟨fun s hs => ?_,ih hbehind⟩
      have hlo := mergeSpans_lo hbehind s hs
      rw [Int64.le_iff_toInt_le] at htouch
      exact Int64.lt_iff_toInt_lt.mpr ((not_le.mp htouch).trans_le hlo)

theorem mergedSpans_apart {spans : List CoverageSpan}
    (hsorted : spans.Pairwise fun a b => a.lo ≤ b.lo) :
    (mergedSpans spans).Pairwise fun a b => a.toUs < b.fromUs := by
  cases spans with
  | nil => exact .nil
  | cons span rest => exact mergeSpans_apart hsorted

theorem mergedSpans_covered {spans : List CoverageSpan}
    (hsorted : spans.Pairwise fun a b => a.lo ≤ b.lo) {t : ℤ} :
    Covered CoverageSpan.lo CoverageSpan.hi (mergedSpans spans) t ↔
      Covered CoverageSpan.lo CoverageSpan.hi spans t := by
  cases spans with
  | nil => rfl
  | cons span rest => exact mergeSpans_covered hsorted

theorem CoverageSpan.le_iff {a b : CoverageSpan} :
    a.le b = true ↔ a.lo < b.lo ∨ a.lo = b.lo ∧ a.hi ≤ b.hi := by
  rw [le,decide_eq_true_iff,Int64.lt_iff_toInt_lt,← Int64.toInt_inj,Int64.le_iff_toInt_le]
  rfl

theorem sortedSpans_lo (spans : List CoverageSpan) :
    (spans.mergeSort CoverageSpan.le).Pairwise fun a b => a.lo ≤ b.lo := by
  refine (List.pairwise_mergeSort ?_ ?_ spans).imp fun h => ?_
  · intro a b c hab hbc
    rw [CoverageSpan.le_iff] at *
    omega
  · intro a b
    rw [Bool.or_eq_true,CoverageSpan.le_iff,CoverageSpan.le_iff]
    omega
  · rw [CoverageSpan.le_iff] at h
    omega

end Merge

/-- The union of raw spans, in any order. -/
def Coverage.fromSpans (spans : List CoverageSpan) : Coverage where
  spans := mergedSpans (spans.mergeSort CoverageSpan.le)
  normalized := mergedSpans_apart (sortedSpans_lo spans)

def Coverage.union (a b : Coverage) : Coverage := .fromSpans (a.spans ++ b.spans)

/-- Total covered microseconds; nothing when the sum overflows. -/
def Coverage.coveredDurationUs (c : Coverage) : Option ℕ :=
  checkedSum 0 (c.spans.map CoverageSpan.durationUs)

def CoverageSpan.durationIn (bucket span : CoverageSpan) : ℕ :=
  let lo := max span.fromUs bucket.fromUs
  let hi := min span.toUs bucket.toUs
  if lo < hi then (hi - lo).toUInt64.toNat else 0

def Coverage.coveredDurationIn (c : Coverage) (bucket : CoverageSpan) : Option ℕ :=
  checkedSum 0 (c.spans.map bucket.durationIn)

def Coverage.covers (c : Coverage) (bucket : CoverageSpan) : Option Bool :=
  (c.coveredDurationIn bucket).map fun duration => decide (duration = bucket.durationUs)

section Union

/-- The microseconds that spans cover. -/
def CoveredAt (spans : List CoverageSpan) (t : ℤ) : Prop :=
  Covered CoverageSpan.lo CoverageSpan.hi spans t

theorem Coverage.apart (c : Coverage) : Apart CoverageSpan.lo CoverageSpan.hi c.spans :=
  c.normalized.imp fun h => Int64.lt_iff_toInt_lt.mp h

theorem Coverage.fromSpans_covered {spans : List CoverageSpan} {t : ℤ} :
    CoveredAt (fromSpans spans).spans t ↔ CoveredAt spans t := by
  refine (mergedSpans_covered (sortedSpans_lo spans)).trans ?_
  simp only [Covered,CoveredAt,List.mem_mergeSort]

theorem Coverage.eq_of_covered {a b : Coverage}
    (h : ∀ t, CoveredAt a.spans t ↔ CoveredAt b.spans t) : a = b := by
  have hspans := Apart.unique CoverageSpan.lo_lt_hi CoverageSpan.ext_points a.apart b.apart h
  obtain ⟨aspans,ha⟩ := a
  obtain ⟨bspans,hb⟩ := b
  cases hspans
  rfl

theorem Coverage.union_covered {a b : Coverage} {t : ℤ} :
    CoveredAt (a.union b).spans t ↔ CoveredAt a.spans t ∨ CoveredAt b.spans t :=
  fromSpans_covered.trans covered_append

theorem CoverageSpan.durationUs_eq (span : CoverageSpan) :
    span.durationUs = (span.hi - span.lo).toNat := Int64.toNat_sub_of_lt span.lt

theorem CoverageSpan.durationIn_eq (bucket span : CoverageSpan) :
    bucket.durationIn span = (min span.hi bucket.hi - max span.lo bucket.lo).toNat := by
  rw [durationIn]
  split_ifs with h
  · rw [Int64.toNat_sub_of_lt h,Int64.toInt_max,Int64.toInt_min]
    rfl
  · rw [Int64.lt_iff_toInt_lt,Int64.toInt_max,Int64.toInt_min] at h
    change ¬max span.lo bucket.lo < min span.hi bucket.hi at h
    omega

theorem CoverageSpan.durationUs_le (span : CoverageSpan) : span.durationUs ≤ u64Max :=
  Nat.le_pred_of_lt (UInt64.toNat_lt _)

/-- The microseconds of the bucket that are covered. -/
noncomputable def Coverage.coveredIn (c : Coverage) (bucket : CoverageSpan) : Finset ℤ :=
  SpanSet.coveredIn CoverageSpan.lo CoverageSpan.hi c.spans bucket.lo bucket.hi

theorem Coverage.card_coveredIn_le (c : Coverage) (bucket : CoverageSpan) :
    (c.coveredIn bucket).card ≤ bucket.durationUs := by
  rw [bucket.durationUs_eq]
  exact SpanSet.card_coveredIn_le _ _ _

theorem Coverage.coveredDurationIn_eq (c : Coverage) (bucket : CoverageSpan) :
    c.coveredDurationIn bucket = some (c.coveredIn bucket).card := by
  have hsum : (c.spans.map bucket.durationIn).sum = (c.coveredIn bucket).card := by
    rw [coveredIn,c.apart.card_coveredIn,funext bucket.durationIn_eq]
  have hle := c.card_coveredIn_le bucket
  have hmax := bucket.durationUs_le
  rw [coveredDurationIn,checkedSum_of_le (by omega),hsum,Nat.zero_add]

/-- Every microsecond that a span can cover. -/
def wholeSpan : CoverageSpan := ⟨Int64.minValue,Int64.maxValue,by decide⟩

theorem CoverageSpan.durationIn_whole (span : CoverageSpan) :
    wholeSpan.durationIn span = span.durationUs := by
  have hlo := Int64.minValue_le_toInt span.fromUs
  have hhi := Int64.toInt_le span.toUs
  have hmin : wholeSpan.lo = Int64.minValue.toInt := rfl
  have hmax : wholeSpan.hi = Int64.maxValue.toInt := rfl
  rw [durationIn_eq,durationUs_eq,hmin,hmax,lo,hi]
  rw [max_eq_left hlo,min_eq_left hhi]

theorem Coverage.coveredDurationUs_eq (c : Coverage) :
    c.coveredDurationUs = some (c.coveredIn wholeSpan).card := by
  rw [← coveredDurationIn_eq,coveredDurationIn,coveredDurationUs,
    funext CoverageSpan.durationIn_whole]

theorem Coverage.card_coveredIn_eq_iff (c : Coverage) (bucket : CoverageSpan) :
    (c.coveredIn bucket).card = bucket.durationUs ↔
      ∀ t, bucket.lo ≤ t → t < bucket.hi → CoveredAt c.spans t := by
  rw [bucket.durationUs_eq]
  exact SpanSet.card_coveredIn_eq_iff _ _ _

end Union

/-- Coverage is the union of its spans in a form of its own, and its durations are exact. -/
theorem coverage_is_union :
    (∀ spans, ((Coverage.fromSpans spans).spans.Pairwise fun a b => a.toUs < b.fromUs) ∧
      ∀ t, CoveredAt (Coverage.fromSpans spans).spans t ↔ CoveredAt spans t) ∧
    (∀ xs ys, (∀ t, CoveredAt xs t ↔ CoveredAt ys t) →
      Coverage.fromSpans xs = Coverage.fromSpans ys) ∧
    (∀ a b : Coverage, a.union b = b.union a) ∧
    (∀ a b c : Coverage, (a.union b).union c = a.union (b.union c)) ∧
    (∀ a : Coverage, a.union a = a) ∧
    (∀ (c : Coverage) (bucket : CoverageSpan),
      c.coveredDurationIn bucket = some (c.coveredIn bucket).card ∧
      (c.coveredIn bucket).card ≤ bucket.durationUs ∧
      ((c.coveredIn bucket).card = bucket.durationUs ↔
        ∀ t, bucket.lo ≤ t → t < bucket.hi → CoveredAt c.spans t) ∧
      (c.covers bucket = some true ↔ (c.coveredIn bucket).card = bucket.durationUs)) ∧
    ∀ c : Coverage, c.coveredDurationUs = some (c.coveredIn wholeSpan).card := by
  refine ⟨fun spans => ⟨Coverage.normalized _,fun t => Coverage.fromSpans_covered⟩,
    fun xs ys h => ?_,fun a b => ?_,fun a b c => ?_,fun a => ?_,fun c bucket => ?_,
    Coverage.coveredDurationUs_eq⟩
  · refine Coverage.eq_of_covered fun t => ?_
    rw [Coverage.fromSpans_covered,Coverage.fromSpans_covered,h]
  · refine Coverage.eq_of_covered fun t => ?_
    rw [Coverage.union_covered,Coverage.union_covered,or_comm]
  · refine Coverage.eq_of_covered fun t => ?_
    rw [Coverage.union_covered,Coverage.union_covered,Coverage.union_covered,
      Coverage.union_covered,or_assoc]
  · refine Coverage.eq_of_covered fun t => ?_
    rw [Coverage.union_covered,or_self]
  · refine ⟨c.coveredDurationIn_eq bucket,c.card_coveredIn_le bucket,
      c.card_coveredIn_eq_iff bucket,?_⟩
    rw [Coverage.covers,c.coveredDurationIn_eq]
    simp

end PgKronika
