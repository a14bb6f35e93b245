import Mathlib
import PgKronika.CounterReduction

/-! A counter series reduces to the same aggregate however it is split. -/
namespace PgKronika

open CheckedArith

section Sums

def totalDelta (pairs : List CounterPair) : ℕ := (pairs.map pairDelta).sum

def totalDurationUs (pairs : List CounterPair) : ℕ := (pairs.map pairDurationUs).sum

theorem sumPairs_eq {sumDelta sumDurationUs : ℕ} (hdelta : sumDelta ≤ u64Max)
    (hduration : sumDurationUs ≤ u64Max) (pairs : List CounterPair) :
    sumPairs sumDelta sumDurationUs pairs =
      if sumDelta + totalDelta pairs ≤ u64Max ∧ sumDurationUs + totalDurationUs pairs ≤ u64Max then
        .ok (sumDelta + totalDelta pairs,sumDurationUs + totalDurationUs pairs)
      else .error .countOverflow := by
  induction pairs generalizing sumDelta sumDurationUs with
  | nil => rw [if_pos ⟨hdelta,hduration⟩]; rfl
  | cons pair pairs ih =>
    have hd : totalDelta (pair::pairs) = pairDelta pair + totalDelta pairs := List.sum_cons
    have hu : totalDurationUs (pair::pairs) = pairDurationUs pair + totalDurationUs pairs :=
      List.sum_cons
    rw [sumPairs,hd,hu,← Nat.add_assoc,← Nat.add_assoc]
    by_cases h1 : sumDelta + pairDelta pair ≤ u64Max
    · rw [checkedAdd,if_pos h1]
      dsimp only
      by_cases h2 : sumDurationUs + pairDurationUs pair ≤ u64Max
      · rw [checkedAdd,if_pos h2]
        exact ih h1 h2
      · rw [checkedAdd,if_neg h2,if_neg (by omega)]
    · rw [checkedAdd,if_neg h1,if_neg (by omega)]

end Sums

/-- The sums fit the counters. -/
def CounterReduction.Fits (a : CounterReduction) : Prop :=
  a.sumDelta ≤ u64Max ∧ a.sumDurationUs ≤ u64Max

instance CounterReduction.decidableFits (a : CounterReduction) : Decidable a.Fits :=
  inferInstanceAs (Decidable (_ ∧ _))

/-- What some pairs amount to. -/
def pairsReduction (seriesId : MetricSeriesId) (alignmentId : AlignmentId) (bucket : CoverageSpan)
    (pairs : List CounterPair) : CounterReduction where
  seriesId
  alignmentId
  sumDelta := totalDelta pairs
  sumDurationUs := totalDurationUs pairs
  pairSupport := pairs.map support
  boundaryQuality := pairsQuality bucket pairs

/-- The reduction of the pairs that count, unless the counters overflow. -/
def reducePairs (seriesId : MetricSeriesId) (alignmentId : AlignmentId) (bucket : CoverageSpan)
    (pairs : List CounterPair) : Except ReductionError (Option CounterReduction) :=
  if pairs = [] then .ok none
  else if (pairsReduction seriesId alignmentId bucket pairs).Fits then
    .ok (some (pairsReduction seriesId alignmentId bucket pairs))
  else .error .countOverflow

/-- Classify a series and reduce a bucket of it. -/
def reduceSeries (haloPrevious : Option CounterSample) (samples : List CounterSample)
    (knownGaps : Coverage) (bucket : CoverageSpan) (limits : ReductionLimits) :
    Except ReductionError (Option CounterReduction) :=
  classifySeries haloPrevious samples knownGaps limits >>= fun intervals =>
  CounterReduction.fromIntervals intervals bucket limits

/-- The pairs of a series that count. -/
def countedPairs (haloPrevious : Option CounterSample) (samples : List CounterSample)
    (knownGaps : Coverage) (bucket : CoverageSpan) : List CounterPair :=
  (pairsOf haloPrevious samples).filter fun pair => decide (Counted knownGaps bucket pair)

/-- Room for every sample and every gap. -/
structure WithinLimits (limits : ReductionLimits) (samples : List CounterSample)
    (gaps : Coverage) : Prop where
  items : samples.length ≤ limits.maxInputItems.toNat
  spans : gaps.spans.length ≤ limits.maxGapSpans.toNat
  pairs : samples.length ≤ limits.maxCounterPairs.toNat

/-- Pairs of one series, each after all before it. -/
structure PairsOf (seriesId : MetricSeriesId) (alignmentId : AlignmentId)
    (pairs : List CounterPair) : Prop where
  series : ∀ p ∈ pairs, p.1.seriesId = seriesId ∧ p.2.seriesId = seriesId
  alignment : ∀ p ∈ pairs, p.1.alignmentId = alignmentId ∧ p.2.alignmentId = alignmentId
  follows : pairs.Pairwise fun a b => Follows (support a) (support b)

section Series

variable {seriesId : MetricSeriesId} {alignmentId : AlignmentId}

theorem PairsOf.sublist {pairs pairs' : List CounterPair} (h : PairsOf seriesId alignmentId pairs)
    (hsub : pairs'.Sublist pairs) : PairsOf seriesId alignmentId pairs' :=
  ⟨fun p hp => h.series p (hsub.subset hp),fun p hp => h.alignment p (hsub.subset hp),
    h.follows.sublist hsub⟩

theorem PairsOf.support_follows {pairs : List CounterPair} (h : PairsOf seriesId alignmentId pairs) :
    (pairs.map support).Pairwise Follows := List.pairwise_map.mpr h.follows

theorem PairsOf.support_sorted {pairs : List CounterPair} (h : PairsOf seriesId alignmentId pairs) :
    (pairs.map support).Pairwise fun a b => supportLe a b = true :=
  h.support_follows.imp fun hf => hf.supportLe

theorem mem_pairsOf {halo : Option CounterSample} {samples : List CounterSample} {p : CounterPair}
    (h : p ∈ pairsOf halo samples) : p.1 ∈ halo.toList ++ samples ∧ p.2 ∈ samples := by
  induction samples generalizing halo with
  | nil => cases halo <;> cases h
  | cons s samples ih =>
    cases halo with
    | none =>
      obtain ⟨h1,h2⟩ := ih h
      exact ⟨by simpa using h1,List.mem_cons_of_mem _ h2⟩
    | some previous =>
      rcases List.mem_cons.mp h with rfl | h
      · exact ⟨by simp,by simp⟩
      · obtain ⟨h1,h2⟩ := ih h
        exact ⟨List.mem_append_right _ (by simpa using h1),List.mem_cons_of_mem _ h2⟩

theorem pairsOf_follows {halo : Option CounterSample} {samples : List CounterSample}
    (h : (halo.toList ++ samples).Pairwise fun a b => a.tsUs < b.tsUs) :
    (pairsOf halo samples).Pairwise fun a b => Follows (support a) (support b) := by
  induction samples generalizing halo with
  | nil => cases halo <;> exact .nil
  | cons s samples ih =>
    have hrest := h.sublist (List.sublist_append_right halo.toList (s::samples))
    cases halo with
    | none => exact ih hrest
    | some previous =>
      refine List.pairwise_cons.mpr ⟨fun b hb => ?_,ih hrest⟩
      obtain ⟨h1,h2⟩ := mem_pairsOf hb
      have hlater := (List.pairwise_cons.mp hrest).1 b.2 h2
      refine ⟨hlater,?_⟩
      rcases List.mem_cons.mp (show b.1 ∈ s::samples from h1) with he | hmem
      · exact he ▸ Int64.le_refl _
      · exact Int64.le_of_lt ((List.pairwise_cons.mp hrest).1 b.1 hmem)

theorem SeriesOf.pairs {halo : Option CounterSample} {samples : List CounterSample}
    (h : SeriesOf seriesId alignmentId (halo.toList ++ samples)) (gaps : Coverage)
    (bucket : CoverageSpan) :
    PairsOf seriesId alignmentId (countedPairs halo samples gaps bucket) := by
  refine PairsOf.sublist ⟨fun p hp => ?_,fun p hp => ?_,pairsOf_follows h.ascending⟩
    List.filter_sublist
  · obtain ⟨h1,h2⟩ := mem_pairsOf hp
    exact ⟨h.series _ h1,h.series _ (List.mem_append_right _ h2)⟩
  · obtain ⟨h1,h2⟩ := mem_pairsOf hp
    exact ⟨h.alignment _ h1,h.alignment _ (List.mem_append_right _ h2)⟩

theorem pairsOf_length_le (halo : Option CounterSample) (samples : List CounterSample) :
    (pairsOf halo samples).length ≤ samples.length := by
  induction samples generalizing halo with
  | nil => cases halo <;> exact Nat.le_refl 0
  | cons s samples ih =>
    have hrest := ih (some s)
    cases halo <;> simp only [pairsOf,List.length_cons] <;> omega

theorem countedPairs_length_le (halo : Option CounterSample) (samples : List CounterSample)
    (gaps : Coverage) (bucket : CoverageSpan) :
    (countedPairs halo samples gaps bucket).length ≤ samples.length :=
  (List.length_filter_le _ _).trans (pairsOf_length_le halo samples)

theorem countedPairs_append (halo : Option CounterSample) (head tail : List CounterSample)
    (gaps : Coverage) (bucket : CoverageSpan) :
    countedPairs halo (head++tail) gaps bucket = countedPairs halo head gaps bucket ++
      countedPairs (haloAfter halo head) tail gaps bucket := by
  rw [countedPairs,pairsOf_append,List.filter_append]
  rfl

/-- Pairs of one series in order pass all checks of the aggregation. -/
theorem fromIntervals_eq {intervals : List CounterInterval} {bucket : CoverageSpan}
    {limits : ReductionLimits} {pairs : List CounterPair}
    (hselected : selectedPairs bucket intervals = pairs) (h : PairsOf seriesId alignmentId pairs)
    (hitems : intervals.length ≤ limits.maxInputItems.toNat)
    (hpairs : pairs.length ≤ limits.maxCounterPairs.toNat) :
    CounterReduction.fromIntervals intervals bucket limits =
      reducePairs seriesId alignmentId bucket pairs := by
  have hsorted : pairs.mergeSort (fun a b => supportLe (support a) (support b)) = pairs :=
    List.mergeSort_of_pairwise (List.pairwise_map.mp h.support_sorted)
  rw [CounterReduction.fromIntervals,if_neg (not_lt.mpr hitems)]
  dsimp only
  rw [hselected,if_neg (not_lt.mpr hpairs),hsorted]
  cases pairs with
  | nil => rfl
  | cons first rest =>
    have hs := (h.series first (List.mem_cons_self ..)).2
    have ha := (h.alignment first (List.mem_cons_self ..)).2
    dsimp only
    rw [hs,ha]
    have hseries : ((first::rest).any fun pair =>
        decide (pair.1.seriesId ≠ seriesId ∨ pair.2.seriesId ≠ seriesId)) = false := by
      rw [List.any_eq_false]
      intro p hp
      simp [h.series p hp]
    have halignment : ((first::rest).any fun pair =>
        decide (pair.1.alignmentId ≠ alignmentId ∨ pair.2.alignmentId ≠ alignmentId)) = false := by
      rw [List.any_eq_false]
      intro p hp
      simp [h.alignment p hp]
    have hvalid : validateSupportRanges ((first::rest).map support) = .ok () :=
      (validateSupportRanges_iff h.support_sorted).mpr h.support_follows
    rw [hseries,halignment,if_neg Bool.false_ne_true,if_neg Bool.false_ne_true,hvalid]
    change (sumPairs 0 0 (first::rest)).map _ = _
    rw [sumPairs_eq (Nat.zero_le _) (Nat.zero_le _),reducePairs,if_neg (List.cons_ne_nil _ _),
      Nat.zero_add,Nat.zero_add]
    by_cases hfits : (pairsReduction seriesId alignmentId bucket (first::rest)).Fits
    · rw [if_pos (show totalDelta _ ≤ u64Max ∧ totalDurationUs _ ≤ u64Max from hfits),if_pos hfits]
      rfl
    · rw [if_neg (show ¬(totalDelta _ ≤ u64Max ∧ totalDurationUs _ ≤ u64Max) from hfits),
        if_neg hfits]
      rfl

/-- Reducing a series is reducing its counted pairs. -/
theorem reduceSeries_eq {halo : Option CounterSample} {samples : List CounterSample}
    {gaps : Coverage} {limits : ReductionLimits}
    (h : SeriesOf seriesId alignmentId (halo.toList ++ samples))
    (hlimits : WithinLimits limits samples gaps) (bucket : CoverageSpan) :
    reduceSeries halo samples gaps bucket limits =
      reducePairs seriesId alignmentId bucket (countedPairs halo samples gaps bucket) := by
  obtain ⟨intervals,hok,hlen,hselected⟩ := classifySamples_eq gaps bucket h
    (List.nil_append gaps.spans).symm (by simp)
  have hitems := hlimits.items
  have hspans := hlimits.spans
  have hpairs := hlimits.pairs
  have hcount := countedPairs_length_le halo samples gaps bucket
  rw [reduceSeries,classifySeries,if_neg (by omega),if_neg (by omega),hok]
  exact fromIntervals_eq hselected (h.pairs gaps bucket) (by omega) (by omega)

theorem pairsQuality_append {bucket : CoverageSpan} {a b : List CounterPair} (ha : a ≠ [])
    (hb : b ≠ []) : pairsQuality bucket (a++b) =
      (pairsQuality bucket a).merge (pairsQuality bucket b) := by
  -- every pair is contained or crosses the boundary
  have hone : ∀ l : List CounterPair, l ≠ [] →
      (l.any fun pair => decide (bucket.fromUs ≤ pair.1.tsUs)) = true ∨
        (l.any fun pair => decide (pair.1.tsUs < bucket.fromUs)) = true := by
    intro l hl
    obtain ⟨p,rest,rfl⟩ := List.exists_cons_of_ne_nil hl
    rcases Int.lt_or_le p.1.tsUs.toInt bucket.fromUs.toInt with hlt | hle
    · exact .inr (by simp [Int64.lt_iff_toInt_lt.mpr hlt])
    · exact .inl (by simp [Int64.le_iff_toInt_le.mpr hle])
  have h1 := hone a ha
  have h2 := hone b hb
  rw [pairsQuality,pairsQuality,pairsQuality,List.any_append,List.any_append]
  revert h1 h2
  generalize (a.any fun pair => decide (bucket.fromUs ≤ pair.1.tsUs)) = c1
  generalize (a.any fun pair => decide (pair.1.tsUs < bucket.fromUs)) = x1
  generalize (b.any fun pair => decide (bucket.fromUs ≤ pair.1.tsUs)) = c2
  generalize (b.any fun pair => decide (pair.1.tsUs < bucket.fromUs)) = x2
  cases c1 <;> cases x1 <;> cases c2 <;> cases x2 <;> simp [BoundaryQuality.merge]

end Series

/-- Nothing on one side leaves the other. -/
def mergeOptional (a b : Option CounterReduction) (limits : ReductionLimits) :
    Except ReductionError (Option CounterReduction) :=
  match a,b with
  | none,b => .ok b
  | some a,none => .ok (some a)
  | some a,some b => (a.merge b limits).map some

/-- Reductions of one series with ranges that do not overlap, within the limits. -/
structure DisjointReductions (limits : ReductionLimits) (rs : List CounterReduction) : Prop where
  series : ∀ a ∈ rs, ∀ b ∈ rs, a.seriesId = b.seriesId
  alignment : ∀ a ∈ rs, ∀ b ∈ rs, a.alignmentId = b.alignmentId
  follows : (sortSupport (rs.flatMap CounterReduction.pairSupport)).Pairwise Follows
  items : (rs.flatMap CounterReduction.pairSupport).length ≤ limits.maxInputItems.toNat
  pairs : (rs.flatMap CounterReduction.pairSupport).length ≤ limits.maxCounterPairs.toNat

section Merge

variable {limits : ReductionLimits} {a b c : CounterReduction}

theorem BoundaryQuality.merge_comm (a b : BoundaryQuality) : a.merge b = b.merge a := by
  cases a <;> cases b <;> rfl

theorem BoundaryQuality.merge_assoc (a b c : BoundaryQuality) :
    (a.merge b).merge c = a.merge (b.merge c) := by
  cases a <;> cases b <;> cases c <;> rfl

/-- What two reductions sum to. -/
def CounterReduction.combined (a b : CounterReduction) : CounterReduction where
  seriesId := a.seriesId
  alignmentId := a.alignmentId
  sumDelta := a.sumDelta + b.sumDelta
  sumDurationUs := a.sumDurationUs + b.sumDurationUs
  pairSupport := sortSupport (a.pairSupport ++ b.pairSupport)
  boundaryQuality := a.boundaryQuality.merge b.boundaryQuality

theorem DisjointReductions.merge (h : DisjointReductions limits [a,b]) :
    a.merge b limits =
      if (a.combined b).Fits then .ok (a.combined b) else .error .countOverflow := by
  have hseries := h.series a (by simp) b (by simp)
  have halignment := h.alignment a (by simp) b (by simp)
  have hfollows := h.follows
  have hitems := h.items
  have hpairs := h.pairs
  simp only [List.flatMap_cons,List.flatMap_nil,List.append_nil,List.length_append] at hfollows hitems hpairs
  have hmax := limits.maxInputItems.toNat_lt
  have hvalid : validateSupportRanges ((a.pairSupport ++ b.pairSupport).mergeSort supportLe) = .ok () :=
    (validateSupportRanges_iff (sortSupport_sorted _)).mpr hfollows
  rw [CounterReduction.merge,if_neg (not_not.mpr hseries),if_neg (not_not.mpr halignment),
    checkedAdd_of_le (by rw [u64Max]; omega)]
  dsimp only
  rw [if_neg (by omega)]
  rw [hvalid]
  simp only [bind,Except.bind]
  by_cases hd : a.sumDelta + b.sumDelta ≤ u64Max
  · rw [checkedAdd_of_le hd]
    dsimp only
    by_cases hu : a.sumDurationUs + b.sumDurationUs ≤ u64Max
    · rw [checkedAdd_of_le hu,if_pos ⟨hd,hu⟩]
      rfl
    · rw [checkedAdd,if_neg hu,if_neg fun hf => hu hf.2]
  · rw [checkedAdd,if_neg hd,if_neg fun hf => hd hf.1]

theorem CounterReduction.merge_comm (a b : CounterReduction) (limits : ReductionLimits) :
    a.merge b limits = b.merge a limits := by
  have hadd : ∀ x y, checkedAdd x y = checkedAdd y x := fun x y => by
    rw [checkedAdd,checkedAdd,Nat.add_comm]
  rw [merge,merge]
  by_cases hs : a.seriesId = b.seriesId
  · rw [if_neg (not_not.mpr hs),if_neg (not_not.mpr hs.symm)]
    by_cases ha : a.alignmentId = b.alignmentId
    · have hsort : (a.pairSupport ++ b.pairSupport).mergeSort supportLe =
          (b.pairSupport ++ a.pairSupport).mergeSort supportLe :=
        sortSupport_congr List.perm_append_comm
      rw [if_neg (not_not.mpr ha),if_neg (not_not.mpr ha.symm),hadd a.pairSupport.length,
        hadd a.sumDelta,hadd a.sumDurationUs,hsort,hs,ha,BoundaryQuality.merge_comm]
    · rw [if_pos ha,if_pos (Ne.symm ha)]
  · rw [if_pos hs,if_pos (Ne.symm hs)]

/-- Fewer reductions are disjoint as well. -/
theorem DisjointReductions.sublist {rs rs' : List CounterReduction}
    (h : DisjointReductions limits rs) (hsub : rs'.Sublist rs) : DisjointReductions limits rs' := by
  have hsupport : (rs'.flatMap CounterReduction.pairSupport).Sublist
      (rs.flatMap CounterReduction.pairSupport) := hsub.flatMap _
  have hperm : (sortSupport (rs'.flatMap CounterReduction.pairSupport)).Subperm
      (sortSupport (rs.flatMap CounterReduction.pairSupport)) :=
    (sortSupport_perm _).subperm.trans (hsupport.subperm.trans (sortSupport_perm _).symm.subperm)
  obtain ⟨l,hl,hle⟩ := hperm
  have hsorted : sortSupport (rs'.flatMap CounterReduction.pairSupport) = l :=
    hl.symm.eq_of_pairwise (fun _ _ _ _ => supportLe_antisymm) (sortSupport_sorted _)
      ((sortSupport_sorted _).sublist hle)
  refine ⟨fun a ha b hb => h.series a (hsub.subset ha) b (hsub.subset hb),
    fun a ha b hb => h.alignment a (hsub.subset ha) b (hsub.subset hb),?_,
    hsupport.length_le.trans h.items,hsupport.length_le.trans h.pairs⟩
  rw [hsorted]
  exact h.follows.sublist hle

/-- Merging two of the reductions keeps the rest disjoint. -/
theorem DisjointReductions.combine {rs : List CounterReduction}
    (h : DisjointReductions limits (a::b::rs)) : DisjointReductions limits (a.combined b::rs) := by
  have hperm : ((a.combined b::rs).flatMap CounterReduction.pairSupport).Perm
      ((a::b::rs).flatMap CounterReduction.pairSupport) := by
    rw [List.flatMap_cons,List.flatMap_cons,List.flatMap_cons,← List.append_assoc]
    exact (sortSupport_perm _).append_right _
  have hmem : ∀ r ∈ a.combined b::rs, ∃ r' ∈ a::b::rs, r.seriesId = r'.seriesId ∧
      r.alignmentId = r'.alignmentId := by
    intro r hr
    rcases List.mem_cons.mp hr with rfl | hr
    · exact ⟨a,by simp,rfl,rfl⟩
    · exact ⟨r,by simp [hr],rfl,rfl⟩
  refine ⟨fun x hx y hy => ?_,fun x hx y hy => ?_,?_,?_,?_⟩
  · obtain ⟨x',hx',hxs,-⟩ := hmem x hx
    obtain ⟨y',hy',hys,-⟩ := hmem y hy
    rw [hxs,hys]
    exact h.series x' hx' y' hy'
  · obtain ⟨x',hx',-,hxa⟩ := hmem x hx
    obtain ⟨y',hy',-,hya⟩ := hmem y hy
    rw [hxa,hya]
    exact h.alignment x' hx' y' hy'
  · rw [sortSupport_congr hperm]
    exact h.follows
  · rw [hperm.length_eq]
    exact h.items
  · rw [hperm.length_eq]
    exact h.pairs

theorem DisjointReductions.perm {rs rs' : List CounterReduction}
    (h : DisjointReductions limits rs) (hp : rs'.Perm rs) : DisjointReductions limits rs' := by
  have hsupport := hp.flatMap_right CounterReduction.pairSupport
  refine ⟨fun a ha b hb => h.series a (hp.subset ha) b (hp.subset hb),
    fun a ha b hb => h.alignment a (hp.subset ha) b (hp.subset hb),?_,
    hsupport.length_eq ▸ h.items,hsupport.length_eq ▸ h.pairs⟩
  rw [sortSupport_congr hsupport]
  exact h.follows

/-- Disjoint reductions merge in any grouping. -/
theorem DisjointReductions.merge_assoc (h : DisjointReductions limits [a,b,c]) :
    (a.merge b limits >>= fun ab => ab.merge c limits) =
      (b.merge c limits >>= fun bc => a.merge bc limits) := by
  have hab : DisjointReductions limits [a,b] := h.sublist (by simp)
  have hbc : DisjointReductions limits [b,c] := h.sublist (by simp)
  have hleft := h.combine
  have hright : DisjointReductions limits [b.combined c,a] :=
    (h.perm (show [b,c,a].Perm [a,b,c] from
      (@List.perm_append_comm _ [b,c] [a]))).combine
  have hsame : (a.combined b).combined c = a.combined (b.combined c) := by
    have hperm : (sortSupport (a.pairSupport ++ b.pairSupport) ++ c.pairSupport).Perm
        (a.pairSupport ++ sortSupport (b.pairSupport ++ c.pairSupport)) :=
      ((sortSupport_perm _).append_right _).trans
        ((List.append_assoc ..).symm ▸ ((sortSupport_perm _).symm.append_left _))
    simp only [CounterReduction.combined,CounterReduction.mk.injEq,true_and,
      BoundaryQuality.merge_assoc,Nat.add_assoc,and_true]
    exact sortSupport_congr hperm
  have hlast : ∀ (x : CounterReduction) (f : CounterReduction → Except ReductionError CounterReduction),
      (((a.combined b).combined c).Fits → x.Fits) → f x =
        (if ((a.combined b).combined c).Fits then .ok ((a.combined b).combined c)
          else .error .countOverflow) →
      ((if x.Fits then .ok x else .error .countOverflow) >>= f) =
        if ((a.combined b).combined c).Fits then .ok ((a.combined b).combined c)
          else .error .countOverflow := by
    intro x f hx hf
    by_cases hfits : x.Fits
    · rw [if_pos hfits]
      exact hf
    · rw [if_neg hfits,if_neg (mt hx hfits)]
      rfl
  rw [hab.merge,hbc.merge,hlast _ _ (fun hf => ?_) hleft.merge,hlast _ _ (fun hf => ?_) ?_]
  · rw [hsame]
    exact (hright.perm (List.Perm.swap ..)).merge
  · exact ⟨(Nat.le_add_left _ _).trans (hsame ▸ hf).1,(Nat.le_add_left _ _).trans (hsame ▸ hf).2⟩
  · exact ⟨(Nat.le_add_right _ _).trans hf.1,(Nat.le_add_right _ _).trans hf.2⟩

end Merge

section Partition

variable {seriesId : MetricSeriesId} {alignmentId : AlignmentId} {limits : ReductionLimits}

/-- The reductions of consecutive runs of pairs are disjoint. -/
theorem PairsOf.disjoint {runs : List (List CounterPair)}
    (h : PairsOf seriesId alignmentId runs.flatten)
    (hitems : runs.flatten.length ≤ limits.maxInputItems.toNat)
    (hpairs : runs.flatten.length ≤ limits.maxCounterPairs.toNat) (bucket : CoverageSpan) :
    DisjointReductions limits (runs.map (pairsReduction seriesId alignmentId bucket)) := by
  have hsupport : (runs.map (pairsReduction seriesId alignmentId bucket)).flatMap
      CounterReduction.pairSupport = runs.flatten.map support := by
    rw [List.flatMap_map,List.map_flatten,List.flatMap_def]
    rfl
  have hids : ∀ r ∈ runs.map (pairsReduction seriesId alignmentId bucket),
      r.seriesId = seriesId ∧ r.alignmentId = alignmentId := by
    intro r hr
    obtain ⟨pairs,-,rfl⟩ := List.mem_map.mp hr
    exact ⟨rfl,rfl⟩
  refine ⟨fun a ha b hb => (hids a ha).1.trans (hids b hb).1.symm,
    fun a ha b hb => (hids a ha).2.trans (hids b hb).2.symm,?_,?_,?_⟩
  · rw [hsupport,sortSupport,List.mergeSort_of_pairwise h.support_sorted]
    exact h.support_follows
  · rw [hsupport,List.length_map]
    exact hitems
  · rw [hsupport,List.length_map]
    exact hpairs

/-- Two runs of pairs reduce and merge to the reduction of all of them. -/
theorem reducePairs_append {a b : List CounterPair} (h : PairsOf seriesId alignmentId (a++b))
    (hitems : (a++b).length ≤ limits.maxInputItems.toNat)
    (hpairs : (a++b).length ≤ limits.maxCounterPairs.toNat) (bucket : CoverageSpan) :
    reducePairs seriesId alignmentId bucket (a++b) =
      (reducePairs seriesId alignmentId bucket a >>= fun ra =>
        reducePairs seriesId alignmentId bucket b >>= fun rb => mergeOptional ra rb limits) := by
  by_cases ha : a = []
  · subst ha
    rw [List.nil_append]
    change _ = (reducePairs seriesId alignmentId bucket b >>= fun rb => .ok rb)
    cases reducePairs seriesId alignmentId bucket b <;> rfl
  by_cases hb : b = []
  · subst hb
    rw [List.append_nil]
    change _ = (reducePairs seriesId alignmentId bucket a >>= fun ra =>
      mergeOptional ra none limits)
    cases reducePairs seriesId alignmentId bucket a with
    | error e => rfl
    | ok ra => cases ra <;> rfl
  have hflat : [a,b].flatten = a++b := by simp
  have hdisjoint := PairsOf.disjoint (by rwa [hflat]) (by rwa [hflat]) (by rwa [hflat]) bucket
  have hwhole : (pairsReduction seriesId alignmentId bucket a).combined
      (pairsReduction seriesId alignmentId bucket b) =
        pairsReduction seriesId alignmentId bucket (a++b) := by
    have hsort : sortSupport (a.map support ++ b.map support) = (a++b).map support := by
      rw [← List.map_append]
      exact List.mergeSort_of_pairwise h.support_sorted
    simp only [CounterReduction.combined,pairsReduction,hsort,pairsQuality_append ha hb,totalDelta,
      totalDurationUs,List.map_append,List.sum_append]
  have hmerge := DisjointReductions.merge hdisjoint
  rw [hwhole] at hmerge
  rw [reducePairs,reducePairs,reducePairs,if_neg ha,if_neg hb,
    if_neg (List.append_ne_nil_of_left_ne_nil ha b)]
  by_cases hfits : (pairsReduction seriesId alignmentId bucket (a++b)).Fits
  · have hsum := hfits
    rw [← hwhole] at hsum
    have hdelta : totalDelta a + totalDelta b ≤ u64Max := hsum.1
    have hduration : totalDurationUs a + totalDurationUs b ≤ u64Max := hsum.2
    have h1 : (pairsReduction seriesId alignmentId bucket a).Fits :=
      ⟨(Nat.le_add_right _ _).trans hdelta,(Nat.le_add_right _ _).trans hduration⟩
    have h2 : (pairsReduction seriesId alignmentId bucket b).Fits :=
      ⟨(Nat.le_add_left _ _).trans hdelta,(Nat.le_add_left _ _).trans hduration⟩
    rw [if_pos h1,if_pos h2,if_pos hfits]
    rw [if_pos hfits] at hmerge
    change _ = ((pairsReduction seriesId alignmentId bucket a).merge
      (pairsReduction seriesId alignmentId bucket b) limits).map some
    rw [hmerge]
    rfl
  · rw [if_neg hfits] at hmerge ⊢
    by_cases h1 : (pairsReduction seriesId alignmentId bucket a).Fits
    · rw [if_pos h1]
      by_cases h2 : (pairsReduction seriesId alignmentId bucket b).Fits
      · rw [if_pos h2]
        change _ = ((pairsReduction seriesId alignmentId bucket a).merge
          (pairsReduction seriesId alignmentId bucket b) limits).map some
        rw [hmerge]
        rfl
      · rw [if_neg h2]
        rfl
    · rw [if_neg h1]
      rfl

variable {halo : Option CounterSample} {gaps : Coverage}

theorem haloAfter_series {head tail : List CounterSample}
    (h : SeriesOf seriesId alignmentId (halo.toList ++ (head++tail))) :
    SeriesOf seriesId alignmentId (halo.toList ++ head) ∧
      SeriesOf seriesId alignmentId ((haloAfter halo head).toList ++ tail) := by
  refine ⟨h.sublist (by simp),h.sublist ?_⟩
  rw [← List.append_assoc]
  refine List.Sublist.append ?_ (List.Sublist.refl _)
  rw [haloAfter]
  cases hlast : head.getLast? with
  | none => rw [Option.none_or]; exact List.sublist_append_left _ _
  | some s =>
    rw [Option.some_or,Option.toList_some,List.singleton_sublist]
    exact List.mem_append_right _ (List.mem_of_getLast? hlast)

theorem WithinLimits.sublist {samples samples' : List CounterSample}
    (h : WithinLimits limits samples gaps) (hsub : samples'.Sublist samples) :
    WithinLimits limits samples' gaps :=
  ⟨hsub.length_le.trans h.items,h.spans,hsub.length_le.trans h.pairs⟩

/-- Reducing a series does not depend on how it is split: the halves merge to the whole,
three pieces give disjoint reductions, merging disjoint reductions commutes and
associates, and only pairs that count enter the sums. -/
theorem counter_reduction_partition_invariant {head tail : List CounterSample}
    (h : SeriesOf seriesId alignmentId (halo.toList ++ (head++tail)))
    (hlimits : WithinLimits limits (head++tail) gaps) (bucket : CoverageSpan) :
    reduceSeries halo (head++tail) gaps bucket limits =
      (reduceSeries halo head gaps bucket limits >>= fun a =>
        reduceSeries (haloAfter halo head) tail gaps bucket limits >>= fun b =>
        mergeOptional a b limits) ∧
    reduceSeries halo (head++tail) gaps bucket limits =
      reducePairs seriesId alignmentId bucket
        ((pairsOf halo (head++tail)).filter fun pair => decide (Counted gaps bucket pair)) ∧
    (∀ a b : CounterReduction, a.merge b limits = b.merge a limits) ∧
    (∀ a b c : CounterReduction, DisjointReductions limits [a,b,c] →
      (a.merge b limits >>= fun ab => ab.merge c limits) =
        (b.merge c limits >>= fun bc => a.merge bc limits)) ∧
    ∀ (middle tail' : List CounterSample) (a b c : CounterReduction), tail = middle++tail' →
      reduceSeries halo head gaps bucket limits = .ok (some a) →
      reduceSeries (haloAfter halo head) middle gaps bucket limits = .ok (some b) →
      reduceSeries (haloAfter halo (head++middle)) tail' gaps bucket limits = .ok (some c) →
      DisjointReductions limits [a,b,c] := by
  have hlen := countedPairs_length_le halo (head++tail) gaps bucket
  have hcounted := h.pairs gaps bucket
  have hitems := hlen.trans hlimits.items
  have hpairs := hlen.trans hlimits.pairs
  obtain ⟨hhead,htail⟩ := haloAfter_series h
  have ehead := reduceSeries_eq hhead (hlimits.sublist (by simp)) bucket
  refine ⟨?_,reduceSeries_eq h hlimits bucket,fun a b => a.merge_comm b limits,
    fun a b c hd => hd.merge_assoc,?_⟩
  · rw [countedPairs_append] at hcounted hitems hpairs
    rw [reduceSeries_eq h hlimits,ehead,reduceSeries_eq htail (hlimits.sublist (by simp)),
      countedPairs_append]
    exact reducePairs_append hcounted hitems hpairs bucket
  · rintro middle tail' a b c rfl ha hb hc
    obtain ⟨hmiddle,-⟩ := haloAfter_series htail
    obtain ⟨-,hlast⟩ := haloAfter_series (List.append_assoc head middle tail' ▸ h)
    rw [ehead] at ha
    rw [reduceSeries_eq hmiddle (hlimits.sublist (by simp))] at hb
    rw [reduceSeries_eq hlast (hlimits.sublist (by simp))] at hc
    have hred : ∀ pairs r, reducePairs seriesId alignmentId bucket pairs = .ok (some r) →
        r = pairsReduction seriesId alignmentId bucket pairs := by
      intro pairs r hr
      rw [reducePairs] at hr
      split_ifs at hr
      · cases hr
      · exact (Option.some.inj (Except.ok.inj hr)).symm
    rw [← List.append_assoc,countedPairs_append,countedPairs_append] at hcounted hitems hpairs
    have hd := @PairsOf.disjoint _ _ limits [countedPairs halo head gaps bucket,
      countedPairs (haloAfter halo head) middle gaps bucket,
      countedPairs (haloAfter halo (head++middle)) tail' gaps bucket]
      (by simpa using hcounted) (by simpa using hitems) (by simpa using hpairs) bucket
    rw [hred _ a ha,hred _ b hb,hred _ c hc]
    exact hd

end Partition

def sampleCounter (tsUs : Int64) (value : UInt64) : CounterSample where
  seriesId := ⟨.replicate 16 1⟩
  alignmentId := ⟨.replicate 16 1⟩
  tsUs
  value
  resetEpoch := 1

/-- The third pair meets the gap and the first one starts before the bucket. -/
def sampleGaps : Coverage := ⟨[⟨22,24,by decide⟩],by simp⟩

theorem counter_reduction_partition_invariant_sample :
    reduceSeries none ([sampleCounter 0 10,sampleCounter 10 25] ++
        [sampleCounter 20 25,sampleCounter 30 100]) sampleGaps ⟨5,40,by decide⟩ ⟨8,8,8⟩ =
      (reduceSeries none [sampleCounter 0 10,sampleCounter 10 25] sampleGaps ⟨5,40,by decide⟩
        ⟨8,8,8⟩ >>= fun a =>
      reduceSeries (haloAfter none [sampleCounter 0 10,sampleCounter 10 25])
        [sampleCounter 20 25,sampleCounter 30 100] sampleGaps ⟨5,40,by decide⟩ ⟨8,8,8⟩ >>= fun b =>
      mergeOptional a b ⟨8,8,8⟩) :=
  (@counter_reduction_partition_invariant ⟨.replicate 16 1⟩ ⟨.replicate 16 1⟩ _ _ _ _ _
    ⟨by decide,by decide,by decide⟩ ⟨by decide,by decide,by decide⟩ _).1

end PgKronika
