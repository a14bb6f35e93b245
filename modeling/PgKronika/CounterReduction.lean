import Mathlib
import PgKronika.CheckedArith
import PgKronika.Coverage
import PgKronika.PartitionPoint

/-! Counter samples, their classified pairs and the bounded reduction of the valid ones. -/
namespace PgKronika

open CheckedArith

structure MetricSeriesId where
  bytes : Vector UInt8 16
  deriving DecidableEq

structure AlignmentId where
  bytes : Vector UInt8 16
  deriving DecidableEq

structure ReductionLimits where
  maxInputItems : UInt64
  maxGapSpans : UInt64
  maxCounterPairs : UInt64
  deriving DecidableEq

inductive ReductionError
  | limitExceeded
  | countOverflow
  | mixedSeries
  | overlappingSupport
  | misalignedRatio
  | duplicateTimestamp
  | nonMonotonicSamples
  | nonFiniteResult
  deriving DecidableEq

structure CounterSample where
  seriesId : MetricSeriesId
  alignmentId : AlignmentId
  tsUs : Int64
  value : UInt64
  resetEpoch : UInt64
  deriving DecidableEq

inductive PairQuality
  | valid
  | reset
  | gap
  | nonMonotonicTime
  | differentSeries
  | differentAlignment
  | missing
  deriving DecidableEq

structure CounterInterval where
  previous : Option CounterSample
  current : CounterSample
  quality : PairQuality
  deriving DecidableEq

def CounterInterval.classifyWithGap (previous : Option CounterSample) (current : CounterSample)
    (hasGap : Bool) : CounterInterval where
  previous
  current
  quality := match previous with
    | none => .missing
    | some previous =>
      if previous.seriesId ≠ current.seriesId then .differentSeries
      else if previous.alignmentId ≠ current.alignmentId then .differentAlignment
      else if current.tsUs ≤ previous.tsUs then .nonMonotonicTime
      else if previous.resetEpoch ≠ current.resetEpoch ∨ current.value < previous.value then .reset
      else if hasGap then .gap
      else .valid

/-- One pair against all known gaps. -/
def CounterInterval.classify (previous : Option CounterSample) (current : CounterSample)
    (knownGaps : Coverage) : CounterInterval :=
  classifyWithGap previous current <| previous.any fun previous =>
    let index := partitionPoint (fun gap => decide (gap.toUs ≤ previous.tsUs)) knownGaps.spans
    knownGaps.spans[index]?.any fun gap => decide (gap.fromUs < current.tsUs)

/-- The gaps from the cursor on. The cursor never moves back, so what it passed is dropped. -/
def skipGaps (previous : CounterSample) (gaps : List CoverageSpan) : List CoverageSpan :=
  gaps.dropWhile fun gap => decide (gap.toUs ≤ previous.tsUs)

def gapIntersects (previous current : CounterSample) (gap : CoverageSpan) : Bool :=
  decide (gap.fromUs < current.tsUs) && decide (previous.tsUs < gap.toUs)

def nextPairHasGap (previous : Option CounterSample) (current : CounterSample)
    (gaps : List CoverageSpan) : Bool × List CoverageSpan :=
  match previous with
  | none => (false,gaps)
  | some previous =>
    let gaps := skipGaps previous gaps
    (gaps.head?.any (gapIntersects previous current),gaps)

/-- The checks between a sample and its predecessor. -/
def checkSample (previous : Option CounterSample) (sample : CounterSample) :
    Except ReductionError Unit :=
  match previous with
  | none => .ok ()
  | some previous =>
    if sample.seriesId ≠ previous.seriesId then .error .mixedSeries
    else if sample.alignmentId ≠ previous.alignmentId then .error .misalignedRatio
    else if sample.tsUs ≤ previous.tsUs then .error .nonMonotonicSamples
    else .ok ()

def classifySamples (previous : Option CounterSample) (gaps : List CoverageSpan) :
    List CounterSample → Except ReductionError (List CounterInterval)
  | [] => .ok []
  | sample::samples =>
    checkSample previous sample >>= fun _ =>
    let next := nextPairHasGap previous sample gaps
    (classifySamples (some sample) next.2 samples).map fun out =>
      CounterInterval.classifyWithGap previous sample next.1 :: out

def classifySeries (haloPrevious : Option CounterSample) (samples : List CounterSample)
    (knownGaps : Coverage) (limits : ReductionLimits) :
    Except ReductionError (List CounterInterval) :=
  if limits.maxInputItems.toNat < samples.length ∨ limits.maxGapSpans.toNat < knownGaps.spans.length then
    .error .limitExceeded
  else if limits.maxCounterPairs.toNat < samples.length then .error .limitExceeded
  else classifySamples haloPrevious knownGaps.spans samples

abbrev CounterPair := CounterSample × CounterSample

structure CounterReduction where
  seriesId : MetricSeriesId
  alignmentId : AlignmentId
  sumDelta : ℕ
  sumDurationUs : ℕ
  pairSupport : List (Int64 × Int64)
  boundaryQuality : BoundaryQuality
  deriving DecidableEq

/-- The valid pairs whose current sample the bucket owns. -/
def selectedPairs (bucket : CoverageSpan) (intervals : List CounterInterval) : List CounterPair :=
  intervals.filterMap fun interval =>
    if interval.quality ≠ .valid ∨ interval.current.tsUs < bucket.fromUs ∨
        bucket.toUs ≤ interval.current.tsUs then none
    else interval.previous.map fun previous => (previous,interval.current)

def support (pair : CounterPair) : Int64 × Int64 := (pair.1.tsUs,pair.2.tsUs)

/-- Ranges by their end, then by their start. -/
def supportLe (a b : Int64 × Int64) : Bool :=
  decide (a.2 < b.2 ∨ a.2 = b.2 ∧ a.1 ≤ b.1)

def validateSupportRanges : List (Int64 × Int64) → Except ReductionError Unit
  | previous::current::ranges =>
    if current.2 = previous.2 ∨ current.1 < previous.2 then .error .overlappingSupport
    else validateSupportRanges (current::ranges)
  | _ => .ok ()

def pairDelta (pair : CounterPair) : ℕ := (pair.2.value - pair.1.value).toNat

def pairDurationUs (pair : CounterPair) : ℕ := (pair.2.tsUs - pair.1.tsUs).toUInt64.toNat

def sumPairs (sumDelta sumDurationUs : ℕ) : List CounterPair → Except ReductionError (ℕ × ℕ)
  | [] => .ok (sumDelta,sumDurationUs)
  | pair::pairs =>
    match checkedAdd sumDelta (pairDelta pair) with
    | none => .error .countOverflow
    | some sumDelta =>
      match checkedAdd sumDurationUs (pairDurationUs pair) with
      | none => .error .countOverflow
      | some sumDurationUs => sumPairs sumDelta sumDurationUs pairs

def pairsQuality (bucket : CoverageSpan) (pairs : List CounterPair) : BoundaryQuality :=
  match pairs.any fun pair => decide (bucket.fromUs ≤ pair.1.tsUs),
      pairs.any fun pair => decide (pair.1.tsUs < bucket.fromUs) with
  | true,true => .mixed
  | false,true => .endpointAttributedCrossBoundary
  | _,_ => .contained

/-- Aggregate the valid pairs of a bucket. -/
def CounterReduction.fromIntervals (intervals : List CounterInterval) (bucket : CoverageSpan)
    (limits : ReductionLimits) : Except ReductionError (Option CounterReduction) :=
  if limits.maxInputItems.toNat < intervals.length then .error .limitExceeded
  else
    let selected := selectedPairs bucket intervals
    if limits.maxCounterPairs.toNat < selected.length then .error .limitExceeded
    else
      match selected.mergeSort fun a b => supportLe (support a) (support b) with
      | [] => .ok none
      | first::rest =>
        let pairs := first::rest
        let seriesId := first.2.seriesId
        let alignmentId := first.2.alignmentId
        if pairs.any fun pair =>
            decide (pair.1.seriesId ≠ seriesId ∨ pair.2.seriesId ≠ seriesId) then
          .error .mixedSeries
        else if pairs.any fun pair =>
            decide (pair.1.alignmentId ≠ alignmentId ∨ pair.2.alignmentId ≠ alignmentId) then
          .error .misalignedRatio
        else
          validateSupportRanges (pairs.map support) >>= fun _ =>
          (sumPairs 0 0 pairs).map fun sums => some ⟨seriesId,alignmentId,sums.1,sums.2,
            pairs.map support,pairsQuality bucket pairs⟩

def BoundaryQuality.merge (a b : BoundaryQuality) : BoundaryQuality := if a = b then a else .mixed

/-- Combine disjoint reductions of one series. -/
def CounterReduction.merge (a b : CounterReduction) (limits : ReductionLimits) :
    Except ReductionError CounterReduction :=
  if a.seriesId ≠ b.seriesId then .error .mixedSeries
  else if a.alignmentId ≠ b.alignmentId then .error .misalignedRatio
  else
    match checkedAdd a.pairSupport.length b.pairSupport.length with
    | none => .error .limitExceeded
    | some combinedLen =>
      if limits.maxInputItems.toNat < combinedLen ∨ limits.maxCounterPairs.toNat < combinedLen then
        .error .limitExceeded
      else
        let pairSupport := (a.pairSupport ++ b.pairSupport).mergeSort supportLe
        validateSupportRanges pairSupport >>= fun _ =>
        match checkedAdd a.sumDelta b.sumDelta with
        | none => .error .countOverflow
        | some sumDelta =>
          match checkedAdd a.sumDurationUs b.sumDurationUs with
          | none => .error .countOverflow
          | some sumDurationUs => .ok ⟨a.seriesId,a.alignmentId,sumDelta,sumDurationUs,pairSupport,
            a.boundaryQuality.merge b.boundaryQuality⟩

/-- Consecutive samples, the predecessor of the first one included. -/
def pairsOf : Option CounterSample → List CounterSample → List CounterPair
  | _,[] => []
  | none,sample::samples => pairsOf (some sample) samples
  | some previous,sample::samples => (previous,sample) :: pairsOf (some sample) samples

/-- What the predecessor of the tail is after the head. -/
def haloAfter (halo : Option CounterSample) (head : List CounterSample) : Option CounterSample :=
  head.getLast?.or halo

theorem haloAfter_cons (halo : Option CounterSample) (sample : CounterSample)
    (samples : List CounterSample) :
    haloAfter halo (sample::samples) = haloAfter (some sample) samples := by
  rw [haloAfter,haloAfter,List.getLast?_cons]
  cases samples.getLast? <;> rfl

theorem pairsOf_append (halo : Option CounterSample) (head tail : List CounterSample) :
    pairsOf halo (head++tail) = pairsOf halo head ++ pairsOf (haloAfter halo head) tail := by
  induction head generalizing halo with
  | nil =>
    rw [List.nil_append,haloAfter,List.getLast?_nil,Option.none_or]
    cases halo <;> rfl
  | cons sample head ih =>
    rw [haloAfter_cons,List.cons_append]
    cases halo with
    | none => exact ih (some sample)
    | some previous => exact congrArg _ (ih (some sample))

/-- A pair that counts: no reset, no decrease, no gap in between, owned by the bucket. -/
def Counted (gaps : Coverage) (bucket : CoverageSpan) (pair : CounterPair) : Prop :=
  pair.1.resetEpoch = pair.2.resetEpoch ∧ pair.1.value ≤ pair.2.value ∧
    (∀ gap ∈ gaps.spans, ¬(gap.fromUs < pair.2.tsUs ∧ pair.1.tsUs < gap.toUs)) ∧
    bucket.fromUs ≤ pair.2.tsUs ∧ pair.2.tsUs < bucket.toUs

instance (gaps : Coverage) (bucket : CoverageSpan) (pair : CounterPair) :
    Decidable (Counted gaps bucket pair) := by
  unfold Counted
  infer_instance

/-- Samples of one series and alignment in strictly increasing time order. -/
structure SeriesOf (seriesId : MetricSeriesId) (alignmentId : AlignmentId)
    (samples : List CounterSample) : Prop where
  series : ∀ s ∈ samples, s.seriesId = seriesId
  alignment : ∀ s ∈ samples, s.alignmentId = alignmentId
  ascending : samples.Pairwise fun a b => a.tsUs < b.tsUs

section Classify

variable {seriesId : MetricSeriesId} {alignmentId : AlignmentId}

theorem SeriesOf.tail {s : CounterSample} {samples : List CounterSample}
    (h : SeriesOf seriesId alignmentId (s::samples)) : SeriesOf seriesId alignmentId samples :=
  ⟨fun a ha => h.series a (List.mem_cons_of_mem _ ha),
    fun a ha => h.alignment a (List.mem_cons_of_mem _ ha),h.ascending.tail⟩

theorem SeriesOf.sublist {samples samples' : List CounterSample}
    (h : SeriesOf seriesId alignmentId samples) (hsub : samples'.Sublist samples) :
    SeriesOf seriesId alignmentId samples' :=
  ⟨fun a ha => h.series a (hsub.subset ha),fun a ha => h.alignment a (hsub.subset ha),
    h.ascending.sublist hsub⟩

theorem CoverageSpan.from_lt_of_sorted {a b : CoverageSpan} {x : Int64} (hab : a.toUs < b.fromUs)
    (ha : ¬a.fromUs < x) : ¬b.fromUs < x := by
  have hlt := a.lt
  simp only [Int64.lt_iff_toInt_lt] at hab ha hlt ⊢
  omega

/-- The first gap that the cursor has not passed decides for all of them. -/
theorem head_intersects {gaps : List CoverageSpan}
    (hgaps : gaps.Pairwise fun a b => a.toUs < b.fromUs) (previous current : CounterSample) :
    (skipGaps previous gaps).head?.any (gapIntersects previous current) =
      gaps.any (gapIntersects previous current) := by
  induction gaps with
  | nil => rfl
  | cons gap gaps ih =>
    obtain ⟨hlow,hrest⟩ := List.pairwise_cons.mp hgaps
    rw [skipGaps,List.dropWhile_cons,List.any_cons]
    by_cases hpast : gap.toUs ≤ previous.tsUs
    · have hnot : ¬previous.tsUs < gap.toUs := by
        simp only [Int64.lt_iff_toInt_lt,Int64.le_iff_toInt_le] at hpast ⊢
        omega
      rw [if_pos (decide_eq_true hpast),gapIntersects,decide_eq_false hnot,Bool.and_false,
        Bool.false_or]
      exact ih hrest
    · rw [if_neg (by simpa using hpast),List.head?_cons,Option.any_some]
      have hreach : previous.tsUs < gap.toUs := by
        simp only [Int64.lt_iff_toInt_lt,Int64.le_iff_toInt_le] at hpast ⊢
        omega
      by_cases hstart : gap.fromUs < current.tsUs
      · rw [gapIntersects,decide_eq_true hstart,decide_eq_true hreach]
        rfl
      · have hnone : gaps.any (gapIntersects previous current) = false := by
          rw [List.any_eq_false]
          intro g hg
          rw [gapIntersects,decide_eq_false (gap.from_lt_of_sorted (hlow g hg) hstart)]
          simp
        rw [hnone,Bool.or_false]

theorem skipGaps_split (previous : CounterSample) (gaps : List CoverageSpan) :
    ∃ front, gaps = front ++ skipGaps previous gaps ∧ ∀ g ∈ front, g.toUs ≤ previous.tsUs := by
  refine ⟨gaps.takeWhile fun gap => decide (gap.toUs ≤ previous.tsUs),
    List.takeWhile_append_dropWhile.symm,fun g hg => ?_⟩
  have hpast := List.mem_takeWhile_imp hg
  exact of_decide_eq_true hpast

theorem checkSample_ok {previous : Option CounterSample} {s : CounterSample}
    {samples : List CounterSample}
    (h : SeriesOf seriesId alignmentId (previous.toList ++ s::samples)) :
    checkSample previous s = .ok () := by
  cases previous with
  | none => rfl
  | some p =>
    have hs : s.seriesId = p.seriesId :=
      (h.series s (by simp)).trans (h.series p (by simp)).symm
    have ha : s.alignmentId = p.alignmentId :=
      (h.alignment s (by simp)).trans (h.alignment p (by simp)).symm
    have hlt : p.tsUs < s.tsUs := (List.pairwise_cons.mp h.ascending).1 s (by simp)
    have hnot : ¬s.tsUs ≤ p.tsUs := by
      simp only [Int64.lt_iff_toInt_lt,Int64.le_iff_toInt_le] at hlt ⊢
      omega
    rw [checkSample,if_neg (not_not.mpr hs),if_neg (not_not.mpr ha),if_neg hnot]

/-- A pair of the series is valid and owned exactly when it counts. -/
theorem selectedPairs_pair (gaps : Coverage) (bucket : CoverageSpan) {p s : CounterSample}
    (hs : p.seriesId = s.seriesId) (ha : p.alignmentId = s.alignmentId) (hlt : p.tsUs < s.tsUs) :
    selectedPairs bucket [CounterInterval.classifyWithGap (some p) s
      (gaps.spans.any (gapIntersects p s))] =
        [(p,s)].filter fun pair => decide (Counted gaps bucket pair) := by
  have hnot : ¬s.tsUs ≤ p.tsUs := by
    simp only [Int64.lt_iff_toInt_lt,Int64.le_iff_toInt_le] at hlt ⊢
    omega
  have hbucket : ¬(s.tsUs < bucket.fromUs ∨ bucket.toUs ≤ s.tsUs) ↔
      bucket.fromUs ≤ s.tsUs ∧ s.tsUs < bucket.toUs := by
    simp only [Int64.lt_iff_toInt_lt,Int64.le_iff_toInt_le]
    omega
  have hvalue : ¬s.value < p.value ↔ p.value ≤ s.value := UInt64.not_lt
  have hgap : gaps.spans.any (gapIntersects p s) = false ↔
      ∀ gap ∈ gaps.spans, ¬(gap.fromUs < s.tsUs ∧ p.tsUs < gap.toUs) := by
    simp [gapIntersects]
  have hquality : (CounterInterval.classifyWithGap (some p) s
      (gaps.spans.any (gapIntersects p s))).quality = .valid ↔
      p.resetEpoch = s.resetEpoch ∧ p.value ≤ s.value ∧
        gaps.spans.any (gapIntersects p s) = false := by
    rw [CounterInterval.classifyWithGap]
    dsimp only
    rw [if_neg (not_not.mpr hs),if_neg (not_not.mpr ha),if_neg hnot,← hvalue]
    by_cases hreset : p.resetEpoch ≠ s.resetEpoch ∨ s.value < p.value
    · rw [if_pos hreset]
      simp only [reduceCtorEq,false_iff]
      tauto
    · rw [if_neg hreset]
      push Not at hreset
      cases gaps.spans.any (gapIntersects p s) with
      | true => simp
      | false => simpa using hreset
  have hskip : ((CounterInterval.classifyWithGap (some p) s
      (gaps.spans.any (gapIntersects p s))).quality ≠ .valid ∨ s.tsUs < bucket.fromUs ∨
        bucket.toUs ≤ s.tsUs) ↔ ¬Counted gaps bucket (p,s) := by
    rw [ne_eq,hquality,hgap,Counted,← hbucket,← Classical.not_and_iff_not_or_not.trans
      (or_congr_right not_not),and_assoc,and_assoc]
  have hcurrent : ∀ g, (CounterInterval.classifyWithGap (some p) s g).current = s := fun _ => rfl
  have hprevious : ∀ g, (CounterInterval.classifyWithGap (some p) s g).previous = some p :=
    fun _ => rfl
  rw [selectedPairs,List.filterMap_cons,List.filterMap_nil,hcurrent,hprevious]
  by_cases hcounted : Counted gaps bucket (p,s)
  · rw [if_neg (by rw [hskip]; exact not_not.mpr hcounted)]
    simp [hcounted]
  · rw [if_pos (hskip.mpr hcounted)]
    simp [hcounted]

/-- The first gap that ends after the predecessor decides for all of them. -/
theorem CounterInterval.classify_some (previous current : CounterSample) (gaps : Coverage) :
    CounterInterval.classify (some previous) current gaps =
      CounterInterval.classifyWithGap (some previous) current
        (gaps.spans.any (gapIntersects previous current)) := by
  have hpart : Partitioned (fun gap : CoverageSpan => decide (gap.toUs ≤ previous.tsUs))
      gaps.spans := by
    refine Partitioned.of_sorted gaps.normalized fun a b hab hb => ?_
    have hlt := b.lt
    simp only [decide_eq_true_eq,Int64.lt_iff_toInt_lt,Int64.le_iff_toInt_le] at hab hb hlt ⊢
    omega
  rw [classify,Option.any_some,← head_intersects gaps.normalized]
  dsimp only
  rw [hpart.getElem?_partitionPoint]
  congr 1
  change (skipGaps previous gaps.spans).head?.any _ = _
  cases hhead : (skipGaps previous gaps.spans).head? with
  | none => rfl
  | some gap =>
    have hnot := hpart.dropWhile_not gap (List.mem_of_head? hhead)
    have hreach : previous.tsUs < gap.toUs := by
      simp only [decide_eq_false_iff_not,Int64.lt_iff_toInt_lt,Int64.le_iff_toInt_le] at hnot ⊢
      omega
    rw [Option.any_some,Option.any_some,gapIntersects,decide_eq_true hreach,Bool.and_true]

/-- Every sample against its predecessor, one pair at a time. -/
def classifyPairs (gaps : Coverage) :
    Option CounterSample → List CounterSample → List CounterInterval
  | _,[] => []
  | previous,sample::samples =>
    CounterInterval.classify previous sample gaps :: classifyPairs gaps (some sample) samples

theorem length_classifyPairs (gaps : Coverage) (previous : Option CounterSample)
    (samples : List CounterSample) : (classifyPairs gaps previous samples).length = samples.length := by
  induction samples generalizing previous with
  | nil => rfl
  | cons s samples ih => simp [classifyPairs,ih]

/-- The sweep classifies every pair as the search does. The cursor has passed only gaps that end
before all samples to come. -/
theorem classifySamples_eq_pairs (gaps : Coverage) {samples : List CounterSample}
    {previous : Option CounterSample} {front rest : List CoverageSpan}
    (h : SeriesOf seriesId alignmentId (previous.toList ++ samples))
    (hsplit : gaps.spans = front ++ rest)
    (hfront : ∀ g ∈ front, ∀ s ∈ previous.toList ++ samples, g.toUs ≤ s.tsUs) :
    classifySamples previous rest samples = .ok (classifyPairs gaps previous samples) := by
  induction samples generalizing previous front rest with
  | nil => rfl
  | cons s samples ih =>
    have hlater : SeriesOf seriesId alignmentId ((some s).toList ++ samples) :=
      h.sublist (List.sublist_append_right _ _)
    rw [classifySamples,checkSample_ok h,classifyPairs]
    cases previous with
    | none =>
      change (classifySamples (some s) rest samples).map _ = _
      rw [ih hlater hsplit hfront]
      rfl
    | some p =>
      obtain ⟨passed,hpassed,hends⟩ := skipGaps_split p rest
      have hle : ∀ g : CoverageSpan, g.toUs ≤ p.tsUs → ∀ a ∈ s::samples, g.toUs ≤ a.tsUs := by
        intro g hg a ha
        have hpa := (List.pairwise_cons.mp h.ascending).1 a ha
        simp only [Int64.lt_iff_toInt_lt,Int64.le_iff_toInt_le] at hg hpa ⊢
        omega
      have hrest : rest.Pairwise fun a b => a.toUs < b.fromUs :=
        gaps.normalized.sublist (hsplit ▸ List.sublist_append_right _ _)
      have hgap : (nextPairHasGap (some p) s rest).1 = gaps.spans.any (gapIntersects p s) := by
        have hnone : front.any (gapIntersects p s) = false := by
          rw [List.any_eq_false]
          intro g hg
          have hend := hfront g hg p (by simp)
          have hnot : ¬p.tsUs < g.toUs := by
            simp only [Int64.lt_iff_toInt_lt,Int64.le_iff_toInt_le] at hend ⊢
            omega
          rw [gapIntersects,decide_eq_false hnot]
          simp
        rw [nextPairHasGap,head_intersects hrest,hsplit,List.any_append,hnone,Bool.false_or]
      have hrec := ih hlater
        (show gaps.spans = (front ++ passed) ++ skipGaps p rest by
          rw [List.append_assoc,← hpassed,hsplit])
        (by
          intro g hg a ha
          rcases List.mem_append.mp hg with hg | hg
          · exact hle g (hfront g hg p (by simp)) a ha
          · exact hle g (hends g hg) a ha)
      change (classifySamples (some s) (skipGaps p rest) samples).map _ = _
      rw [hrec,hgap,CounterInterval.classify_some]
      rfl

/-- What the pairs of an ordered series select are those that count. -/
theorem selectedPairs_classifyPairs (gaps : Coverage) (bucket : CoverageSpan)
    {samples : List CounterSample} {previous : Option CounterSample}
    (h : SeriesOf seriesId alignmentId (previous.toList ++ samples)) :
    selectedPairs bucket (classifyPairs gaps previous samples) =
      (pairsOf previous samples).filter fun pair => decide (Counted gaps bucket pair) := by
  induction samples generalizing previous with
  | nil => cases previous <;> rfl
  | cons s samples ih =>
    have hlater : SeriesOf seriesId alignmentId ((some s).toList ++ samples) :=
      h.sublist (List.sublist_append_right _ _)
    have hrec := ih hlater
    cases previous with
    | none =>
      rw [pairsOf,← hrec]
      rfl
    | some p =>
      have hone := selectedPairs_pair gaps bucket
        ((h.series p (by simp)).trans (h.series s (by simp)).symm)
        ((h.alignment p (by simp)).trans (h.alignment s (by simp)).symm)
        ((List.pairwise_cons.mp h.ascending).1 s (by simp))
      rw [pairsOf,List.filter_cons,← hrec,classifyPairs,CounterInterval.classify_some]
      rw [List.filter_cons,List.filter_nil] at hone
      rw [← List.singleton_append,selectedPairs,List.filterMap_append]
      change selectedPairs bucket [_] ++ _ = _
      rw [hone]
      split_ifs <;> rfl

/-- Classifying an ordered series selects the pairs that count. -/
theorem classifySamples_eq (gaps : Coverage) (bucket : CoverageSpan) {samples : List CounterSample}
    {previous : Option CounterSample} {front rest : List CoverageSpan}
    (h : SeriesOf seriesId alignmentId (previous.toList ++ samples))
    (hsplit : gaps.spans = front ++ rest)
    (hfront : ∀ g ∈ front, ∀ s ∈ previous.toList ++ samples, g.toUs ≤ s.tsUs) :
    ∃ intervals, classifySamples previous rest samples = .ok intervals ∧
      intervals.length = samples.length ∧
      selectedPairs bucket intervals =
        (pairsOf previous samples).filter fun pair => decide (Counted gaps bucket pair) :=
  ⟨_,classifySamples_eq_pairs gaps h hsplit hfront,length_classifyPairs gaps previous samples,
    selectedPairs_classifyPairs gaps bucket h⟩

end Classify

/-- Ranges that follow each other. -/
def Follows (a b : Int64 × Int64) : Prop := a.2 < b.2 ∧ a.2 ≤ b.1

instance : IsTrans (Int64 × Int64) Follows where
  trans a b c hab hbc := by
    unfold Follows at hab hbc ⊢
    simp only [Int64.lt_iff_toInt_lt,Int64.le_iff_toInt_le] at hab hbc ⊢
    omega

theorem supportLe_iff {a b : Int64 × Int64} : supportLe a b = true ↔
    a.2.toInt < b.2.toInt ∨ a.2.toInt = b.2.toInt ∧ a.1.toInt ≤ b.1.toInt := by
  simp only [supportLe,decide_eq_true_eq,Int64.lt_iff_toInt_lt,Int64.le_iff_toInt_le,
    ← Int64.toInt_inj]

theorem supportLe_trans (a b c : Int64 × Int64) (hab : supportLe a b = true)
    (hbc : supportLe b c = true) : supportLe a c = true := by
  rw [supportLe_iff] at *
  omega

theorem supportLe_total (a b : Int64 × Int64) : (supportLe a b || supportLe b a) = true := by
  rw [Bool.or_eq_true,supportLe_iff,supportLe_iff]
  omega

theorem supportLe_antisymm {a b : Int64 × Int64} (hab : supportLe a b = true)
    (hba : supportLe b a = true) : a = b := by
  rw [supportLe_iff] at hab hba
  exact Prod.ext (Int64.toInt_inj.mp (by omega)) (Int64.toInt_inj.mp (by omega))

theorem Follows.supportLe {a b : Int64 × Int64} (h : Follows a b) : supportLe a b = true :=
  decide_eq_true (.inl h.1)

def sortSupport (ranges : List (Int64 × Int64)) : List (Int64 × Int64) :=
  ranges.mergeSort supportLe

theorem sortSupport_sorted (ranges : List (Int64 × Int64)) :
    (sortSupport ranges).Pairwise fun a b => supportLe a b = true :=
  List.pairwise_mergeSort supportLe_trans supportLe_total ranges

theorem sortSupport_perm (ranges : List (Int64 × Int64)) : (sortSupport ranges).Perm ranges :=
  List.mergeSort_perm _ _

/-- A permutation sorts to the same list. -/
theorem sortSupport_congr {ranges ranges' : List (Int64 × Int64)} (h : ranges.Perm ranges') :
    sortSupport ranges = sortSupport ranges' :=
  ((sortSupport_perm _).trans (h.trans (sortSupport_perm _).symm)).eq_of_pairwise
    (fun _ _ _ _ => supportLe_antisymm) (sortSupport_sorted _) (sortSupport_sorted _)

/-- Sorted ranges are accepted exactly when each follows all before it. -/
theorem validateSupportRanges_iff {ranges : List (Int64 × Int64)}
    (hsorted : ranges.Pairwise fun a b => supportLe a b = true) :
    validateSupportRanges ranges = .ok () ↔ ranges.Pairwise Follows := by
  rw [← List.isChain_iff_pairwise]
  induction ranges with
  | nil => simp [validateSupportRanges]
  | cons a ranges ih =>
    cases ranges with
    | nil => simp [validateSupportRanges]
    | cons b ranges =>
      have hab := supportLe_iff.mp ((List.pairwise_cons.mp hsorted).1 b (by simp))
      rw [validateSupportRanges,List.isChain_cons_cons,← ih hsorted.tail]
      have hiff : (b.2 = a.2 ∨ b.1 < a.2) ↔ ¬Follows a b := by
        simp only [Follows,Int64.lt_iff_toInt_lt,Int64.le_iff_toInt_le,← Int64.toInt_inj]
        omega
      by_cases hf : Follows a b
      · rw [if_neg (by rw [hiff]; exact not_not.mpr hf)]
        exact (and_iff_right hf).symm
      · rw [if_pos (hiff.mpr hf)]
        simp [hf]

theorem validateSupportRanges_error {ranges : List (Int64 × Int64)} {e : ReductionError}
    (h : validateSupportRanges ranges = .error e) : e = .overlappingSupport := by
  induction ranges with
  | nil => cases h
  | cons a ranges ih =>
    cases ranges with
    | nil => cases h
    | cons b ranges =>
      rw [validateSupportRanges] at h
      split_ifs at h with hbad
      · exact (Except.error.inj h).symm
      · exact ih h

end PgKronika
