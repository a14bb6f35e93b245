import PgKronika.CounterPartition

/-! The sweep over the known gaps against the search for the gap of one pair. -/
namespace PgKronika

/-- The gap has a point from the predecessor on and before the current sample. -/
def GapBetween (previous current : CounterSample) (gap : CoverageSpan) : Prop :=
  ∃ ts : Int64, (gap.fromUs ≤ ts ∧ ts < gap.toUs) ∧ previous.tsUs ≤ ts ∧ ts < current.tsUs

theorem gapIntersects_iff {previous current : CounterSample} {gap : CoverageSpan}
    (h : previous.tsUs < current.tsUs) :
    gapIntersects previous current gap = true ↔ GapBetween previous current gap := by
  have hgap := gap.lt
  simp only [gapIntersects,Bool.and_eq_true,decide_eq_true_eq,GapBetween,
    Int64.lt_iff_toInt_lt,Int64.le_iff_toInt_le] at h hgap ⊢
  constructor
  · rintro ⟨hfrom,hto⟩
    -- The later one of the two starts lies in both.
    by_cases hle : gap.fromUs.toInt ≤ previous.tsUs.toInt
    · exact ⟨previous.tsUs,⟨hle,hto⟩,le_refl _,h⟩
    · exact ⟨gap.fromUs,⟨le_refl _,hgap⟩,by omega,hfrom⟩
  · rintro ⟨ts,⟨hfrom,hto⟩,hprevious,hcurrent⟩
    omega

theorem CounterInterval.classify_gap_iff {previous current : CounterSample} (gaps : Coverage)
    (hseries : previous.seriesId = current.seriesId)
    (halignment : previous.alignmentId = current.alignmentId)
    (hlt : previous.tsUs < current.tsUs) (hepoch : previous.resetEpoch = current.resetEpoch)
    (hvalue : previous.value ≤ current.value) :
    (CounterInterval.classify (some previous) current gaps).quality = .gap ↔
      ∃ gap ∈ gaps.spans, GapBetween previous current gap := by
  have hnot : ¬current.tsUs ≤ previous.tsUs := by
    simp only [Int64.lt_iff_toInt_lt,Int64.le_iff_toInt_le] at hlt ⊢
    omega
  have hreset : ¬(previous.resetEpoch ≠ current.resetEpoch ∨ current.value < previous.value) := by
    simp [hepoch,UInt64.not_lt.mpr hvalue]
  have hany : gaps.spans.any (gapIntersects previous current) = true ↔
      ∃ gap ∈ gaps.spans, GapBetween previous current gap := by
    simp [gapIntersects_iff hlt]
  rw [CounterInterval.classify_some,CounterInterval.classifyWithGap]
  dsimp only
  rw [if_neg (not_not.mpr hseries),if_neg (not_not.mpr halignment),if_neg hnot,if_neg hreset,← hany]
  by_cases h : gaps.spans.any (gapIntersects previous current) = true <;> simp [h]

theorem classifyPairs_get {gaps : Coverage} {previous : Option CounterSample}
    {samples : List CounterSample} {k : ℕ} {sample : CounterSample} (h : samples[k]? = some sample) :
    (classifyPairs gaps previous samples)[k]? =
      some (CounterInterval.classify (haloAfter previous (samples.take k)) sample gaps) := by
  induction samples generalizing previous k with
  | nil => simp at h
  | cons s samples ih =>
    cases k with
    | zero =>
      obtain rfl := Option.some.inj h
      rfl
    | succ k =>
      rw [List.take_succ_cons,haloAfter_cons]
      exact ih h

/-- Where the samples are those of one series in order, the `k`-th pair of a sample and its
predecessor. -/
theorem SeriesOf.pair_at {seriesId : MetricSeriesId} {alignmentId : AlignmentId}
    {halo : Option CounterSample} {samples : List CounterSample} {k : ℕ}
    {previous sample : CounterSample} (h : SeriesOf seriesId alignmentId (halo.toList ++ samples))
    (hsample : samples[k]? = some sample) (hprevious : haloAfter halo (samples.take k) = some previous) :
    SeriesOf seriesId alignmentId [previous,sample] := by
  refine h.sublist ?_
  have hsplit : samples = samples.take k ++ sample :: samples.drop (k+1) := by
    obtain ⟨hk,rfl⟩ := List.getElem?_eq_some_iff.mp hsample
    rw [← List.drop_eq_getElem_cons hk,List.take_append_drop]
  have htail : [sample].Sublist (sample :: samples.drop (k+1)) := by simp
  have hhead : [previous].Sublist (halo.toList ++ samples.take k) := by
    rw [List.singleton_sublist,List.mem_append]
    rw [haloAfter] at hprevious
    cases hlast : (samples.take k).getLast? with
    | none =>
      rw [hlast,Option.none_or] at hprevious
      exact .inl (by simp [hprevious])
    | some last =>
      rw [hlast,Option.some_or] at hprevious
      exact .inr (List.mem_of_getLast? (hprevious ▸ hlast))
  rw [hsplit,← List.append_assoc]
  exact hhead.append htail

/-- The sweep and the search agree on every pair of an ordered series, and both see a gap where
one has a point between the two samples. -/
theorem classifySeries_eq_classify {seriesId : MetricSeriesId} {alignmentId : AlignmentId}
    {haloPrevious : Option CounterSample} {samples : List CounterSample} (knownGaps : Coverage)
    (limits : ReductionLimits) (h : SeriesOf seriesId alignmentId (haloPrevious.toList ++ samples)) :
    (samples.length ≤ limits.maxInputItems.toNat → samples.length ≤ limits.maxCounterPairs.toNat →
      knownGaps.spans.length ≤ limits.maxGapSpans.toNat →
        ∃ intervals, classifySeries haloPrevious samples knownGaps limits = .ok intervals) ∧
    ∀ intervals, classifySeries haloPrevious samples knownGaps limits = .ok intervals →
      intervals.length = samples.length ∧
      ∀ k sample, samples[k]? = some sample → ∃ interval, intervals[k]? = some interval ∧
        interval = CounterInterval.classify (haloAfter haloPrevious (samples.take k)) sample knownGaps ∧
        ∀ previous, haloAfter haloPrevious (samples.take k) = some previous →
          previous.resetEpoch = sample.resetEpoch → previous.value ≤ sample.value →
            (interval.quality = .gap ↔ ∃ gap ∈ knownGaps.spans, GapBetween previous sample gap) := by
  have hpairs : classifySamples haloPrevious knownGaps.spans samples =
      .ok (classifyPairs knownGaps haloPrevious samples) :=
    classifySamples_eq_pairs knownGaps h (List.nil_append _).symm (by simp)
  constructor
  · intro hitems hcounted hgaps
    exact ⟨_,by rw [classifySeries,if_neg (by omega),if_neg (by omega),hpairs]⟩
  · intro intervals hok
    have heq : intervals = classifyPairs knownGaps haloPrevious samples := by
      rw [classifySeries,hpairs] at hok
      split_ifs at hok
      exact (Except.ok.inj hok).symm
    subst heq
    refine ⟨length_classifyPairs _ _ _,fun k sample hsample =>
      ⟨_,classifyPairs_get hsample,rfl,fun previous hprevious hepoch hvalue => ?_⟩⟩
    have hpair := h.pair_at hsample hprevious
    rw [hprevious]
    exact CounterInterval.classify_gap_iff knownGaps
      ((hpair.series previous (by simp)).trans (hpair.series sample (by simp)).symm)
      ((hpair.alignment previous (by simp)).trans (hpair.alignment sample (by simp)).symm)
      ((List.pairwise_cons.mp hpair.ascending).1 sample (by simp)) hepoch hvalue

/-- One gap ends where the second sample stands, the next one starts where the third does. -/
theorem classifySeries_eq_classify_sample :
    (∃ intervals, classifySeries (some (sampleCounter 0 10))
        [sampleCounter 10 25,sampleCounter 20 30,sampleCounter 30 35]
        ⟨[⟨5,10,by decide⟩,⟨20,30,by decide⟩],by decide⟩ ⟨8,8,8⟩ = .ok intervals) ∧
    ∀ intervals, classifySeries (some (sampleCounter 0 10))
        [sampleCounter 10 25,sampleCounter 20 30,sampleCounter 30 35]
        ⟨[⟨5,10,by decide⟩,⟨20,30,by decide⟩],by decide⟩ ⟨8,8,8⟩ = .ok intervals →
      intervals.length = 3 := by
  have h := @classifySeries_eq_classify ⟨.replicate 16 1⟩ ⟨.replicate 16 1⟩
    (some (sampleCounter 0 10)) [sampleCounter 10 25,sampleCounter 20 30,sampleCounter 30 35]
    ⟨[⟨5,10,by decide⟩,⟨20,30,by decide⟩],by decide⟩ ⟨8,8,8⟩
    ⟨by decide,by decide,by decide⟩
  exact ⟨h.1 (by decide) (by decide) (by decide),fun intervals hok => (h.2 intervals hok).1⟩

end PgKronika
