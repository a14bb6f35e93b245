import PgKronika.BoundedRanking
import PgKronika.HeatmapGaps
import PgKronika.HeatmapMerge

/-! The bounds of a heatmap hold: whatever the segments add to the scores of the range, within what
their retained series and cutoffs say, each row's score lies in its bounds, and a ranking that is
called exact is the ranking by these scores. -/
namespace PgKronika

open ByteCodec CheckedArith

namespace HeatmapSources

variable {sources : HeatmapSources} {request : HeatmapRequest}

/-- The metrics that are merged for a request. -/
def mergedMetrics (sources : HeatmapSources) (request : HeatmapRequest) : List MergedMetric :=
  (sources.selected request).filterMap (SelectedSegment.merged request)

def lowerBound (sources : HeatmapSources) (request : HeatmapRequest) (key : EntityKey) : ℚ≥0 :=
  aggregateScores request.metric.aggregation ((sources.mergedMetrics request).map fun merged =>
    merged.lower request.metric.aggregation key)

def upperBound (sources : HeatmapSources) (request : HeatmapRequest) (key : EntityKey) : ℚ≥0 :=
  aggregateScores request.metric.aggregation ((sources.mergedMetrics request).map fun merged =>
    merged.upper request.metric.aggregation key)

/-- The score of an identity over the range. -/
def rangeScore (request : HeatmapRequest) (amounts : List (EntityKey → ℚ≥0)) (key : EntityKey) :
    ℚ≥0 :=
  aggregateScores request.metric.aggregation (amounts.map fun amount => amount key)

/-- When every segment is merged, what they add lies between the bounds of their metrics. -/
theorem forall₂_bounds {segments : List SelectedSegment} {amounts : List (EntityKey → ℚ≥0)}
    (hbounded : ∀ segment ∈ segments, segment.merged request ≠ none)
    (hadds : List.Forall₂ (SelectedSegment.Adds request) segments amounts) (key : EntityKey) :
    List.Forall₂ (· ≤ ·)
        ((segments.filterMap (SelectedSegment.merged request)).map fun merged =>
          merged.lower request.metric.aggregation key)
        (amounts.map fun amount => amount key) ∧
      List.Forall₂ (· ≤ ·) (amounts.map fun amount => amount key)
        ((segments.filterMap (SelectedSegment.merged request)).map fun merged =>
          merged.upper request.metric.aggregation key) := by
  induction hadds with
  | nil => exact ⟨.nil,.nil⟩
  | cons hadd _ ih =>
    rw [List.forall_mem_cons] at hbounded
    obtain ⟨merged,hmerged⟩ := Option.ne_none_iff_exists'.1 hbounded.1
    obtain ⟨hlower,hupper⟩ := hadd.bounds hmerged key
    obtain ⟨hlowers,huppers⟩ := ih hbounded.2
    rw [List.filterMap_cons_some hmerged]
    exact ⟨.cons hlower hlowers,.cons hupper huppers⟩

theorem lowerBound_le {amounts : List (EntityKey → ℚ≥0)}
    (hbounded : ∀ segment ∈ sources.selected request, segment.merged request ≠ none)
    (hadds : List.Forall₂ (SelectedSegment.Adds request) (sources.selected request) amounts)
    (key : EntityKey) : sources.lowerBound request key ≤ rangeScore request amounts key :=
  aggregateScores_le _ (forall₂_bounds hbounded hadds key).1

theorem le_upperBound {amounts : List (EntityKey → ℚ≥0)}
    (hbounded : ∀ segment ∈ sources.selected request, segment.merged request ≠ none)
    (hadds : List.Forall₂ (SelectedSegment.Adds request) (sources.selected request) amounts)
    (key : EntityKey) : rangeScore request amounts key ≤ sources.upperBound request key :=
  aggregateScores_le _ (forall₂_bounds hbounded hadds key).2

end HeatmapSources

/-- The cutoffs of the blocks that do not retain an identity complete its upper bound. -/
theorem Candidate.withCutoffs_upper {aggregation : WebAggregation} {merged : List MergedMetric}
    {proofs : List BlockProof} (h : List.Forall₂ MergeState.ProofOf merged proofs) (key : EntityKey)
    {candidate : Candidate} (hupper : candidate.upper = aggregateScores aggregation
      (merged.map fun m => aggregateScores aggregation (m.scores key))) :
    (candidate.withCutoffs proofs aggregation key).upper =
      aggregateScores aggregation (merged.map fun m => m.upper aggregation key) := by
  have hfold : ∀ start : ℚ≥0, proofs.foldl (fun upper proof =>
      if key ∈ proof.retained then upper else aggregateScore upper proof.cutoff aggregation) start =
        aggregateScore start (aggregateScores aggregation (merged.map fun m =>
          if m.scores key = [] then m.metric.cutoffScore else 0)) aggregation := by
    clear hupper
    induction h with
    | nil => simp
    | @cons m proof _ _ hproof _ ih =>
      intro start
      rw [List.foldl_cons,ih,List.map_cons,aggregateScores_cons]
      by_cases hnil : m.scores key = []
      · rw [if_neg (mt (hproof.2 key).1 (not_not.2 hnil)),if_pos hnil,hproof.1,aggregateScore_assoc]
      · rw [if_pos ((hproof.2 key).2 hnil),if_neg hnil,zero_aggregateScore]
  have hsplit : ∀ m : MergedMetric, m.upper aggregation key =
      aggregateScore (aggregateScores aggregation (m.scores key))
        (if m.scores key = [] then m.metric.cutoffScore else 0) aggregation := by
    intro m
    rw [MergedMetric.upper]
    split_ifs with hnil <;> simp [hnil]
  rw [Candidate.withCutoffs,hfold,hupper,← aggregateScores_map_aggregate]
  simp only [hsplit]

/-- The cutoffs alone bound what no block retains. -/
theorem unseenUpper_eq {aggregation : WebAggregation} {merged : List MergedMetric}
    {proofs : List BlockProof} (h : List.Forall₂ MergeState.ProofOf merged proofs) :
    proofs.foldl (fun upper proof => aggregateScore upper proof.cutoff aggregation) 0 =
      aggregateScores aggregation (merged.map fun m => m.metric.cutoffScore) := by
  have hmap : proofs.map BlockProof.cutoff = merged.map fun m => m.metric.cutoffScore := by
    induction h with
    | nil => rfl
    | cons hproof _ ih => rw [List.map_cons,List.map_cons,hproof.1,ih]
  rw [← hmap,aggregateScores,List.foldl_map]

theorem foldl_max_lt {a b : ℚ≥0} {l : List ℚ≥0} : l.foldl max a < b ↔ a < b ∧ ∀ x ∈ l, x < b := by
  induction l generalizing a with
  | nil => simp
  | cons x l ih => rw [List.foldl_cons,ih,max_lt_iff,List.forall_mem_cons,and_assoc]

/-- A ranking that is called exact passes the test on its bounds. -/
theorem frontBeats_of_rankingIsExact {ranked : List (EntityKey × Candidate)} {top : ℕ}
    {unseenUpper : ℚ≥0} {bounded : Bool} {lower upper : EntityKey → ℚ≥0}
    (hlower : ∀ entry ∈ ranked, entry.2.lower = lower entry.1)
    (hupper : ∀ entry ∈ ranked, entry.2.upper = upper entry.1)
    (h : rankingIsExact ranked top unseenUpper bounded = true) :
    BoundedRanking.FrontBeats lower upper unseenUpper top (ranked.map Prod.fst) := by
  intro before key after hsplit hlength
  obtain ⟨front,back,hranked,rfl,hback⟩ := List.map_eq_append_iff.1 hsplit
  obtain ⟨entry,later,rfl,rfl,rfl⟩ := List.map_eq_cons_iff.1 hback
  subst hranked
  unfold rankingIsExact at h
  split_ifs at h with hbounded hnil
  · simp at hnil
  rw [List.all_eq_true] at h
  rw [List.length_map] at hlength
  have hindex := h front.length (List.mem_range.2 (lt_min hlength (by simp)))
  have hlater : (front ++ entry::later).drop (front.length+1) = later := by
    rw [List.drop_append]
    simp
  simp only [hlater,decide_eq_true_eq] at hindex
  rcases hindex with ⟨hempty,hunseen⟩ | hbeats
  · exact .inl ⟨by rw [hempty,List.map_nil],hunseen⟩
  · have hlt : (later.map fun e => e.2.upper).foldl max unseenUpper < entry.2.lower := by
      simpa using hbeats
    rw [hlower entry (by simp)] at hlt
    have hmax := foldl_max_lt.1 hlt
    refine .inr ⟨hmax.1,fun other hother => ?_⟩
    obtain ⟨e,he,rfl⟩ := List.mem_map.1 hother
    rw [← hupper e (by simp [he])]
    exact hmax.2 _ (List.mem_map.2 ⟨e,he,rfl⟩)

theorem SelectedSegment.merged_listed {request : HeatmapRequest} {segment : SelectedSegment}
    {merged : MergedMetric} (h : segment.merged request = some merged) :
    merged.metric ∈ merged.block.metrics := by
  unfold SelectedSegment.merged at h
  split at h
  · split at h
    · rename_i block _ metric hverdict
      cases h
      unfold EntitySeriesBlock.verdict at hverdict
      split_ifs at hverdict
      split at hverdict
      · cases hverdict
      · rename_i found hfind
        split_ifs at hverdict
        split at hverdict <;> cases hverdict
        exact List.mem_of_find?_eq_some hfind
    · cases h
  · cases h

/-- A metric with a cutoff retains `formatTopK` identities. -/
theorem MergedMetric.retained_keys {merged : MergedMetric}
    (hlisted : merged.metric ∈ merged.block.metrics) (hcutoff : merged.metric.cutoffScore ≠ 0) :
    ∃ keys : List EntityKey, keys.Nodup ∧ keys.length = formatTopK ∧
      ∀ key ∈ keys, merged.scores key ≠ [] := by
  refine ⟨merged.metric.series.map fun series => (merged.block.keyOf series).getD ⟨[]⟩,?_,?_,?_⟩
  · refine List.Nodup.map_on (fun a ha b hb heq => ?_) (List.Nodup.of_map _ merged.metric.distinct)
    obtain ⟨entryA,-,hkeyA⟩ := EntitySeriesBlock.dictionary_get hlisted ha
    obtain ⟨entryB,-,hkeyB⟩ := EntitySeriesBlock.dictionary_get hlisted hb
    rw [hkeyA,hkeyB,Option.getD_some,Option.getD_some] at heq
    rw [heq] at hkeyA
    exact List.inj_on_of_nodup_map merged.metric.distinct ha hb
      (EntitySeriesBlock.keyOf_injective hkeyA hkeyB)
  · rw [List.length_map]
    exact le_antisymm merged.metric.atMost (not_lt.1 (mt merged.metric.cutoffBelow hcutoff))
  · intro key hkey
    obtain ⟨series,hseries,rfl⟩ := List.mem_map.1 hkey
    obtain ⟨entry,-,hentry⟩ := EntitySeriesBlock.dictionary_get hlisted hseries
    rw [hentry,Option.getD_some,scores_le_one entry.key hseries hentry]
    exact List.cons_ne_nil _ _

namespace HeatmapSources

variable {sources : HeatmapSources} {request : HeatmapRequest} {state : MergeState}

/-- All candidates with their final bounds, in the order of the rows. -/
def ranking (request : HeatmapRequest) (state : MergeState) : List (EntityKey × Candidate) :=
  rankCandidates (state.candidates.entries.map fun entry =>
    (entry.1,entry.2.withCutoffs state.proofs request.metric.aggregation entry.1))

theorem mem_ranking {entry : EntityKey × Candidate} : entry ∈ ranking request state ↔
    ∃ candidate, state.candidates.lookup entry.1 = some candidate ∧
      entry.2 = candidate.withCutoffs state.proofs request.metric.aggregation entry.1 := by
  rw [ranking,rankCandidates,List.mem_insertionSort,List.mem_map]
  constructor
  · rintro ⟨⟨key,candidate⟩,hmem,rfl⟩
    exact ⟨candidate,OrderedMap.mem_entries_iff.1 hmem,rfl⟩
  · rintro ⟨candidate,hlookup,hcandidate⟩
    exact ⟨(entry.1,candidate),OrderedMap.mem_entries_iff.2 hlookup,Prod.ext rfl hcandidate.symm⟩

theorem mem_ranking_keys {key : EntityKey} :
    key ∈ (ranking request state).map Prod.fst ↔ (state.candidates.lookup key).isSome := by
  rw [List.mem_map,Option.isSome_iff_exists]
  constructor
  · rintro ⟨entry,hentry,rfl⟩
    obtain ⟨candidate,hlookup,-⟩ := mem_ranking.1 hentry
    exact ⟨candidate,hlookup⟩
  · rintro ⟨candidate,hlookup⟩
    exact ⟨(key,candidate.withCutoffs state.proofs request.metric.aggregation key),
      mem_ranking.2 ⟨candidate,hlookup,rfl⟩,rfl⟩

variable (hstate : MergeState.RangeMerged request (sources.selected request) state)
include hstate

/-- Rows carry the bounds of the merged metrics. -/
theorem ranking_bounds : ∀ entry ∈ ranking request state,
    entry.2.lower = sources.lowerBound request entry.1 ∧
      entry.2.upper = sources.upperBound request entry.1 := by
  intro entry hentry
  obtain ⟨candidate,hlookup,hcandidate⟩ := mem_ranking.1 hentry
  have hbounds := hstate.bounds entry.1
  rw [MergeState.boundsOf,hlookup,Option.elim_some,Prod.mk.injEq] at hbounds
  rw [hcandidate]
  exact ⟨hbounds.1,Candidate.withCutoffs_upper hstate.proofs entry.1 hbounds.2⟩

/-- What is not ranked is bounded by the cutoffs. -/
theorem upperBound_unseen {key : EntityKey} (h : (state.candidates.lookup key).isSome = false) :
    sources.upperBound request key = state.proofs.foldl (fun upper proof =>
      aggregateScore upper proof.cutoff request.metric.aggregation) 0 := by
  rw [unseenUpper_eq hstate.proofs,upperBound]
  refine congrArg _ (List.map_congr_left fun merged hmerged => ?_)
  rw [MergedMetric.upper,if_pos]
  by_contra hscores
  exact absurd ((hstate.known key).2 ⟨merged,hmerged,hscores⟩) (by simp [h])

/-- A ranking that leaves something unseen has at least as many candidates as one block retains. -/
theorem ranking_long (hunseen : state.proofs.foldl (fun upper proof =>
      aggregateScore upper proof.cutoff request.metric.aggregation) 0 ≠ 0) :
    formatTopK ≤ (ranking request state).length := by
  rw [unseenUpper_eq hstate.proofs] at hunseen
  obtain ⟨cutoff,hcutoff,hne⟩ := aggregateScores_ne_zero _ hunseen
  obtain ⟨merged,hmerged,rfl⟩ := List.mem_map.1 hcutoff
  obtain ⟨segment,-,hsegment⟩ := List.mem_filterMap.1 hmerged
  obtain ⟨keys,hnodup,hlength,hkeys⟩ :=
    MergedMetric.retained_keys (SelectedSegment.merged_listed hsegment) hne
  have hsub : keys ⊆ (ranking request state).map Prod.fst := fun key hkey =>
    mem_ranking_keys.2 ((hstate.known key).2 ⟨merged,hmerged,hkeys key hkey⟩)
  rw [← hlength,← List.length_map Prod.fst]
  exact (List.subperm_of_subset hnodup hsub).length_le

end HeatmapSources

namespace HeatmapSources

variable {sources : HeatmapSources} {request : HeatmapRequest} {response : HeatmapResponse}

theorem toUs_lt {view : WebView} {metric : WebMetric} {fromUs toUs : Int64} {buckets top : Option ℕ}
    (h : heatmapRequest view metric fromUs toUs buckets top = some request) :
    request.toUs < 2^63 := by
  unfold heatmapRequest at h
  split_ifs at h
  obtain ⟨bucketCount,-,h⟩ := Option.bind_eq_some_iff.1 h
  obtain ⟨count,-,rfl⟩ := Option.map_eq_some_iff.1 h
  exact toUs.toInt_lt

theorem selected_inRange {segment : SelectedSegment} (h : segment ∈ sources.selected request) :
    request.fromUs ≤ segment.range.2 ∧ segment.range.1 < request.toUs := by
  rw [selected,List.mem_append] at h
  rcases h with h | h
  · obtain ⟨entry,hentry,rfl⟩ := List.mem_map.1 h
    rw [descriptors,List.mem_insertionSort,List.mem_filter] at hentry
    exact of_decide_eq_true hentry.2
  · obtain ⟨chunk,hchunk,rfl⟩ := List.mem_map.1 h
    rw [liveChunks] at hchunk
    split_ifs at hchunk
    · exact of_decide_eq_true (List.mem_filter.1 hchunk).2
    · cases hchunk

theorem top_le {view : WebView} {metric : WebMetric} {fromUs toUs : Int64} {buckets top : Option ℕ}
    (h : heatmapRequest view metric fromUs toUs buckets top = some request) :
    request.top ≤ formatTopK := by
  unfold heatmapRequest at h
  split_ifs at h
  obtain ⟨bucketCount,-,h⟩ := Option.bind_eq_some_iff.1 h
  obtain ⟨count,hcount,rfl⟩ := Option.map_eq_some_iff.1 h
  unfold boundedCount at hcount
  change count ≤ 64
  cases top with
  | none =>
    cases hcount
    decide
  | some value =>
    dsimp only at hcount
    split_ifs at hcount with hle
    cases hcount
    exact hle.2

/-- A response comes from a merge of all selected segments. -/
theorem heatmap_ok (h : heatmap sources request = .ok response) :
    ∃ state, MergeState.RangeMerged request (sources.selected request) state ∧
      response.rows = ((ranking request state).take request.top).map (fun entry =>
        ⟨Base64Url.encode entry.1.bytes,entry.2.label,request.metric.unit.asStr,entry.2.lower,
          entry.2.upper,entry.2.values⟩) ∧
      response.unseenUpper = state.proofs.foldl (fun upper proof =>
        aggregateScore upper proof.cutoff request.metric.aggregation) 0 ∧
      (response.quality.unboundedSegments = [] → state.unboundedSegments = []) ∧
      (response.exact = true → state.unboundedSegments = [] ∧
        Heatmap.coverageGaps ((sources.selected request).map SelectedSegment.range) request.fromUs
          request.toUs = [] ∧
        rankingIsExact (ranking request state) request.top response.unseenUpper true = true) := by
  unfold heatmap at h
  split_ifs at h
  obtain ⟨state,hfold,rfl⟩ := map_ok h
  have hmerged := MergeState.rangeMerged_foldlM hfold
  have htail : ∀ p : Prop, [Decidable p] →
      (if p then state else state.markUnbounded "active_tail").unboundedSegments = [] →
        state.unboundedSegments = [] := by
    intro p _ hp
    split_ifs at hp
    · exact hp
    · exact absurd hp (by simp [MergeState.markUnbounded])
  have hkeep : ∀ p : Prop, [Decidable p] →
      (if p then state else state.markUnbounded "active_tail").candidates = state.candidates ∧
        (if p then state else state.markUnbounded "active_tail").proofs = state.proofs := by
    intro p _
    split_ifs <;> exact ⟨rfl,rfl⟩
  refine ⟨state,hmerged,?_,?_,htail _,?_⟩
  · simp only [heatmapResponse,hkeep]
    rfl
  · simp only [heatmapResponse,hkeep]
  · intro hexact
    simp only [heatmapResponse,hkeep] at hexact
    have hbounded : decide ((if sources.liveState = .empty ∨ sources.liveState = .current then state
        else state.markUnbounded "active_tail").unboundedSegments = [] ∧
        Heatmap.coverageGaps ((sources.selected request).map SelectedSegment.range) request.fromUs
          request.toUs = []) = true := by
      by_contra hnot
      rw [Bool.not_eq_true] at hnot
      rw [hnot] at hexact
      simp [rankingIsExact] at hexact
    rw [hbounded] at hexact
    obtain ⟨hnil,hgaps⟩ := of_decide_eq_true hbounded
    refine ⟨htail _ hnil,hgaps,?_⟩
    simp only [heatmapResponse,hkeep]
    exact hexact

/-- Two identities that one live chunk retains, in a range that holds the chunk. -/
def sampleSeries : List EntitySeries := [⟨1,5,5,[1],[255]⟩,⟨0,3,3,[1],[255]⟩]

theorem sampleSeries_atMost : sampleSeries.length ≤ formatTopK := by decide

theorem sampleSeries_complete : MetricStatus.complete ≠ .complete → sampleSeries = [] ∧ (0 : ℚ≥0) = 0 :=
  fun h => absurd rfl h

theorem sampleSeries_short : sampleSeries.length < formatTopK → (0 : ℚ≥0) = 0 := fun _ => rfl

theorem sampleSeries_full : sampleSeries.length = formatTopK →
    sampleSeries.getLast?.map EntitySeries.exactScore = some 0 := by decide

theorem sampleSeries_distinct : (sampleSeries.map EntitySeries.entityRef).Nodup := by decide

theorem sampleSeries_ordered : sampleSeries.Pairwise fun a b => b.exactScore < a.exactScore ∨
    b.exactScore = a.exactScore ∧ a.entityRef < b.entityRef := by decide

def sampleMetric : EntityMetric :=
  ⟨4,1,0,1,.max,.complete,0,sampleSeries,sampleSeries_atMost,sampleSeries_complete,
    sampleSeries_short,sampleSeries_full,sampleSeries_distinct,sampleSeries_ordered⟩

def sampleDictionary : List EntityDictionaryEntry := [⟨⟨[1]⟩,"a"⟩,⟨⟨[2]⟩,"b"⟩]

theorem sampleDictionary_order :
    (sampleDictionary.map EntityDictionaryEntry.key).Pairwise (· < ·) := by decide

theorem sampleMetrics_order : ([sampleMetric].map EntityMetric.metricCode).Pairwise (· < ·) := by
  decide

theorem sampleMetrics_refs : ∀ metric ∈ [sampleMetric], ∀ series ∈ metric.series,
    series.entityRef < sampleDictionary.length := by decide

def sampleBlock : EntitySeriesBlock :=
  ⟨1,1,1,.complete,⟨0,60,1⟩,[1],sampleDictionary,[sampleMetric],sampleDictionary_order,
    sampleMetrics_order,sampleMetrics_refs⟩

def sampleSources : HeatmapSources :=
  ⟨[],.current,[⟨0,9,⟨.replicate 32 7⟩,[sampleBlock]⟩]⟩

def sampleRequest : HeatmapRequest := ⟨⟨1,1,1⟩,⟨4,1,.microseconds,.max⟩,0,10,56,8⟩

/-- Each returned row bounds the score of its identity, and an identity that no block retains has a
score within the bound of the unseen, unless a segment is on record as unbounded. -/
theorem heatmap_bounds (h : heatmap sources request = .ok response)
    (hbounded : response.quality.unboundedSegments = []) {amounts : List (EntityKey → ℚ≥0)}
    (hadds : List.Forall₂ (SelectedSegment.Adds request) (sources.selected request) amounts) :
    (∀ row ∈ response.rows, ∃ key : EntityKey, row.entity = Base64Url.encode key.bytes ∧
        row.lower ≤ rangeScore request amounts key ∧ rangeScore request amounts key ≤ row.upper) ∧
      ∀ key, (∀ merged ∈ sources.mergedMetrics request, merged.scores key = []) →
        rangeScore request amounts key ≤ response.unseenUpper := by
  obtain ⟨state,hstate,hrows,hunseen,hunbounded,-⟩ := heatmap_ok h
  have hmerged := hstate.bounded (hunbounded hbounded)
  constructor
  · intro row hrow
    rw [hrows] at hrow
    obtain ⟨entry,hentry,rfl⟩ := List.mem_map.1 hrow
    obtain ⟨hlower,hupper⟩ := ranking_bounds hstate entry (List.mem_of_mem_take hentry)
    refine ⟨entry.1,rfl,?_,?_⟩
    · exact hlower.trans_le (lowerBound_le hmerged hadds entry.1)
    · exact (le_upperBound hmerged hadds entry.1).trans_eq hupper.symm
  · intro key hkey
    have hnot : (state.candidates.lookup key).isSome = false := by
      rw [Bool.eq_false_iff,Ne,hstate.known]
      rintro ⟨merged,hmem,hscores⟩
      exact hscores (hkey merged hmem)
    rw [hunseen,← upperBound_unseen hstate hnot]
    exact le_upperBound hmerged hadds key

def sampleAmount (key : EntityKey) : ℚ≥0 :=
  if key = ⟨[1]⟩ then 3 else if key = ⟨[2]⟩ then 5 else 0

theorem sample_merged {segment : SelectedSegment}
    (h : segment ∈ sampleSources.selected sampleRequest) :
    segment.merged sampleRequest = some ⟨sampleBlock,sampleMetric,true⟩ := by
  rw [selected,List.mem_append] at h
  rcases h with h | h
  · cases h
  · obtain ⟨chunk,hchunk,rfl⟩ := List.mem_map.1 h
    cases hchunk with
    | head => rfl
    | tail _ hchunk => cases hchunk

theorem sample_scoredBy : MergedMetric.ScoredBy ⟨sampleBlock,sampleMetric,true⟩ sampleAmount where
  retained := by
    intro series hseries key hkey
    change series ∈ sampleSeries at hseries
    simp only [sampleSeries,List.mem_cons,List.not_mem_nil,or_false] at hseries
    rcases hseries with rfl | rfl <;> cases hkey <;> decide
  others := by
    intro key hkey
    have hone : key ≠ ⟨[1]⟩ := fun h => hkey ⟨0,3,3,[1],[255]⟩ (by decide) (h ▸ rfl)
    have htwo : key ≠ ⟨[2]⟩ := fun h => hkey ⟨1,5,5,[1],[255]⟩ (by decide) (h ▸ rfl)
    rw [sampleAmount,if_neg hone,if_neg htwo]
    exact zero_le

theorem sample_adds : List.Forall₂ (SelectedSegment.Adds sampleRequest)
    (sampleSources.selected sampleRequest) [sampleAmount] := by
  refine .cons (fun merged hmerged => ?_) .nil
  rw [sample_merged (List.mem_singleton_self _)] at hmerged
  cases hmerged
  exact ⟨sampleAmount,sample_scoredBy,fun _ => le_rfl,fun _ => rfl⟩

theorem sample_response : ∃ response, heatmap sampleSources sampleRequest = .ok response ∧
    response.exact = true ∧ response.quality.unboundedSegments = [] ∧ response.rows.length = 2 :=
  ⟨_,rfl,by decide,rfl,rfl⟩

/-- The sample's rows bound the scores of its two identities. -/
theorem heatmap_bounds_sample : ∃ response, heatmap sampleSources sampleRequest = .ok response ∧
    response.rows.length = 2 ∧ ∀ row ∈ response.rows, ∃ key : EntityKey,
      row.entity = Base64Url.encode key.bytes ∧
        row.lower ≤ rangeScore sampleRequest [sampleAmount] key ∧
        rangeScore sampleRequest [sampleAmount] key ≤ row.upper := by
  obtain ⟨response,hresponse,-,hbounded,hlength⟩ := sample_response
  exact ⟨response,hresponse,hlength,(heatmap_bounds hresponse hbounded sample_adds).1⟩

/-- An exact response of the endpoint ranks all identities by their scores: its rows are the first
ones, in strictly descending order, and the segments cover the range. -/
theorem heatmap_exact {view : WebView} {metric : WebMetric} {fromUs toUs : Int64}
    {buckets top : Option ℕ} (hrequest : heatmapRequest view metric fromUs toUs buckets top = some request)
    (h : heatmap sources request = .ok response) (hexact : response.exact = true)
    {amounts : List (EntityKey → ℚ≥0)}
    (hadds : List.Forall₂ (SelectedSegment.Adds request) (sources.selected request) amounts) :
    (∃ keys : List EntityKey,
      response.rows.map HeatmapRow.entity = keys.map (fun key => Base64Url.encode key.bytes) ∧
        BoundedRanking.IsTop (rangeScore request amounts) request.top keys) ∧
      ∀ t, request.fromUs ≤ t → t < request.toUs →
        ∃ segment ∈ sources.selected request, segment.range.1 ≤ t ∧ t ≤ segment.range.2 := by
  obtain ⟨state,hstate,hrows,hunseen,-,hproved⟩ := heatmap_ok h
  obtain ⟨hunbounded,hgaps,hranking⟩ := hproved hexact
  have hmerged := hstate.bounded hunbounded
  have hbounds := ranking_bounds hstate
  constructor
  · refine ⟨((ranking request state).map Prod.fst).take request.top,?_,?_⟩
    · simp [hrows,List.map_take,Function.comp_def]
    have hfront : BoundedRanking.FrontBeats (sources.lowerBound request) (sources.upperBound request)
        response.unseenUpper request.top ((ranking request state).map Prod.fst) :=
      frontBeats_of_rankingIsExact (fun entry hentry => (hbounds entry hentry).1)
        (fun entry hentry => (hbounds entry hentry).2) hranking
    refine BoundedRanking.isTop_take hfront ⟨?_,?_,?_⟩ ?_
    · exact fun key _ => lowerBound_le hmerged hadds key
    · exact fun key _ => le_upperBound hmerged hadds key
    · intro key hkey
      rw [mem_ranking_keys,Bool.not_eq_true] at hkey
      rw [hunseen,← upperBound_unseen hstate hkey]
      exact le_upperBound hmerged hadds key
    · intro hne
      rw [hunseen] at hne
      rw [List.length_map]
      exact (top_le hrequest).trans (ranking_long hstate hne)
  · intro t hfrom hto
    obtain ⟨span,hspan,hin⟩ := Heatmap.covered_of_gapsFrom_eq_nil hgaps hfrom hto
    obtain ⟨segment,hsegment,rfl⟩ := List.mem_map.1 ((List.mem_insertionSort _).1 hspan)
    exact ⟨segment,hsegment,hin⟩

theorem heatmap_exact_sample : ∃ response, heatmap sampleSources sampleRequest = .ok response ∧
    ∃ keys : List EntityKey,
      response.rows.map HeatmapRow.entity = keys.map (fun key => Base64Url.encode key.bytes) ∧
        BoundedRanking.IsTop (rangeScore sampleRequest [sampleAmount]) 8 keys := by
  obtain ⟨response,hresponse,hexact,-,-⟩ := sample_response
  have hrequest : heatmapRequest sampleRequest.view sampleRequest.metric 0 10 none none =
      some sampleRequest := rfl
  exact ⟨response,hresponse,(heatmap_exact hrequest hresponse hexact sample_adds).1⟩

/-- The gaps of a response are the instants of the range that no selected segment covers. They are
in ascending order and apart from each other. -/
theorem heatmap_gaps {view : WebView} {metric : WebMetric} {fromUs toUs : Int64}
    {buckets top : Option ℕ} (hrequest : heatmapRequest view metric fromUs toUs buckets top = some request)
    (h : heatmap sources request = .ok response)
    (hproper : ∀ segment ∈ sources.selected request, segment.range.1 ≤ segment.range.2) :
    (∀ t, (∃ gap ∈ response.quality.gaps, gap.fromUs ≤ t ∧ t < gap.toUs) ↔
      request.fromUs ≤ t ∧ t < request.toUs ∧
        ∀ segment ∈ sources.selected request, ¬(segment.range.1 ≤ t ∧ t ≤ segment.range.2)) ∧
    (∀ gap ∈ response.quality.gaps, gap.fromUs < gap.toUs) ∧
    response.quality.gaps.Pairwise fun a b => a.toUs < b.fromUs := by
  have hto : request.toUs < 2^63 := toUs_lt hrequest
  have hgaps : response.quality.gaps = Heatmap.coverageGaps
      ((sources.selected request).map SelectedSegment.range) request.fromUs request.toUs := by
    unfold heatmap at h
    split_ifs at h
    obtain ⟨state,-,rfl⟩ := map_ok h
    rfl
  have hordered : Heatmap.Ordered request.toUs
      (((sources.selected request).map SelectedSegment.range).insertionSort
        fun a b => toLex a ≤ toLex b) := by
    constructor
    · intro span hspan
      obtain ⟨segment,hsegment,rfl⟩ := List.mem_map.1 ((List.mem_insertionSort _).1 hspan)
      exact ⟨hproper segment hsegment,(selected_inRange hsegment).2⟩
    · refine (List.pairwise_insertionSort _ _).imp fun {a b} hab => ?_
      rcases Prod.Lex.le_iff.1 hab with hlt | heq
      · exact hlt.le
      · exact heq.1.le
  rw [hgaps]
  refine ⟨fun t => ?_,fun gap hgap => (Heatmap.gapsFrom_ge hgap).2,
    Heatmap.gapsFrom_apart hordered hto le_rfl⟩
  have hmem := Heatmap.mem_gapsFrom hordered hto (le_refl request.fromUs) t
  simp only [List.mem_insertionSort,List.forall_mem_map] at hmem
  exact hmem

theorem heatmap_gaps_sample : ∃ response, heatmap sampleSources sampleRequest = .ok response ∧
    ∀ gap ∈ response.quality.gaps, gap.fromUs < gap.toUs := by
  obtain ⟨response,hresponse,-⟩ := sample_response
  have hrequest : heatmapRequest sampleRequest.view sampleRequest.metric 0 10 none none =
      some sampleRequest := rfl
  have hproper : ∀ segment ∈ sampleSources.selected sampleRequest,
      segment.range.1 ≤ segment.range.2 := by decide
  exact ⟨response,hresponse,(heatmap_gaps hrequest hresponse hproper).2.1⟩

end HeatmapSources

end PgKronika
