import PgKronika.Heatmap

/-! The merge of a heatmap: each segment adds what its retained series and its cutoff say, and the
candidates hold the aggregates of all segments that are merged. -/
namespace PgKronika

open ByteCodec CheckedArith

/-- The score of a range, from what its segments add. -/
def aggregateScores (aggregation : WebAggregation) (scores : List ℚ≥0) : ℚ≥0 :=
  scores.foldl (fun total score => aggregateScore total score aggregation) 0

section Aggregation

variable (aggregation : WebAggregation)

@[simp] theorem zero_aggregateScore (a : ℚ≥0) : aggregateScore 0 a aggregation = a := by
  cases aggregation <;> simp [aggregateScore]

@[simp] theorem aggregateScore_zero (a : ℚ≥0) : aggregateScore a 0 aggregation = a := by
  cases aggregation <;> simp [aggregateScore]

theorem aggregateScore_comm (a b : ℚ≥0) :
    aggregateScore a b aggregation = aggregateScore b a aggregation := by
  cases aggregation
  · exact add_comm a b
  · exact max_comm a b

theorem aggregateScore_assoc (a b c : ℚ≥0) :
    aggregateScore (aggregateScore a b aggregation) c aggregation =
      aggregateScore a (aggregateScore b c aggregation) aggregation := by
  cases aggregation
  · exact add_assoc a b c
  · exact max_assoc a b c

theorem aggregateScore_le {a b c d : ℚ≥0} (hab : a ≤ b) (hcd : c ≤ d) :
    aggregateScore a c aggregation ≤ aggregateScore b d aggregation := by
  cases aggregation
  · exact add_le_add hab hcd
  · exact max_le_max hab hcd

@[simp] theorem aggregateScores_nil : aggregateScores aggregation [] = 0 := rfl

@[simp] theorem aggregateScores_single (a : ℚ≥0) : aggregateScores aggregation [a] = a :=
  zero_aggregateScore aggregation a

/-- A fold from any score adds the score of the list. -/
theorem foldl_aggregateScore (b : ℚ≥0) (scores : List ℚ≥0) :
    scores.foldl (fun total score => aggregateScore total score aggregation) b =
      aggregateScore b (aggregateScores aggregation scores) aggregation := by
  induction scores generalizing b with
  | nil => simp
  | cons a scores ih =>
    have hfirst : aggregateScores aggregation (a::scores) =
        aggregateScore a (aggregateScores aggregation scores) aggregation := by
      rw [aggregateScores,List.foldl_cons,zero_aggregateScore,ih]
    rw [List.foldl_cons,ih,hfirst,aggregateScore_assoc]

theorem aggregateScores_append (as bs : List ℚ≥0) :
    aggregateScores aggregation (as ++ bs) =
      aggregateScore (aggregateScores aggregation as) (aggregateScores aggregation bs) aggregation := by
  rw [aggregateScores,List.foldl_append,foldl_aggregateScore]
  rfl

theorem aggregateScores_cons (a : ℚ≥0) (scores : List ℚ≥0) :
    aggregateScores aggregation (a::scores) =
      aggregateScore a (aggregateScores aggregation scores) aggregation := by
  rw [← List.singleton_append,aggregateScores_append,aggregateScores_single]

theorem aggregateScores_le {as bs : List ℚ≥0} (h : List.Forall₂ (· ≤ ·) as bs) :
    aggregateScores aggregation as ≤ aggregateScores aggregation bs := by
  induction h with
  | nil => exact le_rfl
  | cons hab _ ih =>
    rw [aggregateScores_cons,aggregateScores_cons]
    exact aggregateScore_le aggregation hab ih

/-- Two scores for each segment aggregate like their aggregates. -/
theorem aggregateScores_map_aggregate {α : Type} (xs : List α) (f g : α → ℚ≥0) :
    aggregateScores aggregation (xs.map fun x => aggregateScore (f x) (g x) aggregation) =
      aggregateScore (aggregateScores aggregation (xs.map f)) (aggregateScores aggregation (xs.map g))
        aggregation := by
  induction xs with
  | nil => simp
  | cons x xs ih =>
    simp only [List.map_cons,aggregateScores_cons]
    rw [ih,aggregateScore_assoc,aggregateScore_assoc]
    congr 1
    rw [← aggregateScore_assoc,← aggregateScore_assoc,aggregateScore_comm aggregation (g x)]

theorem aggregateScores_ne_zero {scores : List ℚ≥0} (h : aggregateScores aggregation scores ≠ 0) :
    ∃ a ∈ scores, a ≠ 0 := by
  induction scores with
  | nil => exact absurd rfl h
  | cons a scores ih =>
    by_cases ha : a = 0
    · rw [aggregateScores_cons,ha,zero_aggregateScore] at h
      obtain ⟨b,hb,hne⟩ := ih h
      exact ⟨b,List.mem_cons_of_mem a hb,hne⟩
    · exact ⟨a,List.mem_cons_self,ha⟩

end Aggregation

/-- The metric that is merged from a segment. -/
structure MergedMetric where
  block : EntitySeriesBlock
  metric : EntityMetric
  contained : Bool

def SelectedSegment.contained (segment : SelectedSegment) (request : HeatmapRequest) : Bool :=
  request.fromUs ≤ segment.range.1 ∧ segment.range.2 < request.toUs

/-- A segment that no metric is merged from stays unbounded. -/
def SelectedSegment.merged (request : HeatmapRequest) (segment : SelectedSegment) :
    Option MergedMetric :=
  match segment.series with
  | .ok (some block) =>
    match block.verdict request with
    | .admitted metric => some ⟨block,metric,segment.contained request⟩
    | _ => none
  | _ => none

/-- The exact scores of the series that stand for an identity. -/
def EntitySeriesBlock.scoresOf (block : EntitySeriesBlock) (series : List EntitySeries)
    (key : EntityKey) : List ℚ≥0 :=
  (series.filter fun s => block.keyOf s = some key).map EntitySeries.exactScore

namespace MergedMetric

variable (merged : MergedMetric) (aggregation : WebAggregation) (key : EntityKey)

def scores : List ℚ≥0 := merged.block.scoresOf merged.metric.series key

/-- The least that the segment can add to the score of an identity. -/
def lower : ℚ≥0 := if merged.contained then aggregateScores aggregation (merged.scores key) else 0

/-- The most that the segment can add to the score of an identity. -/
def upper : ℚ≥0 :=
  if merged.scores key = [] then merged.metric.cutoffScore
  else aggregateScores aggregation (merged.scores key)

/-- Scores of the whole segment agree with its retained series, and no other passes the cutoff. -/
structure ScoredBy (score : EntityKey → ℚ≥0) : Prop where
  retained : ∀ series ∈ merged.metric.series, ∀ key, merged.block.keyOf series = some key →
    score key = series.exactScore
  others : ∀ key, (∀ series ∈ merged.metric.series, merged.block.keyOf series ≠ some key) →
    score key ≤ merged.metric.cutoffScore

variable {merged}

theorem scores_eq_nil : merged.scores key = [] ↔
    ∀ series ∈ merged.metric.series, merged.block.keyOf series ≠ some key := by
  simp [scores,EntitySeriesBlock.scoresOf,List.filter_eq_nil_iff]

/-- No two series of a metric stand for one identity. -/
theorem scores_le_one {series : EntitySeries} (h : series ∈ merged.metric.series)
    (hkey : merged.block.keyOf series = some key) : merged.scores key = [series.exactScore] := by
  have hfilter : (merged.metric.series.filter fun s => merged.block.keyOf s = some key) = [series] := by
    have hinj : ∀ s ∈ merged.metric.series, merged.block.keyOf s = some key → s = series :=
      fun s hs hs' => List.inj_on_of_nodup_map merged.metric.distinct hs h
        (EntitySeriesBlock.keyOf_injective hs' hkey)
    have hnodup := (List.Nodup.of_map _ merged.metric.distinct).filter
      fun s => decide (merged.block.keyOf s = some key)
    refine List.perm_singleton.mp ((List.perm_ext_iff_of_nodup hnodup (List.nodup_singleton _)).mpr
      fun s => ?_)
    simp only [List.mem_filter,decide_eq_true_eq,List.mem_singleton]
    exact ⟨fun hs => hinj s hs.1 hs.2,fun hs => hs ▸ ⟨h,hkey⟩⟩
  rw [scores,EntitySeriesBlock.scoresOf,hfilter]
  rfl

theorem ScoredBy.scores_cases {score : EntityKey → ℚ≥0} (h : merged.ScoredBy score) :
    merged.scores key = [score key] ∨
      merged.scores key = [] ∧ score key ≤ merged.metric.cutoffScore := by
  by_cases hnil : merged.scores key = []
  · exact .inr ⟨hnil,h.others key ((scores_eq_nil key).1 hnil)⟩
  · rw [scores_eq_nil] at hnil
    push Not at hnil
    obtain ⟨series,hmem,hkey⟩ := hnil
    rw [scores_le_one key hmem hkey,h.retained series hmem key hkey]
    exact .inl rfl

theorem ScoredBy.le_upper {score : EntityKey → ℚ≥0} (h : merged.ScoredBy score) :
    score key ≤ merged.upper aggregation key := by
  rw [upper]
  rcases h.scores_cases key with hscore | ⟨hnil,hle⟩
  · simp [hscore]
  · rwa [if_pos hnil]

theorem ScoredBy.lower_le {score : EntityKey → ℚ≥0} (h : merged.ScoredBy score) :
    aggregateScores aggregation (merged.scores key) ≤ score key := by
  rcases h.scores_cases key with hscore | ⟨hnil,-⟩
  · simp [hscore]
  · simp [hnil]

end MergedMetric

/-- What a segment adds to the scores of the range: all of the segment's scores when the range holds
the segment, and no more than them else. -/
def SelectedSegment.Adds (request : HeatmapRequest) (segment : SelectedSegment)
    (amount : EntityKey → ℚ≥0) : Prop :=
  ∀ merged, segment.merged request = some merged →
    ∃ score, merged.ScoredBy score ∧ (∀ key, amount key ≤ score key) ∧
      (merged.contained → amount = score)

theorem SelectedSegment.Adds.bounds {request : HeatmapRequest} {segment : SelectedSegment}
    {amount : EntityKey → ℚ≥0} (h : segment.Adds request amount) {merged : MergedMetric}
    (hmerged : segment.merged request = some merged) (key : EntityKey) :
    merged.lower request.metric.aggregation key ≤ amount key ∧
      amount key ≤ merged.upper request.metric.aggregation key := by
  obtain ⟨score,hscore,hle,hwhole⟩ := h merged hmerged
  refine ⟨?_,(hle key).trans (hscore.le_upper _ key)⟩
  rw [MergedMetric.lower]
  split_ifs with hcontained
  · rw [hwhole hcontained]
    exact hscore.lower_le _ key
  · exact zero_le

namespace MergeState

variable {request : HeatmapRequest} {block : EntitySeriesBlock} {contained : Bool}

/-- The bounds that are kept of an identity; none are kept of one that is not a candidate. -/
def boundsOf (candidates : OrderedMap EntityKey Candidate) (key : EntityKey) : ℚ≥0 × ℚ≥0 :=
  (candidates.lookup key).elim (0,0) fun candidate => (candidate.lower,candidate.upper)

/-- Bounds to which the scores of a segment are added. -/
def addScores (aggregation : WebAggregation) (contained : Bool) (bounds : ℚ≥0 × ℚ≥0)
    (scores : List ℚ≥0) : ℚ≥0 × ℚ≥0 :=
  (if contained then aggregateScore bounds.1 (aggregateScores aggregation scores) aggregation
    else bounds.1,
    aggregateScore bounds.2 (aggregateScores aggregation scores) aggregation)

theorem addScores_nil (aggregation : WebAggregation) (bounds : ℚ≥0 × ℚ≥0) :
    addScores aggregation contained bounds [] = bounds := by
  simp [addScores]

theorem addScores_append (aggregation : WebAggregation) (bounds : ℚ≥0 × ℚ≥0) (as bs : List ℚ≥0) :
    addScores aggregation contained bounds (as ++ bs) =
      addScores aggregation contained (addScores aggregation contained bounds as) bs := by
  cases contained <;> simp [addScores,aggregateScores_append,aggregateScore_assoc]

theorem addScores_scores (aggregation : WebAggregation) (merged : MergedMetric)
    (bounds : ℚ≥0 × ℚ≥0) (key : EntityKey) :
    addScores aggregation merged.contained bounds
        (merged.block.scoresOf merged.metric.series key) =
      (aggregateScore bounds.1 (merged.lower aggregation key) aggregation,
        aggregateScore bounds.2 (aggregateScores aggregation (merged.scores key)) aggregation) := by
  unfold addScores MergedMetric.lower
  cases merged.contained
  · simp [MergedMetric.scores]
  · rfl

/-- One series goes to its identity only, and makes it a candidate. -/
theorem mergeSeries_ok {merged next : OrderedMap EntityKey Candidate × List EntityKey}
    {series : EntitySeries} (h : mergeSeries block contained request merged series = .ok next) :
    ∃ key, block.keyOf series = some key ∧ next.2 = merged.2 ++ [key] ∧
      (∀ other, (next.1.lookup other).isSome ↔ other = key ∨ (merged.1.lookup other).isSome) ∧
      (∀ other, other ≠ key → boundsOf next.1 other = boundsOf merged.1 other) ∧
      boundsOf next.1 key = addScores request.metric.aggregation contained (boundsOf merged.1 key)
        [series.exactScore] := by
  unfold mergeSeries at h
  split at h
  · cases h
  · rename_i entry hentry
    split at h
    · cases h
    · obtain ⟨values,-,rfl⟩ := map_ok h
      refine ⟨entry.key,by simp [EntitySeriesBlock.keyOf,hentry],rfl,fun other => ?_,
        fun other hother => ?_,?_⟩
      · by_cases hkey : other = entry.key
        · simp [hkey]
        · simp [OrderedMap.lookup_insert_of_ne _ hkey,hkey]
      · simp only [boundsOf,OrderedMap.lookup_insert_of_ne _ hother]
      · cases hlookup : merged.1.lookup entry.key <;> simp [boundsOf,addScores,hlookup]

/-- The merge of a metric's series so far. -/
structure SeriesMerged (request : HeatmapRequest) (block : EntitySeriesBlock) (contained : Bool)
    (candidates : OrderedMap EntityKey Candidate) (done : List EntitySeries)
    (merged : OrderedMap EntityKey Candidate × List EntityKey) : Prop where
  retained : ∀ key, key ∈ merged.2 ↔ block.scoresOf done key ≠ []
  known : ∀ key, (merged.1.lookup key).isSome ↔ (candidates.lookup key).isSome ∨ key ∈ merged.2
  bounds : ∀ key, boundsOf merged.1 key = addScores request.metric.aggregation contained
    (boundsOf candidates key) (block.scoresOf done key)

theorem scoresOf_append (done : List EntitySeries) (series : EntitySeries) (key : EntityKey) :
    block.scoresOf (done ++ [series]) key = block.scoresOf done key ++
      if block.keyOf series = some key then [series.exactScore] else [] := by
  rw [EntitySeriesBlock.scoresOf,List.filter_append,List.map_append]
  by_cases hkey : block.keyOf series = some key <;> simp [EntitySeriesBlock.scoresOf,hkey]

theorem SeriesMerged.step {candidates : OrderedMap EntityKey Candidate} {done : List EntitySeries}
    {merged next : OrderedMap EntityKey Candidate × List EntityKey} {series : EntitySeries}
    (hmerged : SeriesMerged request block contained candidates done merged)
    (h : mergeSeries block contained request merged series = .ok next) :
    SeriesMerged request block contained candidates (done ++ [series]) next := by
  obtain ⟨key,hkey,hretained,hknown,hother,hbounds⟩ := mergeSeries_ok h
  have hscores : ∀ k, block.scoresOf (done ++ [series]) k =
      block.scoresOf done k ++ if k = key then [series.exactScore] else [] := by
    intro k
    rw [scoresOf_append,hkey]
    simp only [Option.some_inj,eq_comm]
  constructor
  · intro k
    rw [hretained,List.mem_append,List.mem_singleton,hmerged.retained,hscores]
    by_cases hk : k = key <;> simp [hk]
  · intro k
    rw [hknown,hmerged.known,hretained,List.mem_append,List.mem_singleton]
    tauto
  · intro k
    rw [hscores]
    by_cases hk : k = key
    · rw [if_pos hk,addScores_append,← hmerged.bounds,hk,hbounds]
    · rw [if_neg hk,List.append_nil,hother k hk,hmerged.bounds]

theorem seriesMerged_foldlM {candidates : OrderedMap EntityKey Candidate} {series : List EntitySeries}
    {merged : OrderedMap EntityKey Candidate × List EntityKey}
    (h : series.foldlM (mergeSeries block contained request) (candidates,[]) = .ok merged) :
    SeriesMerged request block contained candidates series merged := by
  have hempty : SeriesMerged request block contained candidates [] (candidates,[]) := by
    constructor <;> intro key <;> simp [EntitySeriesBlock.scoresOf,addScores_nil]
  exact foldlM_run (SeriesMerged request block contained candidates) SeriesMerged.step [] hempty h

/-- What a block proof keeps of the metric that it was made of. -/
def ProofOf (merged : MergedMetric) (proof : BlockProof) : Prop :=
  proof.cutoff = merged.metric.cutoffScore ∧
    ∀ key, key ∈ proof.retained ↔ merged.scores key ≠ []

/-- The merge of the segments so far: the candidates and proofs are those of the merged metrics, and
a segment without one is on record. -/
structure RangeMerged (request : HeatmapRequest) (done : List SelectedSegment) (state : MergeState) :
    Prop where
  bounded : state.unboundedSegments = [] → ∀ segment ∈ done, segment.merged request ≠ none
  known : ∀ key, (state.candidates.lookup key).isSome ↔
    ∃ merged ∈ done.filterMap (SelectedSegment.merged request), merged.scores key ≠ []
  bounds : ∀ key, boundsOf state.candidates key =
    (aggregateScores request.metric.aggregation
      ((done.filterMap (SelectedSegment.merged request)).map fun merged =>
        merged.lower request.metric.aggregation key),
    aggregateScores request.metric.aggregation
      ((done.filterMap (SelectedSegment.merged request)).map fun merged =>
        aggregateScores request.metric.aggregation (merged.scores key)))
  proofs : List.Forall₂ ProofOf (done.filterMap (SelectedSegment.merged request)) state.proofs

theorem rangeMerged_new : RangeMerged request [] .new := by
  constructor <;> simp [new,boundsOf]

/-- A segment is recorded as unbounded, or all series of its metric are merged. -/
theorem mergeSegment_ok {state next : MergeState} {segment : SelectedSegment}
    (h : mergeSegment request state segment = .ok next) :
    (segment.merged request = none ∧ next.candidates = state.candidates ∧
        next.proofs = state.proofs ∧ next.unboundedSegments ≠ []) ∨
      ∃ merged keys, segment.merged request = some merged ∧
        SeriesMerged request merged.block merged.contained state.candidates merged.metric.series
          (next.candidates,keys) ∧
        next.proofs = state.proofs ++ [⟨merged.metric.cutoffScore,keys⟩] ∧
        next.unboundedSegments = state.unboundedSegments := by
  unfold mergeSegment at h
  unfold SelectedSegment.merged
  split at h
  · rename_i block hblock
    unfold mergeBlock at h
    simp only [hblock]
    split at h <;> rename_i hverdict <;> simp only [hverdict]
    · rename_i metric
      unfold mergeMetric at h
      split at h
      · cases h
      · obtain ⟨merged,hfold,rfl⟩ := map_ok h
        exact .inr ⟨_,merged.2,rfl,seriesMerged_foldlM hfold,rfl,rfl⟩
    all_goals
      cases h
      exact .inl ⟨trivial,rfl,rfl,by simp [markUnbounded]⟩
  · rename_i hnone
    cases h
    exact .inl ⟨by simp [hnone],rfl,rfl,by simp [markUnbounded]⟩
  · rename_i habsent
    cases h
    exact .inl ⟨by simp [habsent],rfl,rfl,by simp [markUnbounded]⟩
  · cases h

theorem RangeMerged.step {done : List SelectedSegment} {state next : MergeState}
    {segment : SelectedSegment} (hstate : RangeMerged request done state)
    (h : mergeSegment request state segment = .ok next) :
    RangeMerged request (done ++ [segment]) next := by
  rcases mergeSegment_ok h with ⟨hnone,hcandidates,hproofs,hne⟩ | ⟨merged,keys,hsome,hseries,hproofs,hunbounded⟩
  · have hlist : (done ++ [segment]).filterMap (SelectedSegment.merged request) =
        done.filterMap (SelectedSegment.merged request) := by
      simp [hnone]
    constructor
    · exact fun hnil => absurd hnil hne
    · rw [hlist,hcandidates]
      exact hstate.known
    · rw [hlist,hcandidates]
      exact hstate.bounds
    · rw [hlist,hproofs]
      exact hstate.proofs
  · have hlist : (done ++ [segment]).filterMap (SelectedSegment.merged request) =
        done.filterMap (SelectedSegment.merged request) ++ [merged] := by
      simp [hsome]
    constructor
    · intro hnil other hother
      rcases List.mem_append.mp hother with hdone | hlast
      · exact hstate.bounded (hunbounded ▸ hnil) other hdone
      · simp [List.mem_singleton.mp hlast,hsome]
    · intro key
      have hknown := hseries.known key
      rw [hseries.retained key,hstate.known] at hknown
      rw [hlist,hknown]
      simp [or_and_right,exists_or,MergedMetric.scores]
    · intro key
      rw [hseries.bounds key,hstate.bounds,addScores_scores,hlist,List.map_append,List.map_append,
        aggregateScores_append,aggregateScores_append]
      simp
    · rw [hlist,hproofs]
      exact List.rel_append hstate.proofs (.cons ⟨rfl,hseries.retained⟩ .nil)

theorem rangeMerged_foldlM {segments : List SelectedSegment} {state : MergeState}
    (h : segments.foldlM (mergeSegment request) .new = .ok state) :
    RangeMerged request segments state :=
  foldlM_run (RangeMerged request) RangeMerged.step [] rangeMerged_new h

end MergeState

end PgKronika
