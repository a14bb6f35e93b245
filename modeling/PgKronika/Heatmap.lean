import Mathlib
import PgKronika.Base64Url
import PgKronika.CheckedArith
import PgKronika.DescriptorSelection
import PgKronika.EntitySeries
import PgKronika.OrderedMap

/-! The heatmap of one metric: the entity series of all selected segments merge into candidates with
bounds of their scores, and the candidates are ranked by their lower bounds. -/
namespace PgKronika

open ByteCodec CheckedArith

inductive WebAggregation
  | sum | max
  deriving DecidableEq

inductive WebUnit
  | microseconds | milliseconds | count | blocks | ratio | bytesPerSecond | percent
  deriving DecidableEq

def WebUnit.code : WebUnit → ℕ
  | .microseconds => 1
  | .milliseconds => 6
  | .count => 2
  | .blocks => 3
  | .ratio => 4
  | .bytesPerSecond => 5
  | .percent => 7

def WebUnit.asStr : WebUnit → String
  | .microseconds => "us"
  | .milliseconds => "ms"
  | .count => "count"
  | .blocks => "blocks"
  | .ratio => "ratio"
  | .bytesPerSecond => "bytes_per_second"
  | .percent => "percent"

structure WebMetric where
  code : ℕ
  revision : ℕ
  unit : WebUnit
  aggregation : WebAggregation
  deriving DecidableEq

structure WebView where
  code : ℕ
  revision : ℕ
  identityRevision : ℕ
  deriving DecidableEq

structure HeatmapRequest where
  view : WebView
  metric : WebMetric
  fromUs : ℤ
  toUs : ℤ
  bucketCount : ℕ
  top : ℕ

def maxHeatmapSpanUs : ℤ := 24*60*60*1000000

def boundedCount (value : Option ℕ) (default maximum : ℕ) : Option ℕ :=
  match value with
  | none => some default
  | some value => if 1 ≤ value ∧ value ≤ maximum then some value else none

/-- The request that the endpoint makes of its parameters. -/
def heatmapRequest (view : WebView) (metric : WebMetric) (fromUs toUs : Int64)
    (buckets top : Option ℕ) : Option HeatmapRequest :=
  if 0 < toUs.toInt - fromUs.toInt ∧ toUs.toInt - fromUs.toInt ≤ maxHeatmapSpanUs then
    (boundedCount buckets 56 256).bind fun bucketCount =>
      (boundedCount top 8 64).map fun top =>
        ⟨view,metric,fromUs.toInt,toUs.toInt,bucketCount,top⟩
  else none

inductive WebIndexReadError
  | descriptor | sidecarAbsent | cache
  deriving DecidableEq

inductive HeatmapError
  | read (error : WebIndexReadError)
  | tooManySegments
  | tooManyCandidates
  | arithmetic
  deriving DecidableEq

def maxHeatmapCandidates : ℕ := 16384

/-- A bucket without a value has none of the presence bits set. -/
abbrev BucketValues := List (Option ℚ≥0)

structure Candidate where
  label : String
  lower : ℚ≥0
  upper : ℚ≥0
  values : BucketValues
  deriving DecidableEq

structure BlockProof where
  cutoff : ℚ≥0
  retained : List EntityKey
  deriving DecidableEq

structure MergeState where
  candidates : OrderedMap EntityKey Candidate
  proofs : List BlockProof
  unboundedSegments : List String
  gated : List String
  unavailableRevision : List String
  resourceLimited : List String
  snapshots : ℕ

/-- Sums of non-negative rationals are finite, so no aggregate is refused. -/
def aggregateScore (current value : ℚ≥0) : WebAggregation → ℚ≥0
  | .sum => current+value
  | .max => max current value

def checkedI64 (value : ℤ) : Except HeatmapError ℤ :=
  if -2^63 ≤ value ∧ value < 2^63 then .ok value else .error .arithmetic

/-- One observed bucket goes into the output bucket of its start. -/
def mergeValue (grid : TimeGrid) (request : HeatmapRequest) (output : BucketValues)
    (observed : ℕ × ℚ≥0) : Except HeatmapError BucketValues := do
  let widthUs ← checkedI64 (grid.bucketWidthS*1000000)
  let span ← checkedI64 (request.toUs - request.fromUs)
  let bucketOffset ← checkedI64 (observed.1*widthUs)
  let start ← checkedI64 (grid.startUs+bucketOffset)
  let stop ← checkedI64 (start+widthUs)
  if stop ≤ request.fromUs ∨ request.toUs ≤ start then return output
  else
    let offset := max start request.fromUs - request.fromUs
    if span = 0 ∨ (offset*output.length).tdiv span < 0 then throw .arithmetic
    else
      let index := min ((offset*output.length).tdiv span).toNat (output.length - 1)
      return output.set index (some
        (match (output[index]?).getD none with
        | some current => aggregateScore current observed.2 request.metric.aggregation
        | none => observed.2))

def mergeValues (grid : TimeGrid) (request : HeatmapRequest) (output : BucketValues)
    (series : EntitySeries) : Except HeatmapError BucketValues :=
  series.observedValues.foldlM (mergeValue grid request) output

def expectedAggregation : WebAggregation → MetricAggregation
  | .sum => .sum
  | .max => .max

/-- What the checks of a block say: the metric to merge, or why the segment stays unbounded. -/
inductive BlockVerdict
  | admitted (metric : EntityMetric)
  | gated
  | unavailableRevision
  | resourceLimited

def EntitySeriesBlock.verdict (block : EntitySeriesBlock) (request : HeatmapRequest) :
    BlockVerdict :=
  if block.status ≠ .complete then .resourceLimited
  else if block.viewRevision ≠ request.view.revision ∨
      block.identityRevision ≠ request.view.identityRevision then .unavailableRevision
  else
    match block.metrics.find? fun metric => metric.metricCode = request.metric.code with
    | none => .unavailableRevision
    | some metric =>
      if metric.metricRevision ≠ request.metric.revision then .unavailableRevision
      else if metric.unitCode ≠ request.metric.unit.code ∨
          metric.aggregation ≠ expectedAggregation request.metric.aggregation then
        .unavailableRevision
      else
        match metric.status with
        | .complete => .admitted metric
        | .gated => .gated
        | .unsupportedType => .unavailableRevision
        | .resourceLimited => .resourceLimited

namespace MergeState

def new : MergeState := ⟨.empty,[],[],[],[],[],0⟩

variable (state : MergeState)

def markUnbounded (token : String) : MergeState :=
  {state with unboundedSegments := state.unboundedSegments ++ [token]}

/-- One retained series goes into its candidate. -/
def mergeSeries (block : EntitySeriesBlock) (contained : Bool) (request : HeatmapRequest)
    (merged : OrderedMap EntityKey Candidate × List EntityKey) (series : EntitySeries) :
    Except HeatmapError (OrderedMap EntityKey Candidate × List EntityKey) :=
  match block.dictionary[series.entityRef]? with
  | none => .error .arithmetic
  | some dictionary =>
    if merged.1.lookup dictionary.key = none ∧ merged.1.entries.length = maxHeatmapCandidates then
      .error .tooManyCandidates
    else
      let candidate := (merged.1.lookup dictionary.key).getD
        ⟨dictionary.label,0,0,List.replicate request.bucketCount none⟩
      let lower := if contained then
        aggregateScore candidate.lower series.exactScore request.metric.aggregation
        else candidate.lower
      let upper := aggregateScore candidate.upper series.exactScore request.metric.aggregation
      (mergeValues block.grid request candidate.values series).map fun values =>
        (merged.1.insert dictionary.key ⟨dictionary.label,lower,upper,values⟩,
          merged.2 ++ [dictionary.key])

/-- The retained series of a metric that all checks admit. -/
def mergeMetric (block : EntitySeriesBlock) (metric : EntityMetric) (range : ℤ × ℤ)
    (request : HeatmapRequest) : Except HeatmapError MergeState :=
  match checkedAdd state.snapshots (maskPopcount block.coverageMask) with
  | none => .error .arithmetic
  | some snapshots =>
    let contained := decide (request.fromUs ≤ range.1 ∧ range.2 < request.toUs)
    (metric.series.foldlM (mergeSeries block contained request) (state.candidates,[])).map
      fun merged => {state with
        candidates := merged.1
        proofs := state.proofs ++ [⟨metric.cutoffScore,merged.2⟩]
        snapshots := snapshots}

def mergeBlock (block : EntitySeriesBlock) (range : ℤ × ℤ) (token : String)
    (request : HeatmapRequest) : Except HeatmapError MergeState :=
  match block.verdict request with
  | .admitted metric => state.mergeMetric block metric range request
  | .gated => .ok ({state with gated := state.gated ++ [token]}.markUnbounded token)
  | .unavailableRevision =>
    .ok ({state with unavailableRevision := state.unavailableRevision ++ [token]}.markUnbounded token)
  | .resourceLimited =>
    .ok ({state with resourceLimited := state.resourceLimited ++ [token]}.markUnbounded token)

end MergeState

/-- A segment in the range, with what is read of its series. -/
structure SelectedSegment where
  range : ℤ × ℤ
  token : String
  series : Except WebIndexReadError (Option EntitySeriesBlock)

def MergeState.mergeSegment (request : HeatmapRequest) (state : MergeState)
    (segment : SelectedSegment) : Except HeatmapError MergeState :=
  match segment.series with
  | .ok (some block) => state.mergeBlock block segment.range segment.token request
  | .ok none => .ok (state.markUnbounded segment.token)
  | .error .sidecarAbsent => .ok (state.markUnbounded segment.token)
  | .error error => .error (.read error)

structure RangeGap where
  fromUs : ℤ
  toUs : ℤ
  deriving DecidableEq

def Heatmap.coverageGapsFrom (fromUs toUs : ℤ) : ℤ → List (ℤ × ℤ) → List RangeGap
  | coveredTo, [] => if coveredTo < toUs then [⟨coveredTo,toUs⟩] else []
  | coveredTo, (minimum,maximum)::spans =>
    let start := max minimum fromUs
    let stop := min (min (maximum+1) (2^63 - 1)) toUs
    (if coveredTo < start then [⟨coveredTo,start⟩] else []) ++
      Heatmap.coverageGapsFrom fromUs toUs (max coveredTo stop) spans

/-- The parts of the range that no span covers. -/
def Heatmap.coverageGaps (spans : List (ℤ × ℤ)) (fromUs toUs : ℤ) : List RangeGap :=
  Heatmap.coverageGapsFrom fromUs toUs fromUs (spans.insertionSort fun a b => toLex a ≤ toLex b)

/-- Whether the bounds prove the order of the rows that are returned. -/
def rankingIsExact (ranked : List (EntityKey × Candidate)) (top : ℕ) (unseenUpper : ℚ≥0)
    (bounded : Bool) : Bool :=
  if bounded = false then false
  else if ranked = [] then unseenUpper = 0
  else
    (List.range (min top ranked.length)).all fun index =>
      let later := ranked.drop (index+1)
      let laterUpper := (later.map fun entry => entry.2.upper).foldl max unseenUpper
      (later = [] ∧ unseenUpper = 0) ∨ (ranked[index]?).any fun entry => laterUpper < entry.2.lower

structure HeatmapRow where
  entity : String
  label : String
  unit : String
  lower : ℚ≥0
  upper : ℚ≥0
  values : BucketValues

structure HeatmapQuality where
  status : String
  snapshots : ℕ
  gaps : List RangeGap
  gated : List String
  unavailableRevision : List String
  resourceLimited : List String
  unboundedSegments : List String
  activeTail : Bool

structure HeatmapResponse where
  fromUs : ℤ
  toUs : ℤ
  bucketCount : ℕ
  exact : Bool
  unseenUpper : ℚ≥0
  rows : List HeatmapRow
  quality : HeatmapQuality

structure LiveChunk where
  minTs : Int64
  maxTs : Int64
  lineageId : SegmentLineageId
  entitySeries : List EntitySeriesBlock

/-- What a request reads: the sealed descriptors with their series of the requested view, and the
live chunks. -/
structure HeatmapSources where
  sealedDescriptors : List (SegmentDescriptor × Except WebIndexReadError (Option EntitySeriesBlock))
  liveState : LiveState
  chunks : List LiveChunk

namespace HeatmapSources

variable (sources : HeatmapSources) (request : HeatmapRequest)

def inRange (minTs maxTs : Int64) : Bool :=
  request.fromUs ≤ maxTs.toInt ∧ minTs.toInt < request.toUs

def descriptors : List (SegmentDescriptor × Except WebIndexReadError (Option EntitySeriesBlock)) :=
  (sources.sealedDescriptors.filter fun entry =>
    inRange request entry.1.minTs entry.1.maxTs).insertionSort fun a b =>
      toLex (a.1.maxTs.toInt,toLex (a.1.minTs.toInt,a.1.locator.segmentId.get.toInt)) ≤
        toLex (b.1.maxTs.toInt,toLex (b.1.minTs.toInt,b.1.locator.segmentId.get.toInt))

def liveChunks : List LiveChunk :=
  if sources.liveState = .current then
    sources.chunks.filter fun chunk => inRange request chunk.minTs chunk.maxTs
  else []

/-- All selected segments, the sealed ones first. -/
def selected : List SelectedSegment :=
  ((sources.descriptors request).map fun entry =>
    ⟨(entry.1.minTs.toInt,entry.1.maxTs.toInt),Base64Url.encode entry.1.locator.asBytes,entry.2⟩) ++
  (sources.liveChunks request).map fun chunk =>
    ⟨(chunk.minTs.toInt,chunk.maxTs.toInt),Base64Url.encode chunk.lineageId.bytes.toList,
      .ok (chunk.entitySeries.find? fun block => block.viewCode = request.view.code)⟩

end HeatmapSources

/-- The upper bound of a candidate takes the cutoffs of the blocks that do not retain it. -/
def Candidate.withCutoffs (proofs : List BlockProof) (aggregation : WebAggregation)
    (key : EntityKey) (candidate : Candidate) : Candidate :=
  {candidate with
    upper := proofs.foldl (fun upper proof =>
      if key ∈ proof.retained then upper else aggregateScore upper proof.cutoff aggregation)
        candidate.upper}

/-- Candidates by descending lower bound, then by key. -/
def rankCandidates (entries : List (EntityKey × Candidate)) : List (EntityKey × Candidate) :=
  entries.insertionSort fun left right => right.2.lower < left.2.lower ∨
    right.2.lower = left.2.lower ∧ left.1 ≤ right.1

def heatmapResponse (sources : HeatmapSources) (request : HeatmapRequest) (merged : MergeState) :
    HeatmapResponse :=
  let selected := sources.selected request
  let spans := selected.map SelectedSegment.range
  let merged := if sources.liveState = .empty ∨ sources.liveState = .current then merged
    else merged.markUnbounded "active_tail"
  let unseenUpper := merged.proofs.foldl (fun upper proof =>
    aggregateScore upper proof.cutoff request.metric.aggregation) 0
  let ranked := rankCandidates (merged.candidates.entries.map fun entry =>
    (entry.1,entry.2.withCutoffs merged.proofs request.metric.aggregation entry.1))
  let gaps := Heatmap.coverageGaps spans request.fromUs request.toUs
  { fromUs := request.fromUs
    toUs := request.toUs
    bucketCount := request.bucketCount
    exact := rankingIsExact ranked request.top unseenUpper
      (merged.unboundedSegments = [] ∧ gaps = [])
    unseenUpper := unseenUpper
    rows := (ranked.take request.top).map fun entry =>
      ⟨Base64Url.encode entry.1.bytes,entry.2.label,request.metric.unit.asStr,entry.2.lower,
        entry.2.upper,entry.2.values⟩
    quality :=
      { status := if gaps ≠ [] ∨ merged.gated ≠ [] ∨ merged.unavailableRevision ≠ [] ∨
          merged.resourceLimited ≠ [] ∨ merged.unboundedSegments ≠ [] then "partial" else "complete"
        snapshots := merged.snapshots
        gaps := gaps
        gated := merged.gated
        unavailableRevision := merged.unavailableRevision
        resourceLimited := merged.resourceLimited
        unboundedSegments := merged.unboundedSegments
        activeTail := spans ≠ [] ∧ sources.liveState = .current ∧
          (sources.descriptors request).length < spans.length } }

/-- The bounded range merge of the view's entity series. -/
def heatmap (sources : HeatmapSources) (request : HeatmapRequest) :
    Except HeatmapError HeatmapResponse :=
  if absoluteMaxSelectedSegments < (sources.selected request).length then .error .tooManySegments
  else
    ((sources.selected request).foldlM (MergeState.mergeSegment request) .new).map
      (heatmapResponse sources request)

end PgKronika
