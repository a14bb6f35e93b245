import Mathlib
import PgKronika.ByteCodec

/-! Entity series of one segment and view: for each metric the entities with the greatest scores,
their exact scores and quantized bucket values. Floating-point values are read as the non-negative
rationals they stand for. -/
namespace PgKronika

open ByteCodec

/-- Canonical identity bytes, in the order of byte strings. -/
structure EntityKey where
  bytes : Bytes
  deriving DecidableEq

instance : LinearOrder EntityKey :=
  LinearOrder.lift' (fun key => key.bytes.map UInt8.toNat) fun a b h => by
    obtain ⟨a⟩ := a
    obtain ⟨b⟩ := b
    exact congrArg EntityKey.mk (List.map_injective_iff.mpr (fun _ _ => UInt8.toNat.inj) h)

structure EntityDictionaryEntry where
  key : EntityKey
  label : String
  deriving DecidableEq

inductive MetricAggregation
  | sum | max
  deriving DecidableEq

inductive MetricStatus
  | complete | gated | unsupportedType | resourceLimited
  deriving DecidableEq

inductive IndexStatus
  | complete | empty | gated | unsupportedType | resourceLimited
  deriving DecidableEq

structure TimeGrid where
  startUs : ℤ
  bucketWidthS : ℕ
  bucketCount : ℕ
  deriving DecidableEq

def bitIsSet (mask : List UInt8) (index : ℕ) : Bool :=
  (mask[index / 8]?).any fun byte => byte.toNat.testBit (index % 8)

/-- The number of set bits of a mask. -/
def maskPopcount (mask : List UInt8) : ℕ :=
  ((List.range (mask.length*8)).filter (bitIsSet mask)).length

structure EntitySeries where
  entityRef : ℕ
  exactScore : ℚ≥0
  maxBucketValue : ℚ≥0
  presentMask : List UInt8
  quantizedValues : List UInt8
  deriving DecidableEq

/-- The observed buckets with their values: the next quantized value for each set bit. -/
def EntitySeries.observedValues (series : EntitySeries) : List (ℕ × ℚ≥0) :=
  ((List.range (series.presentMask.length*8)).filter (bitIsSet series.presentMask)).zip
    (series.quantizedValues.map fun value => (value.toNat : ℚ≥0) / 255 * series.maxBucketValue)

def formatTopK : ℕ := 64

/-- The retained series of one metric, as its constructor admits them: at most `formatTopK`, by
descending score, and a cutoff only when that many are retained. -/
structure EntityMetric where
  metricCode : ℕ
  metricRevision : ℕ
  flags : ℕ
  unitCode : ℕ
  aggregation : MetricAggregation
  status : MetricStatus
  cutoffScore : ℚ≥0
  series : List EntitySeries
  atMost : series.length ≤ formatTopK
  partialEmpty : status ≠ .complete → series = [] ∧ cutoffScore = 0
  cutoffBelow : series.length < formatTopK → cutoffScore = 0
  cutoffAt : series.length = formatTopK → series.getLast?.map EntitySeries.exactScore = some cutoffScore
  distinct : (series.map EntitySeries.entityRef).Nodup
  ordered : series.Pairwise fun a b => b.exactScore < a.exactScore ∨
    b.exactScore = a.exactScore ∧ a.entityRef < b.entityRef

/-- One view of one segment, as its constructor admits it. -/
structure EntitySeriesBlock where
  viewCode : ℕ
  viewRevision : ℕ
  identityRevision : ℕ
  status : IndexStatus
  grid : TimeGrid
  coverageMask : List UInt8
  dictionary : List EntityDictionaryEntry
  metrics : List EntityMetric
  dictionaryOrder : (dictionary.map EntityDictionaryEntry.key).Pairwise (· < ·)
  metricOrder : (metrics.map EntityMetric.metricCode).Pairwise (· < ·)
  entityRefs : ∀ metric ∈ metrics, ∀ series ∈ metric.series, series.entityRef < dictionary.length

namespace EntitySeriesBlock

variable (block : EntitySeriesBlock)

/-- The identity that a series refers to. -/
def keyOf (series : EntitySeries) : Option EntityKey :=
  block.dictionary[series.entityRef]?.map EntityDictionaryEntry.key

variable {block}

theorem dictionary_get {metric : EntityMetric} (hmetric : metric ∈ block.metrics)
    {series : EntitySeries} (h : series ∈ metric.series) :
    ∃ entry, block.dictionary[series.entityRef]? = some entry ∧ block.keyOf series = some entry.key := by
  have hlt := block.entityRefs metric hmetric series h
  refine ⟨_,List.getElem?_eq_getElem hlt,?_⟩
  rw [keyOf,List.getElem?_eq_getElem hlt]
  rfl

theorem keyOf_injective {a b : EntitySeries} {key : EntityKey} (ha : block.keyOf a = some key)
    (hb : block.keyOf b = some key) : a.entityRef = b.entityRef := by
  have hnodup : (block.dictionary.map EntityDictionaryEntry.key).Nodup :=
    block.dictionaryOrder.imp fun h => h.ne
  rw [keyOf,← List.getElem?_map] at ha hb
  obtain ⟨hlt,-⟩ := List.getElem?_eq_some_iff.mp ha
  exact (List.getElem?_inj hlt hnodup).mp (ha.trans hb.symm)

end EntitySeriesBlock
end PgKronika
