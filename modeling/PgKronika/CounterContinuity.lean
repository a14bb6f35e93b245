import Mathlib
import PgKronika.CheckedArith
import PgKronika.OrderedMap
import PgKronika.SectionRows
import PgKronika.SortedDedup
import PgKronika.SortedSlices

/-! Continuity of cumulative counters: the pairs of rows that may become a rate of the web index,
from the failed collections and the reset samples of a segment. Only the latest sample not later
than the current row is asked for a reset. -/
namespace PgKronika
namespace CounterContinuity

open CheckedArith

inductive CollectionReadState
  | complete | sourceLimit | permission | readFailure | collectorLimitOrLoss
  deriving DecidableEq

structure ViewCollection where
  sourceType : ℕ
  readState : CollectionReadState

/-- Collections by the code of their view and their time. -/
abbrev CollectionTimeline := OrderedMap (ℕ ×ₗ ℤ) ViewCollection

structure DecodedSection where
  name : String
  rows : List Row

inductive BuildError
  | corrupt
  deriving DecidableEq

structure ResetSample where
  tsUs : ℤ
  statementsAt : Option ℤ
  plansAt : Option ℤ
  deriving DecidableEq

structure CounterContinuityIndex where
  failedOrLossy : OrderedMap ℕ (List ℤ)
  resets : List ResetSample

structure WebView where
  name : String
  maxRateGapUs : Option ℤ

structure IndexedRow where
  typeId : ℕ

def rowTs (row : Row) : Except BuildError ℤ :=
  match row.get "ts" with
  | some (.ts t) => .ok t.toInt
  | _ => .error .corrupt

def optionalTimestamp (row : Row) (field : String) : Except BuildError (Option ℤ) :=
  match row.get field with
  | some (.ts t) => .ok (some t.toInt)
  | some .null => .ok none
  | _ => .error .corrupt

def ViewCollection.failedOrLossy (collection : ViewCollection) : Bool :=
  match collection.readState with
  | .readFailure | .collectorLimitOrLoss => true
  | _ => false

def pushFailure (failures : OrderedMap ℕ (List ℤ)) (entry : (ℕ ×ₗ ℤ) × ViewCollection) :
    OrderedMap ℕ (List ℤ) :=
  if entry.2.failedOrLossy then
    failures.insert entry.2.sourceType
      ((failures.lookup entry.2.sourceType).getD [] ++ [(ofLex entry.1).2])
  else failures

/-- Every list of times sorted, without repetitions. -/
def sortFailures (failures : OrderedMap ℕ (List ℤ)) : OrderedMap ℕ (List ℤ) :=
  failures.entries.foldl (fun sorted entry => sorted.insert entry.1 (sortDedup entry.2)) failures

def resetSample (row : Row) : Except BuildError ResetSample := do
  let tsUs ← rowTs row
  let statementsAt ← optionalTimestamp row "pg_stat_statements_reset_at"
  let plansAt ← optionalTimestamp row "pg_store_plans_reset_at"
  return ⟨tsUs,statementsAt,plansAt⟩

def insertReset (resets : OrderedMap ℤ ResetSample) (row : Row) :
    Except BuildError (OrderedMap ℤ ResetSample) := do
  let sample ← resetSample row
  refuse .corrupt (resets.contains sample.tsUs)
  return resets.insert sample.tsUs sample

def resetRows (decoded : List DecodedSection) : List Row :=
  (decoded.filter fun part => part.name = "reset_metadata").flatMap DecodedSection.rows

def fromDecoded (decoded : List DecodedSection) (collections : CollectionTimeline) :
    Except BuildError CounterContinuityIndex := do
  let resets ← (resetRows decoded).foldlM insertReset .empty
  return ⟨sortFailures (collections.entries.foldl pushFailure .empty),
    resets.entries.map Prod.snd⟩

def checkedSub (a b : ℤ) : Option ℤ := if -2^63 ≤ a-b ∧ a-b < 2^63 then some (a-b) else none

namespace CounterContinuityIndex

variable (index : CounterContinuityIndex)

def latestResetAt (currentTsUs : ℤ) (field : ResetSample → Option ℤ) : Option ℤ :=
  let stop := partitionPoint (fun sample => decide (sample.tsUs ≤ currentTsUs)) index.resets
  (if stop = 0 then none else index.resets[stop-1]?).bind field

/-- A collection of the type failed or lost rows after the one time and up to the other. -/
def failedBetween (typeId : ℕ) (previousTsUs currentTsUs : ℤ) : Bool :=
  (index.failedOrLossy.lookup typeId).any fun gaps =>
    gaps[partitionPoint (fun tsUs => decide (tsUs ≤ previousTsUs)) gaps]?.any
      fun tsUs => decide (tsUs ≤ currentTsUs)

def resetAt (view : WebView) (currentTsUs : ℤ) : Option ℤ :=
  if view.name = "statements" then index.latestResetAt currentTsUs ResetSample.statementsAt
  else if view.name = "plans" then index.latestResetAt currentTsUs ResetSample.plansAt
  else none

def accepts (view : WebView) (previous current : IndexedRow) (previousTsUs currentTsUs : ℤ) : Bool :=
  if previous.typeId ≠ current.typeId then false
  else
    match checkedSub currentTsUs previousTsUs with
    | none => false
    | some elapsedUs =>
      if elapsedUs ≤ 0 ∨ view.maxRateGapUs.all (fun maximum => decide (maximum < elapsedUs)) then
        false
      else if index.failedBetween current.typeId previousTsUs currentTsUs then false
      else
        !(index.resetAt view currentTsUs).any
          fun resetAt => decide (previousTsUs < resetAt ∧ resetAt ≤ currentTsUs)

end CounterContinuityIndex

/-- The reset time of the extension behind a view. -/
def resetField (view : WebView) (sample : ResetSample) : Option ℤ :=
  if view.name = "statements" then sample.statementsAt
  else if view.name = "plans" then sample.plansAt
  else none

section Rates

variable (decoded : List DecodedSection) (collections : CollectionTimeline) (view : WebView)
  (previous current : IndexedRow) (previousTsUs currentTsUs : ℤ)

/-- All that must hold of two rows besides the resets. -/
structure Comparable : Prop where
  layout : previous.typeId = current.typeId
  representable : -2^63 ≤ currentTsUs-previousTsUs ∧ currentTsUs-previousTsUs < 2^63
  positive : 0 < currentTsUs-previousTsUs
  gap : ∃ maximum, view.maxRateGapUs = some maximum ∧ currentTsUs-previousTsUs ≤ maximum
  complete : ∀ entry ∈ collections.entries, entry.2.sourceType = current.typeId →
    entry.2.failedOrLossy = true →
      ¬(previousTsUs < (ofLex entry.1).2 ∧ (ofLex entry.1).2 ≤ currentTsUs)

/-- The segment recorded the sample, not later than the current row. -/
def Recorded (sample : ResetSample) : Prop :=
  (∃ row ∈ resetRows decoded, resetSample row = .ok sample) ∧ sample.tsUs ≤ currentTsUs

/-- The sample reports a reset between the rows. -/
def Reports (sample : ResetSample) : Prop :=
  ∃ resetAt, resetField view sample = some resetAt ∧ previousTsUs < resetAt ∧ resetAt ≤ currentTsUs

/-- No collection and no reset sample stands against a rate. -/
def Continuous : Prop :=
  Comparable collections view previous current previousTsUs currentTsUs ∧
    ∀ sample, Recorded decoded currentTsUs sample → ¬Reports view previousTsUs currentTsUs sample

def Latest (sample : ResetSample) : Prop :=
  Recorded decoded currentTsUs sample ∧
    ∀ other, Recorded decoded currentTsUs other → other.tsUs ≤ sample.tsUs

/-- Where rows are comparable and a sample reports a reset between them, the latest one does. -/
def LatestTells : Prop :=
  Comparable collections view previous current previousTsUs currentTsUs →
    (∃ sample, Recorded decoded currentTsUs sample ∧
      Reports view previousTsUs currentTsUs sample) →
    ∀ latest, Latest decoded currentTsUs latest → Reports view previousTsUs currentTsUs latest

end Rates

/-- The samples of the index ascend and are those that the rows give. -/
structure SamplesOf (rows : List Row) (resets : OrderedMap ℤ ResetSample) : Prop where
  keyed : ∀ entry ∈ resets.entries, entry.2.tsUs = entry.1
  recorded : ∀ sample, sample ∈ resets.entries.map Prod.snd ↔ ∃ row ∈ rows, resetSample row = .ok sample

theorem SamplesOf.insert {rows : List Row} {resets next : OrderedMap ℤ ResetSample} {row : Row}
    (h : SamplesOf rows resets) (hnext : insertReset resets row = .ok next) :
    SamplesOf (rows++[row]) next := by
  obtain ⟨sample,hsample,hnext⟩ := bind_ok hnext
  obtain ⟨_,hfresh,hnext⟩ := bind_ok hnext
  cases hnext
  have hnone : resets.lookup sample.tsUs = none := by
    simpa [OrderedMap.contains] using refuse_ok.mp hfresh
  have hperm := OrderedMap.insert_perm hnone sample
  constructor
  · intro entry hentry
    rcases List.mem_cons.mp (hperm.mem_iff.mp hentry) with rfl | hentry
    · rfl
    · exact h.keyed entry hentry
  · intro other
    rw [(hperm.map Prod.snd).mem_iff,List.map_cons,List.mem_cons,h.recorded]
    simp only [List.mem_append,List.mem_singleton]
    constructor
    · rintro (rfl | ⟨row',hrow,hread⟩)
      · exact ⟨row,.inr rfl,hsample⟩
      · exact ⟨row',.inl hrow,hread⟩
    · rintro ⟨row',hrow | rfl,hread⟩
      · exact .inr ⟨row',hrow,hread⟩
      · rw [hsample] at hread
        exact .inl (Except.ok.inj hread).symm

theorem samplesOf_run {rows : List Row} {resets : OrderedMap ℤ ResetSample}
    (h : rows.foldlM insertReset .empty = .ok resets) : SamplesOf rows resets :=
  foldlM_run SamplesOf (fun hdone hstep => hdone.insert hstep) [] ⟨by simp [OrderedMap.empty],by simp [OrderedMap.empty]⟩ h

theorem SamplesOf.ascending {rows : List Row} {resets : OrderedMap ℤ ResetSample}
    (h : SamplesOf rows resets) :
    (resets.entries.map Prod.snd).Pairwise fun a b => a.tsUs < b.tsUs := by
  rw [List.pairwise_map]
  apply resets.ascending.imp_of_mem
  intro a b ha hb hab
  rw [h.keyed a ha,h.keyed b hb]
  exact hab

/-- The failures under a type are the times of its failed collections. -/
theorem mem_failures (entries : List ((ℕ ×ₗ ℤ) × ViewCollection)) (failures : OrderedMap ℕ (List ℤ))
    (typeId : ℕ) (t : ℤ) :
    t ∈ ((entries.foldl pushFailure failures).lookup typeId).getD [] ↔
      t ∈ (failures.lookup typeId).getD [] ∨ ∃ entry ∈ entries, entry.2.sourceType = typeId ∧
        entry.2.failedOrLossy = true ∧ (ofLex entry.1).2 = t := by
  induction entries generalizing failures with
  | nil => simp
  | cons entry entries ih =>
    rw [List.foldl_cons,ih,pushFailure]
    by_cases hfailed : entry.2.failedOrLossy
    · rw [if_pos hfailed,OrderedMap.lookup_insert]
      by_cases htype : typeId = entry.2.sourceType
      · subst htype
        simp only [if_true,Option.getD_some,List.mem_append,List.mem_singleton,
          List.exists_mem_cons_iff,hfailed,true_and,or_assoc,@eq_comm _ t]
      · simp [htype,Ne.symm htype]
    · simp [hfailed]

theorem lookup_sortFailures (failures : OrderedMap ℕ (List ℤ)) (typeId : ℕ) :
    (sortFailures failures).lookup typeId = (failures.lookup typeId).map sortDedup := by
  rw [sortFailures,OrderedMap.lookup_overlay failures (fun _ times => sortDedup times)]
  cases failures.lookup typeId <;> rfl

variable {decoded : List DecodedSection} {collections : CollectionTimeline}
  {index : CounterContinuityIndex} {view : WebView} {previous current : IndexedRow}
  {previousTsUs currentTsUs : ℤ}

/-- What an index knows of the segment it is built from. -/
structure Indexes (decoded : List DecodedSection) (collections : CollectionTimeline)
    (index : CounterContinuityIndex) : Prop where
  ascending : index.resets.Pairwise fun a b => a.tsUs < b.tsUs
  resets : ∀ sample, sample ∈ index.resets ↔ ∃ row ∈ resetRows decoded, resetSample row = .ok sample
  sorted : ∀ typeId gaps, index.failedOrLossy.lookup typeId = some gaps → gaps.Pairwise (· < ·)
  failures : ∀ typeId t, t ∈ (index.failedOrLossy.lookup typeId).getD [] ↔
    ∃ entry ∈ collections.entries, entry.2.sourceType = typeId ∧
      entry.2.failedOrLossy = true ∧ (ofLex entry.1).2 = t

theorem fromDecoded_indexes (h : fromDecoded decoded collections = .ok index) :
    Indexes decoded collections index := by
  obtain ⟨resets,hresets,h⟩ := bind_ok h
  cases h
  have hsamples := samplesOf_run hresets
  refine ⟨hsamples.ascending,hsamples.recorded,?_,?_⟩
  · intro typeId gaps hgaps
    rw [lookup_sortFailures] at hgaps
    obtain ⟨times,-,rfl⟩ := Option.map_eq_some_iff.mp hgaps
    exact sortDedup_ascending times
  · intro typeId t
    have hmem := mem_failures collections.entries .empty typeId t
    rw [lookup_sortFailures]
    cases hlook : (collections.entries.foldl pushFailure .empty).lookup typeId with
    | none => simpa [hlook] using hmem
    | some times => simpa [hlook,mem_sortDedup] using hmem

theorem Indexes.failedBetween_iff (h : Indexes decoded collections index) (typeId : ℕ) :
    index.failedBetween typeId previousTsUs currentTsUs = true ↔
      ∃ entry ∈ collections.entries, entry.2.sourceType = typeId ∧
        entry.2.failedOrLossy = true ∧
          previousTsUs < (ofLex entry.1).2 ∧ (ofLex entry.1).2 ≤ currentTsUs := by
  have hfailures := h.failures typeId
  rw [CounterContinuityIndex.failedBetween]
  cases hlook : index.failedOrLossy.lookup typeId with
  | none =>
    simp only [hlook,Option.getD_none,List.not_mem_nil,false_iff,not_exists,not_and] at hfailures
    simp only [Option.any_none,Bool.false_eq_true,false_iff,not_exists,not_and]
    intro entry hentry htype hfailed
    exact absurd rfl (hfailures _ entry hentry htype hfailed)
  | some gaps =>
    have hsorted := h.sorted typeId gaps hlook
    rw [Option.any_some,exists_between_iff hsorted]
    simp only [hlook,Option.getD_some] at hfailures
    constructor
    · rintro ⟨t,ht,hafter,hupto⟩
      obtain ⟨entry,hentry,htype,hfailed,rfl⟩ := (hfailures t).mp ht
      exact ⟨entry,hentry,htype,hfailed,hafter,hupto⟩
    · rintro ⟨entry,hentry,htype,hfailed,hafter,hupto⟩
      exact ⟨_,(hfailures _).mpr ⟨entry,hentry,htype,hfailed,rfl⟩,hafter,hupto⟩

theorem resetAt_eq (index : CounterContinuityIndex) (view : WebView) (currentTsUs : ℤ) :
    index.resetAt view currentTsUs = index.latestResetAt currentTsUs (resetField view) := by
  have hnever : ∀ last : Option ResetSample, last.bind (fun _ => (none : Option ℤ)) = none :=
    fun last => by cases last <;> rfl
  by_cases hstatements : view.name = "statements"
  · simp [CounterContinuityIndex.resetAt,hstatements,funext (resetField.eq_1 view)]
  · by_cases hplans : view.name = "plans"
    · simp [CounterContinuityIndex.resetAt,hplans,funext (resetField.eq_1 view)]
    · simp [CounterContinuityIndex.resetAt,CounterContinuityIndex.latestResetAt,hstatements,hplans,
        funext (resetField.eq_1 view),hnever]

/-- The latest sample is the last one that is not later than the current row. -/
theorem Indexes.latest_iff (h : Indexes decoded collections index) (sample : ResetSample) :
    (index.resets.filter fun other => decide (other.tsUs ≤ currentTsUs)).getLast? = some sample ↔
      Latest decoded currentTsUs sample := by
  have hmem : ∀ other, other ∈ index.resets.filter (fun o => decide (o.tsUs ≤ currentTsUs)) ↔
      Recorded decoded currentTsUs other := fun other => by
    simp [Recorded,h.resets]
  have hsorted := h.ascending.filter fun other => decide (other.tsUs ≤ currentTsUs)
  rw [getLast?_eq_some_iff_greatest hsorted,hmem]
  exact and_congr_right fun _ => forall_congr' fun other => by rw [hmem other]

theorem Indexes.resetAt_any (h : Indexes decoded collections index) :
    (index.resetAt view currentTsUs).any
        (fun resetAt => decide (previousTsUs < resetAt ∧ resetAt ≤ currentTsUs)) = true ↔
      ∃ latest, Latest decoded currentTsUs latest ∧
        Reports view previousTsUs currentTsUs latest := by
  have hsplit : Partitioned (fun sample : ResetSample => decide (sample.tsUs ≤ currentTsUs))
      index.resets := .of_sorted h.ascending fun a b hab hb => by simp at hb ⊢; omega
  rw [resetAt_eq,CounterContinuityIndex.latestResetAt,hsplit.last_match]
  simp only [Option.any_eq_true,Option.bind_eq_some_iff,h.latest_iff,decide_eq_true_eq,Reports]
  constructor
  · rintro ⟨resetAt,⟨latest,hlatest,hfield⟩,hbetween⟩
    exact ⟨latest,hlatest,resetAt,hfield,hbetween⟩
  · rintro ⟨latest,hlatest,resetAt,hfield,hbetween⟩
    exact ⟨resetAt,⟨latest,hlatest,hfield⟩,hbetween⟩

theorem exceedsGap_iff (maxRateGapUs : Option ℤ) (elapsedUs : ℤ) :
    maxRateGapUs.all (fun maximum => decide (maximum < elapsedUs)) = true ↔
      ¬∃ maximum, maxRateGapUs = some maximum ∧ elapsedUs ≤ maximum := by
  cases maxRateGapUs <;> simp

/-- The index accepts two rows that are comparable and whose latest sample reports no reset. -/
theorem Indexes.accepts_iff (h : Indexes decoded collections index) :
    index.accepts view previous current previousTsUs currentTsUs = true ↔
      Comparable collections view previous current previousTsUs currentTsUs ∧
        ∀ latest, Latest decoded currentTsUs latest →
          ¬Reports view previousTsUs currentTsUs latest := by
  rw [CounterContinuityIndex.accepts,checkedSub]
  by_cases hlayout : previous.typeId = current.typeId
  · by_cases hrange : -2^63 ≤ currentTsUs-previousTsUs ∧ currentTsUs-previousTsUs < 2^63
    · simp only [hlayout,hrange,ne_eq,not_true_eq_false,and_self,if_true,if_false,exceedsGap_iff]
      by_cases hreject : currentTsUs-previousTsUs ≤ 0 ∨
          ¬∃ maximum, view.maxRateGapUs = some maximum ∧ currentTsUs-previousTsUs ≤ maximum
      · simp only [hreject,if_true,Bool.false_eq_true,false_iff,not_and]
        rintro ⟨-,-,hpositive,hgap,-⟩
        rcases hreject with hle | hnone
        · omega
        · exact absurd hgap hnone
      · simp only [hreject,if_false]
        rw [not_or,not_le,not_not] at hreject
        by_cases hfailed : index.failedBetween current.typeId previousTsUs currentTsUs = true
        · simp only [hfailed,if_true,Bool.false_eq_true,false_iff,not_and]
          rintro ⟨-,-,-,-,hcomplete⟩
          obtain ⟨entry,hentry,htype,hlost,hbetween⟩ := h.failedBetween_iff _ |>.mp hfailed
          exact absurd hbetween (hcomplete entry hentry htype hlost)
        · have hcomparable : Comparable collections view previous current previousTsUs
              currentTsUs := by
            refine ⟨hlayout,hrange,hreject.1,hreject.2,?_⟩
            intro entry hentry htype hlost hbetween
            exact hfailed (h.failedBetween_iff _ |>.mpr ⟨entry,hentry,htype,hlost,hbetween⟩)
          rw [if_neg hfailed,Bool.not_eq_true',← Bool.not_eq_true,h.resetAt_any]
          simp only [hcomparable,true_and,not_exists,not_and]
    · simp only [hrange,if_false]
      simp only [ite_self,Bool.false_eq_true,false_iff,not_and]
      exact fun hcomparable => absurd hcomparable.representable hrange
  · simp only [ne_eq,hlayout,not_false_eq_true,if_true,Bool.false_eq_true,false_iff,not_and]
    exact fun hcomparable => absurd hcomparable.layout hlayout

/-- A recorded sample is not later than the latest one. -/
theorem Indexes.exists_latest (h : Indexes decoded collections index) {sample : ResetSample}
    (hsample : Recorded decoded currentTsUs sample) : ∃ latest, Latest decoded currentTsUs latest := by
  have hmem : sample ∈ index.resets.filter fun other => decide (other.tsUs ≤ currentTsUs) :=
    List.mem_filter.mpr ⟨(h.resets sample).mpr hsample.1,by simpa using hsample.2⟩
  cases hlast : (index.resets.filter fun other => decide (other.tsUs ≤ currentTsUs)).getLast? with
  | none =>
    rw [List.getLast?_eq_none_iff] at hlast
    rw [hlast] at hmem
    cases hmem
  | some latest => exact ⟨latest,h.latest_iff latest |>.mp hlast⟩

/-- The index accepts exactly the continuous pairs just where the latest sample tells of every reset
that an earlier one reports between the rows. -/
theorem accepts_exact (h : fromDecoded decoded collections = .ok index) (view : WebView)
    (previous current : IndexedRow) (previousTsUs currentTsUs : ℤ) :
    (index.accepts view previous current previousTsUs currentTsUs = true ↔
        Continuous decoded collections view previous current previousTsUs currentTsUs) ↔
      LatestTells decoded collections view previous current previousTsUs currentTsUs := by
  have hindexes := fromDecoded_indexes h
  rw [hindexes.accepts_iff]
  constructor
  · intro hexact hcomparable hreset latest hlatest
    obtain ⟨sample,hsample,hreports⟩ := hreset
    by_contra hsilent
    have hone : ∀ other, Latest decoded currentTsUs other → other = latest := fun other hother =>
      Option.some.inj ((hindexes.latest_iff other |>.mpr hother).symm.trans
        (hindexes.latest_iff latest |>.mpr hlatest))
    have hcontinuous := hexact.mp ⟨hcomparable,fun other hother => hone other hother ▸ hsilent⟩
    exact hcontinuous.2 sample hsample hreports
  · intro htells
    constructor
    · rintro ⟨hcomparable,hsilent⟩
      refine ⟨hcomparable,?_⟩
      intro sample hsample hreports
      obtain ⟨latest,hlatest⟩ := hindexes.exists_latest hsample
      exact hsilent latest hlatest (htells hcomparable ⟨sample,hsample,hreports⟩ latest hlatest)
    · rintro ⟨hcomparable,hsilent⟩
      exact ⟨hcomparable,fun latest hlatest => hsilent latest hlatest.1⟩

def resetMetadataContract : SectionContract :=
  { typeId := 1020001
    name := "reset_metadata"
    columns :=
      ["ts","postmaster_start_time","pg_stat_database_reset_max_at","pg_stat_statements_reset_at",
        "pg_store_plans_reset_at","pg_stat_bgwriter_reset_at","pg_stat_checkpointer_reset_at",
        "pg_stat_wal_reset_at","pg_stat_archiver_reset_at","pg_stat_io_reset_at",
        "ext_pg_stat_statements_version","ext_pg_store_plans_version","compute_query_id",
        "track_io_timing","track_wal_io_timing"]
    sortKey := ["ts"] }

def resetRow (ts : Int64) (statementsAt : Cell) : Row :=
  ⟨resetMetadataContract,[.ts ts,.ts 1,.null,statementsAt] ++ List.replicate 11 .null⟩

/-- A sample sees a reset; the next one could not read it. -/
def hiddenReset : List DecodedSection := [⟨"reset_metadata",[resetRow 18 (.ts 15),resetRow 22 .null]⟩]

def hiddenResetIndex : CounterContinuityIndex :=
  ⟨.empty,[⟨18,some 15,none⟩,⟨22,none,none⟩]⟩

def statementsView : WebView := ⟨"statements",some 900000000⟩

theorem fromDecoded_hiddenReset : fromDecoded hiddenReset .empty = .ok hiddenResetIndex := by
  rfl

theorem accepts_hidden_reset :
    fromDecoded hiddenReset .empty = .ok hiddenResetIndex ∧
      hiddenResetIndex.accepts statementsView ⟨1002002⟩ ⟨1002002⟩ 10 30 = true ∧
      ¬Continuous hiddenReset .empty statementsView ⟨1002002⟩ ⟨1002002⟩ 10 30 := by
  refine ⟨fromDecoded_hiddenReset,by decide,?_⟩
  rintro ⟨-,hsilent⟩
  have hrecorded : Recorded hiddenReset 30 ⟨18,some 15,none⟩ :=
    ⟨⟨resetRow 18 (.ts 15),by simp [resetRows,hiddenReset],rfl⟩,by decide⟩
  exact hsilent _ hrecorded ⟨15,rfl,by decide,by decide⟩

theorem accepts_exact_hidden_reset :
    fromDecoded hiddenReset .empty = .ok hiddenResetIndex ∧
      ((hiddenResetIndex.accepts statementsView ⟨1002002⟩ ⟨1002002⟩ 10 30 = true ↔
          Continuous hiddenReset .empty statementsView ⟨1002002⟩ ⟨1002002⟩ 10 30) ↔
        LatestTells hiddenReset .empty statementsView ⟨1002002⟩ ⟨1002002⟩ 10 30) :=
  ⟨fromDecoded_hiddenReset,
    accepts_exact fromDecoded_hiddenReset statementsView ⟨1002002⟩ ⟨1002002⟩ 10 30⟩

end CounterContinuity

end PgKronika
