import PgKronika.EventCounts
import PgKronika.EventPaging
import PgKronika.SelfDelimiting
import PgKronika.SortedRetention

/-! The event digest of an overview. The top states and the top joint keys are kept while the
entries stream by; the others are counted, and the counts are checked against each other. -/
namespace PgKronika
namespace Overview

open CheckedArith SparseCounts SmallestKept Utf8Text

/-- The cap of both tops. The functions below take it as a parameter. -/
def digestTopN : ℕ := 16

/-- The bytes of a state, in their order. -/
structure StateCode where
  bytes : Vector UInt8 5

instance : LinearOrder StateCode :=
  LinearOrder.lift' (fun code => code.bytes.toList.map UInt8.toNat) fun a b h => by
    obtain ⟨bytes⟩ := a
    obtain ⟨bytes'⟩ := b
    have hbytes := List.map_injective_iff.mpr (fun _ _ => UInt8.toNat.inj) h
    exact congrArg StateCode.mk (Vector.toList_inj.mp hbytes)

structure SqlstateCount where
  code : String
  count : UInt64

structure JointCount where
  severity : String
  category : String
  sqlstate : Option String
  count : UInt64

structure SignalCount where
  signal : Int32
  count : UInt64

structure LifecycleDigest where
  crashes : UInt64
  shutdowns : UInt64
  ready : UInt64
  signals : List SignalCount

structure EventDigest where
  retainedErrorOccurrenceCount : UInt64
  retainedErrorGroupCount : UInt64
  retainedObservationRowCount : UInt64
  bySeverity : Vector UInt64 5
  byCategory : Vector UInt64 11
  bySqlstate : List SqlstateCount
  sqlstateMissingCount : UInt64
  sqlstateOtherCount : UInt64
  jointTop : List JointCount
  jointOtherCount : UInt64
  lifecycle : LifecycleDigest
  exactness : String

def sqlstateText (code : StateCode) : String := fromUtf8Lossy code.bytes.toList

def SqlstateCount.ofEntry (e : StateCode × UInt64) : SqlstateCount := ⟨sqlstateText e.1,e.2⟩

def JointCount.ofEntry (e : JointErrorKey × UInt64) : JointCount where
  severity := e.1.severity.wireCode
  category := e.1.category.wireCode
  sqlstate := e.1.sqlstate.map fun state => sqlstateText ⟨state.code⟩
  count := e.2

section Checked

def addCounts64 (a b : UInt64) : Except ApiError UInt64 :=
  match checkedAdd64 a b with
  | none => .error .storeReadFailed
  | some count => .ok count

def subCounts64 (a b : UInt64) : Except ApiError UInt64 :=
  if b.toNat ≤ a.toNat then .ok (a-b) else .error .storeReadFailed

def sumCounts (counts : List UInt64) : Except ApiError UInt64 := counts.foldlM addCounts64 0

def lengthCount (length : ℕ) : Except ApiError UInt64 :=
  if length < 2^64 then .ok (UInt64.ofNat length) else .error .storeReadFailed

end Checked

section Digest

variable {K : Type} [LinearOrder K]

/-- Whether an entry stays before a new one. -/
def staysBefore (key : K) (count : UInt64) (existing : K × UInt64) : Bool :=
  decide (count < existing.2) || (existing.2 == count && decide (existing.1 < key))

def retainTop (topN : ℕ) (top : List (K × UInt64)) (key : K) (count : UInt64) :
    List (K × UInt64) :=
  let index := partitionPoint (staysBefore key count) top
  if index < topN then (top.insertIdx index (key,count)).take topN else top

/-- Count one entry and offer it to the top. -/
def countEntry (topN : ℕ) (s : UInt64 × List (K × UInt64)) (e : K × UInt64) :
    Except ApiError (UInt64 × List (K × UInt64)) := do
  let total ← addCounts64 s.1 e.2
  return (total,retainTop topN s.2 e.1 e.2)

/-- The top entries, and what the others amount to. -/
def topEntries (topN : ℕ) (entries : List (K × UInt64)) :
    Except ApiError (List (K × UInt64) × UInt64) := do
  let (total,top) ← entries.foldlM (countEntry topN) (0,[])
  let topTotal ← sumCounts (top.map Prod.snd)
  let other ← subCounts64 total topTotal
  return (top,other)

/-- Count one joint entry for its state, or as one without a state. -/
def countState (s : OrderedMap StateCode UInt64 × UInt64) (e : JointErrorKey × UInt64) :
    Except ApiError (OrderedMap StateCode UInt64 × UInt64) :=
  match e.1.sqlstate with
  | some sqlstate => do
    let slot ← addCounts64 ((s.1.lookup ⟨sqlstate.code⟩).getD 0) e.2
    return (s.1.insert ⟨sqlstate.code⟩ slot,s.2)
  | none => do
    let missing ← addCounts64 s.2 e.2
    return (s.1,missing)

/-- From the joint entries in the order they arrive. -/
def sqlstateTopN (topN : ℕ) (joint : List (JointErrorKey × UInt64)) :
    Except ApiError (List SqlstateCount × UInt64 × UInt64) := do
  let (aggregate,missing) ← joint.foldlM countState (.empty,0)
  let (top,other) ← topEntries topN aggregate.entries
  return (top.map SqlstateCount.ofEntry,missing,other)

def jointTopN (topN : ℕ) (joint : List (JointErrorKey × UInt64)) :
    Except ApiError (List JointCount × UInt64) := do
  let (top,other) ← topEntries topN joint
  return (top.map JointCount.ofEntry,other)

def validateDigestReconciliation (total : UInt64) (bySeverity : Vector UInt64 5)
    (byCategory : Vector UInt64 11) (sqlstateMissing sqlstateOther : UInt64)
    (sqlstateTop : List SqlstateCount) (jointOther : UInt64) (jointTop : List JointCount) :
    Except ApiError Unit := do
  let sqlstateTopTotal ← sumCounts (sqlstateTop.map SqlstateCount.count)
  let withoutTop ← addCounts64 sqlstateMissing sqlstateOther
  let sqlstateTotal ← addCounts64 withoutTop sqlstateTopTotal
  let jointTopTotal ← sumCounts (jointTop.map JointCount.count)
  let jointTotal ← addCounts64 jointOther jointTopTotal
  let severityTotal ← sumCounts bySeverity.toList
  let categoryTotal ← sumCounts byCategory.toList
  refuse .storeReadFailed (severityTotal ≠ total ∨ categoryTotal ≠ total ∨
    sqlstateTotal ≠ total ∨ jointTotal ≠ total)

def isErrorGroup (observation : EventObservation) : Bool :=
  match observation.payload with
  | .errorGroup _ => true
  | _ => false

def projectionError : CountOverflow → ApiError
  | .mk => .storeReadFailed

def lifecycleDigest (lifecycle : LifecycleCounts) : LifecycleDigest where
  crashes := lifecycle.crashes
  shutdowns := lifecycle.shutdowns
  ready := lifecycle.ready
  signals := lifecycle.signals.map.entries.map fun e => ⟨e.1.number,e.2⟩

def eventDigest (topN : ℕ) (counts : EventCounts) (observations : Vec EventObservation) :
    Except ApiError EventDigest := do
  let bySeverity ← counts.bySeverity.mapError projectionError
  let byCategory ← counts.byCategory.mapError projectionError
  let retainedErrorOccurrenceCount ← counts.totalOccurrences.mapError projectionError
  let retainedErrorGroupCount ← lengthCount (observations.val.filter isErrorGroup).length
  let retainedObservationRowCount ← lengthCount observations.val.length
  let (bySqlstate,sqlstateMissingCount,sqlstateOtherCount) ←
    sqlstateTopN topN counts.joint.map.entries
  let (jointTop,jointOtherCount) ← jointTopN topN counts.joint.map.entries
  validateDigestReconciliation retainedErrorOccurrenceCount bySeverity byCategory
    sqlstateMissingCount sqlstateOtherCount bySqlstate jointOtherCount jointTop
  return {
    retainedErrorOccurrenceCount
    retainedErrorGroupCount
    retainedObservationRowCount
    bySeverity
    byCategory
    bySqlstate
    sqlstateMissingCount
    sqlstateOtherCount
    jointTop
    jointOtherCount
    lifecycle := lifecycleDigest counts.lifecycle
    exactness := "exact" }

end Digest

section Checked

variable {a b : UInt64} {counts : List UInt64}

theorem addCounts64_ok (h : a.toNat + b.toNat ≤ u64Max) :
    ∃ c, addCounts64 a b = .ok c ∧ c.toNat = a.toNat + b.toNat := by
  have hadd : checkedAdd64 a b = some (a+b) := if_pos h
  refine ⟨a+b,?_,checkedAdd64_eq_some.mp hadd⟩
  rw [addCounts64,hadd]

theorem subCounts64_ok (h : b.toNat ≤ a.toNat) :
    ∃ c, subCounts64 a b = .ok c ∧ b.toNat + c.toNat = a.toNat := by
  refine ⟨a-b,if_pos h,?_⟩
  rw [UInt64.toNat_sub_of_le a b (UInt64.le_iff_toNat_le.mpr h)]
  omega

theorem exists_count {n : ℕ} (h : n ≤ u64Max) : ∃ c : UInt64, c.toNat = n := by
  have hsize : UInt64.size = u64Max+1 := rfl
  exact ⟨.ofNat n,UInt64.toNat_ofNat_of_lt (by omega)⟩

theorem lengthCount_ok {length : ℕ} (h : length < 2^64) :
    ∃ c, lengthCount length = .ok c ∧ c.toNat = length :=
  ⟨_,if_pos h,UInt64.toNat_ofNat_of_lt' h⟩

def countSum (counts : List UInt64) : ℕ := (counts.map UInt64.toNat).sum

theorem foldlM_addCounts64 {acc : UInt64} (h : acc.toNat + countSum counts ≤ u64Max) :
    ∃ c, counts.foldlM addCounts64 acc = .ok c ∧ c.toNat = acc.toNat + countSum counts := by
  induction counts generalizing acc with
  | nil => exact ⟨acc,rfl,rfl⟩
  | cons count counts ih =>
    rw [countSum,List.map_cons,List.sum_cons] at h ⊢
    change _ + (_ + countSum counts) ≤ _ at h
    obtain ⟨next,hadd,hnext⟩ := addCounts64_ok (show acc.toNat + count.toNat ≤ u64Max by omega)
    obtain ⟨c,hrest,hc⟩ := ih (show next.toNat + countSum counts ≤ u64Max by omega)
    refine ⟨c,?_,?_⟩
    · rw [List.foldlM_cons,hadd]
      exact hrest
    · rw [hc,hnext,Nat.add_assoc]
      rfl

theorem sumCounts_ok (h : countSum counts ≤ u64Max) :
    ∃ c, sumCounts counts = .ok c ∧ c.toNat = countSum counts := by
  obtain ⟨c,hsum,hc⟩ := foldlM_addCounts64 (show (0 : UInt64).toNat + countSum counts ≤ u64Max by simpa)
  exact ⟨c,hsum,by simpa using hc⟩

end Checked

section Top

variable {K : Type} {topN : ℕ} {entries : List (K × UInt64)}

/-- Greater counts first, then smaller keys. -/
def rank (e : K × UInt64) : ℕᵒᵈ ×ₗ K := toLex (OrderDual.toDual e.2.toNat,e.1)

theorem rank_injective : Function.Injective (rank : K × UInt64 → ℕᵒᵈ ×ₗ K) := by
  intro a b h
  have hpair := Prod.ext_iff.mp (toLex.injective h)
  exact Prod.ext hpair.2 (UInt64.toNat_inj.mp (OrderDual.toDual.injective hpair.1))

def entrySum (entries : List (K × UInt64)) : ℕ := countSum (entries.map Prod.snd)

@[simp] theorem entrySum_nil : entrySum ([] : List (K × UInt64)) = 0 := rfl

theorem entrySum_append (entries entries' : List (K × UInt64)) :
    entrySum (entries ++ entries') = entrySum entries + entrySum entries' := by
  simp [entrySum,countSum]

theorem entrySum_cons (e : K × UInt64) (entries : List (K × UInt64)) :
    entrySum (e::entries) = e.2.toNat + entrySum entries := by
  simp [entrySum,countSum]

theorem entrySum_perm {entries' : List (K × UInt64)} (h : entries.Perm entries') :
    entrySum entries = entrySum entries' := ((h.map Prod.snd).map UInt64.toNat).sum_eq

variable [LinearOrder K]

theorem staysBefore_eq (e existing : K × UInt64) :
    staysBefore e.1 e.2 existing = decide (rank existing < rank e) := by
  rw [staysBefore,rank,rank,Bool.eq_iff_iff]
  simp [Prod.Lex.toLex_lt_toLex,UInt64.lt_iff_toNat_lt,← UInt64.toNat_inj]

theorem retainTop_eq (top : List (K × UInt64)) (e : K × UInt64) :
    retainTop topN top e.1 e.2 = retainSorted rank topN top e := by
  rw [retainTop,retainSorted,funext (staysBefore_eq e)]

theorem foldlM_countEntry {total : UInt64} (topN : ℕ) (top : List (K × UInt64))
    (h : total.toNat + entrySum entries ≤ u64Max) :
    ∃ c, entries.foldlM (countEntry topN) (total,top) =
        .ok (c,entries.foldl (retainSorted rank topN) top) ∧
      c.toNat = total.toNat + entrySum entries := by
  induction entries generalizing total top with
  | nil => exact ⟨total,rfl,rfl⟩
  | cons e entries ih =>
    rw [entrySum_cons] at h ⊢
    obtain ⟨next,hadd,hnext⟩ := addCounts64_ok (show total.toNat + e.2.toNat ≤ u64Max by omega)
    obtain ⟨c,hrest,hc⟩ := ih _ (show next.toNat + entrySum entries ≤ u64Max by omega)
    refine ⟨c,?_,by omega⟩
    have hstep : countEntry topN (total,top) e = .ok (next,retainSorted rank topN top e) := by
      rw [countEntry,hadd,← retainTop_eq]
      rfl
    rw [List.foldlM_cons,hstep]
    exact hrest

/-- The top entries are the first ones, whatever the order of the entries. -/
theorem topEntries_ok (hnodup : (entries.map rank).Nodup) (h : entrySum entries ≤ u64Max)
    (topN : ℕ) : ∃ top other, FirstBy rank topN entries top ∧
      entrySum top + other.toNat = entrySum entries ∧
      ∀ arrival, arrival.Perm entries → topEntries topN arrival = .ok (top,other) := by
  have hfirst := firstBy_take hnodup topN
  obtain ⟨rest,hperm,-⟩ := hfirst.others
  have hsplit := entrySum_perm hperm
  rw [entrySum_append] at hsplit
  obtain ⟨total,htotal⟩ := exists_count h
  obtain ⟨topTotal,htop,htopTotal⟩ := sumCounts_ok
    (show countSum (((sortByKey rank entries).take topN).map Prod.snd) ≤ u64Max by
      change entrySum _ ≤ _
      omega)
  change _ = entrySum _ at htopTotal
  obtain ⟨other,hother,hrest⟩ := subCounts64_ok (show topTotal.toNat ≤ total.toNat by omega)
  refine ⟨_,other,hfirst,by omega,fun arrival harrival => ?_⟩
  have harrivalSum := entrySum_perm harrival
  obtain ⟨count,hfold,hcount⟩ := foldlM_countEntry topN []
    (show (0 : UInt64).toNat + entrySum arrival ≤ u64Max by
      rw [UInt64.toNat_zero]
      omega)
  have hsame : count = total := by
    rw [← UInt64.toNat_inj,hcount,UInt64.toNat_zero]
    omega
  rw [foldl_retainSorted rank_injective,sortByKey_eq_of_perm hnodup harrival,hsame] at hfold
  simp only [topEntries,hfold,htop,hother,bind,Except.bind,pure,Except.pure]

end Top

section States

variable {joint : List (JointErrorKey × UInt64)}

def stateCode (key : JointErrorKey) : Option StateCode :=
  key.sqlstate.map fun sqlstate => ⟨sqlstate.code⟩

/-- What the entries with a state, or those without one, amount to. -/
def stateSum (joint : List (JointErrorKey × UInt64)) (code : Option StateCode) : ℕ :=
  (joint.map fun e => if stateCode e.1 = code then e.2.toNat else 0).sum

/-- Every state that occurs, once and with what it amounts to. -/
structure StateTotals (joint : List (JointErrorKey × UInt64))
    (totals : List (StateCode × UInt64)) : Prop where
  codes : (totals.map Prod.fst).Nodup
  mem : ∀ code count, (code,count) ∈ totals ↔
    (∃ e ∈ joint, stateCode e.1 = some code) ∧ count.toNat = stateSum joint (some code)

/-- What the aggregate and the count of entries without a state hold. -/
structure Aggregates (joint : List (JointErrorKey × UInt64))
    (s : OrderedMap StateCode UInt64 × UInt64) : Prop where
  states : ∀ code, s.1.contains code = true ↔ ∃ e ∈ joint, stateCode e.1 = some code
  counts : ∀ code, countOf s.1 code = stateSum joint (some code)
  missing : s.2.toNat = stateSum joint none
  total : entrySum s.1.entries + s.2.toNat = entrySum joint

theorem stateSum_append (joint joint' : List (JointErrorKey × UInt64)) (code : Option StateCode) :
    stateSum (joint ++ joint') code = stateSum joint code + stateSum joint' code := by
  simp [stateSum]

theorem stateSum_single (e : JointErrorKey × UInt64) (code : Option StateCode) :
    stateSum [e] code = if stateCode e.1 = code then e.2.toNat else 0 := by simp [stateSum]

theorem entrySum_map (m : OrderedMap StateCode UInt64) {codes : Finset StateCode}
    (h : keySet m ⊆ codes) : entrySum m.entries = ∑ code ∈ codes, countOf m code := by
  have hsum := m.sum_entries (fun _ count => count.toNat) codes fun p hp =>
    h (List.mem_toFinset.mpr (List.mem_map_of_mem hp))
  have hcount : ∀ code, (m.lookup code).elim 0 (fun count => count.toNat) = countOf m code := by
    intro code
    rw [countOf]
    cases m.lookup code <;> simp
  simp only [hcount] at hsum
  rw [entrySum,countSum,List.map_map]
  exact hsum

/-- A slot is replaced, the others stay. -/
theorem entrySum_insert (m : OrderedMap StateCode UInt64) (code : StateCode) (count : UInt64) :
    entrySum (m.insert code count).entries + countOf m code = entrySum m.entries + count.toNat := by
  have hsub : keySet m ⊆ insert code (keySet m) := Finset.subset_insert _ _
  have hmem : code ∈ insert code (keySet m) := Finset.mem_insert_self _ _
  rw [entrySum_map m hsub,entrySum_map _ (keySet_insert m code count).subset,
    ← Finset.add_sum_erase _ _ hmem,← Finset.add_sum_erase _ (countOf m) hmem,countOf_insert,
    if_pos rfl]
  have hothers : ∑ other ∈ (insert code (keySet m)).erase code, countOf (m.insert code count) other =
      ∑ other ∈ (insert code (keySet m)).erase code, countOf m other := by
    apply Finset.sum_congr rfl
    intro other hother
    rw [countOf_insert,if_neg (Finset.ne_of_mem_erase hother)]
  omega

theorem Aggregates.step {s : OrderedMap StateCode UInt64 × UInt64} (h : Aggregates joint s)
    {e : JointErrorKey × UInt64} (hfits : entrySum (joint++[e]) ≤ u64Max) :
    ∃ s', countState s e = .ok s' ∧ Aggregates (joint++[e]) s' := by
  have htotal := h.total
  rw [entrySum_append,entrySum_cons,entrySum_nil] at hfits
  rw [countState]
  cases hstate : e.1.sqlstate with
  | none =>
    have hcode : stateCode e.1 = none := by rw [stateCode,hstate]; rfl
    obtain ⟨missing,hadd,hmissing⟩ := addCounts64_ok (show s.2.toNat + e.2.toNat ≤ u64Max by omega)
    refine ⟨(s.1,missing),?_,?_,?_,?_,?_⟩
    · dsimp only
      rw [hadd]
      rfl
    · simp [h.states,hcode]
    · simp [h.counts,stateSum_append,stateSum_single,hcode]
    · simp [hmissing,h.missing,stateSum_append,stateSum_single,hcode]
    · rw [entrySum_append,entrySum_cons,entrySum_nil]
      dsimp only
      omega
  | some sqlstate =>
    have hcode : stateCode e.1 = some ⟨sqlstate.code⟩ := by rw [stateCode,hstate]; rfl
    have hzero := entrySum_insert s.1 ⟨sqlstate.code⟩ 0
    rw [UInt64.toNat_zero] at hzero
    obtain ⟨slot,hadd,hslot⟩ := addCounts64_ok
      (show countOf s.1 ⟨sqlstate.code⟩ + e.2.toNat ≤ u64Max by omega)
    have hinsert := entrySum_insert s.1 ⟨sqlstate.code⟩ slot
    refine ⟨(s.1.insert ⟨sqlstate.code⟩ slot,s.2),?_,?_,?_,?_,?_⟩
    · dsimp only
      rw [hadd]
      rfl
    · intro code
      have hcontains : (s.1.insert ⟨sqlstate.code⟩ slot).contains code = true ↔
          code = ⟨sqlstate.code⟩ ∨ s.1.contains code = true := by
        rw [OrderedMap.contains,OrderedMap.lookup_insert]
        by_cases hk : code = ⟨sqlstate.code⟩ <;> simp [hk,OrderedMap.contains]
      rw [hcontains,h.states]
      simp [or_and_right,exists_or,hcode,eq_comm,or_comm]
    · intro code
      rw [countOf_insert,stateSum_append,stateSum_single,hcode,← h.counts]
      by_cases hk : code = ⟨sqlstate.code⟩
      · rw [if_pos hk,if_pos (congrArg some hk.symm),hslot,hk]
        rfl
      · rw [if_neg hk,if_neg fun he => hk (Option.some.inj he).symm]
        rfl
    · simp [h.missing,stateSum_append,stateSum_single,hcode]
    · rw [entrySum_append,entrySum_cons,entrySum_nil]
      change _ = countOf s.1 ⟨sqlstate.code⟩ + e.2.toNat at hslot
      dsimp only
      omega

theorem foldlM_countState (hfits : entrySum joint ≤ u64Max) :
    ∃ s, joint.foldlM countState (.empty,0) = .ok s ∧ Aggregates joint s := by
  induction joint using List.reverseRecOn with
  | nil =>
    refine ⟨_,rfl,?_,?_,rfl,rfl⟩
    · simp [OrderedMap.contains]
    · simp [stateSum]
  | append_singleton joint e ih =>
    have hfront : entrySum joint ≤ u64Max := by
      rw [entrySum_append] at hfits
      omega
    obtain ⟨s,hfold,h⟩ := ih hfront
    obtain ⟨s',hstep,h'⟩ := h.step hfits
    refine ⟨s',?_,h'⟩
    rw [List.foldlM_append,hfold]
    change ([e].foldlM countState s) = _
    rw [List.foldlM_cons,hstep]
    rfl

theorem Aggregates.stateTotals {s : OrderedMap StateCode UInt64 × UInt64} (h : Aggregates joint s) :
    StateTotals joint s.1.entries where
  codes := s.1.nodup_keys
  mem := by
    intro code count
    rw [OrderedMap.mem_entries_iff,← h.states,← h.counts,OrderedMap.contains,countOf]
    cases s.1.lookup code with
    | none => simp
    | some held => simp [UInt64.toNat_inj,eq_comm]

/-- The aggregate does not depend on the order of the entries. -/
theorem Aggregates.unique {joint' : List (JointErrorKey × UInt64)}
    {s s' : OrderedMap StateCode UInt64 × UInt64} (h : Aggregates joint s)
    (h' : Aggregates joint' s') (hperm : joint'.Perm joint) : s' = s := by
  have hsum : ∀ code, stateSum joint' code = stateSum joint code := fun code =>
    (hperm.map _).sum_eq
  have hmap : s'.1 = s.1 := by
    apply OrderedMap.ext_lookup
    intro code
    have hcontains : s'.1.contains code = true ↔ s.1.contains code = true := by
      rw [h.states,h'.states]
      simp only [hperm.mem_iff]
    have hcount : countOf s'.1 code = countOf s.1 code := by
      rw [h.counts,h'.counts,hsum]
    rw [countOf,countOf,UInt64.toNat_inj] at hcount
    rw [OrderedMap.contains,OrderedMap.contains] at hcontains
    cases hl : s.1.lookup code <;> cases hl' : s'.1.lookup code <;> simp_all
  have hmissing : s'.2 = s.2 := by
    rw [← UInt64.toNat_inj,h.missing,h'.missing,hsum]
  exact Prod.ext hmap hmissing

end States

section Reconciled

variable {topN : ℕ} {counts : EventCounts}

/-- A digest keeps the top states and the top joint keys. Those, the others and the entries without
a state amount to the total, and the check accepts the digest. -/
structure Reconciled (topN : ℕ) (counts : EventCounts) (total : UInt64) (digest : EventDigest) :
    Prop where
  occurrences : digest.retainedErrorOccurrenceCount = total
  states : ∃ totals top, StateTotals counts.joint.map.entries totals ∧
    FirstBy rank topN totals top ∧ digest.bySqlstate = top.map SqlstateCount.ofEntry ∧
    (∀ arrival, arrival.Perm totals →
      topEntries topN arrival = .ok (top,digest.sqlstateOtherCount)) ∧
    entrySum top + digest.sqlstateOtherCount.toNat + digest.sqlstateMissingCount.toNat = total.toNat
  missing : digest.sqlstateMissingCount.toNat = stateSum counts.joint.map.entries none
  joint : ∃ top, FirstBy rank topN counts.joint.map.entries top ∧
    digest.jointTop = top.map JointCount.ofEntry ∧
    entrySum top + digest.jointOtherCount.toNat = total.toNat
  accepted : validateDigestReconciliation digest.retainedErrorOccurrenceCount digest.bySeverity
    digest.byCategory digest.sqlstateMissingCount digest.sqlstateOtherCount digest.bySqlstate
    digest.jointOtherCount digest.jointTop = .ok ()

/-- Both tops come out the same whatever the order of the joint entries. -/
def OrderFree (topN : ℕ) (counts : EventCounts) (digest : EventDigest) : Prop :=
  ∀ joint, joint.Perm counts.joint.map.entries →
    sqlstateTopN topN joint =
      .ok (digest.bySqlstate,digest.sqlstateMissingCount,digest.sqlstateOtherCount) ∧
    jointTopN topN joint = .ok (digest.jointTop,digest.jointOtherCount)

theorem marginal_countSum {n : ℕ} {total : UInt64} (htotal : counts.totalOccurrences = .ok total)
    (slot : JointErrorKey → Fin n) :
    ∃ out, counts.marginal slot = .ok out ∧ sumCounts out.toList = .ok total := by
  obtain ⟨out,hout,hsum⟩ := EventCounts.marginal_sum htotal slot
  have hcount : countSum out.toList = total.toNat := by
    rw [← hsum,countSum,← List.sum_ofFn]
    congr 1
    apply List.ext_getElem
    · simp
    · intro i hi hi'
      simp
  have hmax := total.toNat_lt
  obtain ⟨sum,hok,hvalue⟩ := sumCounts_ok (show countSum out.toList ≤ u64Max by
    rw [hcount,u64Max]
    omega)
  rw [hcount,UInt64.toNat_inj] at hvalue
  rw [hvalue] at hok
  exact ⟨out,hout,hok⟩

/-- Counts that amount to the total are accepted. -/
theorem validate_ok {total missing other jointOther : UInt64} {bySeverity : Vector UInt64 5}
    {byCategory : Vector UInt64 11} {sqlstateTop : List SqlstateCount} {jointTop : List JointCount}
    (hseverity : sumCounts bySeverity.toList = .ok total)
    (hcategory : sumCounts byCategory.toList = .ok total)
    (hstates : countSum (sqlstateTop.map SqlstateCount.count) + other.toNat + missing.toNat =
      total.toNat)
    (hjoint : countSum (jointTop.map JointCount.count) + jointOther.toNat = total.toNat) :
    validateDigestReconciliation total bySeverity byCategory missing other sqlstateTop jointOther
      jointTop = .ok () := by
  have hmax : total.toNat ≤ u64Max := by
    have hlt := total.toNat_lt
    rw [u64Max]
    omega
  obtain ⟨top,htop,hvalue⟩ := sumCounts_ok
    (show countSum (sqlstateTop.map SqlstateCount.count) ≤ u64Max by omega)
  obtain ⟨without,hwithout,hvalue'⟩ := addCounts64_ok
    (show missing.toNat + other.toNat ≤ u64Max by omega)
  obtain ⟨states,hsum,hsumValue⟩ := addCounts64_ok
    (show without.toNat + top.toNat ≤ u64Max by omega)
  obtain ⟨joint,hjointTop,hjointValue⟩ := sumCounts_ok
    (show countSum (jointTop.map JointCount.count) ≤ u64Max by omega)
  obtain ⟨all,hall,hallValue⟩ := addCounts64_ok
    (show jointOther.toNat + joint.toNat ≤ u64Max by omega)
  have hstatesTotal : states = total := by
    rw [← UInt64.toNat_inj]
    omega
  have hjointTotal : all = total := by
    rw [← UInt64.toNat_inj]
    omega
  simp only [validateDigestReconciliation,htop,hwithout,hsum,hjointTop,hall,hseverity,hcategory,
    bind,Except.bind]
  exact refuse_ok.mpr (by simp [hstatesTotal,hjointTotal])

theorem nodup_rank (m : OrderedMap JointErrorKey UInt64) : (m.entries.map rank).Nodup :=
  m.nodup_entries.map rank_injective

/-- Counts whose total fits have an exact digest. -/
theorem eventDigest_ok {total : UInt64} (htotal : counts.totalOccurrences = .ok total) (topN : ℕ)
    (observations : Vec EventObservation) :
    ∃ digest, eventDigest topN counts observations = .ok digest ∧
      Reconciled topN counts total digest ∧ OrderFree topN counts digest := by
  have hlen := observations.property
  have hsum : entrySum counts.joint.map.entries = total.toNat := by
    rw [addAll_ok htotal,entrySum,countSum,List.map_map]
    exact (Nat.zero_add _).symm
  have hfits : entrySum counts.joint.map.entries ≤ u64Max := by
    have hlt := total.toNat_lt
    rw [hsum,u64Max]
    omega
  obtain ⟨bySeverity,hbySeverity,hseverity⟩ := marginal_countSum htotal fun key => key.severity.index
  obtain ⟨byCategory,hbyCategory,hcategory⟩ := marginal_countSum htotal fun key => key.category.index
  obtain ⟨s,hfold,hs⟩ := foldlM_countState hfits
  have htotals := hs.total
  obtain ⟨top,other,htop,hother,harrival⟩ := topEntries_ok
    (s.1.nodup_entries.map rank_injective) (show entrySum s.1.entries ≤ u64Max by omega) topN
  obtain ⟨jointTop,jointOther,hjoint,hjointOther,hjointArrival⟩ :=
    topEntries_ok (nodup_rank counts.joint.map) hfits topN
  have hstates : ∀ joint, joint.Perm counts.joint.map.entries →
      sqlstateTopN topN joint = .ok (top.map SqlstateCount.ofEntry,s.2,other) := by
    intro joint hperm
    obtain ⟨s',hfold',hs'⟩ := foldlM_countState
      (show entrySum joint ≤ u64Max by rwa [entrySum_perm hperm])
    rw [hs.unique hs' hperm] at hfold'
    rw [sqlstateTopN,hfold']
    change (topEntries topN s.1.entries >>= fun found => _) = _
    rw [harrival _ (.refl _)]
    rfl
  have hjoints : ∀ joint, joint.Perm counts.joint.map.entries →
      jointTopN topN joint = .ok (jointTop.map JointCount.ofEntry,jointOther) := by
    intro joint hperm
    rw [jointTopN,hjointArrival joint hperm]
    rfl
  have htopSum : countSum ((top.map SqlstateCount.ofEntry).map SqlstateCount.count) = entrySum top := by
    rw [List.map_map]
    rfl
  have hjointSum : countSum ((jointTop.map JointCount.ofEntry).map JointCount.count) =
      entrySum jointTop := by
    rw [List.map_map]
    rfl
  have hvalid : validateDigestReconciliation total bySeverity byCategory s.2 other
      (top.map SqlstateCount.ofEntry) jointOther (jointTop.map JointCount.ofEntry) = .ok () :=
    validate_ok hseverity hcategory (by rw [htopSum]; omega) (by rw [hjointSum]; omega)
  obtain ⟨groups,hgroups,-⟩ := lengthCount_ok
    (show (observations.val.filter isErrorGroup).length < 2^64 by
      have hle := List.length_filter_le isErrorGroup observations.val
      omega)
  obtain ⟨rows,hrows,-⟩ := lengthCount_ok (show observations.val.length < 2^64 by omega)
  refine ⟨⟨total,groups,rows,bySeverity,byCategory,top.map SqlstateCount.ofEntry,s.2,other,
    jointTop.map JointCount.ofEntry,jointOther,lifecycleDigest counts.lifecycle,"exact"⟩,?_,
    ⟨rfl,⟨_,top,hs.stateTotals,htop,rfl,harrival,?_⟩,hs.missing,⟨jointTop,hjoint,rfl,?_⟩,hvalid⟩,
    fun joint hperm => ⟨hstates joint hperm,hjoints joint hperm⟩⟩
  · simp only [eventDigest,EventCounts.bySeverity,EventCounts.byCategory,hbySeverity,hbyCategory,
      htotal,hgroups,hrows,hstates _ (.refl _),hjoints _ (.refl _),hvalid,Except.mapError,bind,
      Except.bind,pure,Except.pure]
  · dsimp only
    omega
  · dsimp only
    omega

end Reconciled

end Overview
end PgKronika
