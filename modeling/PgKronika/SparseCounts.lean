import Mathlib
import PgKronika.CheckedArith
import PgKronika.OrderedMap

/-! Sparse counts: a map from keys to counts that are not zero, with a cap on its keys. Whether
entries can be added, and what comes out, depends on their keys and totals alone. -/
namespace PgKronika
namespace SparseCounts

open CheckedArith

section Add

variable {κ ε : Type} [LinearOrder κ]

def checkedAdd64 (a b : UInt64) : Option UInt64 :=
  if a.toNat + b.toNat ≤ u64Max then some (a+b) else none

theorem checkedAdd64_eq_some {a b c : UInt64} : checkedAdd64 a b = some c ↔ c.toNat = a.toNat + b.toNat := by
  have hc := c.toNat_lt
  rw [checkedAdd64,u64Max]
  by_cases h : a.toNat + b.toNat ≤ 2^64 - 1
  · rw [if_pos h,Option.some_inj,← UInt64.toNat_inj,UInt64.toNat_add,Nat.mod_eq_of_lt (by omega)]
    exact eq_comm
  · rw [if_neg h]
    simp only [reduceCtorEq,false_iff]
    omega

/-- What the map counts for a key. -/
def countOf (m : OrderedMap κ UInt64) (k : κ) : ℕ := ((m.lookup k).getD 0).toNat

def keySet (m : OrderedMap κ UInt64) : Finset κ := (m.entries.map Prod.fst).toFinset

def Positive (m : OrderedMap κ UInt64) : Prop := ∀ e ∈ m.entries, e.2 ≠ 0

def keysOf (entries : List (κ × UInt64)) : Finset κ := (entries.map Prod.fst).toFinset

/-- What entries amount to for a key. -/
def total (entries : List (κ × UInt64)) (k : κ) : ℕ :=
  (entries.map fun e => if e.1 = k then e.2.toNat else 0).sum

/-- Add one entry: `full` refuses one more key, `overflow` a count that does not fit. -/
def addCount (full overflow : ε) (maxKeys : ℕ) (m : OrderedMap κ UInt64) (e : κ × UInt64) :
    Except ε (OrderedMap κ UInt64) :=
  if !m.contains e.1 && decide (m.entries.length = maxKeys) then .error full
  else
    match checkedAdd64 ((m.lookup e.1).getD 0) e.2 with
    | none => .error overflow
    | some count => .ok (m.insert e.1 count)

def addCounts (full overflow : ε) (maxKeys : ℕ) (m : OrderedMap κ UInt64)
    (entries : List (κ × UInt64)) : Except ε (OrderedMap κ UInt64) :=
  entries.foldlM (addCount full overflow maxKeys) m

/-- Add the entries that are not zero, at most `maxEntries` of them all. -/
def collectCounts (inputFull full overflow : ε) (maxEntries maxKeys : ℕ) :
    ℕ → OrderedMap κ UInt64 → List (κ × UInt64) → Except ε (OrderedMap κ UInt64)
  | _,m,[] => .ok m
  | index,m,e::entries =>
    if index = maxEntries then .error inputFull
    else if e.2 = 0 then collectCounts inputFull full overflow maxEntries maxKeys (index+1) m entries
    else
      addCount full overflow maxKeys m e >>= fun m =>
      collectCounts inputFull full overflow maxEntries maxKeys (index+1) m entries

theorem mem_keySet {m : OrderedMap κ UInt64} {k : κ} : k ∈ keySet m ↔ m.contains k = true := by
  rw [keySet,List.mem_toFinset,List.mem_map,OrderedMap.contains,Option.isSome_iff_exists]
  constructor
  · rintro ⟨⟨k,v⟩,hmem,rfl⟩
    exact ⟨v,OrderedMap.mem_entries_iff.mp hmem⟩
  · rintro ⟨v,hv⟩
    exact ⟨(k,v),OrderedMap.mem_entries_iff.mpr hv,rfl⟩

theorem card_keySet (m : OrderedMap κ UInt64) : (keySet m).card = m.entries.length := by
  rw [keySet,List.toFinset_card_of_nodup m.nodup_keys,List.length_map]

@[simp] theorem keySet_empty : keySet (.empty : OrderedMap κ UInt64) = ∅ := rfl

@[simp] theorem countOf_empty (k : κ) : countOf .empty k = 0 := rfl

theorem countOf_le (m : OrderedMap κ UInt64) (k : κ) : countOf m k ≤ u64Max := by
  have h := ((m.lookup k).getD 0).toNat_lt
  rw [countOf,u64Max]
  omega

theorem keySet_insert (m : OrderedMap κ UInt64) (k : κ) (v : UInt64) :
    keySet (m.insert k v) = insert k (keySet m) := by
  ext k'
  rw [mem_keySet,Finset.mem_insert,mem_keySet,OrderedMap.contains,OrderedMap.lookup_insert]
  by_cases h : k' = k <;> simp [h,OrderedMap.contains]

theorem countOf_insert (m : OrderedMap κ UInt64) (k k' : κ) (v : UInt64) :
    countOf (m.insert k v) k' = if k' = k then v.toNat else countOf m k' := by
  rw [countOf,OrderedMap.lookup_insert]
  by_cases h : k' = k <;> simp [h,countOf]

/-- A positive map holds the keys that it counts. -/
theorem Positive.mem_keySet_iff {m : OrderedMap κ UInt64} (h : Positive m) {k : κ} :
    k ∈ keySet m ↔ countOf m k ≠ 0 := by
  rw [mem_keySet,OrderedMap.contains,countOf]
  cases hv : m.lookup k with
  | none => simp
  | some v =>
    have hne := h (k,v) (OrderedMap.mem_entries_iff.mpr hv)
    simpa [← UInt64.toNat_inj] using hne

/-- Positive maps that count the same are the same. -/
theorem Positive.ext {m m' : OrderedMap κ UInt64} (h : Positive m) (h' : Positive m')
    (hcount : ∀ k, countOf m k = countOf m' k) : m = m' := by
  refine OrderedMap.ext_lookup fun k => ?_
  have hk := hcount k
  have hkeys : k ∈ keySet m ↔ k ∈ keySet m' := by rw [h.mem_keySet_iff,h'.mem_keySet_iff,hk]
  rw [mem_keySet,mem_keySet,OrderedMap.contains,OrderedMap.contains] at hkeys
  rw [countOf,countOf,UInt64.toNat_inj] at hk
  cases hv : m.lookup k <;> cases hv' : m'.lookup k <;> simp_all

theorem Positive.insert {m : OrderedMap κ UInt64} (h : Positive m) {k : κ} {v : UInt64}
    (hv : v ≠ 0) : Positive (m.insert k v) := by
  intro e he
  rcases (OrderedMap.mem_insertEntry m.ascending e).mp he with rfl | ⟨hmem,_⟩
  · exact hv
  · exact h e hmem

theorem keysOf_cons (e : κ × UInt64) (entries : List (κ × UInt64)) :
    keysOf (e::entries) = insert e.1 (keysOf entries) := by
  simp [keysOf]

theorem keysOf_append (a b : List (κ × UInt64)) : keysOf (a++b) = keysOf a ∪ keysOf b := by
  simp [keysOf]

theorem total_cons (e : κ × UInt64) (entries : List (κ × UInt64)) (k : κ) :
    total (e::entries) k = (if e.1 = k then e.2.toNat else 0) + total entries k := by
  simp [total]

theorem total_append (a b : List (κ × UInt64)) (k : κ) :
    total (a++b) k = total a k + total b k := by
  simp [total]

variable {full overflow : ε} {maxKeys : ℕ} {m m' : OrderedMap κ UInt64}

/-- One entry is added if its key and its count fit. -/
theorem addCount_ok_iff (hm : m.entries.length ≤ maxKeys) {e : κ × UInt64} :
    (∃ m', addCount full overflow maxKeys m e = .ok m') ↔
      (insert e.1 (keySet m)).card ≤ maxKeys ∧ countOf m e.1 + e.2.toNat ≤ u64Max := by
  have hcard : (insert e.1 (keySet m)).card ≤ maxKeys ↔
      ¬(!m.contains e.1 && decide (m.entries.length = maxKeys)) = true := by
    by_cases hmem : e.1 ∈ keySet m
    · rw [Finset.insert_eq_of_mem hmem,card_keySet]
      simp [mem_keySet.mp hmem,hm]
    · rw [Finset.card_insert_of_notMem hmem,card_keySet]
      rw [mem_keySet] at hmem
      simp only [Bool.not_eq_true] at hmem
      simp [hmem]
      omega
  rw [addCount,hcard]
  by_cases hfull : (!m.contains e.1 && decide (m.entries.length = maxKeys)) = true
  · rw [if_pos hfull]
    simp [hfull]
  · rw [if_neg hfull,countOf,checkedAdd64]
    by_cases hfits : ((m.lookup e.1).getD 0).toNat + e.2.toNat ≤ u64Max <;> simp [hfull,hfits]

variable {e : κ × UInt64} {entries : List (κ × UInt64)}

theorem addCount_ok (h : addCount full overflow maxKeys m e = .ok m') :
    keySet m' = insert e.1 (keySet m) ∧
      (∀ k, countOf m' k = countOf m k + if e.1 = k then e.2.toNat else 0) ∧
      (Positive m → e.2 ≠ 0 → Positive m') := by
  rw [addCount] at h
  split_ifs at h
  cases hadd : checkedAdd64 ((m.lookup e.1).getD 0) e.2 with
  | none =>
    rw [hadd] at h
    cases h
  | some count =>
    rw [hadd] at h
    obtain rfl := Except.ok.inj h
    have hcount := checkedAdd64_eq_some.mp hadd
    refine ⟨keySet_insert _ _ _,fun k => ?_,fun hm hne => hm.insert fun hzero => hne ?_⟩
    · rw [countOf_insert]
      by_cases hk : k = e.1
      · rw [if_pos hk,if_pos hk.symm,hcount,hk]
        rfl
      · rw [if_neg hk,if_neg (Ne.symm hk),Nat.add_zero]
    · rw [hzero] at hcount
      have hz : (0 : UInt64).toNat = 0 := rfl
      rw [← UInt64.toNat_inj]
      omega

/-- Entries can be added if all their keys and all their totals fit. -/
theorem addCounts_ok_iff (hm : m.entries.length ≤ maxKeys) :
    (∃ m', addCounts full overflow maxKeys m entries = .ok m') ↔
      (keySet m ∪ keysOf entries).card ≤ maxKeys ∧
        ∀ k, countOf m k + total entries k ≤ u64Max := by
  induction entries generalizing m with
  | nil =>
    have hkeys : (keySet m ∪ keysOf []).card ≤ maxKeys := by
      rw [keysOf,List.map_nil,List.toFinset_nil,Finset.union_empty,card_keySet]
      exact hm
    exact ⟨fun _ => ⟨hkeys,fun k => by simpa [total] using countOf_le m k⟩,fun _ => ⟨m,rfl⟩⟩
  | cons e entries ih =>
    have hunion : keySet m ∪ keysOf (e::entries) = insert e.1 (keySet m) ∪ keysOf entries := by
      rw [keysOf_cons,Finset.union_insert,Finset.insert_union]
    rw [hunion,addCounts,List.foldlM_cons]
    constructor
    · rintro ⟨result,h⟩
      obtain ⟨next,hadd,hrest⟩ := bind_ok h
      obtain ⟨hcard,hfits⟩ := (addCount_ok_iff hm).mp ⟨next,hadd⟩
      obtain ⟨hkeys,hcounts,-⟩ := addCount_ok hadd
      rw [← hkeys,card_keySet] at hcard
      obtain ⟨hall,htotal⟩ := (ih hcard).mp ⟨result,hrest⟩
      rw [hkeys] at hall
      refine ⟨hall,fun k => ?_⟩
      have hk := htotal k
      rw [hcounts] at hk
      rw [total_cons]
      omega
    · rintro ⟨hall,htotal⟩
      -- What fits in the end fits after the first entry.
      have hsub : insert e.1 (keySet m) ⊆ insert e.1 (keySet m) ∪ keysOf entries :=
        Finset.subset_union_left
      have hcard := (Finset.card_le_card hsub).trans hall
      have hfirst := htotal e.1
      rw [total_cons,if_pos rfl] at hfirst
      obtain ⟨next,hadd⟩ : ∃ next, addCount full overflow maxKeys m e = .ok next :=
        (addCount_ok_iff hm).mpr ⟨hcard,by omega⟩
      obtain ⟨hkeys,hcounts,-⟩ := addCount_ok hadd
      rw [← hkeys,card_keySet] at hcard
      rw [hadd]
      refine (ih hcard).mpr ⟨hkeys ▸ hall,fun k => ?_⟩
      have hk := htotal k
      rw [total_cons] at hk
      rw [hcounts]
      omega

theorem addCounts_ok (h : addCounts full overflow maxKeys m entries = .ok m') :
    keySet m' = keySet m ∪ keysOf entries ∧ (∀ k, countOf m' k = countOf m k + total entries k) ∧
      (Positive m → (∀ e ∈ entries, e.2 ≠ 0) → Positive m') := by
  induction entries generalizing m with
  | nil =>
    obtain rfl := Except.ok.inj h
    exact ⟨by simp [keysOf],fun k => by simp [total],fun hm _ => hm⟩
  | cons e entries ih =>
    obtain ⟨next,hadd,hrest⟩ := bind_ok h
    obtain ⟨hkeys,hcounts,hpositive⟩ := addCount_ok hadd
    obtain ⟨hkeys',hcounts',hpositive'⟩ := ih hrest
    refine ⟨?_,fun k => ?_,fun hm hne => ?_⟩
    · rw [hkeys',hkeys,keysOf_cons,Finset.union_insert,Finset.insert_union]
    · rw [hcounts',hcounts,total_cons,Nat.add_assoc]
    · exact hpositive' (hpositive hm (hne e (by simp))) fun e' he' => hne e' (by simp [he'])

/-- A constructor adds the entries that count, if there are not too many in all. -/
theorem collectCounts_ok_iff {inputFull : ε} {maxEntries index : ℕ} (hindex : index ≤ maxEntries) :
    collectCounts inputFull full overflow maxEntries maxKeys index m entries = .ok m' ↔
      index + entries.length ≤ maxEntries ∧
        addCounts full overflow maxKeys m (entries.filter fun e => e.2 ≠ 0) = .ok m' := by
  induction entries generalizing index m with
  | nil => exact ⟨fun h => ⟨hindex,h⟩,And.right⟩
  | cons e entries ih =>
    rw [collectCounts,List.length_cons]
    by_cases hlast : index = maxEntries
    · rw [if_pos hlast]
      simp only [reduceCtorEq,false_iff]
      omega
    · rw [if_neg hlast,show index + (entries.length+1) = index+1 + entries.length by omega]
      by_cases hzero : e.2 = 0
      · rw [if_pos hzero,ih (by omega),List.filter_cons_of_neg (by simpa using hzero)]
      · rw [if_neg hzero,List.filter_cons_of_pos (by simpa using hzero),addCounts,List.foldlM_cons]
        cases addCount full overflow maxKeys m e with
        | error error =>
          refine ⟨fun h => ?_,fun h => ?_⟩
          · cases h
          · cases h.2
        | ok next => exact ih (by omega)

/-- Zero entries count nothing. -/
theorem total_filter (entries : List (κ × UInt64)) (k : κ) :
    total (entries.filter fun e => e.2 ≠ 0) k = total entries k := by
  induction entries with
  | nil => rfl
  | cons e entries ih =>
    by_cases hzero : e.2 = 0
    · rw [List.filter_cons_of_neg (by simpa using hzero),total_cons,hzero,ih]
      simp
    · rw [List.filter_cons_of_pos (by simpa using hzero),total_cons,total_cons,ih]

/-- The entries of a positive map are what it holds. -/
theorem keysOf_entries (m : OrderedMap κ UInt64) : keysOf m.entries = keySet m := rfl

theorem total_entries (m : OrderedMap κ UInt64) (k : κ) : total m.entries k = countOf m k := by
  have h := OrderedMap.sum_entries m (fun k' v => if k' = k then v.toNat else 0)
    (insert k (keySet m)) fun p hp => Finset.mem_insert_of_mem
      (List.mem_toFinset.mpr (List.mem_map_of_mem hp))
  rw [total,h,Finset.sum_eq_single k]
  · rw [countOf]
    cases m.lookup k <;> simp
  · intro k' _ hne
    cases m.lookup k' <;> simp [hne]
  · simp

end Add

/-- Counts by key, none of them zero. -/
structure Counts (κ : Type) [LinearOrder κ] where
  map : OrderedMap κ UInt64
  positive : Positive map

namespace Counts

variable {κ ε : Type} [LinearOrder κ] {full overflow : ε} {maxKeys : ℕ} {a b c : Counts κ}

def len (c : Counts κ) : ℕ := c.map.entries.length

def keys (c : Counts κ) : Finset κ := keySet c.map

def count (c : Counts κ) (k : κ) : ℕ := countOf c.map k

/-- Count the entries of an input. -/
def collect (inputFull full overflow : ε) (maxEntries maxKeys : ℕ) (entries : List (κ × UInt64)) :
    Except ε (Counts κ) :=
  match h : collectCounts inputFull full overflow maxEntries maxKeys 0 .empty entries with
  | .error e => .error e
  | .ok m => .ok ⟨m,(addCounts_ok ((collectCounts_ok_iff (Nat.zero_le _)).mp h).2).2.2
      (by intro e he; cases he) fun e he => of_decide_eq_true (List.mem_filter.mp he).2⟩

/-- Count two sets of counts together. -/
def merge (full overflow : ε) (maxKeys : ℕ) (a b : Counts κ) : Except ε (Counts κ) :=
  if maxKeys < a.len ∨ maxKeys < b.len then .error full
  else
    match h : addCounts full overflow maxKeys .empty (a.map.entries ++ b.map.entries) with
    | .error e => .error e
    | .ok m => .ok ⟨m,(addCounts_ok h).2.2 (by intro e he; cases he) fun e he =>
        (List.mem_append.mp he).elim (a.positive e) (b.positive e)⟩

theorem ext_count (h : ∀ k, a.count k = b.count k) : a = b := by
  obtain ⟨m,hm⟩ := a
  obtain ⟨m',hm'⟩ := b
  cases hm.ext hm' h
  rfl

theorem mem_keys {k : κ} : k ∈ c.keys ↔ c.count k ≠ 0 := c.positive.mem_keySet_iff

theorem collect_ok_iff {inputFull : ε} {maxEntries : ℕ} {entries : List (κ × UInt64)} :
    collect inputFull full overflow maxEntries maxKeys entries = .ok c ↔
      entries.length ≤ maxEntries ∧
        addCounts full overflow maxKeys .empty (entries.filter fun e => e.2 ≠ 0) = .ok c.map := by
  have hcollect : collectCounts inputFull full overflow maxEntries maxKeys 0 .empty entries =
      .ok c.map ↔ _ := collectCounts_ok_iff (Nat.zero_le _)
  rw [← Nat.zero_add entries.length,← hcollect,collect]
  split
  · next h => simp [h]
  · next m h =>
    constructor
    · intro hc
      rw [← Except.ok.inj hc]
      exact h
    · intro hc
      obtain rfl := Except.ok.inj (h.symm.trans hc)
      rfl

theorem merge_ok_iff : merge full overflow maxKeys a b = .ok c ↔
    a.len ≤ maxKeys ∧ b.len ≤ maxKeys ∧
      addCounts full overflow maxKeys .empty (a.map.entries ++ b.map.entries) = .ok c.map := by
  rw [merge]
  by_cases hfull : maxKeys < a.len ∨ maxKeys < b.len
  · rw [if_pos hfull]
    simp only [reduceCtorEq,false_iff]
    omega
  · rw [if_neg hfull,← and_assoc,and_iff_right (by omega)]
    split
    · next h => simp [h]
    · next m h =>
      constructor
      · intro hc
        rw [← Except.ok.inj hc]
        exact h
      · intro hc
        obtain rfl := Except.ok.inj (h.symm.trans hc)
        rfl

/-- An input is counted if its entries, its keys and its totals fit. -/
theorem collect_isOk_iff {inputFull : ε} {maxEntries : ℕ} {entries : List (κ × UInt64)} :
    (∃ c, collect inputFull full overflow maxEntries maxKeys entries = .ok c) ↔
      entries.length ≤ maxEntries ∧ (keysOf (entries.filter fun e => e.2 ≠ 0)).card ≤ maxKeys ∧
        ∀ k, total entries k ≤ u64Max := by
  have hadd : (∃ m, addCounts full overflow maxKeys .empty (entries.filter fun e => e.2 ≠ 0) =
      .ok m) ↔ _ := addCounts_ok_iff (Nat.zero_le maxKeys)
  simp only [keySet_empty,Finset.empty_union,countOf_empty,Nat.zero_add,total_filter] at hadd
  rw [← hadd]
  constructor
  · rintro ⟨c,hc⟩
    obtain ⟨hlen,hc⟩ := collect_ok_iff.mp hc
    exact ⟨hlen,c.map,hc⟩
  · rintro ⟨hlen,m,hm⟩
    exact ⟨⟨m,(addCounts_ok hm).2.2 (by intro e he; cases he) fun e he =>
      of_decide_eq_true (List.mem_filter.mp he).2⟩,collect_ok_iff.mpr ⟨hlen,hm⟩⟩

theorem collect_ok {inputFull : ε} {maxEntries : ℕ} {entries : List (κ × UInt64)}
    (h : collect inputFull full overflow maxEntries maxKeys entries = .ok c) :
    c.keys = keysOf (entries.filter fun e => e.2 ≠ 0) ∧ ∀ k, c.count k = total entries k := by
  obtain ⟨hkeys,hcounts,-⟩ := addCounts_ok (collect_ok_iff.mp h).2
  refine ⟨by simpa [keys] using hkeys,fun k => ?_⟩
  rw [count,hcounts,total_filter,countOf_empty,Nat.zero_add]

/-- A merge succeeds if the keys together and all sums fit. -/
theorem merge_isOk_iff : (∃ c, merge full overflow maxKeys a b = .ok c) ↔
    (a.keys ∪ b.keys).card ≤ maxKeys ∧ ∀ k, a.count k + b.count k ≤ u64Max := by
  have hadd : (∃ m, addCounts full overflow maxKeys .empty (a.map.entries ++ b.map.entries) =
      .ok m) ↔ _ := addCounts_ok_iff (Nat.zero_le maxKeys)
  simp only [keySet_empty,Finset.empty_union,countOf_empty,Nat.zero_add,total_append,keysOf_append,
    total_entries,keysOf_entries] at hadd
  change _ ↔ (a.keys ∪ b.keys).card ≤ maxKeys ∧ ∀ k, a.count k + b.count k ≤ u64Max at hadd
  rw [← hadd]
  constructor
  · rintro ⟨c,hc⟩
    exact ⟨c.map,(merge_ok_iff.mp hc).2.2⟩
  · rintro ⟨m,hm⟩
    have hcard := (hadd.mp ⟨m,hm⟩).1
    have hleft : a.keys ⊆ a.keys ∪ b.keys := Finset.subset_union_left
    have hright : b.keys ⊆ a.keys ∪ b.keys := Finset.subset_union_right
    have ha := (Finset.card_le_card hleft).trans hcard
    have hb := (Finset.card_le_card hright).trans hcard
    rw [keys,card_keySet] at ha hb
    exact ⟨⟨m,(addCounts_ok hm).2.2 (by intro e he; cases he) fun e he =>
      (List.mem_append.mp he).elim (a.positive e) (b.positive e)⟩,merge_ok_iff.mpr ⟨ha,hb,hm⟩⟩

theorem merge_ok (h : merge full overflow maxKeys a b = .ok c) :
    c.keys = a.keys ∪ b.keys ∧ ∀ k, c.count k = a.count k + b.count k := by
  obtain ⟨hkeys,hcounts,-⟩ := addCounts_ok (merge_ok_iff.mp h).2.2
  rw [keysOf_append,keysOf_entries,keysOf_entries,keySet_empty,Finset.empty_union] at hkeys
  refine ⟨hkeys,fun k => ?_⟩
  rw [count,hcounts,countOf_empty,total_append,total_entries,total_entries,Nat.zero_add]
  rfl

end Counts

end SparseCounts
end PgKronika
