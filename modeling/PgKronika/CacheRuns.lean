import Mathlib
import PgKronika.CacheRecency

/-! Runs of the caches: what is held, what is answered, and exactly when an insertion leaves the
entries of other keys in place. -/
namespace PgKronika
namespace LruCaches

open ByteCodec CheckedArith RecencyList

/-! Runs of one cache. -/

inductive CacheOp (K A : Type)
  | get (key : K)
  | insert (key : K) (item : A)

/-- One of the two caches: what it inserts, which items it looks at, and how it charges. -/
structure Cache (K V A : Type) where
  limits : Limits
  charge : Table K V → ℕ
  insert : CacheInner K V → K → A → CacheInner K V
  admits : A → Bool
  value : A → V
  keyCapacity : A → ℕ

def ResponseCache.cache (K : Type) [DecidableEq K] (limits : Limits) (tableCost : ℕ → ℕ) :
    Cache K Bytes (ℕ × Bytes) where
  limits := limits
  charge := logicalResidentCharge tableCost
  insert := fun inner key item => insert limits tableCost inner key item.1 item.2
  admits := fun _ => limits.maxEntries ≠ 0
  value := Prod.snd
  keyCapacity := Prod.fst

def DecodedFactCache.cache (K : Type) {F : Type} [DecidableEq K] (limits : Limits)
    (tableCost : ℕ → ℕ) (residentBytes : F → Option ℕ) : Cache K F F where
  limits := limits
  charge := recordedCharge tableCost residentBytes
  insert := insert limits tableCost residentBytes
  admits := fun facts =>
    ¬(limits.maxBytes = 0 ∨ limits.maxEntries = 0 ∨ residentBytes facts = none)
  value := id
  keyCapacity := fun _ => 0

namespace Cache

variable {K V A : Type} [DecidableEq K] (cache : Cache K V A)

def apply (inner : CacheInner K V) : CacheOp K A → CacheInner K V
  | .get key => (inner.get key).2
  | .insert key item => cache.insert inner key item

def after (ops : List (CacheOp K A)) : CacheInner K V := ops.foldl cache.apply {}

/-- The entry that an insertion stores. -/
def stored (inner : CacheInner K V) (key : K) (item : A) : K × Entry V :=
  (key,⟨cache.value item,
    (lookup inner.entries key).elim (cache.keyCapacity item) (·.keyCapacity),inner.clock+1⟩)

/-- Every key used so far, by its last use: a use is a hit or an insertion that is not refused. -/
def useOrder (ops : List (CacheOp K A)) : List K :=
  (ops.foldl (fun (s : CacheInner K V × List K) op => (cache.apply s.1 op,match op with
    | .get key => if (lookup s.1.entries key).isSome then push id key s.2 else s.2
    | .insert key item => if cache.admits item then push id key s.2 else s.2)) ({},[])).2

def lastInserted (ops : List (CacheOp K A)) (key : K) : Option V :=
  ops.foldl (fun last op => match op with
    | .get _ => last
    | .insert other item =>
      if cache.admits item ∧ other = key then some (cache.value item) else last) none

def Fits (held : Table K V) : Prop :=
  held.length ≤ cache.limits.maxEntries ∧ cache.charge held ≤ cache.limits.maxBytes

/-- What holds between two calls. -/
structure Sound (ops : List (CacheOp K A)) : Prop where
  entries : (cache.after ops).entries.length ≤ cache.limits.maxEntries
  bytes : (cache.after ops).bytes = cache.charge (cache.after ops).entries
  within : (cache.after ops).bytes ≤ cache.limits.maxBytes
  latest : ∀ key value, ((cache.after ops).get key).1 = some value →
    cache.lastInserted ops key = some value
  recent : ∃ held, Tracks (cache.after ops).entries held ∧ held.map Prod.fst <:+ cache.useOrder ops

/-- An insertion evicts from the oldest end, and no more than its own entry needs. -/
def EvictsNeeded (inner : CacheInner K V) (key : K) (item : A) : Prop :=
  ∀ held, Tracks inner.entries held → cache.admits item = true →
    ∃ gone kept, push Prod.fst (cache.stored inner key item) held = gone++kept ∧
      Tracks (cache.insert inner key item).entries kept ∧
      ∀ first last, gone = first++[last] → ¬cache.Fits (last::kept)

/-- An entry that alone is over the budget leaves those of other keys in place. -/
def DisplacesNothing (inner : CacheInner K V) (key : K) (item : A) : Prop :=
  cache.limits.maxBytes < cache.charge [cache.stored inner key item] →
    ∀ e ∈ inner.entries, e.1 ≠ key → e ∈ (cache.insert inner key item).entries

def Honours (ops : List (CacheOp K A)) : Prop :=
  (∀ before, before <+: ops → cache.Sound before) ∧
  ∀ before key item, before++[.insert key item] <+: ops →
    cache.EvictsNeeded (cache.after before) key item ∧
    cache.DisplacesNothing (cache.after before) key item

/-- The item is refused at once, or fits alone, or meets no entry of another key. -/
def Harmless (inner : CacheInner K V) (key : K) (item : A) : Prop :=
  cache.admits item = false ∨
    cache.charge [cache.stored inner key item] ≤ cache.limits.maxBytes ∨
    ∀ e ∈ inner.entries, e.1 = key

/-- How both caches fill their table. -/
structure Filling (tableCost : ℕ → ℕ) (price : V → ℕ → ℕ) : Prop where
  charges : ∀ table, cache.charge table = capped tableCost price table
  refused : ∀ inner key item, cache.admits item = false → cache.insert inner key item = inner
  filled : ∀ inner key item, cache.admits item = true →
    let inserted := insertEntry inner.entries key
      ⟨cache.value item,cache.keyCapacity item,inner.clock+1⟩
    let counted := evictEntries cache.limits.maxEntries inserted.length inserted
    let entries := evictBytes (capped tableCost price) cache.limits.maxBytes counted.length counted
    cache.insert inner key item = ⟨entries,inner.clock+1,capped tableCost price entries⟩

variable {cache} {tableCost : ℕ → ℕ} {price : V → ℕ → ℕ}

theorem succ_toNat {clock : UInt64} (h : clock.toNat+1 < 2^64) :
    (clock+1).toNat = clock.toNat+1 := by
  rw [UInt64.toNat_add,UInt64.toNat_one,Nat.mod_eq_of_lt h]

omit [DecidableEq K] in
/-- Stamps are in the past, so the next one is later than all. -/
theorem stamp_lt {held : Table K V} {clock : UInt64} (h : clock.toNat+1 < 2^64)
    (hpast : ∀ e ∈ held, e.2.lastUsed ≤ clock) : ∀ e ∈ held, e.2.lastUsed < clock+1 := by
  intro e he
  have hle := UInt64.le_iff_toNat_le.mp (hpast e he)
  rw [UInt64.lt_iff_toNat_lt,succ_toNat h]
  omega

def Affordable (limits : Limits) (tableCost : ℕ → ℕ) (price : V → ℕ → ℕ)
    (held : Table K V) : Prop :=
  FitsCount limits.maxEntries held ∧ FitsBytes tableCost price limits.maxBytes held

instance (limits : Limits) (tableCost : ℕ → ℕ) (price : V → ℕ → ℕ) :
    DecidablePred (Affordable limits tableCost price : Table K V → Prop) :=
  fun _ => instDecidableAnd

theorem Filling.insert_spec (hf : cache.Filling tableCost price)
    {inner : CacheInner K V} {held : Table K V} (h : Tracks inner.entries held)
    (hclock : inner.clock.toNat+1 < 2^64) (hpast : ∀ e ∈ held, e.2.lastUsed ≤ inner.clock)
    (key : K) {item : A} (ha : cache.admits item = true) :
    Tracks (cache.insert inner key item).entries
        (evict (Affordable cache.limits tableCost price)
          (push Prod.fst (cache.stored inner key item) held)) ∧
      (cache.insert inner key item).clock = inner.clock+1 ∧
      (cache.insert inner key item).bytes =
        capped tableCost price (cache.insert inner key item).entries := by
  rw [hf.filled inner key item ha]
  refine ⟨?_,rfl,rfl⟩
  have hothers : (inner.entries.filter fun e => decide (e.1 ≠ key)).Perm
      (without Prod.fst key held) := h.perm.filter _
  have hinserted := h.push (x := cache.stored inner key item) hothers (stamp_lt hclock hpast)
  have hcounted := evictEntries_tracks cache.limits.maxEntries hinserted
    hinserted.perm.length_eq.ge
  have hbytes := evictBytes_tracks tableCost price cache.limits.maxBytes hcounted
    hcounted.perm.length_eq.ge
  rw [evict_evict fitsCount_suffix] at hbytes
  exact hbytes

omit [DecidableEq K] in
theorem stamp_le {held : Table K V} {clock : UInt64} (h : clock.toNat+1 < 2^64)
    (hpast : ∀ e ∈ held, e.2.lastUsed ≤ clock) : ∀ e ∈ held, e.2.lastUsed ≤ clock+1 :=
  fun e he => UInt64.le_of_lt (stamp_lt h hpast e he)

omit [DecidableEq K] in
theorem capped_map {g : K × Entry V → K × Entry V} (table : Table K V)
    (hg : ∀ e, (g e).2.value = e.2.value ∧ (g e).2.keyCapacity = e.2.keyCapacity) :
    capped tableCost price (table.map g) = capped tableCost price table := by
  have hsum : (table.map g).map (fun e => price e.2.value e.2.keyCapacity) =
      table.map fun e => price e.2.value e.2.keyCapacity := by
    rw [List.map_map]
    apply List.map_congr_left
    intro e _
    simp [hg e]
  simp only [capped,List.map_eq_nil_iff,List.length_map,hsum]

theorem after_append (ops : List (CacheOp K A)) (op : CacheOp K A) :
    cache.after (ops++[op]) = cache.apply (cache.after ops) op := by
  simp [after]

theorem useOrder_append (ops : List (CacheOp K A)) (op : CacheOp K A) :
    cache.useOrder (ops++[op]) = match op with
      | .get key =>
        if (lookup (cache.after ops).entries key).isSome then push id key (cache.useOrder ops)
        else cache.useOrder ops
      | .insert key item =>
        if cache.admits item then push id key (cache.useOrder ops) else cache.useOrder ops := by
  have hafter : ∀ ops : List (CacheOp K A),
      (ops.foldl (fun (s : CacheInner K V × List K) op => (cache.apply s.1 op,match op with
        | .get key => if (lookup s.1.entries key).isSome then push id key s.2 else s.2
        | .insert key item => if cache.admits item then push id key s.2 else s.2))
        ({},[])).1 = cache.after ops := by
    intro ops
    induction ops using List.reverseRecOn with
    | nil => rfl
    | append_singleton ops op ih => rw [List.foldl_append,after_append,← ih]; rfl
  rw [useOrder,List.foldl_append,← hafter ops]
  rfl

theorem lastInserted_append (ops : List (CacheOp K A)) (op : CacheOp K A) (key : K) :
    cache.lastInserted (ops++[op]) key = match op with
      | .get _ => cache.lastInserted ops key
      | .insert other item =>
        if cache.admits item ∧ other = key then some (cache.value item)
        else cache.lastInserted ops key := by
  rw [lastInserted,List.foldl_append]
  rfl

/-- The cache after a run, with its entries by last use. -/
structure Kept (cache : Cache K V A) (tableCost : ℕ → ℕ) (price : V → ℕ → ℕ)
    (ops : List (CacheOp K A)) (held : Table K V) : Prop where
  tracks : Tracks (cache.after ops).entries held
  past : ∀ e ∈ held, e.2.lastUsed ≤ (cache.after ops).clock
  clock : (cache.after ops).clock.toNat ≤ ops.length
  bytes : (cache.after ops).bytes = capped tableCost price (cache.after ops).entries
  short : held.length ≤ cache.limits.maxEntries
  within : capped tableCost price held ≤ cache.limits.maxBytes
  latest : ∀ e ∈ held, cache.lastInserted ops e.1 = some e.2.value
  recent : held.map Prod.fst <:+ cache.useOrder ops

variable {ops : List (CacheOp K A)} {held : Table K V}

theorem Kept.get (h : cache.Kept tableCost price ops held) (hlen : ops.length+1 < 2^64) (key : K) :
    ∃ next, cache.Kept tableCost price (ops++[.get key]) next := by
  have hclock : (cache.after ops).clock.toNat+1 < 2^64 := by have := h.clock; omega
  have hnext : cache.after (ops++[.get key]) = ((cache.after ops).get key).2 := after_append ..
  have hcount : (ops++[CacheOp.get (A := A) key]).length = ops.length+1 := by simp
  cases hl : lookup (cache.after ops).entries key with
  | none =>
    have hget : cache.after (ops++[.get key]) =
        { cache.after ops with clock := (cache.after ops).clock+1 } := by
      rw [hnext]
      simp [CacheInner.get,hl]
    refine ⟨held,?_,?_,?_,?_,h.short,h.within,?_,?_⟩
    · rw [hget]; exact h.tracks
    · rw [hget]; exact stamp_le hclock h.past
    · rw [hget,hcount,succ_toNat hclock]; exact Nat.succ_le_succ h.clock
    · rw [hget]; exact h.bytes
    · intro e he
      rw [lastInserted_append]
      exact h.latest e he
    · rw [useOrder_append]
      simpa [hl] using h.recent
  | some entry =>
    have hmem := (lookup_eq_some h.tracks).mp hl
    let touched : K × Entry V := (key,{ entry with lastUsed := (cache.after ops).clock+1 })
    have hget : cache.after (ops++[.get key]) = { cache.after ops with
        clock := (cache.after ops).clock+1
        entries := (cache.after ops).entries.map fun e => if e.1 = key then
          (e.1,{ e.2 with lastUsed := (cache.after ops).clock+1 }) else e } := by
      rw [hnext]
      simp [CacheInner.get,hl]
    have hcharge : ∀ table : Table K V, capped tableCost price (table.map fun e =>
        if e.1 = key then (e.1,{ e.2 with lastUsed := (cache.after ops).clock+1 }) else e) =
        capped tableCost price table := by
      intro table
      apply capped_map
      intro e
      split_ifs <;> exact ⟨rfl,rfl⟩
    have htracks := touch_tracks h.tracks hmem (stamp_lt hclock h.past)
    have hlength := htracks.perm.length_eq
    rw [List.length_map,h.tracks.perm.length_eq] at hlength
    refine ⟨push Prod.fst touched held,?_,?_,?_,?_,?_,?_,?_,?_⟩
    · rw [hget]; exact htracks
    · rw [hget]
      intro e he
      rcases List.mem_append.mp he with he | he
      · exact stamp_le hclock h.past e (mem_without.mp he).1
      · rw [List.mem_singleton.mp he]
        exact UInt64.le_refl _
    · rw [hget,hcount,succ_toNat hclock]; exact Nat.succ_le_succ h.clock
    · rw [hget]
      exact h.bytes.trans (hcharge _).symm
    · exact hlength ▸ h.short
    · rw [← capped_perm htracks.perm,hcharge,capped_perm h.tracks.perm]
      exact h.within
    · intro e he
      rw [lastInserted_append]
      rcases List.mem_append.mp he with he | he
      · exact h.latest e (mem_without.mp he).1
      · rw [List.mem_singleton.mp he]
        exact h.latest (key,entry) hmem
    · rw [useOrder_append]
      simp only [hl,Option.isSome_some,if_true,map_push]
      exact push_suffix h.recent

omit [DecidableEq K] in
theorem affordable_nil : Affordable cache.limits tableCost price ([] : Table K V) :=
  ⟨Nat.zero_le _,by simp [FitsBytes,capped_nil]⟩

theorem Kept.insert (hf : cache.Filling tableCost price)
    (h : cache.Kept tableCost price ops held) (hlen : ops.length+1 < 2^64) (key : K) (item : A) :
    ∃ next, cache.Kept tableCost price (ops++[.insert key item]) next := by
  have hclock : (cache.after ops).clock.toNat+1 < 2^64 := by have := h.clock; omega
  have hnext : cache.after (ops++[.insert key item]) = cache.insert (cache.after ops) key item :=
    after_append ..
  have hcount : (ops++[CacheOp.insert key item]).length = ops.length+1 := by simp
  cases ha : cache.admits item with
  | false =>
    have hrefused := hnext.trans (hf.refused _ key item ha)
    refine ⟨held,?_,?_,?_,?_,h.short,h.within,?_,?_⟩
    · rw [hrefused]; exact h.tracks
    · rw [hrefused]; exact h.past
    · rw [hrefused,hcount]; exact h.clock.trans (Nat.le_succ _)
    · rw [hrefused]; exact h.bytes
    · intro e he
      rw [lastInserted_append]
      simpa [ha] using h.latest e he
    · rw [useOrder_append]
      simpa [ha] using h.recent
  | true =>
    obtain ⟨htracks,hc,hbytes⟩ := hf.insert_spec h.tracks hclock h.past key ha
    let used := push Prod.fst (cache.stored (cache.after ops) key item) held
    have hsuffix : evict (Affordable cache.limits tableCost price) used <:+ used := evict_suffix _
    have hfits : Affordable cache.limits tableCost price (evict (Affordable cache.limits tableCost price) used) :=
      evict_fits affordable_nil _
    rw [← hnext] at htracks hc hbytes
    refine ⟨_,htracks,?_,?_,hbytes,hfits.1,hfits.2,?_,?_⟩
    · rw [hc]
      intro e he
      rcases List.mem_append.mp (hsuffix.subset he) with he | he
      · exact stamp_le hclock h.past e (mem_without.mp he).1
      · rw [List.mem_singleton.mp he]
        exact UInt64.le_refl _
    · rw [hc,hcount,succ_toNat hclock]; exact Nat.succ_le_succ h.clock
    · intro e he
      rw [lastInserted_append]
      rcases List.mem_append.mp (hsuffix.subset he) with he | he
      · obtain ⟨he,hne⟩ := mem_without.mp he
        have hne : ¬key = e.1 := fun hh => hne hh.symm
        simpa [hne] using h.latest e he
      · rw [List.mem_singleton.mp he]
        simp [ha,stored]
    · rw [useOrder_append]
      simp only [ha,if_true]
      obtain ⟨gone,hgone⟩ := hsuffix
      have hmap : used.map Prod.fst = push id key (held.map Prod.fst) := map_push ..
      rw [← hgone,List.map_append] at hmap
      exact (List.suffix_append _ _).trans (hmap ▸ push_suffix h.recent)

theorem kept (hf : cache.Filling tableCost price) (h : ops.length < 2^64) :
    ∃ held, cache.Kept tableCost price ops held := by
  induction ops using List.reverseRecOn with
  | nil =>
    exact ⟨[],⟨List.Perm.refl _,List.Pairwise.nil,List.nodup_nil⟩,by simp,Nat.zero_le _,
      capped_nil.symm,Nat.zero_le _,by simp [capped_nil],by simp,List.nil_suffix⟩
  | append_singleton ops op ih =>
    rw [List.length_append,List.length_singleton] at h
    obtain ⟨held,hheld⟩ := ih (by omega)
    cases op with
    | get key => exact hheld.get h key
    | insert key item => exact hheld.insert hf h key item

theorem get_fst (inner : CacheInner K V) (key : K) :
    (inner.get key).1 = (lookup inner.entries key).map (·.value) := by
  unfold CacheInner.get
  cases lookup inner.entries key <;> rfl

theorem Kept.sound (hf : cache.Filling tableCost price)
    (h : cache.Kept tableCost price ops held) : cache.Sound ops where
  entries := h.tracks.perm.length_eq ▸ h.short
  bytes := h.bytes.trans (hf.charges _).symm
  within := by
    rw [h.bytes,capped_perm h.tracks.perm]
    exact h.within
  latest := by
    intro key value hget
    rw [get_fst,Option.map_eq_some_iff] at hget
    obtain ⟨entry,hl,rfl⟩ := hget
    exact h.latest _ ((lookup_eq_some h.tracks).mp hl)
  recent := ⟨held,h.tracks,h.recent⟩

theorem Kept.evictsNeeded (hf : cache.Filling tableCost price)
    (h : cache.Kept tableCost price ops held) (hlen : ops.length+1 < 2^64) (key : K) (item : A) :
    cache.EvictsNeeded (cache.after ops) key item := by
  intro sorted hsorted ha
  have hclock : (cache.after ops).clock.toNat+1 < 2^64 := by have := h.clock; omega
  have hpast : ∀ e ∈ sorted, e.2.lastUsed ≤ (cache.after ops).clock := fun e he =>
    h.past e (h.tracks.perm.mem_iff.mp (hsorted.perm.mem_iff.mpr he))
  have htracks := (hf.insert_spec hsorted hclock hpast key ha).1
  obtain ⟨gone,hgone⟩ : evict (Affordable cache.limits tableCost price)
    (push Prod.fst (cache.stored (cache.after ops) key item) sorted) <:+ _ := evict_suffix _
  refine ⟨gone,_,hgone.symm,htracks,?_⟩
  rintro first last rfl ⟨hcount,hbytes⟩
  rw [hf.charges] at hbytes
  exact evict_needed (hgone.symm.trans (List.append_assoc first [last] _)) ⟨hcount,hbytes⟩

/-- An entry that is over the budget alone empties the cache. -/
theorem Kept.emptied (hf : cache.Filling tableCost price) (htable : Monotone tableCost)
    (h : cache.Kept tableCost price ops held) (hlen : ops.length+1 < 2^64) {key : K} {item : A}
    (ha : cache.admits item = true)
    (hover : cache.limits.maxBytes < cache.charge [cache.stored (cache.after ops) key item]) :
    (cache.insert (cache.after ops) key item).entries = [] := by
  have hclock : (cache.after ops).clock.toNat+1 < 2^64 := by have := h.clock; omega
  have htracks := (hf.insert_spec h.tracks hclock h.past key ha).1
  let used := push Prod.fst (cache.stored (cache.after ops) key item) held
  have hfits : Affordable cache.limits tableCost price
      (evict (Affordable cache.limits tableCost price) used) := evict_fits affordable_nil _
  have hsuffix : evict (Affordable cache.limits tableCost price) used <:+ used := evict_suffix _
  have hnil : evict (Affordable cache.limits tableCost price) used = [] := by
    by_contra hne
    -- a suffix that is left ends with the new entry
    have hlast : [cache.stored (cache.after ops) key item] <:+
        evict (Affordable cache.limits tableCost price) used := by
      refine List.suffix_of_suffix_length_le (List.suffix_append _ _) hsuffix ?_
      exact List.length_pos_iff.mpr hne
    have hle := (capped_mono htable hlast.sublist).trans hfits.2
    rw [hf.charges] at hover
    omega
  rw [hnil] at htracks
  exact htracks.perm.eq_nil

theorem Kept.displacesNothing_iff (hf : cache.Filling tableCost price)
    (htable : Monotone tableCost) (h : cache.Kept tableCost price ops held)
    (hlen : ops.length+1 < 2^64) (key : K) (item : A) :
    cache.DisplacesNothing (cache.after ops) key item ↔
      cache.Harmless (cache.after ops) key item := by
  constructor
  · intro hkeeps
    cases ha : cache.admits item with
    | false => exact .inl ha
    | true =>
      refine .inr ?_
      by_cases hover : cache.limits.maxBytes < cache.charge [cache.stored (cache.after ops) key item]
      · refine .inr ?_
        intro e he
        by_contra hne
        have hheld := hkeeps hover e he hne
        rw [h.emptied hf htable hlen ha hover] at hheld
        cases hheld
      · exact .inl (not_lt.mp hover)
  · rintro (ha | hfits | hkey) hover e he hne
    · rw [hf.refused _ key item ha]
      exact he
    · exact absurd hover (not_lt.mpr hfits)
    · exact absurd (hkey e he) hne

/-- A run does all that is promised exactly when each of its insertions is harmless. -/
theorem honours_iff (hf : cache.Filling tableCost price) (htable : Monotone tableCost)
    (h : ops.length < 2^64) :
    cache.Honours ops ↔ ∀ before key item, before++[.insert key item] <+: ops →
      cache.Harmless (cache.after before) key item := by
  have hbefore : ∀ {before : List (CacheOp K A)} {key : K} {item : A},
      before++[.insert key item] <+: ops → before.length+1 < 2^64 := by
    intro before key item hp
    have hlen := hp.length_le
    rw [List.length_append,List.length_singleton] at hlen
    omega
  constructor
  · intro hh before key item hp
    obtain ⟨held,hheld⟩ := kept hf (Nat.lt_of_succ_lt (hbefore hp))
    exact (hheld.displacesNothing_iff hf htable (hbefore hp) key item).mp (hh.2 before key item hp).2
  · intro hh
    refine ⟨?_,?_⟩
    · intro before hp
      obtain ⟨held,hheld⟩ := kept hf (hp.length_le.trans_lt h)
      exact hheld.sound hf
    · intro before key item hp
      obtain ⟨held,hheld⟩ := kept hf (Nat.lt_of_succ_lt (hbefore hp))
      exact ⟨hheld.evictsNeeded hf (hbefore hp) key item,
        (hheld.displacesNothing_iff hf htable (hbefore hp) key item).mpr (hh before key item hp)⟩

end Cache

theorem ResponseCache.filling (K : Type) [DecidableEq K] (limits : Limits) (tableCost : ℕ → ℕ) :
    (cache K limits tableCost).Filling tableCost entryCost where
  charges := charge_eq tableCost
  refused := by
    intro inner key item ha
    have hzero : limits.maxEntries = 0 := by simpa [cache] using ha
    exact if_pos hzero
  filled := by
    intro inner key item ha
    have hzero : ¬limits.maxEntries = 0 := by simpa [cache] using ha
    have hcharge : (logicalResidentCharge tableCost : Table K Bytes → ℕ) =
        capped tableCost entryCost := funext (charge_eq tableCost)
    simp only [cache,insert,hzero,if_false,hcharge]

theorem DecodedFactCache.filling (K : Type) {F : Type} [DecidableEq K] (limits : Limits)
    (tableCost : ℕ → ℕ) (residentBytes : F → Option ℕ) :
    (cache K limits tableCost residentBytes).Filling tableCost (entryCost residentBytes) where
  charges := charge_eq tableCost residentBytes
  refused := by
    intro inner key facts ha
    have hno : limits.maxBytes = 0 ∨ limits.maxEntries = 0 ∨ residentBytes facts = none := by
      by_contra hh
      have hyes : (cache K limits tableCost residentBytes).admits facts = true := decide_eq_true hh
      rw [ha] at hyes
      cases hyes
    exact if_pos hno
  filled := by
    intro inner key facts ha
    have hno : ¬(limits.maxBytes = 0 ∨ limits.maxEntries = 0 ∨ residentBytes facts = none) := by
      simpa [cache] using ha
    have hcharge : (recordedCharge tableCost residentBytes : Table K F → ℕ) =
        capped tableCost (entryCost residentBytes) := funext (charge_eq tableCost residentBytes)
    simp only [cache,insert,hno,if_false,hcharge,id]

/-- For both caches, and a table that does not get cheaper by growing: a run of fewer than `2^64`
calls does all that is promised exactly when each of its insertions is harmless. -/
theorem caches_honour_iff (K F : Type) [DecidableEq K] (limits : Limits) (tableCost : ℕ → ℕ)
    (htable : Monotone tableCost) (residentBytes : F → Option ℕ) :
    (∀ ops, ops.length < 2^64 → ((ResponseCache.cache K limits tableCost).Honours ops ↔
      ∀ before key item, before++[.insert key item] <+: ops →
        (ResponseCache.cache K limits tableCost).Harmless
          ((ResponseCache.cache K limits tableCost).after before) key item)) ∧
    ∀ ops, ops.length < 2^64 →
      ((DecodedFactCache.cache K limits tableCost residentBytes).Honours ops ↔
        ∀ before key item, before++[.insert key item] <+: ops →
          (DecodedFactCache.cache K limits tableCost residentBytes).Harmless
            ((DecodedFactCache.cache K limits tableCost residentBytes).after before) key item) :=
  ⟨fun _ h => Cache.honours_iff (ResponseCache.filling K limits tableCost) htable h,
    fun _ h => Cache.honours_iff (DecodedFactCache.filling K limits tableCost residentBytes) htable h⟩

theorem caches_honour_iff_sixty :
    (∀ ops, ops.length < 2^64 → ((ResponseCache.cache ℕ ⟨60,16⟩ id).Honours ops ↔
      ∀ before key item, before++[.insert key item] <+: ops →
        (ResponseCache.cache ℕ ⟨60,16⟩ id).Harmless
          ((ResponseCache.cache ℕ ⟨60,16⟩ id).after before) key item)) ∧
    ∀ ops, ops.length < 2^64 →
      ((DecodedFactCache.cache ℕ ⟨60,16⟩ id (some : ℕ → Option ℕ)).Honours ops ↔
        ∀ before key item, before++[.insert key item] <+: ops →
          (DecodedFactCache.cache ℕ ⟨60,16⟩ id some).Harmless
            ((DecodedFactCache.cache ℕ ⟨60,16⟩ id some).after before) key item) :=
  caches_honour_iff ℕ ℕ ⟨60,16⟩ id monotone_id some

/-- A body over the budget empties the response cache. -/
theorem oversized_body_displaces :
    ¬∀ ops, (ResponseCache.cache ℕ ⟨60,16⟩ id).Honours ops := by
  intro h
  have hlast := ((h [.insert 0 (0,[]),.insert 1 (0,List.replicate 20 0)]).2
    [.insert 0 (0,[])] 1 (0,List.replicate 20 0) (List.prefix_refl _)).2
  have hheld := hlast (by decide) (0,⟨[],0,1⟩) (by decide) (by decide)
  revert hheld
  decide

end LruCaches
end PgKronika
