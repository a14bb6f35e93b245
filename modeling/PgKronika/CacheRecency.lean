import Mathlib
import PgKronika.LruCaches
import PgKronika.RecencyList

/-! Both caches hold a suffix of the use order. An entry that cannot stay evicts every other one
before it leaves itself. -/
namespace PgKronika
namespace LruCaches

open ByteCodec CheckedArith RecencyList

section Charges

variable {K V : Type}

/-- The charge of a table from its own cost and the costs of its entries. -/
def capped (tableCost : ℕ → ℕ) (price : V → ℕ → ℕ) (table : Table K V) : ℕ :=
  if table = [] then 0
  else min (tableCost table.length+(table.map fun e => price e.2.value e.2.keyCapacity).sum) u64Max

variable {tableCost : ℕ → ℕ} {price : V → ℕ → ℕ} {table other : Table K V}

theorem capped_nil : capped tableCost price ([] : Table K V) = 0 := if_pos rfl

theorem capped_perm (h : table.Perm other) :
    capped tableCost price table = capped tableCost price other := by
  have hnil : table = [] ↔ other = [] := by
    constructor
    · rintro rfl
      exact h.nil_eq.symm
    · rintro rfl
      exact h.eq_nil
  simp only [capped,hnil,h.length_eq,(h.map fun e => price e.2.value e.2.keyCapacity).sum_eq]

theorem capped_mono (htable : Monotone tableCost) (h : table.Sublist other) :
    capped tableCost price table ≤ capped tableCost price other := by
  unfold capped
  by_cases hnil : table = []
  · simp [hnil]
  · have hother : other ≠ [] := by
      rintro rfl
      exact hnil (List.sublist_nil.mp h)
    rw [if_neg hnil,if_neg hother]
    have hsum := List.Sublist.sum_le_sum (h.map fun e => price e.2.value e.2.keyCapacity)
      fun _ _ => Nat.zero_le _
    have hlen := htable h.length_le
    omega

theorem saturatingAdd_le (a b : ℕ) : saturatingAdd a b ≤ u64Max := min_le_right _ _

def ResponseCache.entryCost (body : Bytes) (keyCapacity : ℕ) : ℕ :=
  stringAllocationCharge keyCapacity+arcBodyAllocationCharge body.length

theorem ResponseCache.foldl_charge {total : ℕ} (h : total ≤ u64Max) (table : Table K Bytes) :
    table.foldl (fun total e =>
      saturatingAdd (saturatingAdd total (stringAllocationCharge e.2.keyCapacity))
        (arcBodyAllocationCharge e.2.value.length)) total =
      min (total+(table.map fun e => entryCost e.2.value e.2.keyCapacity).sum) u64Max := by
  induction table generalizing total with
  | nil => simpa using h
  | cons e table ih =>
    rw [List.foldl_cons,ih (saturatingAdd_le _ _),List.map_cons,List.sum_cons]
    simp only [entryCost,saturatingAdd]
    omega

theorem ResponseCache.charge_eq (tableCost : ℕ → ℕ) (table : Table K Bytes) :
    logicalResidentCharge tableCost table = capped tableCost entryCost table := by
  cases table with
  | nil => rfl
  | cons e table =>
    rw [logicalResidentCharge,List.isEmpty_cons,if_neg Bool.false_ne_true,List.foldl_cons,
      foldl_charge (saturatingAdd_le _ _),capped,if_neg (List.cons_ne_nil _ _),List.map_cons,
      List.sum_cons]
    simp only [entryCost,saturatingAdd]
    omega

/-- Facts of unknown size cost everything. -/
def DecodedFactCache.entryCost (residentBytes : V → Option ℕ) (facts : V) (_ : ℕ) : ℕ :=
  (residentBytes facts).getD u64Max+48

theorem DecodedFactCache.foldlM_charge {residentBytes : V → Option ℕ} {total : ℕ}
    (h : total ≤ u64Max) (table : Table K V) :
    (table.foldlM (fun total (e : K × Entry V) => do
      let bytes ← residentBytes e.2.value
      let total ← checkedAdd total bytes
      checkedAdd total 48) total).getD u64Max =
      min (total+(table.map fun e => entryCost residentBytes e.2.value e.2.keyCapacity).sum) u64Max := by
  induction table generalizing total with
  | nil => simpa using h
  | cons e table ih =>
    rw [List.foldlM_cons,List.map_cons,List.sum_cons]
    cases hb : residentBytes e.2.value with
    | none =>
      simp only [entryCost,hb,Option.bind_eq_bind,Option.bind_none,Option.getD_none]
      omega
    | some bytes =>
      simp only [entryCost,hb,Option.bind_eq_bind,Option.bind_some,Option.getD_some,checkedAdd]
      by_cases hone : total+bytes ≤ u64Max
      · by_cases htwo : total+bytes+48 ≤ u64Max
        · simp only [hone,htwo,if_true,Option.bind_some]
          have hh := ih htwo
          simp only [Option.bind_eq_bind,checkedAdd] at hh
          rw [hh]
          simp only [entryCost]
          omega
        · simp only [hone,htwo,if_true,if_false,Option.bind_some,Option.bind_none,Option.getD_none]
          omega
      · simp only [hone,if_false,Option.bind_none,Option.getD_none]
        omega

theorem DecodedFactCache.charge_eq (tableCost : ℕ → ℕ) (residentBytes : V → Option ℕ)
    (table : Table K V) :
    recordedCharge tableCost residentBytes table = capped tableCost (entryCost residentBytes) table := by
  cases table with
  | nil => rfl
  | cons e table =>
    rw [recordedCharge,logicalResidentCharge,List.isEmpty_cons,if_neg Bool.false_ne_true,capped,
      if_neg (List.cons_ne_nil _ _)]
    by_cases h : tableCost (e::table).length ≤ u64Max
    · have hadd : checkedAdd 0 (tableCost (e::table).length) =
          some (tableCost (e::table).length) := by
        rw [checkedAdd,Nat.zero_add,if_pos h]
      rw [hadd]
      exact foldlM_charge h (e::table)
    · have hadd : checkedAdd 0 (tableCost (e::table).length) = none := by
        rw [checkedAdd,Nat.zero_add,if_neg h]
      rw [hadd]
      simp only [Option.bind_eq_bind,Option.bind_none,Option.getD_none]
      omega

end Charges

section Tracking

variable {K V : Type}

/-- `held` lists the table by last use, the oldest first. -/
structure Tracks (table held : Table K V) : Prop where
  perm : table.Perm held
  ordered : held.Pairwise fun a b => a.2.lastUsed < b.2.lastUsed
  keys : (held.map Prod.fst).Nodup

variable {table held : Table K V}

theorem Tracks.suffix {rest : Table K V} (h : Tracks table held) (hs : rest <:+ held) :
    Tracks rest rest :=
  ⟨List.Perm.refl _,h.ordered.sublist hs.sublist,h.keys.sublist (hs.sublist.map _)⟩

/-- What is evicted is the oldest. -/
theorem evictLru_tracks {oldest : K × Entry V} (h : Tracks table (oldest::held)) :
    Tracks (evictLru table) held := by
  have hmin : (table.map fun e => e.2.lastUsed).min? = some oldest.2.lastUsed := by
    apply List.min?_eq_some_iff.mpr
    refine ⟨List.mem_map_of_mem (h.perm.mem_iff.mpr (List.mem_cons_self ..)),?_⟩
    intro stamp hs
    obtain ⟨e,he,rfl⟩ := List.mem_map.mp hs
    rcases List.mem_cons.mp (h.perm.mem_iff.mp he) with rfl | he
    · exact UInt64.le_refl _
    · exact UInt64.le_of_lt ((List.pairwise_cons.mp h.ordered).1 e he)
  have hperm : (evictLru table).Perm held := by
    rw [evictLru,hmin]
    have hother : table.Pairwise fun a b => a.2.lastUsed = oldest.2.lastUsed →
        b.2.lastUsed = oldest.2.lastUsed → False := by
      have hp : (oldest::held).Pairwise fun a b => a.2.lastUsed = oldest.2.lastUsed →
          b.2.lastUsed = oldest.2.lastUsed → False := by
        refine h.ordered.imp ?_
        intro a b hlt ha hb
        rw [ha,hb] at hlt
        exact UInt64.lt_irrefl _ hlt
      exact (h.perm.pairwise_iff fun hs hb ha => hs ha hb).mpr hp
    have herase := h.perm.eraseP (fun e => e.2.lastUsed == oldest.2.lastUsed) (by simpa using hother)
    simpa using herase
  exact ⟨hperm,(List.pairwise_cons.mp h.ordered).2,(List.nodup_cons.mp h.keys).2⟩

def FitsCount (maxEntries : ℕ) (held : Table K V) : Prop := held.length ≤ maxEntries

instance (maxEntries : ℕ) : DecidablePred (FitsCount maxEntries : Table K V → Prop) :=
  fun held => Nat.decLe held.length maxEntries

def FitsBytes (tableCost : ℕ → ℕ) (price : V → ℕ → ℕ) (maxBytes : ℕ) (held : Table K V) : Prop :=
  capped tableCost price held ≤ maxBytes

instance (tableCost : ℕ → ℕ) (price : V → ℕ → ℕ) (maxBytes : ℕ) :
    DecidablePred (FitsBytes tableCost price maxBytes : Table K V → Prop) :=
  fun held => Nat.decLe (capped tableCost price held) maxBytes

theorem fitsCount_suffix {maxEntries : ℕ} (s l : Table K V) (hs : s <:+ l)
    (h : FitsCount maxEntries l) : FitsCount maxEntries s := hs.length_le.trans h

theorem evictEntries_tracks (maxEntries : ℕ) {fuel : ℕ} (h : Tracks table held)
    (hfuel : held.length ≤ fuel) :
    Tracks (evictEntries maxEntries fuel table) (evict (FitsCount maxEntries) held) := by
  induction fuel generalizing table held with
  | zero =>
    obtain rfl := List.eq_nil_of_length_eq_zero (Nat.le_zero.mp hfuel)
    exact h
  | succ fuel ih =>
    rw [evictEntries,h.perm.length_eq]
    by_cases hlen : maxEntries < held.length
    · cases held with
      | nil => simp at hlen
      | cons oldest held =>
        have hno : ¬FitsCount maxEntries (oldest::held) := not_le.mpr hlen
        rw [if_pos hlen,evict_of_not_fits hno]
        exact ih (evictLru_tracks h) (by simpa using hfuel)
    · have hfits : FitsCount maxEntries held := not_lt.mp hlen
      rw [if_neg hlen,evict_of_fits hfits]
      exact h

theorem evictBytes_tracks (tableCost : ℕ → ℕ) (price : V → ℕ → ℕ) (maxBytes : ℕ) {fuel : ℕ} (h : Tracks table held)
    (hfuel : held.length ≤ fuel) :
    Tracks (evictBytes (capped tableCost price) maxBytes fuel table)
      (evict (FitsBytes tableCost price maxBytes) held) := by
  induction fuel generalizing table held with
  | zero =>
    obtain rfl := List.eq_nil_of_length_eq_zero (Nat.le_zero.mp hfuel)
    exact h
  | succ fuel ih =>
    rw [evictBytes,capped_perm h.perm]
    cases held with
    | nil =>
      obtain rfl := h.perm.eq_nil
      rw [if_neg (by simp)]
      exact h
    | cons oldest held =>
      have hne : table ≠ [] := by
        rintro rfl
        exact List.cons_ne_nil _ _ h.perm.nil_eq.symm
      by_cases hbytes : maxBytes < capped tableCost price (oldest::held)
      · have hno : ¬FitsBytes tableCost price maxBytes (oldest::held) := not_le.mpr hbytes
        rw [if_pos ⟨hbytes,hne⟩,evict_of_not_fits hno]
        exact ih (evictLru_tracks h) (by simpa using hfuel)
      · have hfits : FitsBytes tableCost price maxBytes (oldest::held) := not_lt.mp hbytes
        rw [if_neg fun hh => hbytes hh.1,evict_of_fits hfits]
        exact h

variable [DecidableEq K]

/-- A new stamp goes last. -/
theorem Tracks.push (h : Tracks table held) {x : K × Entry V} {others : Table K V}
    (hothers : others.Perm (without Prod.fst x.1 held))
    (hnew : ∀ e ∈ held, e.2.lastUsed < x.2.lastUsed) :
    Tracks (x::others) (push Prod.fst x held) := by
  refine ⟨(hothers.cons x).trans (List.perm_append_singleton x _).symm,?_,?_⟩
  · apply List.pairwise_append.mpr
    refine ⟨h.ordered.filter _,List.pairwise_singleton _ _,?_⟩
    intro e he y hy
    rw [List.mem_singleton.mp hy]
    exact hnew e (mem_without.mp he).1
  · rw [RecencyList.push,List.map_append]
    refine List.Nodup.append (h.keys.sublist (List.filter_sublist.map _)) (List.nodup_singleton _) ?_
    simp only [List.map_cons,List.map_nil,List.disjoint_singleton,List.mem_map,not_exists,not_and]
    exact fun e he => (mem_without.mp he).2

theorem lookup_eq_some (h : Tracks table held) {key : K} {entry : Entry V} :
    lookup table key = some entry ↔ (key,entry) ∈ held := by
  rw [← h.perm.mem_iff]
  have hkeys : (table.map Prod.fst).Nodup := (h.perm.map Prod.fst).nodup_iff.mpr h.keys
  clear h
  induction table with
  | nil => simp [lookup]
  | cons e table ih =>
    simp only [List.map_cons,List.nodup_cons,List.mem_map,not_exists,not_and] at hkeys
    by_cases he : e.1 = key
    · have hfind : lookup (e::table) key = some e.2 := by simp [lookup,he]
      rw [hfind,List.mem_cons]
      constructor
      · rintro hv
        exact .inl (Prod.ext he.symm (Option.some.inj hv).symm)
      · rintro (hv | hv)
        · rw [← hv]
        · exact absurd he.symm (hkeys.1 _ hv)
    · have hfind : lookup (e::table) key = lookup table key := by simp [lookup,he]
      rw [hfind,List.mem_cons]
      exact (ih hkeys.2).trans
        ⟨.inr,fun hv => hv.resolve_left fun hh => he (congrArg Prod.fst hh).symm⟩

/-- A hit moves its entry to the end. -/
theorem touch_tracks (h : Tracks table held) {key : K} {entry : Entry V} {now : UInt64}
    (hentry : (key,entry) ∈ held) (hnew : ∀ e ∈ held, e.2.lastUsed < now) :
    Tracks (table.map fun e => if e.1 = key then (e.1,{ e.2 with lastUsed := now }) else e)
      (RecencyList.push Prod.fst (key,{ entry with lastUsed := now }) held) := by
  have htouch : (held.map fun e => if e.1 = key then (e.1,{ e.2 with lastUsed := now }) else e).Perm
      ((key,{ entry with lastUsed := now })::without Prod.fst key held) := by
    have hkeys := h.keys
    clear h hnew
    induction held with
    | nil => cases hentry
    | cons e held ih =>
      simp only [List.map_cons,List.nodup_cons,List.mem_map,not_exists,not_and] at hkeys
      rcases List.mem_cons.mp hentry with rfl | hentry
      · have hsame : held.map (fun e =>
            if e.1 = key then (e.1,{ e.2 with lastUsed := now }) else e) = held := by
          rw [List.map_congr_left fun e he => if_neg (hkeys.1 e he)]
          exact List.map_id' _
        have hself : without Prod.fst key ((key,entry)::held) = held :=
          (without_cons_self (key,entry) held).trans (without_of_forall_ne hkeys.1)
        rw [List.map_cons,hsame,hself]
        simp
      · have hne : e.1 ≠ key := fun he => hkeys.1 _ hentry he.symm
        rw [List.map_cons,if_neg hne,without_cons_of_ne hne]
        exact ((ih hentry hkeys.2).cons e).trans (List.Perm.swap _ _ _)
  have hpushed : Tracks ((key,{ entry with lastUsed := now })::without Prod.fst key held)
      (RecencyList.push Prod.fst (key,{ entry with lastUsed := now }) held) :=
    h.push (List.Perm.refl _) hnew
  exact ⟨((h.perm.map _).trans htouch).trans hpushed.perm,hpushed.ordered,hpushed.keys⟩

end Tracking

end LruCaches
end PgKronika
