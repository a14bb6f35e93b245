import Mathlib

/-! Finite maps kept as association lists with ascending keys. Equal lookups make
equal maps, and a sum over the entries is a sum over any set of keys that holds them. -/
namespace PgKronika

structure OrderedMap (κ ν : Type) [LinearOrder κ] where
  entries : List (κ × ν)
  ascending : entries.Pairwise fun a b => a.1 < b.1

namespace OrderedMap

variable {κ ν ν' : Type} [LinearOrder κ]

instance [DecidableEq ν] : DecidableEq (OrderedMap κ ν) := fun m m' =>
  decidable_of_iff (m.entries = m'.entries) (by cases m; cases m'; simp)

def empty : OrderedMap κ ν := ⟨[],.nil⟩

instance : Inhabited (OrderedMap κ ν) := ⟨empty⟩

def lookupEntry (k : κ) : List (κ × ν) → Option ν
  | [] => none
  | e::es => if e.1 = k then some e.2 else lookupEntry k es

def lookup (m : OrderedMap κ ν) (k : κ) : Option ν := lookupEntry k m.entries

def insertEntry (k : κ) (v : ν) : List (κ × ν) → List (κ × ν)
  | [] => [(k,v)]
  | e::es =>
    if k < e.1 then (k,v)::e::es
    else if k = e.1 then (k,v)::es
    else e :: insertEntry k v es

theorem mem_insertEntry {k : κ} {v : ν} {es : List (κ × ν)}
    (h : es.Pairwise fun a b => a.1 < b.1) (p : κ × ν) :
    p ∈ insertEntry k v es ↔ p = (k,v) ∨ p ∈ es ∧ p.1 ≠ k := by
  induction es with
  | nil => simp [insertEntry]
  | cons e es ih =>
    obtain ⟨hlow,hrest⟩ := List.pairwise_cons.mp h
    rw [insertEntry]
    split_ifs with hlt heq
    · have hne : ∀ q ∈ e::es, q.1 ≠ k := by
        intro q hq
        rcases List.mem_cons.mp hq with rfl | hq
        · exact ne_of_gt hlt
        · exact ne_of_gt (lt_trans hlt (hlow q hq))
      rw [List.mem_cons]
      exact or_congr_right ⟨fun hp => ⟨hp,hne p hp⟩,And.left⟩
    · have hne : ∀ q ∈ es, q.1 ≠ k := fun q hq => ne_of_gt (heq ▸ hlow q hq)
      rw [List.mem_cons]
      refine or_congr_right ⟨fun hp => ⟨List.mem_cons_of_mem _ hp,hne p hp⟩,?_⟩
      rintro ⟨hp,hk⟩
      exact (List.mem_cons.mp hp).resolve_left fun he => hk (by rw [he,heq])
    · rw [List.mem_cons,ih hrest,List.mem_cons]
      constructor
      · rintro (rfl | rfl | ⟨hp,hk⟩)
        · exact .inr ⟨.inl rfl,Ne.symm heq⟩
        · exact .inl rfl
        · exact .inr ⟨.inr hp,hk⟩
      · rintro (rfl | ⟨rfl | hp,hk⟩)
        · exact .inr (.inl rfl)
        · exact .inl rfl
        · exact .inr (.inr ⟨hp,hk⟩)

theorem ascending_insertEntry {k : κ} {v : ν} {es : List (κ × ν)}
    (h : es.Pairwise fun a b => a.1 < b.1) :
    (insertEntry k v es).Pairwise fun a b => a.1 < b.1 := by
  induction es with
  | nil => simp [insertEntry]
  | cons e es ih =>
    obtain ⟨hlow,hrest⟩ := List.pairwise_cons.mp h
    rw [insertEntry]
    split_ifs with hlt heq
    · refine List.pairwise_cons.mpr ⟨?_,h⟩
      intro p hp
      rcases List.mem_cons.mp hp with rfl | hp
      · exact hlt
      · exact lt_trans hlt (hlow p hp)
    · exact List.pairwise_cons.mpr ⟨fun p hp => heq ▸ hlow p hp,hrest⟩
    · refine List.pairwise_cons.mpr ⟨?_,ih hrest⟩
      intro p hp
      rcases (mem_insertEntry hrest p).mp hp with rfl | ⟨hp,_⟩
      · exact lt_of_le_of_ne (not_lt.mp hlt) (Ne.symm heq)
      · exact hlow p hp

theorem insertEntry_last {k : κ} {v : ν} {es : List (κ × ν)} (h : ∀ e ∈ es, e.1 < k) :
    insertEntry k v es = es++[(k,v)] := by
  induction es with
  | nil => rfl
  | cons e es ih =>
    have he := h e (List.mem_cons_self ..)
    rw [insertEntry,if_neg (not_lt.mpr he.le),if_neg he.ne',
      ih fun x hx => h x (List.mem_cons_of_mem _ hx),List.cons_append]

def insert (m : OrderedMap κ ν) (k : κ) (v : ν) : OrderedMap κ ν :=
  ⟨insertEntry k v m.entries,ascending_insertEntry m.ascending⟩

def contains (m : OrderedMap κ ν) (k : κ) : Bool := (m.lookup k).isSome

def erase (m : OrderedMap κ ν) (k : κ) : OrderedMap κ ν :=
  ⟨m.entries.filter fun p => decide (p.1 ≠ k),m.ascending.filter _⟩

def keep (m : OrderedMap κ ν) (q : κ → Bool) : OrderedMap κ ν :=
  ⟨m.entries.filter fun p => q p.1,m.ascending.filter _⟩

@[simp] theorem lookup_empty (k : κ) : (empty : OrderedMap κ ν).lookup k = none := rfl

theorem mem_entries_iff {m : OrderedMap κ ν} {k : κ} {v : ν} :
    (k,v) ∈ m.entries ↔ m.lookup k = some v := by
  obtain ⟨es,h⟩ := m
  change (k,v) ∈ es ↔ lookupEntry k es = some v
  induction es with
  | nil => simp [lookupEntry]
  | cons e es ih =>
    obtain ⟨hlow,hrest⟩ := List.pairwise_cons.mp h
    rw [lookupEntry,List.mem_cons]
    split_ifs with he
    · subst he
      constructor
      · rintro (hp | hp)
        · rw [← hp]
        · exact absurd (hlow _ hp) (lt_irrefl _)
      · intro hv
        exact .inl (by rw [← Option.some.inj hv])
    · rw [← ih hrest]
      exact or_iff_right fun hp => he (by rw [← hp])

theorem lookup_insert (m : OrderedMap κ ν) (k k' : κ) (v : ν) :
    (m.insert k v).lookup k' = if k' = k then some v else m.lookup k' := by
  ext v'
  rw [← mem_entries_iff,insert,mem_insertEntry m.ascending]
  split_ifs with hk
  · subst hk
    simp [eq_comm]
  · simp [hk,mem_entries_iff]

@[simp] theorem lookup_insert_self (m : OrderedMap κ ν) (k : κ) (v : ν) :
    (m.insert k v).lookup k = some v := by
  rw [lookup_insert,if_pos rfl]

theorem lookup_insert_of_ne (m : OrderedMap κ ν) {k k' : κ} (h : k' ≠ k) (v : ν) :
    (m.insert k v).lookup k' = m.lookup k' := by
  rw [lookup_insert,if_neg h]

theorem nodup_entries (m : OrderedMap κ ν) : m.entries.Nodup :=
  m.ascending.imp fun h he => ne_of_lt h (congrArg Prod.fst he)

theorem nodup_keys (m : OrderedMap κ ν) : (m.entries.map Prod.fst).Nodup :=
  List.pairwise_map.mpr (m.ascending.imp ne_of_lt)

/-- Lookups determine the map, its order included. -/
theorem ext_lookup {m m' : OrderedMap κ ν} (h : ∀ k, m.lookup k = m'.lookup k) : m = m' := by
  have hperm : m.entries.Perm m'.entries :=
    (List.perm_ext_iff_of_nodup m.nodup_entries m'.nodup_entries).mpr fun p => by
      rw [← Prod.mk.eta (p := p),mem_entries_iff,mem_entries_iff,h]
  have he : m.entries = m'.entries :=
    List.Perm.eq_of_pairwise (fun _ _ _ _ hab hba => absurd hba (lt_asymm hab)) m.ascending
      m'.ascending hperm
  cases m; cases m'; cases he; rfl

/-- Writing back what is there changes nothing. -/
theorem insert_of_lookup {m : OrderedMap κ ν} {k : κ} {v : ν} (h : m.lookup k = some v) :
    m.insert k v = m :=
  ext_lookup fun k' => by
    rw [lookup_insert]
    split_ifs with hk
    · rw [hk,h]
    · rfl

theorem insert_insert (m : OrderedMap κ ν) (k : κ) (v w : ν) :
    (m.insert k v).insert k w = m.insert k w :=
  ext_lookup fun k' => by
    rw [lookup_insert,lookup_insert,lookup_insert]
    split_ifs <;> rfl

theorem lookup_erase (m : OrderedMap κ ν) (k k' : κ) :
    (m.erase k).lookup k' = if k' = k then none else m.lookup k' := by
  ext v
  rw [← mem_entries_iff,erase,List.mem_filter]
  split_ifs with hk
  · simp [hk]
  · simp [hk,mem_entries_iff]

theorem lookup_keep (m : OrderedMap κ ν) (q : κ → Bool) (k : κ) :
    (m.keep q).lookup k = if q k then m.lookup k else none := by
  ext v
  rw [← mem_entries_iff,keep,List.mem_filter]
  split_ifs with hk
  · simp [hk,mem_entries_iff]
  · simp [hk]

theorem find_entries (m : OrderedMap κ ν) {k : κ} {q : κ × ν → Bool}
    (hq : ∀ p, q p = true ↔ p.1 = k) : m.entries.find? q = (m.lookup k).map fun v => (k,v) := by
  obtain ⟨es,h⟩ := m
  change es.find? _ = (lookupEntry k es).map _
  clear h
  induction es with
  | nil => rfl
  | cons e es ih =>
    rw [lookupEntry]
    split_ifs with he
    · rw [List.find?_cons_of_pos ((hq e).mpr he),← he]
      rfl
    · rw [List.find?_cons_of_neg (mt (hq e).mp he),ih]

/-- The entries of one map laid over another. -/
theorem lookup_overlay (m : OrderedMap κ ν) (f : κ → ν → ν') (base : OrderedMap κ ν') (k : κ) :
    (m.entries.foldl (fun acc p => acc.insert p.1 (f p.1 p.2)) base).lookup k =
      ((m.lookup k).map (f k)).or (base.lookup k) := by
  obtain ⟨es,h⟩ := m
  change lookup (es.foldl (fun acc p => acc.insert p.1 (f p.1 p.2)) base) k =
    ((lookupEntry k es).map (f k)).or (base.lookup k)
  induction es generalizing base with
  | nil => rfl
  | cons e es ih =>
    obtain ⟨hlow,hrest⟩ := List.pairwise_cons.mp h
    rw [List.foldl_cons,ih _ hrest,lookupEntry]
    split_ifs with he
    · subst he
      have hnone : lookupEntry e.1 es = none := by
        rw [Option.eq_none_iff_forall_ne_some]
        intro v hv
        have hmem : (e.1,v) ∈ es := (mem_entries_iff (m := ⟨es,hrest⟩)).mpr hv
        exact lt_irrefl _ (hlow (e.1,v) hmem)
      rw [hnone,lookup_insert_self]
      rfl
    · rw [lookup_insert_of_ne _ (Ne.symm he)]

/-- A sum over the entries, taken over any set of keys that holds them. -/
theorem sum_entries {M : Type} [AddCommMonoid M] (m : OrderedMap κ ν) (f : κ → ν → M)
    (s : Finset κ) (hs : ∀ p ∈ m.entries, p.1 ∈ s) :
    (m.entries.map fun p => f p.1 p.2).sum = ∑ k ∈ s, (m.lookup k).elim 0 (f k) := by
  have hsub : (m.entries.map Prod.fst).toFinset ⊆ s := by
    intro k hk
    obtain ⟨p,hp,rfl⟩ := List.mem_map.mp (List.mem_toFinset.mp hk)
    exact hs p hp
  rw [← Finset.sum_subset hsub ?_,List.sum_toFinset _ m.nodup_keys,List.map_map]
  · refine congrArg List.sum (List.map_congr_left fun p hp => ?_)
    rw [Function.comp_apply,mem_entries_iff.mp hp]
    rfl
  · intro k _ hk
    cases hv : m.lookup k with
    | none => rfl
    | some v =>
      refine absurd (List.mem_toFinset.mpr ?_) hk
      exact List.mem_map.mpr ⟨(k,v),mem_entries_iff.mpr hv,rfl⟩

/-- A new key adds its entry. -/
theorem insert_perm {m : OrderedMap κ ν} {k : κ} (h : m.lookup k = none) (v : ν) :
    (m.insert k v).entries.Perm ((k,v)::m.entries) := by
  have hnew : (k,v) ∉ m.entries := by
    rw [mem_entries_iff,h]; simp
  refine (List.perm_ext_iff_of_nodup (nodup_entries _) (m.nodup_entries.cons hnew)).mpr fun p => ?_
  rw [← Prod.mk.eta (p := p),mem_entries_iff,lookup_insert,List.mem_cons,mem_entries_iff]
  by_cases hk : p.1 = k
  · rw [if_pos hk,hk,h,Prod.mk.injEq]
    simp [eq_comm]
  · rw [if_neg hk,Prod.mk.injEq]
    simp [hk]

/-- A larger map has the entries of a smaller one, and others. -/
theorem perm_append_of_sub {m m' : OrderedMap κ ν}
    (h : ∀ k v, m.lookup k = some v → m'.lookup k = some v) :
    ∃ rest, m'.entries.Perm (m.entries ++ rest) := by
  have hsub : m.entries ⊆ m'.entries := fun p hp =>
    mem_entries_iff.mpr (h p.1 p.2 (mem_entries_iff.mp hp))
  obtain ⟨l,hl,hle⟩ := m.nodup_entries.subperm hsub
  obtain ⟨rest,hrest⟩ := hle.exists_perm_append
  exact ⟨rest,hrest.trans (hl.append_right rest)⟩

def ofList (es : List (κ × ν)) : OrderedMap κ ν := es.foldl (fun m p => m.insert p.1 p.2) .empty

/-- A list that names no key twice with different values is its map. -/
theorem lookup_ofList {es : List (κ × ν)} (h : ∀ k v w, (k,v) ∈ es → (k,w) ∈ es → v = w)
    (k : κ) (v : ν) : (ofList es).lookup k = some v ↔ (k,v) ∈ es := by
  have hfold : ∀ m : OrderedMap κ ν, (∀ k v w, m.lookup k = some v → (k,w) ∈ es → v = w) →
      ((es.foldl (fun m p => m.insert p.1 p.2) m).lookup k = some v ↔
        m.lookup k = some v ∨ (k,v) ∈ es) := by
    induction es with
    | nil => simp
    | cons p es ih =>
      intro m hm
      have hrest : ∀ k v w, (k,v) ∈ es → (k,w) ∈ es → v = w := fun k v w hv hw =>
        h k v w (List.mem_cons_of_mem _ hv) (List.mem_cons_of_mem _ hw)
      have hinsert : ∀ k v, (m.insert p.1 p.2).lookup k = some v ↔
          m.lookup k = some v ∨ (k,v) = p := by
        intro k v
        rw [lookup_insert]
        by_cases hk : k = p.1
        · rw [if_pos hk,Option.some_inj]
          refine ⟨fun hv => .inr (Prod.ext hk hv.symm),?_⟩
          rintro (hv | rfl)
          · exact (hm k v p.2 hv (hk ▸ List.mem_cons_self ..)).symm
          · rfl
        · rw [if_neg hk]
          exact ⟨.inl,fun hv => hv.resolve_right fun he => hk (congrArg Prod.fst he)⟩
      rw [List.foldl_cons,ih hrest]
      · rw [hinsert,List.mem_cons,or_assoc]
      · intro k v w hv hw
        rcases (hinsert k v).mp hv with hv | rfl
        · exact hm k v w hv (List.mem_cons_of_mem _ hw)
        · exact h k v w (List.mem_cons_self ..) (List.mem_cons_of_mem _ hw)
  rw [ofList,hfold .empty (by simp)]
  simp

end OrderedMap
end PgKronika
