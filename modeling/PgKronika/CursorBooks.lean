import Mathlib
import PgKronika.CheckedArith
import PgKronika.CursorRegistry
import PgKronika.RecencyList

/-! The books of the cursor registry: the byte counter, the recency order and the views agree, and
the registry is a list of views in the order of last use. -/
namespace PgKronika
namespace CursorBooks

open CheckedArith RecencyList

variable {View : Type}

/-! The registry's operations with their expectations: `none` where a byte count would go below
zero. -/

def removeView (inner : RegistryInner View) (id : FactSetId) : Option (RegistryInner View) :=
  match inner.views.lookup id with
  | none => some inner
  | some removed => (checkedSub inner.bytes removed.charge).map fun bytes =>
      { inner with views := inner.views.erase id, bytes := bytes }

def dropView (inner : RegistryInner View) (id : FactSetId) : Option (RegistryInner View) :=
  match inner.views.lookup id with
  | none => some inner
  | some removed => (removeView inner id).map fun left =>
      { left with recency := inner.recency.erase (toLex (removed.lastUsed.toNat,id)) }

def pruneExpired (inner : RegistryInner View) (nowSecs : UInt64) : Option (RegistryInner View) :=
  ((inner.views.entries.filter fun p => decide (p.2.expiresAt ≤ nowSecs)).map Prod.fst).foldlM
    dropView inner

def makeRoom (config : CursorConfig) (charge : ℕ) :
    ℕ → RegistryInner View → Option (Option CursorError × RegistryInner View)
  | 0,inner => some (some .capacityUnavailable,inner)
  | fuel+1,inner =>
    if config.maxViews ≤ inner.views.entries.length ∨ config.maxBytes < inner.bytes+charge then
      match inner.popFirst with
      | none => some (some .capacityUnavailable,inner)
      | some (victim,inner) => (removeView inner victim).bind (makeRoom config charge fuel)
    else some (none,inner)

def pin (factSetId : View → FactSetId) (residentBytes : View → Option ℕ) (config : CursorConfig)
    (inner : RegistryInner View) (view : View) (nowSecs : UInt64) :
    Option (Except CursorError CursorLease × RegistryInner View) :=
  if config.maxViews = 0 ∨ config.ttlSecs = 0 then some (.error .capacityUnavailable,inner)
  else
    match (residentBytes view).filter fun charge => decide (charge ≠ 0) with
    | none => some (.error .capacityUnavailable,inner)
    | some charge =>
      if config.maxBytes < charge then some (.error .capacityUnavailable,inner)
      else if 2^64 ≤ nowSecs.toNat+config.ttlSecs.toNat then
        some (.error .capacityUnavailable,inner)
      else
        let expiresAt := nowSecs+config.ttlSecs
        let id := factSetId view
        (pruneExpired inner nowSecs).bind fun pruned => (dropView pruned id).bind fun dropped =>
          let lastUsed := pruned.clock+1
          let cleared := { dropped with clock := lastUsed }
          (makeRoom config charge (cleared.recency.entries.length+1) cleared).map fun
            | (some error,inner) => (.error error,inner)
            | (none,inner) =>
              (.ok ⟨id,nowSecs,expiresAt⟩,
                { inner with
                  bytes := inner.bytes+charge
                  recency := inner.recency.insert (toLex (lastUsed.toNat,id)) ()
                  views := inner.views.insert id ⟨view,charge,expiresAt,lastUsed⟩ })

def resolve (inner : RegistryInner View) (id : FactSetId) (nowSecs : UInt64) :
    Option (Except CursorError View × RegistryInner View) :=
  (pruneExpired inner nowSecs).map fun pruned =>
    let lastUsed := pruned.clock+1
    let ticked := { pruned with clock := lastUsed }
    match ticked.views.lookup id with
    | none => (.error .viewGone,ticked)
    | some pinned =>
      (.ok pinned.view,
        { ticked with
          views := ticked.views.insert id { pinned with lastUsed }
          recency := (ticked.recency.erase (toLex (pinned.lastUsed.toNat,id))).insert
            (toLex (lastUsed.toNat,id)) () })

def apply (factSetId : View → FactSetId) (residentBytes : View → Option ℕ) (config : CursorConfig)
    (inner : RegistryInner View) : RegistryOp View → Option (RegistryInner View)
  | .pin view nowSecs => (pin factSetId residentBytes config inner view nowSecs).map Prod.snd
  | .resolve id nowSecs => (resolve inner id nowSecs).map Prod.snd
  | .prune nowSecs => pruneExpired inner nowSecs

/-- A held view under its identity. -/
abbrev Held (View : Type) := FactSetId × PinnedView View

def total (held : List (Held View)) : ℕ := (held.map fun h => h.2.charge).sum

@[simp] theorem total_nil : total ([] : List (Held View)) = 0 := rfl

@[simp] theorem total_cons (h : Held View) (held : List (Held View)) :
    total (h::held) = h.2.charge+total held := by
  simp [total]

@[simp] theorem total_append (held others : List (Held View)) :
    total (held++others) = total held+total others := by
  simp [total]

/-- The place of a held view in the recency order. -/
def place (h : Held View) : (ℕ ×ₗ FactSetId) × Unit := (toLex (h.2.lastUsed.toNat,h.1),())

/-- `inner` holds the views of `held`, the least recently used first. -/
structure Tracks (inner : RegistryInner View) (held : List (Held View)) : Prop where
  views : inner.views.entries.Perm held
  recency : inner.recency.entries = held.map place
  bytes : inner.bytes = total held
  ordered : held.Pairwise fun a b => a.2.lastUsed < b.2.lastUsed
  past : ∀ h ∈ held, h.2.lastUsed ≤ inner.clock

namespace Tracks

variable {inner : RegistryInner View} {held : List (Held View)}

theorem mem_iff (h : Tracks inner held) {id : FactSetId} {pinned : PinnedView View} :
    inner.views.lookup id = some pinned ↔ (id,pinned) ∈ held := by
  rw [← OrderedMap.mem_entries_iff]
  exact h.views.mem_iff

theorem nodup (h : Tracks inner held) : (held.map Prod.fst).Nodup :=
  (h.views.map Prod.fst).nodup_iff.mp inner.views.nodup_keys

theorem lookup_none (h : Tracks inner held) {id : FactSetId} :
    inner.views.lookup id = none ↔ ∀ x ∈ held, x.1 ≠ id := by
  constructor
  · rintro hn ⟨key,pinned⟩ hx rfl
    rw [h.mem_iff.mpr hx] at hn
    cases hn
  · intro hne
    cases hl : inner.views.lookup id with
    | none => rfl
    | some pinned => exact absurd rfl (hne _ (h.mem_iff.mp hl))

theorem empty : Tracks (RegistryInner.init : RegistryInner View) [] :=
  ⟨List.Perm.refl _,rfl,rfl,List.Pairwise.nil,by simp⟩

theorem tick (h : Tracks inner held) {clock : UInt64} (hclock : inner.clock ≤ clock) :
    Tracks { inner with clock := clock } held :=
  ⟨h.views,h.recency,h.bytes,h.ordered,fun x hx => UInt64.le_trans (h.past x hx) hclock⟩

end Tracks

/-- What leaves a list under a key leaves the rest of its total. -/
theorem total_without {held : List (Held View)} {id : FactSetId} {pinned : PinnedView View}
    (hnodup : (held.map Prod.fst).Nodup) (h : (id,pinned) ∈ held) :
    total held = pinned.charge+total (without Prod.fst id held) := by
  induction held with
  | nil => cases h
  | cons x held ih =>
    simp only [List.map_cons,List.nodup_cons,List.mem_map,not_exists,not_and] at hnodup
    rcases List.mem_cons.mp h with rfl | h
    · have hself : without Prod.fst id ((id,pinned)::held) = held :=
        (without_cons_self (id,pinned) held).trans (without_of_forall_ne hnodup.1)
      rw [hself,total_cons]
    · have hne : x.1 ≠ id := fun he => hnodup.1 (id,pinned) h he.symm
      rw [without_cons_of_ne hne,total_cons,total_cons,ih hnodup.2 h]
      omega

theorem erase_entries {ν : Type} (m : OrderedMap FactSetId ν) (id : FactSetId) :
    (m.erase id).entries = without Prod.fst id m.entries := by
  apply List.filter_congr
  intro p _
  exact decide_eq_decide.mpr Iff.rfl

variable {inner : RegistryInner View} {held : List (Held View)}

/-- One removal with its expectation. -/
theorem removeView_spec {views : List (Held View)} {id : FactSetId} {pinned : PinnedView View}
    (hviews : inner.views.entries.Perm views) (hbytes : inner.bytes = total views)
    (h : (id,pinned) ∈ views) :
    removeView inner id = some (inner.removeView id) ∧
      (inner.removeView id).views.entries.Perm (without Prod.fst id views) ∧
      (inner.removeView id).bytes = total (without Prod.fst id views) ∧
      (inner.removeView id).recency = inner.recency ∧
      (inner.removeView id).clock = inner.clock := by
  have hlookup : inner.views.lookup id = some pinned :=
    OrderedMap.mem_entries_iff.mp (hviews.mem_iff.mpr h)
  have hnodup : (views.map Prod.fst).Nodup :=
    (hviews.map Prod.fst).nodup_iff.mp inner.views.nodup_keys
  have htotal := total_without hnodup h
  have hle : pinned.charge ≤ inner.bytes := by omega
  simp only [removeView,RegistryInner.removeView,hlookup,checkedSub_of_le hle,Option.map_some]
  refine ⟨trivial,?_,by omega,trivial,trivial⟩
  rw [erase_entries]
  exact hviews.filter _

theorem dropView_spec (h : Tracks inner held) (id : FactSetId) :
    dropView inner id = some (inner.dropView id) ∧
      Tracks (inner.dropView id) (without Prod.fst id held) ∧
      (inner.dropView id).clock = inner.clock := by
  cases hl : inner.views.lookup id with
  | none =>
    rw [without_of_forall_ne (h.lookup_none.mp hl)]
    simp only [dropView,RegistryInner.dropView,hl]
    exact ⟨trivial,h,trivial⟩
  | some pinned =>
    have hmem := h.mem_iff.mp hl
    obtain ⟨hremove,hviews,hbytes,hrecency,hclock⟩ := removeView_spec h.views h.bytes hmem
    simp only [dropView,RegistryInner.dropView,hl,hremove,Option.map_some]
    refine ⟨trivial,⟨hviews,?_,hbytes,h.ordered.filter _,?_⟩,hclock⟩
    · simp only [OrderedMap.erase,h.recency,without,List.filter_map]
      congr 1
      apply List.filter_congr
      rintro ⟨key,other⟩ hx
      -- an identity is held once, so its place is found by the identity alone
      have hplace : place (key,other) = place (id,pinned) ↔ key = id := by
        constructor
        · intro he
          exact (Prod.mk.inj (congrArg (fun p : (ℕ ×ₗ FactSetId) × Unit => ofLex p.1) he)).2
        · rintro rfl
          rw [Option.some.inj ((h.mem_iff.mpr hx).symm.trans hl)]
      simp only [Function.comp_apply,decide_eq_decide]
      rw [not_iff_not,← hplace]
      simp [place]
    · intro x hx
      exact hclock ▸ h.past x (List.mem_of_mem_filter hx)

theorem dropViews_spec (ids : List FactSetId) (h : Tracks inner held) :
    ids.foldlM dropView inner = some (ids.foldl RegistryInner.dropView inner) ∧
      Tracks (ids.foldl RegistryInner.dropView inner) (held.filter fun x => decide (x.1 ∉ ids)) ∧
      (ids.foldl RegistryInner.dropView inner).clock = inner.clock := by
  induction ids generalizing inner held with
  | nil => simpa using h
  | cons id ids ih =>
    obtain ⟨hdrop,htracks,hclock⟩ := dropView_spec h id
    obtain ⟨hfold,hrest,hlast⟩ := ih htracks
    refine ⟨?_,?_,hlast.trans hclock⟩
    · rw [List.foldlM_cons,hdrop]
      exact hfold
    · have hids : (held.filter fun x => decide (x.1 ∉ id::ids)) =
          (without Prod.fst id held).filter fun x => decide (x.1 ∉ ids) := by
        rw [without,List.filter_filter]
        apply List.filter_congr
        intro x _
        by_cases he : x.1 = id <;> by_cases hm : x.1 ∈ ids <;> simp [he,hm]
      rw [hids]
      exact hrest

/-- The views that have not expired. -/
def live (nowSecs : UInt64) (held : List (Held View)) : List (Held View) :=
  held.filter fun h => decide (nowSecs < h.2.expiresAt)

theorem pruneExpired_spec (h : Tracks inner held) (nowSecs : UInt64) :
    pruneExpired inner nowSecs = some (inner.pruneExpired nowSecs) ∧
      Tracks (inner.pruneExpired nowSecs) (live nowSecs held) ∧
      (inner.pruneExpired nowSecs).clock = inner.clock := by
  obtain ⟨hfold,htracks,hclock⟩ := dropViews_spec
    ((inner.views.entries.filter fun p => decide (p.2.expiresAt ≤ nowSecs)).map Prod.fst) h
  refine ⟨hfold,?_,hclock⟩
  have hlive : live nowSecs held = held.filter fun x => decide (x.1 ∉
      (inner.views.entries.filter fun p => decide (p.2.expiresAt ≤ nowSecs)).map Prod.fst) := by
    apply List.filter_congr
    rintro ⟨id,pinned⟩ hx
    have hl := h.mem_iff.mpr hx
    rw [decide_eq_decide,← UInt64.not_le,not_iff_not]
    simp only [List.mem_map,List.mem_filter,decide_eq_true_eq,Prod.exists,exists_and_right,
      exists_eq_right]
    constructor
    · exact fun hle => ⟨pinned,OrderedMap.mem_entries_iff.mpr hl,hle⟩
    · rintro ⟨other,hother,hle⟩
      have ho := OrderedMap.mem_entries_iff.mp hother
      rw [hl] at ho
      cases ho
      exact hle
  rw [hlive]
  exact htracks

/-- One more view with this charge fits beside `held`. -/
def Room (config : CursorConfig) (charge : ℕ) (held : List (Held View)) : Prop :=
  held.length < config.maxViews ∧ total held+charge ≤ config.maxBytes

instance (config : CursorConfig) (charge : ℕ) :
    DecidablePred (Room config charge : List (Held View) → Prop) := fun _ => instDecidableAnd

theorem makeRoom_spec {config : CursorConfig} {charge fuel : ℕ} (h : Tracks inner held)
    (hroom : Room config charge ([] : List (Held View))) (hfuel : held.length < fuel) :
    ∃ rest, makeRoom config charge fuel inner = some (none,rest) ∧
      inner.makeRoom config charge fuel = (none,rest) ∧
      Tracks rest (evict (Room config charge) held) ∧ rest.clock = inner.clock := by
  induction fuel generalizing inner held with
  | zero => omega
  | succ fuel ih =>
    have hfull : (config.maxViews ≤ inner.views.entries.length ∨
        config.maxBytes < inner.bytes+charge) ↔ ¬Room config charge held := by
      rw [h.views.length_eq,h.bytes,Room]
      omega
    simp only [makeRoom,RegistryInner.makeRoom,hfull]
    by_cases hr : Room config charge held
    · simp only [hr,not_true_eq_false,if_false,evict_of_fits]
      exact ⟨inner,rfl,rfl,h,rfl⟩
    · cases held with
      | nil => exact absurd hroom hr
      | cons oldest held =>
        have hpop : inner.popFirst =
            some (oldest.1,{ inner with recency := inner.recency.erase (place oldest).1 }) := by
          simp only [RegistryInner.popFirst,h.recency,List.map_cons]
          rfl
        simp only [hr,not_false_eq_true,if_true,hpop]
        let popped := { inner with recency := inner.recency.erase (place oldest).1 }
        obtain ⟨hremove,hviews,hbytes,hrecency,hclock⟩ :=
          removeView_spec (show popped.views.entries.Perm (oldest::held) from h.views) h.bytes
            (show (oldest.1,oldest.2) ∈ oldest::held from List.mem_cons_self ..)
        have hne : ∀ x ∈ held, x.1 ≠ oldest.1 := by
          have hn := h.nodup
          simp only [List.map_cons,List.nodup_cons,List.mem_map,not_exists,not_and] at hn
          exact hn.1
        have hwithout : without Prod.fst oldest.1 (oldest::held) = held :=
          (without_cons_self oldest held).trans (without_of_forall_ne hne)
        rw [hwithout] at hviews hbytes
        have htracks : Tracks (popped.removeView oldest.1) held := by
          refine ⟨hviews,?_,hbytes,(List.pairwise_cons.mp h.ordered).2,?_⟩
          · rw [hrecency]
            simp only [popped,OrderedMap.erase,h.recency,List.map_cons]
            rw [List.filter_cons_of_neg (by simp),List.filter_eq_self.mpr]
            intro p hp
            obtain ⟨x,hx,rfl⟩ := List.mem_map.mp hp
            simp only [decide_eq_true_eq]
            exact fun he => hne x hx (Prod.mk.inj (congrArg ofLex he)).2
          · intro x hx
            rw [hclock]
            exact h.past x (List.mem_cons_of_mem _ hx)
        obtain ⟨rest,hmake,hmake',hrest,hlast⟩ := ih htracks (by simpa using hfuel)
        rw [hremove,evict_of_not_fits hr]
        exact ⟨rest,hmake,hmake',hrest,hlast.trans hclock⟩

/-- A view enters with the latest stamp. -/
theorem Tracks.enter (h : Tracks inner held) {id : FactSetId} (pinned : PinnedView View)
    (hid : ∀ x ∈ held, x.1 ≠ id) (hnew : ∀ x ∈ held, x.2.lastUsed < pinned.lastUsed)
    (hclock : pinned.lastUsed ≤ inner.clock) :
    Tracks { inner with
      bytes := inner.bytes+pinned.charge
      recency := inner.recency.insert (toLex (pinned.lastUsed.toNat,id)) ()
      views := inner.views.insert id pinned } (held++[(id,pinned)]) := by
  have hviews : (inner.views.insert id pinned).entries.Perm (held++[(id,pinned)]) := by
    apply (List.perm_ext_iff_of_nodup (OrderedMap.nodup_entries _) ?_).mpr
    · rintro ⟨key,other⟩
      rw [OrderedMap.mem_entries_iff,OrderedMap.lookup_insert,List.mem_append,List.mem_singleton]
      split_ifs with hk
      · subst hk
        have hnot : (key,other) ∉ held := fun hx => hid _ hx rfl
        simp [hnot,eq_comm]
      · rw [h.mem_iff]
        simp [hk]
    · refine List.Nodup.append (List.Nodup.of_map _ h.nodup) (List.nodup_singleton _) ?_
      simp only [List.disjoint_singleton]
      exact fun hx => hid _ hx rfl
  refine ⟨hviews,?_,?_,?_,?_⟩
  · simp only [OrderedMap.insert,h.recency]
    rw [OrderedMap.insertEntry_last,List.map_append]
    · rfl
    · intro p hp
      obtain ⟨x,hx,rfl⟩ := List.mem_map.mp hp
      exact Prod.Lex.toLex_lt_toLex.mpr (.inl (UInt64.lt_iff_toNat_lt.mp (hnew x hx)))
  · simp [h.bytes]
  · exact List.pairwise_append.mpr ⟨h.ordered,List.pairwise_singleton _ _,by simpa using hnew⟩
  · intro x hx
    rcases List.mem_append.mp hx with hx | hx
    · exact h.past x hx
    · rw [List.mem_singleton.mp hx]
      exact hclock

theorem succ_toNat {clock : UInt64} (h : clock.toNat+1 < 2^64) :
    (clock+1).toNat = clock.toNat+1 := by
  rw [UInt64.toNat_add,UInt64.toNat_one,Nat.mod_eq_of_lt h]

theorem lt_succ {clock : UInt64} (h : clock.toNat+1 < 2^64) : clock < clock+1 := by
  rw [UInt64.lt_iff_toNat_lt,succ_toNat h]
  exact Nat.lt_succ_self _

/-- The bounds that `CursorRegistry::new` insists on. -/
structure Valid (config : CursorConfig) : Prop where
  views : config.maxViews ≠ 0
  bytes : config.maxBytes ≠ 0
  ttl : config.ttlSecs ≠ 0

structure Within (config : CursorConfig) (held : List (Held View)) : Prop where
  views : held.length ≤ config.maxViews
  bytes : total held ≤ config.maxBytes

theorem Within.sublist {config : CursorConfig} {held others : List (Held View)}
    (h : Within config held) (hs : others.Sublist held) : Within config others :=
  ⟨hs.length_le.trans h.views,
    (List.Sublist.sum_le_sum (hs.map _) fun _ _ => Nat.zero_le _).trans h.bytes⟩

variable (factSetId : View → FactSetId) (residentBytes : View → Option ℕ) {config : CursorConfig}

/-- A pin that is not refused at once. -/
structure Accepted (config : CursorConfig) (view : View) (nowSecs : UInt64) (charge : ℕ) : Prop where
  charged : residentBytes view = some charge
  positive : charge ≠ 0
  fits : charge ≤ config.maxBytes
  expiry : nowSecs.toNat+config.ttlSecs.toNat < 2^64

variable {residentBytes}

theorem Accepted.room {view : View} {nowSecs : UInt64} {charge : ℕ} (hvalid : Valid config)
    (h : Accepted residentBytes config view nowSecs charge) :
    Room config charge ([] : List (Held View)) :=
  ⟨Nat.pos_of_ne_zero hvalid.views,by simpa using h.fits⟩

theorem pin_accepted (hvalid : Valid config) (h : Tracks inner held)
    (hclock : inner.clock.toNat+1 < 2^64) {view : View} {nowSecs : UInt64} {charge : ℕ}
    (ha : Accepted residentBytes config view nowSecs charge) :
    ∃ next, pin factSetId residentBytes config inner view nowSecs =
        some (.ok ⟨factSetId view,nowSecs,nowSecs+config.ttlSecs⟩,next) ∧
      inner.pin factSetId residentBytes config view nowSecs =
        (.ok ⟨factSetId view,nowSecs,nowSecs+config.ttlSecs⟩,next) ∧
      Tracks next (evict (Room config charge) (without Prod.fst (factSetId view) (live nowSecs held))++
        [(factSetId view,⟨view,charge,nowSecs+config.ttlSecs,inner.clock+1⟩)]) ∧
      next.clock = inner.clock+1 := by
  obtain ⟨hprune,hlive,hpclock⟩ := pruneExpired_spec h nowSecs
  obtain ⟨hdrop,hothers,hdclock⟩ := dropView_spec hlive (factSetId view)
  have hticked : Tracks { (inner.pruneExpired nowSecs).dropView (factSetId view) with
      clock := inner.clock+1 } (without Prod.fst (factSetId view) (live nowSecs held)) := by
    apply hothers.tick
    rw [hdclock,hpclock]
    exact UInt64.le_of_lt (lt_succ hclock)
  have hfilter : (residentBytes view).filter (fun charge => decide (charge ≠ 0)) = some charge := by
    simp [ha.charged,ha.positive]
  have hconfig : ¬(config.maxViews = 0 ∨ config.ttlSecs = 0) := by
    simp [hvalid.views,hvalid.ttl]
  have hfuel : (without Prod.fst (factSetId view) (live nowSecs held)).length <
      ((inner.pruneExpired nowSecs).dropView (factSetId view)).recency.entries.length+1 := by
    rw [hothers.recency,List.length_map]
    exact Nat.lt_succ_self _
  obtain ⟨rest,hmake,hmake',hrest,hclock'⟩ := makeRoom_spec hticked (ha.room hvalid) hfuel
  have hmem : ∀ x ∈ evict (Room config charge)
      (without Prod.fst (factSetId view) (live nowSecs held)),
      x.1 ≠ factSetId view ∧ x ∈ held := by
    intro x hx
    obtain ⟨hx,hne⟩ := mem_without.mp ((evict_suffix _).subset hx)
    exact ⟨hne,List.mem_of_mem_filter hx⟩
  refine ⟨_,?_,?_,hrest.enter _ (fun x hx => (hmem x hx).1) ?_ ?_,hclock'⟩
  · simp only [pin,hconfig,if_false,hfilter,not_lt.mpr ha.fits,not_le.mpr ha.expiry,hprune,
      Option.bind_some,hdrop,hpclock,hmake,Option.map_some]
  · simp only [RegistryInner.pin,hconfig,if_false,hfilter,not_lt.mpr ha.fits,not_le.mpr ha.expiry,
      hpclock,hmake']
  · intro x hx
    exact UInt64.lt_of_le_of_lt (h.past x (hmem x hx).2) (lt_succ hclock)
  · rw [hclock']
    exact UInt64.le_refl _

/-- A refused pin does nothing. -/
theorem pin_refused (inner : RegistryInner View) (hvalid : Valid config) {view : View} {nowSecs : UInt64}
    (hno : ∀ charge, ¬Accepted residentBytes config view nowSecs charge) :
    pin factSetId residentBytes config inner view nowSecs =
        some (.error .capacityUnavailable,inner) ∧
      inner.pin factSetId residentBytes config view nowSecs =
        (.error .capacityUnavailable,inner) := by
  have hconfig : ¬(config.maxViews = 0 ∨ config.ttlSecs = 0) := by
    simp [hvalid.views,hvalid.ttl]
  simp only [pin,RegistryInner.pin,hconfig,if_false]
  cases hf : (residentBytes view).filter fun charge => decide (charge ≠ 0) with
  | none => simp
  | some charge =>
    obtain ⟨hcharge,hpositive⟩ := Option.filter_eq_some_iff.mp hf
    by_cases hbytes : config.maxBytes < charge
    · simp [hbytes]
    · by_cases htime : 2^64 ≤ nowSecs.toNat+config.ttlSecs.toNat
      · simp only [hbytes,htime,if_false,if_true]
        exact ⟨trivial,trivial⟩
      · exact absurd ⟨hcharge,by simpa using hpositive,not_lt.mp hbytes,not_le.mp htime⟩ (hno charge)

theorem resolve_hit (h : Tracks inner held) (hclock : inner.clock.toNat+1 < 2^64)
    {id : FactSetId} {pinned : PinnedView View} {nowSecs : UInt64}
    (hmem : (id,pinned) ∈ live nowSecs held) :
    ∃ next, resolve inner id nowSecs = some (.ok pinned.view,next) ∧
      inner.resolve id nowSecs = (.ok pinned.view,next) ∧
      Tracks next (without Prod.fst id (live nowSecs held)++
        [(id,{ pinned with lastUsed := inner.clock+1 })]) ∧
      next.clock = inner.clock+1 := by
  obtain ⟨hprune,hlive,hpclock⟩ := pruneExpired_spec h nowSecs
  obtain ⟨_,hothers,hdclock⟩ := dropView_spec hlive id
  have hl := hlive.mem_iff.mpr hmem
  have hticked : Tracks { (inner.pruneExpired nowSecs).dropView id with
      clock := inner.clock+1 } (without Prod.fst id (live nowSecs held)) := by
    apply hothers.tick
    rw [hdclock,hpclock]
    exact UInt64.le_of_lt (lt_succ hclock)
  have hnew : ∀ x ∈ without Prod.fst id (live nowSecs held), x.2.lastUsed < inner.clock+1 := by
    intro x hx
    have hx := List.mem_of_mem_filter (mem_without.mp hx).1
    exact UInt64.lt_of_le_of_lt (h.past x hx) (lt_succ hclock)
  have hentered := hticked.enter { pinned with lastUsed := inner.clock+1 }
    (fun x hx => (mem_without.mp hx).2) hnew (UInt64.le_refl _)
  let next : RegistryInner View := { inner.pruneExpired nowSecs with
    clock := inner.clock+1
    views := (inner.pruneExpired nowSecs).views.insert id
      { pinned with lastUsed := inner.clock+1 }
    recency := ((inner.pruneExpired nowSecs).recency.erase
      (toLex (pinned.lastUsed.toNat,id))).insert (toLex ((inner.clock+1).toNat,id)) () }
  refine ⟨next,?_,?_,?_,rfl⟩
  · simp only [resolve,hprune,Option.map_some,hl,hpclock]
    rfl
  · simp only [RegistryInner.resolve,hl,hpclock]
    rfl
  · -- taking the view out and putting it back changes only its stamp
    have hbytes := total_without hlive.nodup hmem
    rw [← hlive.bytes] at hbytes
    have hsame : next = { (inner.pruneExpired nowSecs).dropView id with
        clock := inner.clock+1
        bytes := ((inner.pruneExpired nowSecs).dropView id).bytes+pinned.charge
        recency := ((inner.pruneExpired nowSecs).dropView id).recency.insert
          (toLex ((inner.clock+1).toNat,id)) ()
        views := ((inner.pruneExpired nowSecs).dropView id).views.insert id
          { pinned with lastUsed := inner.clock+1 } } := by
      simp only [next,RegistryInner.dropView,RegistryInner.removeView,hl,RegistryInner.mk.injEq,
        true_and]
      refine ⟨?_,by omega,trivial⟩
      apply OrderedMap.ext_lookup
      intro key
      simp only [OrderedMap.lookup_insert,OrderedMap.lookup_erase]
      split_ifs <;> rfl
    rw [hsame]
    exact hentered

theorem resolve_miss (h : Tracks inner held) (hclock : inner.clock.toNat+1 < 2^64)
    {id : FactSetId} {nowSecs : UInt64} (hmiss : ∀ x ∈ live nowSecs held, x.1 ≠ id) :
    ∃ next, resolve inner id nowSecs = some (.error .viewGone,next) ∧
      inner.resolve id nowSecs = (.error .viewGone,next) ∧
      Tracks next (live nowSecs held) ∧ next.clock = inner.clock+1 := by
  obtain ⟨hprune,hlive,hpclock⟩ := pruneExpired_spec h nowSecs
  have hl := hlive.lookup_none.mpr hmiss
  refine ⟨{ inner.pruneExpired nowSecs with clock := inner.clock+1 },?_,?_,hlive.tick ?_,rfl⟩
  · simp only [resolve,hprune,Option.map_some,hl,hpclock]
  · simp only [RegistryInner.resolve,hl,hpclock]
  · rw [hpclock]
    exact UInt64.le_of_lt (lt_succ hclock)

/-! Runs. -/

variable (residentBytes config) in
def run (ops : List (RegistryOp View)) : Option (RegistryInner View) :=
  ops.foldlM (apply factSetId residentBytes config) .init

variable {factSetId}

/-- Each call succeeds, moves the clock by at most one and keeps the books. -/
theorem apply_spec (hvalid : Valid config) (h : Tracks inner held) (hwithin : Within config held)
    (hclock : inner.clock.toNat+1 < 2^64) (op : RegistryOp View) :
    apply factSetId residentBytes config inner op =
        some (op.apply factSetId residentBytes config inner) ∧
      (op.apply factSetId residentBytes config inner).clock.toNat ≤ inner.clock.toNat+1 ∧
      ∃ next, Tracks (op.apply factSetId residentBytes config inner) next ∧ Within config next := by
  cases op with
  | pin view nowSecs =>
    by_cases ha : ∃ charge, Accepted residentBytes config view nowSecs charge
    · obtain ⟨charge,ha⟩ := ha
      obtain ⟨next,hc,hp,htracks,hnext⟩ := pin_accepted factSetId hvalid h hclock ha
      simp only [apply,RegistryOp.apply,hc,hp,Option.map_some,hnext,succ_toNat hclock]
      have hroom := evict_fits (ha.room hvalid)
        (without Prod.fst (factSetId view) (live nowSecs held))
      refine ⟨trivial,le_rfl,_,htracks,?_,?_⟩
      · simpa using Nat.succ_le_of_lt hroom.1
      · simpa using hroom.2
    · obtain ⟨hc,hp⟩ := pin_refused factSetId inner hvalid (not_exists.mp ha)
      simp only [apply,RegistryOp.apply,hc,hp,Option.map_some]
      exact ⟨trivial,Nat.le_succ _,held,h,hwithin⟩
  | resolve id nowSecs =>
    have hlive : Within config (live nowSecs held) := hwithin.sublist List.filter_sublist
    by_cases hm : ∃ pinned, (id,pinned) ∈ live nowSecs held
    · obtain ⟨pinned,hm⟩ := hm
      obtain ⟨next,hc,hp,htracks,hnext⟩ := resolve_hit h hclock hm
      simp only [apply,RegistryOp.apply,hc,hp,Option.map_some,hnext,succ_toNat hclock]
      have hnodup : ((live nowSecs held).map Prod.fst).Nodup :=
        h.nodup.sublist (List.filter_sublist.map _)
      have htotal := total_without hnodup hm
      have hlen : (without Prod.fst id (live nowSecs held)).length < (live nowSecs held).length :=
        List.length_filter_lt_length_iff_exists.mpr ⟨_,hm,by simp⟩
      refine ⟨trivial,le_rfl,_,htracks,?_,?_⟩
      · simpa using (Nat.succ_le_of_lt hlen).trans hlive.views
      · have hbytes := hlive.bytes
        simp only [total_append,total_cons,total_nil]
        omega
    · have hmiss : ∀ x ∈ live nowSecs held, x.1 ≠ id := by
        rintro ⟨key,pinned⟩ hx rfl
        exact hm ⟨pinned,hx⟩
      obtain ⟨next,hc,hp,htracks,hnext⟩ := resolve_miss h hclock hmiss
      simp only [apply,RegistryOp.apply,hc,hp,Option.map_some,hnext,succ_toNat hclock]
      exact ⟨trivial,le_rfl,_,htracks,hlive⟩
  | prune nowSecs =>
    obtain ⟨hc,htracks,hnext⟩ := pruneExpired_spec h nowSecs
    simp only [apply,RegistryOp.apply,hc,hnext]
    exact ⟨trivial,Nat.le_succ _,_,htracks,hwithin.sublist List.filter_sublist⟩

theorem registryAfter_append (ops : List (RegistryOp View)) (op : RegistryOp View) :
    registryAfter factSetId residentBytes config (ops++[op]) =
      op.apply factSetId residentBytes config (registryAfter factSetId residentBytes config ops) := by
  simp [registryAfter]

variable (factSetId residentBytes) in
theorem run_spec (hvalid : Valid config) {ops : List (RegistryOp View)} (h : ops.length < 2^64) :
    run factSetId residentBytes config ops = some (registryAfter factSetId residentBytes config ops) ∧
      (registryAfter factSetId residentBytes config ops).clock.toNat ≤ ops.length ∧
      ∃ held, Tracks (registryAfter factSetId residentBytes config ops) held ∧
        Within config held := by
  induction ops using List.reverseRecOn with
  | nil => exact ⟨rfl,Nat.zero_le _,[],Tracks.empty,Nat.zero_le _,Nat.zero_le _⟩
  | append_singleton ops op ih =>
    rw [List.length_append,List.length_singleton] at h
    obtain ⟨hrun,hclock,held,htracks,hwithin⟩ := ih (by omega)
    obtain ⟨hstep,hnext,hheld⟩ := apply_spec hvalid htracks hwithin (by omega) op
    rw [registryAfter_append,List.length_append,List.length_singleton]
    refine ⟨?_,by omega,hheld⟩
    rw [run,List.foldlM_append]
    change (run factSetId residentBytes config ops).bind _ = _
    rw [hrun]
    simpa using hstep

end CursorBooks
end PgKronika
