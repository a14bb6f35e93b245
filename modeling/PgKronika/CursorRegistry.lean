import Mathlib
import PgKronika.Digest
import PgKronika.OrderedMap

/-! The bounded registry of pinned views that continuation cursors resolve in. Views
enter under their own identity and leave by expiry, by replacement or by eviction. -/
namespace PgKronika

abbrev FactSetId := Digest

structure CursorConfig where
  maxViews : ℕ := 64
  maxBytes : ℕ := 512*1024*1024
  ttlSecs : UInt64 := 300
  deriving DecidableEq

inductive CursorError
  | invalid
  | queryMismatch
  | viewGone
  | expired
  | capacityUnavailable
  deriving DecidableEq

structure CursorLease where
  factSetId : FactSetId
  issuedAt : UInt64
  expiresAt : UInt64
  deriving DecidableEq

structure PinnedView (View : Type) where
  view : View
  charge : ℕ
  expiresAt : UInt64
  lastUsed : UInt64

/-- The recency set is ordered by the clock, then by the key. -/
structure RegistryInner (View : Type) where
  views : OrderedMap FactSetId (PinnedView View)
  recency : OrderedMap (ℕ ×ₗ FactSetId) Unit
  bytes : ℕ
  clock : UInt64

namespace RegistryInner

variable {View : Type}

def init : RegistryInner View := ⟨.empty,.empty,0,0⟩

def removeView (inner : RegistryInner View) (id : FactSetId) : RegistryInner View :=
  match inner.views.lookup id with
  | none => inner
  | some removed => { inner with
      views := inner.views.erase id
      bytes := inner.bytes-removed.charge }

/-- Remove a view together with its place in the recency order. -/
def dropView (inner : RegistryInner View) (id : FactSetId) : RegistryInner View :=
  match inner.views.lookup id with
  | none => inner
  | some removed => { inner.removeView id with
      recency := inner.recency.erase (toLex (removed.lastUsed.toNat,id)) }

def pruneExpired (inner : RegistryInner View) (nowSecs : UInt64) : RegistryInner View :=
  ((inner.views.entries.filter fun p => decide (p.2.expiresAt ≤ nowSecs)).map Prod.fst).foldl
    dropView inner

def popFirst (inner : RegistryInner View) : Option (FactSetId × RegistryInner View) :=
  match inner.recency.entries with
  | [] => none
  | (k,_)::_ => some ((ofLex k).2,{ inner with recency := inner.recency.erase k })

/-- Evict the least recent views until one more fits. Each turn takes one place out of the
recency order. -/
def makeRoom (config : CursorConfig) (charge : ℕ) :
    ℕ → RegistryInner View → Option CursorError × RegistryInner View
  | 0,inner => (some .capacityUnavailable,inner)
  | fuel+1,inner =>
    if config.maxViews ≤ inner.views.entries.length ∨ config.maxBytes < inner.bytes+charge then
      match inner.popFirst with
      | none => (some .capacityUnavailable,inner)
      | some (victim,inner) => makeRoom config charge fuel (inner.removeView victim)
    else (none,inner)

variable (factSetId : View → FactSetId) (residentBytes : View → Option ℕ)

def pin (config : CursorConfig) (inner : RegistryInner View) (view : View) (nowSecs : UInt64) :
    Except CursorError CursorLease × RegistryInner View :=
  if config.maxViews = 0 ∨ config.ttlSecs = 0 then (.error .capacityUnavailable,inner)
  else
    match (residentBytes view).filter fun charge => decide (charge ≠ 0) with
    | none => (.error .capacityUnavailable,inner)
    | some charge =>
      if config.maxBytes < charge then (.error .capacityUnavailable,inner)
      else if 2^64 ≤ nowSecs.toNat+config.ttlSecs.toNat then (.error .capacityUnavailable,inner)
      else
        let expiresAt := nowSecs+config.ttlSecs
        let id := factSetId view
        let pruned := inner.pruneExpired nowSecs
        let lastUsed := pruned.clock+1
        let cleared := { pruned.dropView id with clock := lastUsed }
        match makeRoom config charge (cleared.recency.entries.length+1) cleared with
        | (some error,inner) => (.error error,inner)
        | (none,inner) =>
          (.ok ⟨id,nowSecs,expiresAt⟩,
            { inner with
              bytes := inner.bytes+charge
              recency := inner.recency.insert (toLex (lastUsed.toNat,id)) ()
              views := inner.views.insert id ⟨view,charge,expiresAt,lastUsed⟩ })

def resolve (inner : RegistryInner View) (id : FactSetId) (nowSecs : UInt64) :
    Except CursorError View × RegistryInner View :=
  let pruned := inner.pruneExpired nowSecs
  let lastUsed := pruned.clock+1
  let ticked := { pruned with clock := lastUsed }
  match ticked.views.lookup id with
  | none => (.error .viewGone,ticked)
  | some pinned =>
    (.ok pinned.view,
      { ticked with
        views := ticked.views.insert id { pinned with lastUsed }
        recency := (ticked.recency.erase (toLex (pinned.lastUsed.toNat,id))).insert
          (toLex (lastUsed.toNat,id)) () })

end RegistryInner

inductive RegistryOp (View : Type)
  | pin (view : View) (nowSecs : UInt64)
  | resolve (id : FactSetId) (nowSecs : UInt64)
  | prune (nowSecs : UInt64)

section Runs

variable {View : Type} (factSetId : View → FactSetId) (residentBytes : View → Option ℕ)
  (config : CursorConfig)

def RegistryOp.apply (inner : RegistryInner View) : RegistryOp View → RegistryInner View
  | .pin view nowSecs => (inner.pin factSetId residentBytes config view nowSecs).2
  | .resolve id nowSecs => (inner.resolve id nowSecs).2
  | .prune nowSecs => inner.pruneExpired nowSecs

/-- The registry after a run of requests. -/
def registryAfter (ops : List (RegistryOp View)) : RegistryInner View :=
  ops.foldl (RegistryOp.apply factSetId residentBytes config) .init

variable {factSetId residentBytes config}

/-- Everything retained is one of the views `P`, under its own identity. -/
def RegistryInner.Retains (factSetId : View → FactSetId) (P : View → Prop)
    (inner : RegistryInner View) : Prop :=
  ∀ id pinned, inner.views.lookup id = some pinned → factSetId pinned.view = id ∧ P pinned.view

variable {P Q : View → Prop} {inner : RegistryInner View}

theorem RegistryInner.Retains.mono (h : inner.Retains factSetId P) (hPQ : ∀ v, P v → Q v) :
    inner.Retains factSetId Q := fun id pinned hp => ⟨(h id pinned hp).1,hPQ _ (h id pinned hp).2⟩

theorem RegistryInner.Retains.of_views {inner' : RegistryInner View}
    (h : inner.Retains factSetId P)
    (hsub : ∀ id pinned, inner'.views.lookup id = some pinned →
      inner.views.lookup id = some pinned) : inner'.Retains factSetId P :=
  fun id pinned hp => h id pinned (hsub id pinned hp)

theorem removeView_sub {id key : FactSetId} {pinned : PinnedView View}
    (h : (inner.removeView id).views.lookup key = some pinned) :
    inner.views.lookup key = some pinned := by
  rw [RegistryInner.removeView] at h
  split at h
  · exact h
  · rw [OrderedMap.lookup_erase] at h
    split_ifs at h
    exact h

theorem dropView_views (inner : RegistryInner View) (id : FactSetId) :
    (inner.dropView id).views = (inner.removeView id).views := by
  rw [RegistryInner.dropView]
  split
  · next h => rw [RegistryInner.removeView,h]
  · rfl

theorem RegistryInner.Retains.dropView (h : inner.Retains factSetId P) (id : FactSetId) :
    (inner.dropView id).Retains factSetId P :=
  h.of_views fun _ _ hp => removeView_sub (dropView_views inner id ▸ hp)

theorem RegistryInner.Retains.pruneExpired (h : inner.Retains factSetId P) (nowSecs : UInt64) :
    (inner.pruneExpired nowSecs).Retains factSetId P := by
  rw [RegistryInner.pruneExpired]
  generalize ((inner.views.entries.filter _).map Prod.fst) = expired
  induction expired generalizing inner with
  | nil => exact h
  | cons id expired ih => exact ih (h.dropView id)

theorem RegistryInner.Retains.makeRoom {charge fuel : ℕ} {error : Option CursorError}
    {rest : RegistryInner View} (h : inner.Retains factSetId P)
    (hmake : inner.makeRoom config charge fuel = (error,rest)) : rest.Retains factSetId P := by
  induction fuel generalizing inner with
  | zero =>
    cases hmake
    exact h
  | succ fuel ih =>
    rw [RegistryInner.makeRoom] at hmake
    split_ifs at hmake
    · cases hpop : inner.popFirst with
      | none =>
        rw [hpop] at hmake
        cases hmake
        exact h
      | some popped =>
        obtain ⟨victim,left⟩ := popped
        have hviews : left.views = inner.views := by
          rw [RegistryInner.popFirst] at hpop
          split at hpop
          · cases hpop
          · cases hpop
            rfl
        rw [hpop] at hmake
        exact ih (h.of_views fun _ _ hp => hviews ▸ removeView_sub hp) hmake
    · cases hmake
      exact h

/-- The registry that `pin` makes room in. -/
def RegistryInner.cleared (factSetId : View → FactSetId) (inner : RegistryInner View) (view : View)
    (nowSecs : UInt64) : RegistryInner View :=
  { (inner.pruneExpired nowSecs).dropView (factSetId view) with
    clock := (inner.pruneExpired nowSecs).clock+1 }

/-- What one pin can do: refuse at once, refuse after making room, or grant a lease. -/
theorem pin_cases (inner : RegistryInner View) (view : View) (nowSecs : UInt64) :
    (∃ error, inner.pin factSetId residentBytes config view nowSecs = (.error error,inner)) ∨
    ∃ charge fuel made rest, nowSecs.toNat+config.ttlSecs.toNat < 2^64 ∧
      (inner.cleared factSetId view nowSecs).makeRoom config charge fuel = (made,rest) ∧
      ((∃ error, inner.pin factSetId residentBytes config view nowSecs = (.error error,rest)) ∨
      inner.pin factSetId residentBytes config view nowSecs =
        (.ok ⟨factSetId view,nowSecs,nowSecs+config.ttlSecs⟩,
          { rest with
            bytes := rest.bytes+charge
            recency := rest.recency.insert
              (toLex ((inner.cleared factSetId view nowSecs).clock.toNat,factSetId view)) ()
            views := rest.views.insert (factSetId view) ⟨view,charge,nowSecs+config.ttlSecs,
              (inner.cleared factSetId view nowSecs).clock⟩ })) := by
  rw [RegistryInner.pin]
  by_cases hconfig : config.maxViews = 0 ∨ config.ttlSecs = 0
  · exact .inl ⟨_,if_pos hconfig⟩
  rw [if_neg hconfig]
  split
  · exact .inl ⟨_,rfl⟩
  · next charge _ =>
    by_cases hcharge : config.maxBytes < charge
    · exact .inl ⟨_,if_pos hcharge⟩
    by_cases htime : 2^64 ≤ nowSecs.toNat+config.ttlSecs.toNat
    · exact .inl ⟨_,by rw [if_neg hcharge,if_pos htime]⟩
    rw [if_neg hcharge,if_neg htime]
    right
    dsimp only
    split
    · next error rest hmake => exact ⟨charge,_,_,rest,not_le.mp htime,hmake,.inl ⟨error,rfl⟩⟩
    · next rest hmake => exact ⟨charge,_,_,rest,not_le.mp htime,hmake,.inr rfl⟩

theorem RegistryInner.Retains.pin (h : inner.Retains factSetId P) {view : View} (hview : P view)
    (nowSecs : UInt64) :
    (inner.pin factSetId residentBytes config view nowSecs).2.Retains factSetId P := by
  have hcleared : (inner.cleared factSetId view nowSecs).Retains factSetId P :=
    (h.pruneExpired nowSecs).dropView (factSetId view)
  rcases @pin_cases _ factSetId residentBytes config inner view nowSecs with
    ⟨error,hpin⟩ | ⟨charge,fuel,made,rest,htime,hmake,⟨error,hpin⟩ | hpin⟩
  · rw [hpin]
    exact h
  · rw [hpin]
    exact hcleared.makeRoom hmake
  · rw [hpin]
    intro id pinned hp
    rw [OrderedMap.lookup_insert] at hp
    split_ifs at hp with hid
    · cases hp
      exact ⟨hid.symm,hview⟩
    · exact hcleared.makeRoom hmake id pinned hp

theorem RegistryInner.Retains.resolve (h : inner.Retains factSetId P) (id : FactSetId)
    (nowSecs : UInt64) : (inner.resolve id nowSecs).2.Retains factSetId P := by
  have hpruned := h.pruneExpired nowSecs
  rw [RegistryInner.resolve]
  dsimp only
  split
  · exact hpruned
  · next pinned hpinned =>
    intro key held hp
    rw [OrderedMap.lookup_insert] at hp
    split_ifs at hp with hkey
    · cases hp
      exact hkey ▸ hpruned id pinned hpinned
    · exact hpruned key held hp

/-- After a run, everything retained was pinned in it. -/
theorem registryAfter_retains {ops : List (RegistryOp View)}
    (hpin : ∀ view nowSecs, .pin view nowSecs ∈ ops → P view) :
    (registryAfter factSetId residentBytes config ops).Retains factSetId P := by
  induction ops using List.reverseRecOn with
  | nil =>
    intro id pinned h
    rw [registryAfter,List.foldl_nil,RegistryInner.init,OrderedMap.lookup_empty] at h
    cases h
  | append_singleton ops op ih =>
    have hrest := ih fun view nowSecs h => hpin view nowSecs (List.mem_append_left _ h)
    rw [registryAfter,List.foldl_append,List.foldl_cons,List.foldl_nil]
    cases op with
    | pin view nowSecs => exact hrest.pin (hpin view nowSecs (by simp)) nowSecs
    | resolve id nowSecs => exact hrest.resolve id nowSecs
    | prune nowSecs => exact hrest.pruneExpired nowSecs

/-- A view that a cursor resolves to was pinned under that identity. -/
theorem resolve_ok {id : FactSetId} {nowSecs : UInt64} {view : View}
    (h : inner.Retains factSetId P) (hok : (inner.resolve id nowSecs).1 = .ok view) :
    factSetId view = id ∧ P view := by
  rw [RegistryInner.resolve] at hok
  dsimp only at hok
  split at hok
  · cases hok
  · next pinned hpinned =>
    cases hok
    exact h.pruneExpired nowSecs id pinned hpinned

theorem pin_ok {view : View} {nowSecs : UInt64} {lease : CursorLease}
    (h : (inner.pin factSetId residentBytes config view nowSecs).1 = .ok lease) :
    lease = ⟨factSetId view,nowSecs,nowSecs+config.ttlSecs⟩ ∧
      nowSecs.toNat+config.ttlSecs.toNat < 2^64 := by
  rcases @pin_cases _ factSetId residentBytes config inner view nowSecs with
    ⟨error,hpin⟩ | ⟨charge,fuel,made,rest,htime,hmake,⟨error,hpin⟩ | hpin⟩
  · rw [hpin] at h
    cases h
  · rw [hpin] at h
    cases h
  · rw [hpin] at h
    cases h
    exact ⟨rfl,htime⟩

theorem removeView_lookup_of_ne (inner : RegistryInner View) {id key : FactSetId} (h : key ≠ id) :
    (inner.removeView id).views.lookup key = inner.views.lookup key := by
  rw [RegistryInner.removeView]
  split
  · rfl
  · exact (OrderedMap.lookup_erase _ _ _).trans (if_neg h)

/-- Pruning keeps what has not expired. -/
theorem pruneExpired_lookup {id : FactSetId} {pinned : PinnedView View} {nowSecs : UInt64}
    (h : inner.views.lookup id = some pinned) (hlive : nowSecs < pinned.expiresAt) :
    (inner.pruneExpired nowSecs).views.lookup id = some pinned := by
  have hother : ∀ ids : List FactSetId, id ∉ ids → ∀ inner : RegistryInner View,
      (ids.foldl RegistryInner.dropView inner).views.lookup id = inner.views.lookup id := by
    intro ids
    induction ids with
    | nil => exact fun _ _ => rfl
    | cons key ids ih =>
      intro hid inner
      obtain ⟨hne,hrest⟩ := List.ne_and_not_mem_of_not_mem_cons hid
      rw [List.foldl_cons,ih hrest,dropView_views,removeView_lookup_of_ne inner hne]
  rw [RegistryInner.pruneExpired,hother _ ?_ inner,h]
  intro hmem
  obtain ⟨⟨key,held⟩,hp,rfl⟩ := List.mem_map.mp hmem
  obtain ⟨hentry,hexpired⟩ := List.mem_filter.mp hp
  rw [OrderedMap.mem_entries_iff,h] at hentry
  obtain rfl := Option.some.inj hentry
  exact absurd hlive (UInt64.not_lt.mpr (of_decide_eq_true hexpired))

/-- A view that is held and has not expired is found. -/
theorem resolve_held {id : FactSetId} {pinned : PinnedView View} {nowSecs : UInt64}
    (h : inner.views.lookup id = some pinned) (hlive : nowSecs < pinned.expiresAt) :
    (inner.resolve id nowSecs).1 = .ok pinned.view := by
  rw [RegistryInner.resolve]
  dsimp only
  rw [pruneExpired_lookup h hlive]

end Runs

end PgKronika
