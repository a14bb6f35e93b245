import Mathlib
import PgKronika.CursorBooks

/-! What the cursor registry answers, in terms of the calls made before: a view is resolved as it
was last pinned, as long as it was neither evicted nor expired since. -/
namespace PgKronika
namespace CursorBooks

open RecencyList

variable {View : Type}

/-- A registry's configuration as `CursorRegistry::new` accepts it. -/
structure CursorRegistry where
  config : CursorConfig
  valid : Valid config

def CursorRegistry.new (config : CursorConfig) : Option CursorRegistry :=
  if h : config.maxViews ≠ 0 ∧ config.maxBytes ≠ 0 ∧ config.ttlSecs ≠ 0 then
    some ⟨config,⟨h.1,h.2.1,h.2.2⟩⟩
  else none

/-- The held views as the recency order lists them. -/
def order (inner : RegistryInner View) : List (Held View) :=
  inner.recency.entries.filterMap fun p =>
    (inner.views.lookup (ofLex p.1).2).map fun pinned => ((ofLex p.1).2,pinned)

theorem Tracks.order {inner : RegistryInner View} {held : List (Held View)}
    (h : Tracks inner held) : order inner = held := by
  rw [CursorBooks.order,h.recency,List.filterMap_map]
  have hsome : ∀ x ∈ held, (inner.views.lookup x.1).map (fun pinned => (x.1,pinned)) = some x := by
    rintro ⟨id,pinned⟩ hx
    rw [h.mem_iff.mpr hx]
    rfl
  calc held.filterMap _ = held.filterMap some := List.filterMap_congr hsome
    _ = held := List.filterMap_some

structure Books (config : CursorConfig) (inner : RegistryInner View) : Prop where
  bytes : inner.bytes = total inner.views.entries
  withinBytes : inner.bytes ≤ config.maxBytes
  withinViews : inner.views.entries.length ≤ config.maxViews
  recency : ∀ stamp id, (toLex (stamp,id),()) ∈ inner.recency.entries ↔
    ∃ pinned, inner.views.lookup id = some pinned ∧ pinned.lastUsed.toNat = stamp

theorem Tracks.books {config : CursorConfig} {inner : RegistryInner View}
    {held : List (Held View)} (h : Tracks inner held) (hwithin : Within config held) :
    Books config inner where
  bytes := h.bytes.trans ((h.views.map _).sum_eq).symm
  withinBytes := h.bytes ▸ hwithin.bytes
  withinViews := h.views.length_eq ▸ hwithin.views
  recency := by
    intro stamp id
    rw [h.recency,List.mem_map]
    constructor
    · rintro ⟨⟨key,pinned⟩,hx,he⟩
      have hp := congrArg (fun p : (ℕ ×ₗ FactSetId) × Unit => ofLex p.1) he
      obtain ⟨hstamp,rfl⟩ := Prod.mk.inj hp
      exact ⟨pinned,h.mem_iff.mpr hx,hstamp⟩
    · rintro ⟨pinned,hl,rfl⟩
      exact ⟨(id,pinned),h.mem_iff.mp hl,rfl⟩

variable (factSetId : View → FactSetId) (residentBytes : View → Option ℕ) (config : CursorConfig)

/-- The call pins a view under `id`. -/
def Repins (op : RegistryOp View) (id : FactSetId) : Prop :=
  ∃ view nowSecs charge, op = .pin view nowSecs ∧ factSetId view = id ∧
    Accepted residentBytes config view nowSecs charge

/-- The call looks at the clock and finds the expiry passed. A refused pin looks at nothing. -/
def Expires (expiresAt : UInt64) : RegistryOp View → Prop
  | .pin view nowSecs =>
    (∃ charge, Accepted residentBytes config view nowSecs charge) ∧ expiresAt ≤ nowSecs
  | .resolve _ nowSecs => expiresAt ≤ nowSecs
  | .prune nowSecs => expiresAt ≤ nowSecs

/-- The call takes a view out that it does not expire. -/
def Evicts (inner : RegistryInner View) (op : RegistryOp View) (id : FactSetId) : Prop :=
  ∃ pinned, inner.views.lookup id = some pinned ∧
    ¬Expires residentBytes config pinned.expiresAt op ∧
    (op.apply factSetId residentBytes config inner).views.lookup id = none

/-- `view` was the last one pinned under `id`, and since then was neither evicted nor expired. -/
def LastPinned (ops : List (RegistryOp View)) (id : FactSetId) (view : View)
    (expiresAt : UInt64) : Prop :=
  ∃ before nowSecs after charge, ops = before++.pin view nowSecs::after ∧ factSetId view = id ∧
    Accepted residentBytes config view nowSecs charge ∧ expiresAt = nowSecs+config.ttlSecs ∧
    ∀ mid op rest, after = mid++op::rest →
      ¬Repins factSetId residentBytes config op id ∧ ¬Expires residentBytes config expiresAt op ∧
      ¬Evicts factSetId residentBytes config
        (registryAfter factSetId residentBytes config (before++.pin view nowSecs::mid)) op id

variable {factSetId residentBytes config}

/-- What is held after a call was pinned by it, or was held before and stayed. -/
theorem apply_from {inner : RegistryInner View} {held : List (Held View)} (hvalid : Valid config)
    (h : Tracks inner held) (hclock : inner.clock.toNat+1 < 2^64) {op : RegistryOp View}
    {id : FactSetId} {after : PinnedView View}
    (hafter : (op.apply factSetId residentBytes config inner).views.lookup id = some after) :
    (∃ nowSecs charge, op = .pin after.view nowSecs ∧ factSetId after.view = id ∧
        Accepted residentBytes config after.view nowSecs charge ∧
        after.expiresAt = nowSecs+config.ttlSecs) ∨
      ∃ before, inner.views.lookup id = some before ∧ before.view = after.view ∧
        before.expiresAt = after.expiresAt ∧ ¬Repins factSetId residentBytes config op id ∧
        ¬Expires residentBytes config after.expiresAt op := by
  cases op with
  | pin view nowSecs =>
    by_cases ha : ∃ charge, Accepted residentBytes config view nowSecs charge
    · obtain ⟨charge,ha⟩ := ha
      obtain ⟨next,_,hp,htracks,_⟩ := pin_accepted factSetId hvalid h hclock ha
      simp only [RegistryOp.apply,hp] at hafter
      rcases List.mem_append.mp (htracks.mem_iff.mp hafter) with hm | hm
      · obtain ⟨hlive,hne⟩ := mem_without.mp ((evict_suffix _).subset hm)
        obtain ⟨hheld,hnow⟩ := List.mem_filter.mp hlive
        refine .inr ⟨after,h.mem_iff.mpr hheld,rfl,rfl,?_,?_⟩
        · rintro ⟨_,_,_,he,hid,_⟩
          cases he
          exact hne hid.symm
        · rintro ⟨_,hle⟩
          exact UInt64.not_lt.mpr hle (of_decide_eq_true hnow)
      · cases List.mem_singleton.mp hm
        exact .inl ⟨nowSecs,charge,rfl,rfl,ha,rfl⟩
    · obtain ⟨_,hp⟩ := pin_refused factSetId inner hvalid (not_exists.mp ha)
      simp only [RegistryOp.apply,hp] at hafter
      refine .inr ⟨after,hafter,rfl,rfl,?_,fun he => ha he.1⟩
      rintro ⟨_,_,charge,he,_,hc⟩
      cases he
      exact ha ⟨charge,hc⟩
  | resolve key nowSecs =>
    have hno : ¬Repins factSetId residentBytes config (.resolve key nowSecs) id := by
      rintro ⟨_,_,_,he,_⟩
      cases he
    have hlive : ∀ {x : PinnedView View}, (id,x) ∈ live nowSecs held →
        inner.views.lookup id = some x ∧ ¬x.expiresAt ≤ nowSecs := by
      intro x hx
      obtain ⟨hheld,hnow⟩ := List.mem_filter.mp hx
      exact ⟨h.mem_iff.mpr hheld,UInt64.not_le.mpr (of_decide_eq_true hnow)⟩
    by_cases hm : ∃ pinned, (key,pinned) ∈ live nowSecs held
    · obtain ⟨pinned,hm⟩ := hm
      obtain ⟨next,_,hp,htracks,_⟩ := resolve_hit h hclock hm
      simp only [RegistryOp.apply,hp] at hafter
      rcases List.mem_append.mp (htracks.mem_iff.mp hafter) with hx | hx
      · obtain ⟨hl,hnow⟩ := hlive (mem_without.mp hx).1
        exact .inr ⟨after,hl,rfl,rfl,hno,hnow⟩
      · cases List.mem_singleton.mp hx
        obtain ⟨hl,hnow⟩ := hlive hm
        exact .inr ⟨pinned,hl,rfl,rfl,hno,hnow⟩
    · have hmiss : ∀ x ∈ live nowSecs held, x.1 ≠ key := by
        rintro ⟨_,pinned⟩ hx rfl
        exact hm ⟨pinned,hx⟩
      obtain ⟨next,_,hp,htracks,_⟩ := resolve_miss h hclock hmiss
      simp only [RegistryOp.apply,hp] at hafter
      obtain ⟨hl,hnow⟩ := hlive (htracks.mem_iff.mp hafter)
      exact .inr ⟨after,hl,rfl,rfl,hno,hnow⟩
  | prune nowSecs =>
    obtain ⟨_,htracks,_⟩ := pruneExpired_spec h nowSecs
    obtain ⟨hheld,hnow⟩ := List.mem_filter.mp (htracks.mem_iff.mp hafter)
    refine .inr ⟨after,h.mem_iff.mpr hheld,rfl,rfl,?_,UInt64.not_le.mpr (of_decide_eq_true hnow)⟩
    rintro ⟨_,_,_,he,_⟩
    cases he

/-- What is held after a run is what was last pinned and stayed. -/
theorem held_iff_lastPinned (hvalid : Valid config) {ops : List (RegistryOp View)}
    (h : ops.length < 2^64) {id : FactSetId} {view : View} {expiresAt : UInt64} :
    (∃ pinned, (registryAfter factSetId residentBytes config ops).views.lookup id = some pinned ∧
      pinned.view = view ∧ pinned.expiresAt = expiresAt) ↔
      LastPinned factSetId residentBytes config ops id view expiresAt := by
  induction ops using List.reverseRecOn generalizing view expiresAt with
  | nil =>
    constructor
    · rintro ⟨pinned,hp,_⟩
      cases hp
    · rintro ⟨before,_,after,_,he,_⟩
      cases before <;> cases he
  | append_singleton ops op ih =>
    rw [List.length_append,List.length_singleton] at h
    obtain ⟨_,hclock,held,htracks,_⟩ := run_spec factSetId residentBytes hvalid
      (Nat.lt_of_succ_lt h)
    rw [registryAfter_append]
    constructor
    · rintro ⟨pinned,hp,rfl,rfl⟩
      rcases apply_from hvalid htracks (by omega) hp with
        ⟨nowSecs,charge,rfl,hid,ha,he⟩ | ⟨before,hb,hview,hexp,hno,hlive⟩
      · refine ⟨ops,nowSecs,[],charge,rfl,hid,ha,he,?_⟩
        intro mid op rest hn
        cases mid <;> cases hn
      · obtain ⟨first,nowSecs,after,charge,rfl,hid,ha,he,hstay⟩ :=
          (ih (by omega)).mp ⟨before,hb,hview,hexp⟩
        refine ⟨first,nowSecs,after++[op],charge,by simp,hid,ha,he,?_⟩
        intro mid other rest hn
        rcases List.eq_nil_or_concat rest with rfl | ⟨front,last,rfl⟩
        · obtain ⟨rfl,hop⟩ := List.append_inj' hn rfl
          cases hop
          refine ⟨hno,hlive,?_⟩
          rintro ⟨_,_,_,hnone⟩
          rw [hp] at hnone
          cases hnone
        · rw [List.concat_eq_append,← List.cons_append,← List.append_assoc] at hn
          obtain ⟨rfl,_⟩ := List.append_inj' hn rfl
          exact hstay mid other front rfl
    · rintro ⟨first,nowSecs,after,charge,hops,hid,ha,he,hstay⟩
      rcases List.eq_nil_or_concat after with rfl | ⟨front,last,rfl⟩
      · obtain ⟨rfl,hop⟩ := List.append_inj' hops rfl
        cases hop
        obtain ⟨next,_,hpin,hnext,_⟩ := pin_accepted factSetId hvalid htracks (by omega) ha
        simp only [RegistryOp.apply,hpin]
        rw [hid] at hnext
        exact ⟨_,hnext.mem_iff.mpr (List.mem_append_right _ (List.mem_singleton_self _)),rfl,
          he.symm⟩
      · rw [List.concat_eq_append,← List.cons_append,← List.append_assoc] at hops
        obtain ⟨rfl,hop⟩ := List.append_inj' hops rfl
        cases hop
        have hold : LastPinned factSetId residentBytes config (first++.pin view nowSecs::front) id
            view expiresAt := by
          refine ⟨first,nowSecs,front,charge,rfl,hid,ha,he,?_⟩
          intro mid other rest hn
          exact hstay mid other (rest++[op]) (by simp [hn])
        obtain ⟨pinned,hp,rfl,rfl⟩ := (ih (by omega)).mpr hold
        obtain ⟨hno,hlive,hevict⟩ := hstay front op [] (by simp)
        cases hafter : (op.apply factSetId residentBytes config (registryAfter factSetId
            residentBytes config (first++.pin pinned.view nowSecs::front))).views.lookup id with
        | none => exact absurd ⟨pinned,hp,hlive,hafter⟩ hevict
        | some held =>
          refine ⟨held,rfl,?_⟩
          rcases apply_from hvalid htracks (by omega) hafter with
            ⟨_,charge',rfl,hid',ha',_⟩ | ⟨before,hb,hview,hexp,_⟩
          · exact absurd ⟨_,_,charge',rfl,hid',ha'⟩ hno
          · rw [hp] at hb
            cases hb
            exact ⟨hview.symm,hexp.symm⟩

variable (factSetId residentBytes config)

/-- What one call owes its caller in the registry that a run has left. -/
def Served (before : List (RegistryOp View)) : RegistryOp View → Prop
  | .pin view nowSecs =>
    let inner := registryAfter factSetId residentBytes config before
    let id := factSetId view
    (∀ charge, Accepted residentBytes config view nowSecs charge →
      ∃ next evicted kept stamp,
        inner.pin factSetId residentBytes config view nowSecs =
          (.ok ⟨id,nowSecs,nowSecs+config.ttlSecs⟩,next) ∧
        without Prod.fst id (live nowSecs (order inner)) = evicted++kept ∧
        order next = kept++[(id,⟨view,charge,nowSecs+config.ttlSecs,stamp⟩)] ∧
        Room config charge kept ∧
        ∀ first last, evicted = first++[last] → ¬Room config charge (last::kept)) ∧
    ∀ error next, inner.pin factSetId residentBytes config view nowSecs = (.error error,next) →
      ∀ key pinned, inner.views.lookup key = some pinned → nowSecs < pinned.expiresAt →
        next.views.lookup key = some pinned
  | .resolve id nowSecs => ∀ view,
    ((registryAfter factSetId residentBytes config before).resolve id nowSecs).1 = .ok view ↔
      ∃ expiresAt, LastPinned factSetId residentBytes config before id view expiresAt ∧
        nowSecs < expiresAt
  | .prune _ => True

variable {factSetId residentBytes config}

theorem pin_served (hvalid : Valid config) {before : List (RegistryOp View)}
    (h : before.length+1 < 2^64) (view : View) (nowSecs : UInt64) :
    Served factSetId residentBytes config before (.pin view nowSecs) := by
  obtain ⟨_,hclock,held,htracks,_⟩ := run_spec factSetId residentBytes hvalid (Nat.lt_of_succ_lt h)
  constructor
  · intro charge ha
    obtain ⟨next,_,hpin,hnext,_⟩ := pin_accepted factSetId hvalid htracks (by omega) ha
    rw [htracks.order]
    obtain ⟨evicted,hevicted⟩ : evict (Room config charge)
        (without Prod.fst (factSetId view) (live nowSecs held)) <:+ _ := evict_suffix _
    refine ⟨next,evicted,_,_,hpin,hevicted.symm,hnext.order,evict_fits (ha.room hvalid) _,?_⟩
    rintro first last rfl
    exact evict_needed (hevicted.symm.trans (List.append_assoc first [last] _))
  · intro error next hpin key pinned hl _
    by_cases ha : ∃ charge, Accepted residentBytes config view nowSecs charge
    · obtain ⟨charge,ha⟩ := ha
      obtain ⟨_,_,hok,_⟩ := pin_accepted factSetId hvalid htracks (by omega) ha
      rw [hok] at hpin
      cases hpin
    · have hrefused := (pin_refused factSetId
        (registryAfter factSetId residentBytes config before) hvalid (not_exists.mp ha)).2
      rw [hrefused] at hpin
      cases hpin
      exact hl

theorem resolve_served (hvalid : Valid config) {before : List (RegistryOp View)}
    (h : before.length+1 < 2^64) (id : FactSetId) (nowSecs : UInt64) :
    Served factSetId residentBytes config before (.resolve id nowSecs) := by
  obtain ⟨_,hclock,held,htracks,_⟩ := run_spec factSetId residentBytes hvalid (Nat.lt_of_succ_lt h)
  intro view
  constructor
  · intro hok
    by_cases hm : ∃ pinned, (id,pinned) ∈ live nowSecs held
    · obtain ⟨pinned,hm⟩ := hm
      obtain ⟨_,_,hres,_⟩ := resolve_hit htracks (by omega) hm
      rw [hres] at hok
      cases hok
      obtain ⟨hheld,hnow⟩ := List.mem_filter.mp hm
      exact ⟨pinned.expiresAt,(held_iff_lastPinned hvalid (Nat.lt_of_succ_lt h)).mp
        ⟨pinned,htracks.mem_iff.mpr hheld,rfl,rfl⟩,of_decide_eq_true hnow⟩
    · have hmiss : ∀ x ∈ live nowSecs held, x.1 ≠ id := by
        rintro ⟨_,pinned⟩ hx rfl
        exact hm ⟨pinned,hx⟩
      obtain ⟨_,_,hres,_⟩ := resolve_miss htracks (by omega) hmiss
      rw [hres] at hok
      cases hok
  · rintro ⟨expiresAt,hlast,hnow⟩
    obtain ⟨pinned,hl,rfl,rfl⟩ := (held_iff_lastPinned hvalid (Nat.lt_of_succ_lt h)).mpr hlast
    have hm : (id,pinned) ∈ live nowSecs held :=
      List.mem_filter.mpr ⟨htracks.mem_iff.mp hl,decide_eq_true hnow⟩
    obtain ⟨_,_,hres,_⟩ := resolve_hit htracks (by omega) hm
    rw [hres]

/-- No expectation fails in the run, the books agree after each call, and each call is served as
its caller may expect. -/
def KeepsBooks (factSetId : View → FactSetId) (residentBytes : View → Option ℕ)
    (config : CursorConfig) (ops : List (RegistryOp View)) : Prop :=
  ∀ before, before <+: ops →
    run factSetId residentBytes config before =
      some (registryAfter factSetId residentBytes config before) ∧
    Books config (registryAfter factSetId residentBytes config before) ∧
    ∀ op, before++[op] <+: ops → Served factSetId residentBytes config before op

theorem registry_keeps_books (factSetId : View → FactSetId) (residentBytes : View → Option ℕ)
    (registry : CursorRegistry) (ops : List (RegistryOp View)) (h : ops.length < 2^64) :
    KeepsBooks factSetId residentBytes registry.config ops := by
  intro before hbefore
  obtain ⟨hrun,_,held,htracks,hwithin⟩ := run_spec factSetId residentBytes registry.valid
    (hbefore.length_le.trans_lt h)
  refine ⟨hrun,htracks.books hwithin,?_⟩
  intro op hop
  have hlen := hop.length_le
  rw [List.length_append,List.length_singleton] at hlen
  cases op with
  | pin view nowSecs => exact pin_served registry.valid (by omega) view nowSecs
  | resolve id nowSecs => exact resolve_served registry.valid (by omega) id nowSecs
  | prune nowSecs => trivial

def defaultRegistry : CursorRegistry := ⟨{},by decide,by decide,by decide⟩

def zeroId : FactSetId := ⟨Vector.replicate 32 0⟩

theorem registry_keeps_books_twice :
    KeepsBooks id (fun _ => some 1) defaultRegistry.config [.pin zeroId 0,.resolve zeroId 1] :=
  registry_keeps_books id (fun _ => some 1) defaultRegistry [.pin zeroId 0,.resolve zeroId 1]
    (by simp)

end CursorBooks
end PgKronika
