import Mathlib

/-! Requests that change a state and may fail. A failed request keeps what it has changed so far. -/
namespace PgKronika
namespace KeptState

/-- A computation on a state; the state remains when it fails. -/
def Request (σ ε α : Type) : Type := σ → Except ε α × σ

variable {σ τ ε ε' α β : Type}

def Request.pure (a : α) : Request σ ε α := fun s => (.ok a,s)

def Request.fail (e : ε) : Request σ ε α := fun s => (.error e,s)

def Request.bind (m : Request σ ε α) (f : α → Request σ ε β) : Request σ ε β := fun s =>
  match m s with
  | (.ok a,t) => f a t
  | (.error e,t) => (.error e,t)

instance : Monad (Request σ ε) where
  pure := Request.pure
  bind := Request.bind

/-- Change the state. -/
def modify (f : σ → σ) : Request σ ε Unit := fun s => (.ok (),f s)

/-- A result that does not depend on the state. -/
def lift : Except ε α → Request σ ε α
  | .ok a => Request.pure a
  | .error e => Request.fail e

def mapError (f : ε → ε') (m : Request σ ε α) : Request σ ε' α := fun s =>
  match m s with
  | (.ok a,t) => (.ok a,t)
  | (.error e,t) => (.error (f e),t)

/-- A request on a part of the state. -/
def zoom (get : σ → τ) (put : τ → σ → σ) (m : Request τ ε α) : Request σ ε α := fun s =>
  ((m (get s)).1,put (m (get s)).2 s)

@[simp] theorem pure_apply (a : α) (s : σ) : (pure a : Request σ ε α) s = (.ok a,s) := rfl

@[simp] theorem fail_apply (e : ε) (s : σ) : (Request.fail e : Request σ ε α) s = (.error e,s) := rfl

@[simp] theorem modify_apply (f : σ → σ) (s : σ) :
    (modify f : Request σ ε Unit) s = (.ok (),f s) := rfl

@[simp] theorem lift_ok (a : α) (s : σ) : (lift (.ok a) : Request σ ε α) s = (.ok a,s) := rfl

@[simp] theorem lift_error (e : ε) (s : σ) :
    (lift (.error e) : Request σ ε α) s = (.error e,s) := rfl

theorem bind_apply (m : Request σ ε α) (f : α → Request σ ε β) (s : σ) :
    (m >>= f) s = match m s with
      | (.ok a,t) => f a t
      | (.error e,t) => (.error e,t) := rfl

theorem bind_assoc {γ : Type} (m : Request σ ε α) (f : α → Request σ ε β) (g : β → Request σ ε γ) :
    (m >>= f) >>= g = m >>= fun a => f a >>= g := by
  funext s
  simp only [bind_apply]
  rcases m s with ⟨_ | _,_⟩ <;> rfl

theorem bind_of_ok {m : Request σ ε α} {f : α → Request σ ε β} {s t : σ} {a : α}
    (h : m s = (.ok a,t)) : (m >>= f) s = f a t := by
  rw [bind_apply,h]

theorem bind_of_error {m : Request σ ε α} {f : α → Request σ ε β} {s t : σ} {e : ε}
    (h : m s = (.error e,t)) : (m >>= f) s = (.error e,t) := by
  rw [bind_apply,h]

theorem bind_eq_ok {m : Request σ ε α} {f : α → Request σ ε β} {s u : σ} {b : β} :
    (m >>= f) s = (.ok b,u) ↔ ∃ a t, m s = (.ok a,t) ∧ f a t = (.ok b,u) := by
  rw [bind_apply]
  rcases hm : m s with ⟨_ | a,t⟩ <;> simp

theorem bind_eq_error {m : Request σ ε α} {f : α → Request σ ε β} {s u : σ} {e : ε} :
    (m >>= f) s = (.error e,u) ↔ m s = (.error e,u) ∨ ∃ a t, m s = (.ok a,t) ∧ f a t = (.error e,u) := by
  rw [bind_apply]
  rcases hm : m s with ⟨_ | a,t⟩ <;> simp

theorem lift_ok_bind (a : α) (f : α → Request σ ε β) : lift (.ok a) >>= f = f a := rfl

theorem lift_error_bind (e : ε) (f : α → Request σ ε β) :
    lift (.error e) >>= f = Request.fail e := rfl

theorem lift_bind_eq_ok {x : Except ε α} {f : α → Request σ ε β} {s u : σ} {b : β} :
    (lift x >>= f) s = (.ok b,u) ↔ ∃ a, x = .ok a ∧ f a s = (.ok b,u) := by
  cases x with
  | ok a => simp [lift_ok_bind]
  | error e => simp [lift_error_bind]

theorem mapError_eq_ok {f : ε → ε'} {m : Request σ ε α} {s t : σ} {a : α} :
    mapError f m s = (.ok a,t) ↔ m s = (.ok a,t) := by
  rw [mapError]
  rcases m s with ⟨_ | _,_⟩ <;> simp

/-- From a state with `P`, a result satisfies `Q` with the state behind it, and a failure leaves a
state with `E`. -/
def Triple (P : σ → Prop) (m : Request σ ε α) (Q : α → σ → Prop) (E : σ → Prop) : Prop :=
  ∀ s, P s → match m s with
    | (.ok a,t) => Q a t
    | (.error _,t) => E t

section Triples

variable {P E : σ → Prop} {m : Request σ ε α} {Q : α → σ → Prop}

theorem Triple.pure {a : α} : Triple (Q a) (Pure.pure a : Request σ ε α) Q E := fun _ => id

theorem Triple.fail {e : ε} : Triple E (Request.fail e : Request σ ε α) Q E := fun _ => id

theorem Triple.lift {a : Except ε α} (h : ∀ s, P s → E s ∧ ∀ b, a = .ok b → Q b s) :
    Triple P (KeptState.lift a) Q E := by
  intro s hs
  cases a with
  | ok a => exact (h s hs).2 a rfl
  | error e => exact (h s hs).1

theorem Triple.modify {f : σ → σ} {Q : Unit → σ → Prop} :
    Triple (fun s => Q () (f s)) (KeptState.modify f : Request σ ε Unit) Q E := fun _ => id

theorem Triple.bind {f : α → Request σ ε β} {R : β → σ → Prop} (hm : Triple P m Q E)
    (hf : ∀ a, Triple (Q a) (f a) R E) : Triple P (m >>= f) R E := by
  intro s hs
  have hh := hm s hs
  rw [bind_apply]
  rcases h : m s with ⟨e | a,t⟩
  · rw [h] at hh
    exact hh
  · rw [h] at hh
    exact hf a t hh

theorem Triple.weaken {P' E' : σ → Prop} {Q' : α → σ → Prop} (hm : Triple P m Q E)
    (hP : ∀ s, P' s → P s) (hQ : ∀ a s, Q a s → Q' a s) (hE : ∀ s, E s → E' s) :
    Triple P' m Q' E' := by
  intro s hs
  have hh := hm s (hP s hs)
  rcases h : m s with ⟨e | a,t⟩
  · rw [h] at hh
    exact hE t hh
  · rw [h] at hh
    exact hQ a t hh

theorem Triple.foldlM {f : β → α → Request σ ε β} {l : List α} {I : β → σ → Prop}
    (hf : ∀ b, ∀ a ∈ l, Triple (I b) (f b a) I E) (b : β) : Triple (I b) (l.foldlM f b) I E := by
  induction l generalizing b with
  | nil => exact Triple.pure
  | cons a l ih =>
    rw [List.foldlM_cons]
    exact (hf b a (by simp)).bind fun next => ih (fun b a ha => hf b a (by simp [ha])) next

theorem Triple.mapError {f : ε → ε'} (hm : Triple P m Q E) :
    Triple P (KeptState.mapError f m) Q E := by
  intro s hs
  have hh := hm s hs
  rw [KeptState.mapError]
  rcases h : m s with ⟨e | a,t⟩ <;> rwa [h] at hh

theorem Triple.zoom {get : τ → σ} {put : σ → τ → τ} (hget : ∀ s t, get (put s t) = s)
    (hm : Triple P m Q E) :
    Triple (fun t => P (get t)) (KeptState.zoom get put m) (fun a t => Q a (get t))
      fun t => E (get t) := by
  intro t ht
  have hh := hm (get t) ht
  rw [KeptState.zoom]
  rcases h : m (get t) with ⟨e | a,s⟩
  · rw [h] at hh
    simpa [hget] using hh
  · rw [h] at hh
    simpa [hget] using hh

theorem Triple.ok {s t : σ} {a : α} (hm : Triple P m Q E) (hs : P s) (h : m s = (.ok a,t)) :
    Q a t := by
  have hh := hm s hs
  rwa [h] at hh

/-- A property both outcomes leave holds of the state that remains. -/
theorem Triple.after {I : σ → Prop} {s : σ} (hm : Triple P m (fun _ => I) I) (hs : P s) :
    I (m s).2 := by
  have hh := hm s hs
  rcases h : m s with ⟨_ | _,_⟩ <;> rwa [h] at hh

end Triples

/-- The request fails with `E`. -/
def Fails (E : ε → Prop) (m : Request σ ε α) (s : σ) : Prop := ∃ e t, m s = (.error e,t) ∧ E e

theorem Fails.bind_left {E : ε → Prop} {m : Request σ ε α} {s : σ} (h : Fails E m s)
    (f : α → Request σ ε β) : Fails E (m >>= f) s := by
  obtain ⟨e,t,hm,he⟩ := h
  exact ⟨e,t,bind_of_error hm,he⟩

theorem Fails.bind_right {E : ε → Prop} {m : Request σ ε α} {f : α → Request σ ε β} {s t : σ} {a : α}
    (hm : m s = (.ok a,t)) (h : Fails E (f a) t) : Fails E (m >>= f) s := by
  obtain ⟨e,u,hf,he⟩ := h
  exact ⟨e,u,(bind_of_ok hm).trans hf,he⟩

section Steady

variable [Preorder σ] {F E : ε → Prop}

/-- A success is repeated from all smaller states. A failure other than `F` is one with `E`, and is
repeated with `E`. -/
def Steady (F E : ε → Prop) (m : Request σ ε α) : Prop :=
  ∀ s t, s ≤ t → match m t with
    | (.ok a,u) => t ≤ u ∧ ∃ r, m s = (.ok a,r) ∧ r ≤ u
    | (.error e,_) => F e ∨ E e ∧ Fails E m s

theorem Steady.pure (a : α) : Steady F E (Pure.pure a : Request σ ε α) :=
  fun s t h => ⟨le_refl t,s,rfl,h⟩

theorem Steady.lift {a : Except ε α} (h : ∀ e, a = .error e → E e) :
    Steady F E (KeptState.lift a : Request σ ε α) := by
  intro s t hs
  cases a with
  | ok a => exact ⟨le_refl t,s,rfl,hs⟩
  | error e => exact .inr ⟨h e rfl,e,s,rfl,h e rfl⟩

theorem Steady.ok {m : Request σ ε α} (hm : Steady F E m) {s t u : σ} {a : α} (hs : s ≤ t)
    (h : m t = (.ok a,u)) : t ≤ u ∧ ∃ r, m s = (.ok a,r) ∧ r ≤ u := by
  have hh := hm s t hs
  rwa [h] at hh

theorem Steady.error {m : Request σ ε α} (hm : Steady F E m) {s t u : σ} {e : ε} (hs : s ≤ t)
    (h : m t = (.error e,u)) (he : ¬F e) : E e ∧ Fails E m s := by
  have hh := hm s t hs
  rw [h] at hh
  exact hh.resolve_left he

theorem Steady.bind {m : Request σ ε α} {f : α → Request σ ε β} (hm : Steady F E m)
    (hf : ∀ a, Steady F E (f a)) : Steady F E (m >>= f) := by
  intro s t hs
  rcases h : m t with ⟨e | a,u⟩
  · rw [bind_of_error h]
    by_cases he : F e
    · exact .inl he
    · exact .inr ((hm.error hs h he).imp_right fun hfails => hfails.bind_left f)
  · rw [bind_of_ok h]
    obtain ⟨htu,r,hr,hru⟩ := hm.ok hs h
    rcases hfa : f a u with ⟨e | b,v⟩
    · by_cases he : F e
      · exact .inl he
      · exact .inr (((hf a).error hru hfa he).imp_right fun hfails => hfails.bind_right hr)
    · obtain ⟨huv,q,hq,hqv⟩ := (hf a).ok hru hfa
      exact ⟨le_trans htu huv,q,(bind_of_ok hr).trans hq,hqv⟩

theorem Steady.foldlM {f : β → α → Request σ ε β} (hf : ∀ b a, Steady F E (f b a)) (l : List α)
    (b : β) : Steady F E (l.foldlM f b) := by
  induction l generalizing b with
  | nil => exact Steady.pure b
  | cons a l ih =>
    rw [List.foldlM_cons]
    exact (hf b a).bind ih

end Steady

section Tracks

variable {ι ρ ν : Type} {F E : ε → Prop} {R : ι → ρ → σ → τ → Prop} {m : ι → ρ → Request σ ε α}
  {n : Request τ ε β} {Q : ι → α → β → σ → τ → Prop}

/-- Where `n` succeeds so does each `m i`, with a related result. Where it fails otherwise than with
`F`, it fails with `E` and so does some `m i`. -/
def Tracks (F E : ε → Prop) (R : ι → ρ → σ → τ → Prop) (m : ι → ρ → Request σ ε α)
    (n : Request τ ε β) (Q : ι → α → β → σ → τ → Prop) : Prop :=
  ∀ t, match n t with
    | (.ok b,u) => ∀ i r s, R i r s t → ∃ a s', m i r s = (.ok a,s') ∧ Q i a b s' u
    | (.error e,_) => F e ∨ E e ∧ ∃ i, ∀ r s, R i r s t → Fails E (m i r) s

theorem Tracks.ok (h : Tracks F E R m n Q) {t u : τ} {b : β} (hn : n t = (.ok b,u)) {i : ι} {r : ρ}
    {s : σ} (hs : R i r s t) : ∃ a s', m i r s = (.ok a,s') ∧ Q i a b s' u := by
  have hh := h t
  rw [hn] at hh
  exact hh i r s hs

theorem Tracks.error (h : Tracks F E R m n Q) {t u : τ} {e : ε} (hn : n t = (.error e,u))
    (he : ¬F e) : E e ∧ ∃ i, ∀ r s, R i r s t → Fails E (m i r) s := by
  have hh := h t
  rw [hn] at hh
  exact hh.resolve_left he

theorem Tracks.bind {f : ι → α → Request σ ε ν} {ξ : Type} {g : β → Request τ ε ξ}
    {Q' : ι → ν → ξ → σ → τ → Prop} (h : Tracks F E R m n Q)
    (hg : ∀ b, Tracks F E (fun i a => Q i a b) f (g b) Q') :
    Tracks F E R (fun i r => m i r >>= f i) (n >>= g) Q' := by
  intro t
  rcases hn : n t with ⟨e | b,u⟩
  · rw [bind_of_error hn]
    by_cases he : F e
    · exact .inl he
    · obtain ⟨hE,i,hi⟩ := h.error hn he
      exact .inr ⟨hE,i,fun r s hs => (hi r s hs).bind_left (f i)⟩
  · rw [bind_of_ok hn]
    rcases hgb : g b u with ⟨e | c,v⟩
    · by_cases he : F e
      · exact .inl he
      · obtain ⟨hE,i,hi⟩ := (hg b).error hgb he
        refine .inr ⟨hE,i,fun r s hs => ?_⟩
        obtain ⟨a,s',hm,hQ⟩ := h.ok hn hs
        exact (hi a s' hQ).bind_right hm
    · intro i r s hs
      obtain ⟨a,s',hm,hQ⟩ := h.ok hn hs
      obtain ⟨d,s'',hf,hQ'⟩ := (hg b).ok hgb hQ
      exact ⟨d,s'',(bind_of_ok hm).trans hf,hQ'⟩

/-- Folds over one list. -/
theorem Tracks.foldlM {l : List ν} {f : ι → α → ν → Request σ ε α} {g : β → ν → Request τ ε β}
    (h : ∀ b, ∀ x ∈ l, Tracks F E (fun i a => Q i a b) (fun i a => f i a x) (g b x) Q) (b : β) :
    Tracks F E (fun i a => Q i a b) (fun i a => l.foldlM (f i) a) (l.foldlM g b) Q := by
  induction l generalizing b with
  | nil => exact fun t i a s hs => ⟨a,s,rfl,hs⟩
  | cons x l ih =>
    simp only [List.foldlM_cons]
    exact (h b x (by simp)).bind (ih fun b x hx => h b x (by simp [hx]))

end Tracks

end KeptState
end PgKronika
