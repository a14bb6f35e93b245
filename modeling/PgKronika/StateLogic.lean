import Mathlib

/-! Rules for computations that read a changing state and may fail. A
specification bounds the errors as well as the results, so that the same proof
serves a state that may refuse and one that never does. -/
namespace PgKronika
namespace StateLogic

abbrev Reading (σ ε : Type) := StateT σ (Except ε)

variable {σ ε ε' α β : Type} {I : σ → Prop}

def fail (e : ε) : Reading σ ε α := fun _ => .error e

/-- Run `m` with its errors renamed. -/
def mapError (f : ε → ε') (m : Reading σ ε α) : Reading σ ε' α := fun s => (m s).mapError f

/-- From a state with `I`, a result satisfies `Q` in a state with `I`, and an error
satisfies `E`. -/
def Meets (I : σ → Prop) (E : ε → Prop) (m : Reading σ ε α) (Q : α → Prop) : Prop :=
  ∀ s, I s → match m s with
    | .ok (a,next) => I next ∧ Q a
    | .error e => E e

theorem Meets.pure {E : ε → Prop} {a : α} {Q : α → Prop} (h : Q a) :
    Meets I E (Pure.pure a) Q := fun _ hs => ⟨hs,h⟩

theorem Meets.fail {E : ε → Prop} {e : ε} {Q : α → Prop} (h : E e) :
    Meets I E (StateLogic.fail e) Q := fun _ _ => h

theorem Meets.bind {E : ε → Prop} {m : Reading σ ε α} {f : α → Reading σ ε β} {R : α → Prop}
    {Q : β → Prop} (hm : Meets I E m R) (hf : ∀ a, R a → Meets I E (f a) Q) :
    Meets I E (m >>= f) Q := by
  intro s hs
  have hh := hm s hs
  change match (m s >>= fun p => f p.1 p.2) with
    | .ok (a,next) => I next ∧ Q a
    | .error e => E e
  cases hms : m s with
  | error e => rw [hms] at hh; exact hh
  | ok p => rw [hms] at hh; exact hf p.1 hh.2 p.2 hh.1

theorem Meets.mono {E E' : ε → Prop} {m : Reading σ ε α} {Q Q' : α → Prop}
    (hm : Meets I E m Q) (hE : ∀ e, E e → E' e) (hQ : ∀ a, Q a → Q' a) : Meets I E' m Q' := by
  intro s hs
  have hh := hm s hs
  split at hh
  · exact ⟨hh.1,hQ _ hh.2⟩
  · exact hE _ hh

theorem Meets.weaken {E : ε → Prop} {m : Reading σ ε α} {Q Q' : α → Prop}
    (hm : Meets I E m Q) (hQ : ∀ a, Q a → Q' a) : Meets I E m Q' :=
  hm.mono (fun _ he => he) hQ

theorem Meets.mapError {E : ε → Prop} {E' : ε' → Prop} {f : ε → ε'} {m : Reading σ ε α}
    {Q : α → Prop} (hm : Meets I E m Q) (hE : ∀ e, E e → E' (f e)) :
    Meets I E' (StateLogic.mapError f m) Q := by
  intro s hs
  have hh := hm s hs
  unfold StateLogic.mapError
  cases hms : m s with
  | error e => rw [hms] at hh; exact hE e hh
  | ok p => rw [hms] at hh; exact hh

theorem Meets.ok {E : ε → Prop} {m : Reading σ ε α} {Q : α → Prop} {s next : σ} {a : α}
    (hm : Meets I E m Q) (hs : I s) (h : m s = .ok (a,next)) : Q a := by
  have hh := hm s hs
  rw [h] at hh
  exact hh.2

/-- A specification without errors gives a result. -/
theorem Meets.total {m : Reading σ ε α} {Q : α → Prop} {s : σ}
    (hm : Meets I (fun _ => False) m Q) (hs : I s) : ∃ a next, m s = .ok (a,next) ∧ Q a := by
  have hh := hm s hs
  cases hms : m s with
  | error e => rw [hms] at hh; exact hh.elim
  | ok p => rw [hms] at hh; exact ⟨p.1,p.2,rfl,hh.2⟩

theorem bind_apply_ok {m : Reading σ ε α} {f : α → Reading σ ε β} {s next : σ} {a : α}
    (h : m s = .ok (a,next)) : (m >>= f) s = f a next := by
  change (m s >>= fun p => f p.1 p.2) = f a next
  rw [h]; rfl

theorem mapError_apply_ok {f : ε → ε'} {m : Reading σ ε α} {s : σ} {r : α × σ}
    (h : m s = .ok r) : mapError f m s = .ok r := by
  rw [mapError,h]; rfl

end StateLogic
end PgKronika
