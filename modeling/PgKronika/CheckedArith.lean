import Mathlib

/-! Checked and saturating arithmetic on 64-bit counters, with counters read as
natural numbers. -/
namespace PgKronika
namespace CheckedArith

/-- A computation that succeeds does so at each of its steps. -/
theorem bind_ok {ε α β : Type} {x : Except ε α} {f : α → Except ε β} {b : β}
    (h : x >>= f = .ok b) : ∃ a, x = .ok a ∧ f a = .ok b := by
  cases x with
  | error e => cases h
  | ok a => exact ⟨a,rfl,h⟩

theorem map_ok {ε α β : Type} {x : Except ε α} {f : α → β} {b : β} (h : x.map f = .ok b) :
    ∃ a, x = .ok a ∧ f a = b := by
  cases x with
  | error e => cases h
  | ok a => exact ⟨a,rfl,Except.ok.inj h⟩

theorem mapError_ok {ε ε' α : Type} {x : Except ε α} {f : ε → ε'} {a : α} :
    x.mapError f = .ok a ↔ x = .ok a := by
  cases x <;> simp [Except.mapError]

theorem ok_of_isOk {ε α : Type} {a : Except ε α} (h : a.isOk = true) : ∃ r, a = .ok r := by
  cases a with
  | error e => cases h
  | ok r => exact ⟨r,rfl⟩

/-- Refuse where a condition holds. -/
def refuse {ε : Type} (e : ε) (p : Prop) [Decidable p] : Except ε Unit :=
  if p then .error e else .ok ()

theorem refuse_ok {ε : Type} {e : ε} {p : Prop} [Decidable p] {u : Unit} :
    refuse e p = .ok u ↔ ¬p := by
  by_cases h : p <;> simp [refuse,h]

theorem refuse_congr {ε : Type} {e : ε} {p q : Prop} [Decidable p] [Decidable q] (h : p ↔ q) :
    refuse e p = refuse e q := by
  by_cases hq : q <;> simp [refuse,h,hq]

/-- A mapping succeeds element by element. -/
theorem mapM_eq_ok {α β ε : Type} {f : α → Except ε β} {l : List α} {r : List β} :
    l.mapM f = .ok r ↔ List.Forall₂ (fun a b => f a = .ok b) l r := by
  induction l generalizing r with
  | nil =>
    rw [List.mapM_nil,List.forall₂_nil_left_iff]
    exact ⟨fun h => (Except.ok.inj h).symm,fun h => congrArg Except.ok h.symm⟩
  | cons a l ih =>
    rw [List.mapM_cons,List.forall₂_cons_left_iff]
    constructor
    · intro h
      obtain ⟨b,hb,h⟩ := bind_ok h
      obtain ⟨rest,hrest,h⟩ := bind_ok h
      cases h
      exact ⟨b,rest,hb,ih.mp hrest,rfl⟩
    · rintro ⟨b,rest,hb,hrest,rfl⟩
      rw [hb,ih.mpr hrest]
      rfl

/-- What every step of a fold keeps holds of the elements taken so far. -/
theorem foldlM_run {α β ε : Type} {f : β → α → Except ε β} (P : List α → β → Prop)
    (step : ∀ {done a s next}, P done s → f s a = .ok next → P (done++[a]) next) {l : List α}
    (done : List α) {b last : β} (hb : P done b) (h : l.foldlM f b = .ok last) :
    P (done++l) last := by
  induction l generalizing done b with
  | nil =>
    cases h
    simpa using hb
  | cons a l ih =>
    rw [List.foldlM_cons] at h
    obtain ⟨next,hnext,h⟩ := bind_ok h
    have hl := ih (done++[a]) (step hb hnext) h
    simpa using hl

/-- A fold that succeeds took each element from some state. -/
theorem foldlM_mem {α β ε : Type} {f : β → α → Except ε β} {l : List α} {b last : β}
    (h : l.foldlM f b = .ok last) : ∀ a ∈ l, ∃ s next, f s a = .ok next := by
  induction l generalizing b with
  | nil => simp
  | cons a l ih =>
    rw [List.foldlM_cons] at h
    obtain ⟨next,hnext,h⟩ := bind_ok h
    simp only [List.mem_cons,forall_eq_or_imp]
    exact ⟨⟨b,next,hnext⟩,ih h⟩

def u64Max : ℕ := 2^64 - 1

def checkedAdd (a b : ℕ) : Option ℕ := if a+b ≤ u64Max then some (a+b) else none

def checkedSub (a b : ℕ) : Option ℕ := if b ≤ a then some (a-b) else none

def checkedMul (a b : ℕ) : Option ℕ := if a*b ≤ u64Max then some (a*b) else none

def saturatingAdd (a b : ℕ) : ℕ := min (a+b) u64Max

theorem checkedAdd_of_le {a b : ℕ} (h : a+b ≤ u64Max) : checkedAdd a b = some (a+b) := if_pos h

theorem checkedMul_of_le {a b : ℕ} (h : a*b ≤ u64Max) : checkedMul a b = some (a*b) := if_pos h

theorem checkedSub_of_le {a b : ℕ} (h : b ≤ a) : checkedSub a b = some (a-b) := if_pos h

theorem checkedAdd_eq_some {a b c : ℕ} : checkedAdd a b = some c ↔ a+b = c ∧ c ≤ u64Max := by
  unfold checkedAdd
  split_ifs with h
  · simp only [Option.some.injEq]
    exact ⟨fun he => ⟨he,he ▸ h⟩,fun he => he.1⟩
  · simp only [false_iff,not_and]
    rintro rfl
    exact h

theorem checkedSub_eq_some {a b c : ℕ} : checkedSub a b = some c ↔ b ≤ a ∧ a-b = c := by
  unfold checkedSub
  split_ifs with h <;> simp [h]

theorem checkedMul_eq_some {a b c : ℕ} : checkedMul a b = some c ↔ a*b = c ∧ c ≤ u64Max := by
  unfold checkedMul
  split_ifs with h
  · simp only [Option.some.injEq]
    exact ⟨fun he => ⟨he,he ▸ h⟩,fun he => he.1⟩
  · simp only [false_iff,not_and]
    rintro rfl
    exact h

/-- A running total that stops at the first overflow. -/
def checkedSum (total : ℕ) : List ℕ → Option ℕ
  | [] => some total
  | x::xs => (checkedAdd total x).bind fun next => checkedSum next xs

theorem checkedSum_eq_some {total result : ℕ} {xs : List ℕ} (h : checkedSum total xs = some result) :
    result = total + xs.sum := by
  induction xs generalizing total with
  | nil => exact (Option.some.inj h).symm
  | cons x xs ih =>
    obtain ⟨next,hadd,hrest⟩ := Option.bind_eq_some_iff.mp h
    obtain ⟨rfl,_⟩ := checkedAdd_eq_some.mp hadd
    rw [ih hrest,List.sum_cons,Nat.add_assoc]

/-- No overflow on the way when the whole sum fits. -/
theorem checkedSum_of_le {total : ℕ} {xs : List ℕ} (h : total + xs.sum ≤ u64Max) :
    checkedSum total xs = some (total + xs.sum) := by
  induction xs generalizing total with
  | nil => rfl
  | cons x xs ih =>
    rw [List.sum_cons] at h ⊢
    rw [checkedSum,checkedAdd_of_le (by omega),Option.bind_some,ih (by omega)]
    congr 1; omega

end CheckedArith
end PgKronika
