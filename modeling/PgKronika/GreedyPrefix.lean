import Mathlib

/-! The shortest prefix of a list whose weights reach a goal, or the whole list. -/
namespace PgKronika
namespace GreedyPrefix

variable {α : Type} (weight : α → ℕ)

/-- Elements are taken one by one while something of the goal is left. -/
def reach : ℕ → List α → List α
  | _, [] => []
  | goal, x::xs => if goal = 0 then [] else x::reach (goal - weight x) xs

variable {weight}

def total (weight : α → ℕ) (xs : List α) : ℕ := (xs.map weight).sum

@[simp] theorem total_nil : total weight [] = 0 := rfl

@[simp] theorem total_cons (x : α) (xs : List α) :
    total weight (x::xs) = weight x + total weight xs := List.sum_cons

@[simp] theorem total_append (xs ys : List α) :
    total weight (xs ++ ys) = total weight xs + total weight ys := by
  rw [total,List.map_append,List.sum_append,total,total]

theorem total_le_of_start {xs ys : List α} (h : xs <+: ys) : total weight xs ≤ total weight ys := by
  obtain ⟨zs,rfl⟩ := h
  rw [total_append]
  exact Nat.le_add_right _ _

theorem total_perm {xs ys : List α} (h : xs.Perm ys) : total weight xs = total weight ys :=
  (h.map weight).sum_eq

theorem total_congr {other : α → ℕ} {xs : List α} (h : ∀ x ∈ xs, weight x = other x) :
    total weight xs = total other xs := by
  rw [total,total,List.map_congr_left h]

theorem total_le_total {other : α → ℕ} (h : ∀ x, weight x ≤ other x) (xs : List α) :
    total weight xs ≤ total other xs :=
  List.sum_le_sum fun x _ => h x

/-- Weights that are only cut at `cap` add up to the same sums below `cap`. -/
theorem total_capped {other : α → ℕ} {cap : ℕ}
    (h : ∀ x, min (weight x) cap ≤ other x ∧ other x ≤ weight x) (xs : List α) :
    min (total weight xs) cap ≤ total other xs ∧ total other xs ≤ total weight xs := by
  refine ⟨?_,total_le_total (fun x => (h x).2) xs⟩
  induction xs with
  | nil => exact min_le_left _ _
  | cons x xs ih =>
    have hx := (h x).1
    rw [total_cons,total_cons]
    omega

theorem reach_zero (xs : List α) : reach weight 0 xs = [] := by
  cases xs with
  | nil => rfl
  | cons x xs => exact if_pos rfl

theorem reach_congr {other : α → ℕ} {xs : List α} (h : ∀ x ∈ xs, weight x = other x) (goal : ℕ) :
    reach weight goal xs = reach other goal xs := by
  induction xs generalizing goal with
  | nil => rfl
  | cons x xs ih =>
    rw [reach,reach,h x List.mem_cons_self,ih fun y hy => h y (List.mem_cons_of_mem x hy)]

theorem reach_starts (goal : ℕ) (xs : List α) : reach weight goal xs <+: xs := by
  induction xs generalizing goal with
  | nil => exact List.prefix_rfl
  | cons x xs ih =>
    rw [reach]
    split_ifs with h
    · exact List.nil_prefix
    · exact (List.prefix_cons_inj x).mpr (ih _)

theorem reach_enough (goal : ℕ) (xs : List α) :
    reach weight goal xs = xs ∨ goal ≤ total weight (reach weight goal xs) := by
  induction xs generalizing goal with
  | nil => exact .inl rfl
  | cons x xs ih =>
    rw [reach]
    split_ifs with h
    · exact .inr (h ▸ Nat.zero_le _)
    · rcases ih (goal - weight x) with hall | hle
      · exact .inl (congrArg (x::·) hall)
      · refine .inr ?_
        rw [total_cons]
        omega

/-- No shorter prefix reaches the goal. -/
theorem reach_minimal {goal : ℕ} {xs short : List α} {x : α}
    (h : short ++ [x] <+: reach weight goal xs) : total weight short < goal := by
  induction xs generalizing goal short with
  | nil =>
    rw [reach,List.prefix_nil] at h
    exact absurd h (List.append_ne_nil_of_right_ne_nil _ (List.cons_ne_nil _ _))
  | cons y xs ih =>
    rw [reach] at h
    split_ifs at h with hzero
    · exact absurd (List.prefix_nil.mp h) (List.append_ne_nil_of_right_ne_nil _ (List.cons_ne_nil _ _))
    · cases short with
      | nil => exact Nat.pos_of_ne_zero hzero
      | cons z short =>
        obtain ⟨rfl,hrest⟩ := List.cons_prefix_cons.mp h
        have hshort := ih hrest
        rw [total_cons]
        omega

/-- Every prefix that reaches the goal goes on from the greedy one. -/
theorem reach_least {goal : ℕ} {xs p : List α} (hp : p <+: xs)
    (henough : p = xs ∨ goal ≤ total weight p) : reach weight goal xs <+: p := by
  rcases henough with rfl | hgoal
  · exact reach_starts goal p
  rcases List.prefix_or_prefix_of_prefix (reach_starts goal xs) hp with hle | ⟨rest,hrest⟩
  · exact hle
  · cases rest with
    | nil =>
      rw [List.append_nil] at hrest
      exact hrest ▸ List.prefix_rfl
    | cons x rest =>
      have hlt : total weight p < goal := @reach_minimal _ weight goal xs p x
        ⟨rest,by rw [List.append_assoc,List.singleton_append,hrest]⟩
      omega

end GreedyPrefix
end PgKronika
