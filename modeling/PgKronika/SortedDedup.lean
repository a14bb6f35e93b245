import Mathlib

/-! Sorting a list and dropping its repeats gives one canonical list for each set. -/
namespace PgKronika

variable {α : Type} [LinearOrder α]

/-- Drop each element that equals the one after it. -/
def dedupAdjacent : List α → List α
  | a::b::l => if a = b then dedupAdjacent (b::l) else a :: dedupAdjacent (b::l)
  | l => l

def sortDedup (l : List α) : List α := dedupAdjacent (l.mergeSort fun a b => decide (a ≤ b))

theorem mem_dedupAdjacent {a : α} {l : List α} : a ∈ dedupAdjacent l ↔ a ∈ l := by
  induction l with
  | nil => rfl
  | cons b l ih =>
    cases l with
    | nil => rfl
    | cons c l =>
      rw [dedupAdjacent]
      split_ifs with h
      · rw [ih,h]
        simp
      · rw [List.mem_cons,ih]
        exact List.mem_cons.symm

theorem length_dedupAdjacent_le (l : List α) : (dedupAdjacent l).length ≤ l.length := by
  induction l with
  | nil => exact le_refl _
  | cons a l ih =>
    cases l with
    | nil => exact le_refl _
    | cons b l =>
      rw [dedupAdjacent]
      split_ifs
      · exact ih.trans (Nat.le_succ _)
      · exact Nat.succ_le_succ ih

theorem dedupAdjacent_ascending {l : List α} (h : l.Pairwise (· ≤ ·)) :
    (dedupAdjacent l).Pairwise (· < ·) := by
  induction l with
  | nil => exact .nil
  | cons a l ih =>
    cases l with
    | nil => exact List.pairwise_singleton _ _
    | cons b l =>
      obtain ⟨hlow,hrest⟩ := List.pairwise_cons.mp h
      rw [dedupAdjacent]
      split_ifs with hab
      · exact ih hrest
      · refine List.pairwise_cons.mpr ⟨fun c hc => ?_,ih hrest⟩
        have hlt : a < b := lt_of_le_of_ne (hlow b (by simp)) hab
        rcases List.mem_cons.mp (mem_dedupAdjacent.mp hc) with rfl | hc
        · exact hlt
        · exact hlt.trans_le ((List.pairwise_cons.mp hrest).1 c hc)

theorem mem_sortDedup {a : α} {l : List α} : a ∈ sortDedup l ↔ a ∈ l := by
  rw [sortDedup,mem_dedupAdjacent,List.mem_mergeSort]

theorem length_sortDedup_le (l : List α) : (sortDedup l).length ≤ l.length :=
  (length_dedupAdjacent_le _).trans_eq (List.length_mergeSort l)

theorem sortDedup_ascending (l : List α) : (sortDedup l).Pairwise (· < ·) := by
  have htrans : ∀ a b c : α, decide (a ≤ b) = true → decide (b ≤ c) = true →
      decide (a ≤ c) = true := fun a b c hab hbc =>
    decide_eq_true (le_trans (of_decide_eq_true hab) (of_decide_eq_true hbc))
  have htotal : ∀ a b : α, (decide (a ≤ b) || decide (b ≤ a)) = true := fun a b => by
    rw [Bool.or_eq_true,decide_eq_true_iff,decide_eq_true_iff]
    exact le_total a b
  exact dedupAdjacent_ascending
    ((List.pairwise_mergeSort htrans htotal l).imp fun hab => of_decide_eq_true hab)

/-- Two ascending lists with the same members are the same. -/
theorem ascending_ext {l l' : List α} (h : l.Pairwise (· < ·)) (h' : l'.Pairwise (· < ·))
    (hmem : ∀ a, a ∈ l ↔ a ∈ l') : l = l' := h.eq_of_mem_iff h' hmem

theorem sortDedup_eq_iff {l l' : List α} :
    sortDedup l = sortDedup l' ↔ ∀ a, a ∈ l ↔ a ∈ l' := by
  constructor
  · intro h a
    rw [← mem_sortDedup,h,mem_sortDedup]
  · intro h
    exact ascending_ext (sortDedup_ascending l) (sortDedup_ascending l') fun a => by
      rw [mem_sortDedup,mem_sortDedup,h]

theorem sortDedup_of_ascending {l l' : List α} (h : l'.Pairwise (· < ·))
    (hmem : ∀ a, a ∈ l ↔ a ∈ l') : sortDedup l = l' :=
  ascending_ext (sortDedup_ascending l) h fun a => mem_sortDedup.trans (hmem a)

end PgKronika
