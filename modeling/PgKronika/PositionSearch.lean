import Mathlib

/-! Searches along the positions of a range: the positions that qualify, and those a search tries
until the first that succeeds. -/
namespace PgKronika
namespace PositionSearch

section Positions

variable {p : ℕ → Prop} [DecidablePred p] {lo mid hi n : ℕ}

/-- The qualifying positions from `lo` up to `hi`, ascending. -/
def positions (p : ℕ → Prop) [DecidablePred p] (lo hi : ℕ) : List ℕ :=
  (List.range' lo (hi-lo)).filter fun n => p n

theorem mem_positions : n ∈ positions p lo hi ↔ lo ≤ n ∧ n < hi ∧ p n := by
  rw [positions,List.mem_filter,List.mem_range'_1,decide_eq_true_eq,and_assoc]
  exact ⟨fun ⟨hlo,hhi,hp⟩ => ⟨hlo,by omega,hp⟩,fun ⟨hlo,hhi,hp⟩ => ⟨hlo,by omega,hp⟩⟩

theorem positions_append (h : lo ≤ mid) (h' : mid ≤ hi) :
    positions p lo mid ++ positions p mid hi = positions p lo hi := by
  have hsplit := @List.range'_append_1 lo (mid-lo) (hi-mid)
  rw [Nat.add_sub_cancel' h,show mid-lo + (hi-mid) = hi-lo by omega] at hsplit
  rw [positions,positions,positions,← List.filter_append,hsplit]

theorem positions_eq_nil (h : ∀ n, lo ≤ n → n < hi → ¬ p n) : positions p lo hi = [] :=
  List.eq_nil_iff_forall_not_mem.mpr fun n hn => by
    obtain ⟨hlo,hhi,hp⟩ := mem_positions.mp hn
    exact h n hlo hhi hp

theorem positions_self : positions p lo lo = [] :=
  positions_eq_nil fun n hlo hhi => by omega

/-- The first place where a position may qualify heads the list. -/
theorem positions_from (hlo : lo ≤ n) (hhi : n < hi) (h : ∀ m, lo ≤ m → m < n → ¬ p m) :
    positions p lo hi = (if p n then [n] else []) ++ positions p (n+1) hi := by
  rw [← positions_append hlo hhi.le,positions_eq_nil h,List.nil_append,
    ← positions_append (Nat.le_succ n) hhi,positions,show n.succ-n = 1 by omega]
  split_ifs with hp <;> simp [List.range'_one,hp]

theorem find_positions_some {ok : ℕ → Bool} (h : (positions p lo hi).find? ok = some n) :
    IsLeast {m | lo ≤ m ∧ m < hi ∧ p m ∧ ok m} n := by
  obtain ⟨hok,before,after,hsplit,hnot⟩ := List.find?_eq_some_iff_append.mp h
  have hmem := List.mem_of_find?_eq_some h
  obtain ⟨hlo,hhi,hp⟩ := mem_positions.mp hmem
  refine ⟨⟨hlo,hhi,hp,hok⟩,fun m ⟨hlo',hhi',hp',hok'⟩ => ?_⟩
  have hm := mem_positions.mpr ⟨hlo',hhi',hp'⟩
  have hsorted : (positions p lo hi).Pairwise (· < ·) := List.Pairwise.filter _ List.pairwise_lt_range'
  rw [hsplit] at hm hsorted
  rcases List.mem_append.mp hm with hm | hm
  · have hfail := hnot m hm
    rw [hok'] at hfail
    cases hfail
  · rcases List.mem_cons.mp hm with rfl | hm
    · exact le_refl _
    · exact (List.rel_of_pairwise_cons (List.pairwise_append.mp hsorted).2.1 hm).le

theorem find_positions_none {ok : ℕ → Bool} (h : (positions p lo hi).find? ok = none) {m : ℕ}
    (hlo : lo ≤ m) (hhi : m < hi) (hp : p m) : ok m = false :=
  Bool.eq_false_iff.mpr (List.find?_eq_none.mp h m (mem_positions.mpr ⟨hlo,hhi,hp⟩))

end Positions

section Tried

variable {α : Type} {ok : α → Bool} {xs ys : List α}

/-- What a search tries: everything up to its first success. -/
def tried (ok : α → Bool) : List α → List α
  | [] => []
  | x::xs => if ok x then [x] else x :: tried ok xs

theorem tried_append_of_none (h : xs.find? ok = none) :
    tried ok (xs ++ ys) = xs ++ tried ok ys := by
  induction xs with
  | nil => rfl
  | cons x xs ih =>
    rw [List.find?_cons] at h
    split at h
    · cases h
    · rename_i hx
      rw [List.cons_append,tried,if_neg (by simp [hx]),ih h,List.cons_append]

theorem tried_append_of_some {x : α} (h : xs.find? ok = some x) :
    tried ok (xs ++ ys) = tried ok xs := by
  induction xs with
  | nil => cases h
  | cons y xs ih =>
    rw [List.find?_cons] at h
    rw [List.cons_append,tried,tried]
    split at h
    · rename_i hy
      rw [if_pos hy,if_pos hy]
    · rename_i hy
      rw [if_neg (by simp [hy]),if_neg (by simp [hy]),ih h]

theorem tried_of_none (h : xs.find? ok = none) : tried ok xs = xs := by
  have happend := @tried_append_of_none _ ok xs [] h
  rwa [List.append_nil,tried,List.append_nil] at happend

end Tried

end PositionSearch
end PgKronika
