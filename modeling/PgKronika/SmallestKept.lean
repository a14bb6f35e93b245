import Mathlib

/-! A bounded heap that keeps the elements with the smallest keys. Its elements, in order,
are the front of the sorted input. -/
namespace PgKronika
namespace SmallestKept

variable {α κ : Type} [LinearOrder κ] (key : α → κ)

/-- Behind every element with the same key. -/
def insertByKey (c : α) : List α → List α
  | [] => [c]
  | a::l => if key c < key a then c::a::l else a :: insertByKey c l

/-- Stable insertion sort. -/
def sortByKey (l : List α) : List α := l.foldl (fun s c => insertByKey key c s) []

/-- Offer one element to a heap of at most `cap`, kept in order. A full heap gives up its
worst element for a strictly smaller one. -/
def retain (cap : ℕ) (heap : List α) (c : α) : List α :=
  if heap.length < cap then insertByKey key c heap
  else
    match heap.getLast? with
    | none => heap
    | some worst => if key c < key worst then insertByKey key c heap.dropLast else heap

variable {key}

theorem insertByKey_front {a c : α} (h : key c < key a) (l : List α) :
    insertByKey key c (a::l) = c::a::l := if_pos h

theorem insertByKey_behind {a c : α} (h : ¬key c < key a) (l : List α) :
    insertByKey key c (a::l) = a :: insertByKey key c l := if_neg h

theorem insertByKey_perm (c : α) (l : List α) : (insertByKey key c l).Perm (c::l) := by
  induction l with
  | nil => exact .refl _
  | cons a l ih =>
    rw [insertByKey]
    split_ifs
    · exact .refl _
    · exact (ih.cons a).trans (.swap c a l)

theorem insertByKey_ascending {c : α} {l : List α} (h : l.Pairwise fun a b => key a ≤ key b) :
    (insertByKey key c l).Pairwise fun a b => key a ≤ key b := by
  induction l with
  | nil => exact List.pairwise_singleton _ _
  | cons a l ih =>
    obtain ⟨hlow,hrest⟩ := List.pairwise_cons.mp h
    rw [insertByKey]
    split_ifs with hlt
    · refine List.pairwise_cons.mpr ⟨fun b hb => ?_,h⟩
      rcases List.mem_cons.mp hb with rfl | hb
      · exact hlt.le
      · exact hlt.le.trans (hlow b hb)
    · refine List.pairwise_cons.mpr ⟨fun b hb => ?_,ih hrest⟩
      rcases List.mem_cons.mp ((insertByKey_perm c l).mem_iff.mp hb) with rfl | hb
      · exact not_lt.mp hlt
      · exact hlow b hb

theorem sortByKey_append (l : List α) (c : α) :
    sortByKey key (l ++ [c]) = insertByKey key c (sortByKey key l) := by
  rw [sortByKey,List.foldl_append]
  rfl

theorem sortByKey_perm (l : List α) : (sortByKey key l).Perm l := by
  induction l using List.reverseRecOn with
  | nil => exact .refl _
  | append_singleton l c ih =>
    rw [sortByKey_append]
    exact (insertByKey_perm c _).trans ((ih.cons c).trans (List.perm_append_singleton c l).symm)

theorem sortByKey_ascending (l : List α) :
    (sortByKey key l).Pairwise fun a b => key a ≤ key b := by
  induction l using List.reverseRecOn with
  | nil => exact .nil
  | append_singleton l c ih =>
    rw [sortByKey_append]
    exact insertByKey_ascending ih

theorem getLast?_cons_of_ne {a b : α} {l : List α} (h : l.getLast? = some b) :
    (a::l).getLast? = some b := by
  cases l with
  | nil => cases h
  | cons c l => exact h

/-- Offering to the front of a sorted list is cutting the sorted list with the element in. -/
theorem retain_take {l : List α} (h : l.Pairwise fun a b => key a ≤ key b) (cap : ℕ) (c : α) :
    retain key cap (l.take cap) c = (insertByKey key c l).take cap := by
  induction l generalizing cap with
  | nil =>
    cases cap with
    | zero => rfl
    | succ cap => simp [retain,insertByKey]
  | cons a l ih =>
    cases cap with
    | zero => rfl
    | succ cap =>
      obtain ⟨hlow,hrest⟩ := List.pairwise_cons.mp h
      have hih := ih hrest cap
      rw [List.take_succ_cons,retain,List.length_cons]
      rw [retain] at hih
      by_cases hlt : key c < key a
      · rw [insertByKey_front hlt,insertByKey_front hlt,List.take_succ_cons]
        by_cases hshort : (l.take cap).length < cap
        · rw [List.length_take] at hshort
          have hall : (a::l).take cap = a::l :=
            List.take_of_length_le (by rw [List.length_cons]; omega)
          have hl : l.take cap = l := List.take_of_length_le (by omega)
          rw [if_pos (by rw [List.length_take]; omega),hall,hl]
        · rw [if_neg (by omega)]
          have hfull : cap ≤ l.length := by
            rw [List.length_take] at hshort
            omega
          have hdrop : (a :: l.take cap).dropLast = (a::l).take cap := by
            rw [← List.take_succ_cons,List.dropLast_eq_take,List.take_take,List.length_take,
              List.length_cons]
            congr 1
            omega
          cases hlast : (a :: l.take cap).getLast? with
          | none => simp at hlast
          | some worst =>
            have hworst : key c < key worst := by
              rcases List.mem_cons.mp (List.mem_of_getLast? hlast) with rfl | hmem
              · exact hlt
              · exact hlt.trans_le (hlow worst (List.mem_of_mem_take hmem))
            dsimp only
            rw [if_pos hworst,hdrop]
            cases cap with
            | zero => rfl
            | succ cap => rw [List.take_succ_cons,insertByKey_front hlt]
      · rw [insertByKey_behind hlt,insertByKey_behind hlt,List.take_succ_cons,← hih]
        by_cases hshort : (l.take cap).length < cap
        · rw [if_pos (by omega),if_pos hshort]
        · rw [if_neg (by omega),if_neg hshort]
          cases hlast : (l.take cap).getLast? with
          | none =>
            rw [List.getLast?_eq_none_iff] at hlast
            rw [hlast]
            simp [hlt]
          | some worst =>
            rw [getLast?_cons_of_ne hlast]
            dsimp only
            split_ifs
            · have hne : l.take cap ≠ [] := by
                rintro he
                rw [he] at hlast
                cases hlast
              rw [List.dropLast_cons_of_ne_nil hne,insertByKey_behind hlt]
            · rfl

/-- The elements with the smallest keys, in order. -/
theorem foldl_retain (cap : ℕ) (l : List α) :
    l.foldl (retain key cap) [] = (sortByKey key l).take cap := by
  induction l using List.reverseRecOn with
  | nil => exact List.take_nil.symm
  | append_singleton l c ih =>
    rw [List.foldl_append,ih,sortByKey_append]
    exact retain_take (sortByKey_ascending l) cap c

/-- Elements with keys of their own stand in strict order. -/
theorem sortByKey_strict {l : List α} (h : (l.map key).Nodup) :
    (sortByKey key l).Pairwise fun a b => key a < key b := by
  have hne : (sortByKey key l).Pairwise fun a b => key a ≠ key b :=
    List.pairwise_map.mp (((sortByKey_perm l).map key).nodup_iff.mpr h)
  exact ((sortByKey_ascending l).and hne).imp fun hab => lt_of_le_of_ne hab.1 hab.2

/-- What stands behind the element at a place is the rest of the list. -/
theorem filter_behind {l : List α} (h : l.Pairwise fun a b => key a < key b) {i : ℕ}
    (hi : i < l.length) : l.filter (fun a => decide (key l[i] < key a)) = l.drop (i+1) := by
  induction l generalizing i with
  | nil => cases hi
  | cons a l ih =>
    obtain ⟨hlow,hrest⟩ := List.pairwise_cons.mp h
    cases i with
    | zero =>
      rw [List.getElem_cons_zero,List.filter_cons_of_neg (by simp),List.drop_succ_cons,
        List.drop_zero,List.filter_eq_self]
      exact fun b hb => decide_eq_true (hlow b hb)
    | succ i =>
      have hi' : i < l.length := Nat.lt_of_succ_lt_succ hi
      rw [List.getElem_cons_succ,List.filter_cons_of_neg ?_,List.drop_succ_cons]
      · exact ih hrest hi'
      · exact fun hlt => lt_asymm (of_decide_eq_true hlt) (hlow _ (List.getElem_mem hi'))

end SmallestKept
end PgKronika
