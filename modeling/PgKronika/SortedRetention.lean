import PgKronika.PartitionPoint
import PgKronika.SmallestKept

/-! The first elements of a list in the order of their keys, kept while the list streams by in a
sorted vector or in a heap. Both keep the same, whatever the order of the stream. -/
namespace PgKronika
namespace SmallestKept

section SortedRetention

variable {α κ : Type} [LinearOrder κ]

/-- Offer one element to a vector in order that holds at most `most`. -/
def retainSorted (key : α → κ) (most : ℕ) (top : List α) (c : α) : List α :=
  let index := partitionPoint (fun a => decide (key a < key c)) top
  if index < most then (top.insertIdx index c).take most else top

/-- The first elements in strict order, and all others behind them. -/
structure FirstBy (key : α → κ) (most : ℕ) (l kept : List α) : Prop where
  ascending : kept.Pairwise fun a b => key a < key b
  length : kept.length = min most l.length
  others : ∃ rest, l.Perm (kept ++ rest) ∧ ∀ a ∈ kept, ∀ b ∈ rest, key a < key b

variable {key : α → κ} {most : ℕ} {l l' : List α}

theorem firstBy_take (h : (l.map key).Nodup) (most : ℕ) :
    FirstBy key most l ((sortByKey key l).take most) where
  ascending := (sortByKey_strict h).sublist (List.take_sublist most _)
  length := by rw [List.length_take,(sortByKey_perm l).length_eq]
  others := by
    refine ⟨(sortByKey key l).drop most,?_,?_⟩
    · rw [List.take_append_drop]
      exact (sortByKey_perm l).symm
    · have hsplit := sortByKey_strict h
      rw [← List.take_append_drop most (sortByKey key l),List.pairwise_append] at hsplit
      exact hsplit.2.2

/-- The order of the input does not matter. -/
theorem sortByKey_eq_of_perm (h : (l.map key).Nodup) (hperm : l'.Perm l) :
    sortByKey key l' = sortByKey key l := by
  have h' : (l'.map key).Nodup := (hperm.map key).nodup_iff.mpr h
  apply List.Perm.eq_of_pairwise (fun a b _ _ hab hba => absurd hba (lt_asymm hab))
    (sortByKey_strict h') (sortByKey_strict h)
  exact (sortByKey_perm l').trans (hperm.trans (sortByKey_perm l).symm)

/-- An element goes in behind those with smaller keys. -/
theorem insertByKey_split (hinj : Function.Injective key) (c : α)
    (h : l.Pairwise fun a b => key a ≤ key b) :
    insertByKey key c l = l.takeWhile (fun a => decide (key a < key c)) ++
      c :: l.dropWhile (fun a => decide (key a < key c)) := by
  induction l with
  | nil => rfl
  | cons a l ih =>
    obtain ⟨hlow,hrest⟩ := List.pairwise_cons.mp h
    have hsplit := ih hrest
    rcases lt_trichotomy (key a) (key c) with hlt | heq | hlt
    · rw [insertByKey_behind (lt_asymm hlt),hsplit,List.takeWhile_cons_of_pos (by simpa using hlt),
        List.dropWhile_cons_of_pos (by simpa using hlt),List.cons_append]
    · obtain rfl := hinj heq
      have hnone : ∀ b ∈ l, ¬key b < key a := fun b hb => not_lt.mpr (hlow b hb)
      have htake : l.takeWhile (fun b => decide (key b < key a)) = [] := by
        cases l with
        | nil => rfl
        | cons b l => exact List.takeWhile_cons_of_neg (by simpa using hnone b List.mem_cons_self)
      have hdrop := List.takeWhile_append_dropWhile (p := fun b => decide (key b < key a)) (l := l)
      rw [htake,List.nil_append] at hdrop
      rw [insertByKey_behind (lt_irrefl _),hsplit,htake,hdrop]
      simp
    · rw [insertByKey_front hlt,List.takeWhile_cons_of_neg (by simpa using hlt.le),
        List.dropWhile_cons_of_neg (by simpa using hlt.le),List.nil_append]

theorem insertIdx_length (front back : List α) (c : α) :
    (front ++ back).insertIdx front.length c = front ++ c::back := by
  induction front with
  | nil => rfl
  | cons a front ih => simpa using ih

/-- Offering to the front of a sorted list is cutting the sorted list with the element in. -/
theorem retainSorted_take (hinj : Function.Injective key) (c : α)
    (h : l.Pairwise fun a b => key a ≤ key b) :
    retainSorted key most (l.take most) c = (insertByKey key c l).take most := by
  have hpart : Partitioned (fun a => decide (key a < key c)) (l.take most) :=
    .of_sorted (h.sublist (List.take_sublist most l)) fun a b hab hb => by
      simpa using hab.trans_lt (by simpa using hb)
  have hl := List.takeWhile_append_dropWhile (p := fun a => decide (key a < key c)) (l := l)
  rw [retainSorted,hpart.partitionPoint_eq,← List.take_takeWhile,insertByKey_split hinj c h]
  generalize l.takeWhile (fun a => decide (key a < key c)) = front at hl ⊢
  generalize l.dropWhile (fun a => decide (key a < key c)) = back at hl ⊢
  subst hl
  by_cases hshort : front.length < most
  · have hfront : front.take most = front := List.take_of_length_le hshort.le
    rw [hfront,if_pos hshort,List.take_append,hfront,List.take_append,hfront]
    rw [insertIdx_length,List.take_append,hfront]
    congr 1
    cases hgap : most-front.length with
    | zero => rfl
    | succ gap => simp [List.take_take]
  · have hlong : most ≤ front.length := not_lt.mp hshort
    rw [List.length_take,min_eq_left hlong,if_neg (lt_irrefl _),
      List.take_append_of_le_length hlong,List.take_append_of_le_length hlong]

/-- The vector holds what a heap would. -/
theorem foldl_retainSorted (hinj : Function.Injective key) (most : ℕ) (l : List α) :
    l.foldl (retainSorted key most) [] = (sortByKey key l).take most := by
  induction l using List.reverseRecOn with
  | nil => exact List.take_nil.symm
  | append_singleton l c ih =>
    rw [List.foldl_append,ih,sortByKey_append]
    exact retainSorted_take hinj c (sortByKey_ascending l)

end SortedRetention

end SmallestKept
end PgKronika
