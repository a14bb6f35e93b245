import PgKronika.SmallestKept

/-! Cutting a list to the front of its sorted order, time and again while more comes in, leaves the
front of all that came. The order is a comparison that tells all elements apart. -/
namespace PgKronika
namespace SortedFront

open SmallestKept Std

section Fronts

variable {α : Type} (cmp : α → α → Ordering) (l : List α)

/-- A stable sort by a comparison. -/
def sortBy : List α := l.mergeSort fun a b => (cmp a b).isLE

/-- The first elements in the order of a comparison. -/
def front (limit : ℕ) : List α := (sortBy cmp l).take limit

theorem sortBy_perm : (sortBy cmp l).Perm l := List.mergeSort_perm l _

theorem front_length (limit : ℕ) : (front cmp l limit).length = min limit l.length := by
  rw [front,List.length_take,(sortBy_perm cmp l).length_eq]

theorem sortBy_ascending [TransCmp cmp] : (sortBy cmp l).Pairwise fun a b => (cmp a b).isLE := by
  apply List.pairwise_mergeSort
  · exact fun a b c hab hbc => TransCmp.isLE_trans hab hbc
  · intro a b
    rw [@OrientedCmp.eq_swap _ cmp _ a b]
    cases cmp b a <;> rfl

end Fronts

section Lawful

variable {α β : Type} {cmp : α → α → Ordering} [TransCmp cmp] [LawfulEqCmp cmp] {limit : ℕ}
  {l m : List α}

theorem eq_of_isLE {a b : α} (hab : (cmp a b).isLE = true) (hba : (cmp b a).isLE = true) : a = b :=
  LawfulEqCmp.eq_of_compare (OrientedCmp.isLE_antisymm hab hba)

/-- There is one list in order of given elements. -/
theorem eq_sortBy {s : List α} (hperm : s.Perm l) (hs : s.Pairwise fun a b => (cmp a b).isLE) :
    s = sortBy cmp l :=
  (hperm.trans (sortBy_perm cmp l).symm).eq_of_pairwise (fun _ _ _ _ => eq_of_isLE) hs
    (sortBy_ascending cmp l)

theorem front_of_perm (h : l.Perm m) : front cmp l limit = front cmp m limit := by
  rw [front,front,eq_sortBy ((sortBy_perm cmp l).trans h) (sortBy_ascending cmp l)]

theorem front_idem : front cmp (front cmp l limit) limit = front cmp l limit := by
  have hs : (front cmp l limit).Pairwise fun a b => (cmp a b).isLE :=
    (sortBy_ascending cmp l).sublist (List.take_sublist limit _)
  rw [front,← eq_sortBy (.refl _) hs,front,List.take_take,Nat.min_self]

/-- The linear order of a comparison. -/
abbrev orderOf (cmp : α → α → Ordering) [TransCmp cmp] [LawfulEqCmp cmp] : LinearOrder α where
  le a b := (cmp a b).isLE = true
  le_refl a := by simp [@ReflCmp.compare_self _ cmp _ a]
  le_trans a b c hab hbc := TransCmp.isLE_trans hab hbc
  le_antisymm a b hab hba := eq_of_isLE hab hba
  le_total a b := by
    rw [@OrientedCmp.eq_swap _ cmp _ a b]
    cases cmp b a <;> simp
  toDecidableLE a b := instDecidableEqBool _ true

/-- The front is what a heap of its size keeps. -/
theorem front_eq_retain (l : List α) :
    front cmp l limit = l.foldl (@retain α α (orderOf cmp) id limit) [] := by
  let order := orderOf cmp
  have hs : (sortByKey (id : α → α) l).Pairwise fun a b => (cmp a b).isLE :=
    @sortByKey_ascending α α order id l
  rw [foldl_retain,eq_sortBy (sortByKey_perm l) hs,front]

/-- What is cut off first is not in the front later. -/
theorem front_append (l m : List α) :
    front cmp (front cmp l limit ++ m) limit = front cmp (l ++ m) limit := by
  rw [front_eq_retain (_ ++ m),List.foldl_append,← front_eq_retain,front_idem,
    front_eq_retain l,front_eq_retain (l ++ m),List.foldl_append]

theorem front_append_congr {l' : List α} (h : front cmp l limit = front cmp l' limit) (m : List α) :
    front cmp (l ++ m) limit = front cmp (l' ++ m) limit := by
  rw [← front_append l,h,front_append]

end Lawful

/-- A map that respects the comparisons takes fronts to fronts. -/
theorem front_map {α β : Type} {cmp : α → α → Ordering} {cmp' : β → β → Ordering} [TransCmp cmp]
    [TransCmp cmp'] [LawfulEqCmp cmp'] {f : α → β} (hf : ∀ a b, cmp' (f a) (f b) = cmp a b)
    (l : List α) (limit : ℕ) : front cmp' (l.map f) limit = (front cmp l limit).map f := by
  have hs : ((sortBy cmp l).map f).Pairwise fun a b => (cmp' a b).isLE :=
    List.pairwise_map.2 ((sortBy_ascending cmp l).imp fun {a b} hab => by rwa [hf])
  rw [front,front,← eq_sortBy ((sortBy_perm cmp l).map f) hs,List.map_take]

end SortedFront
end PgKronika
