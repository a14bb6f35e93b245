import PgKronika.PartitionPoint

/-! Slices between partition points. Where the matches come first, the slice between the points of
two predicates holds what matches the one and not the other. -/
namespace PgKronika

section SortedSlices

variable {α β : Type} {p q : α → Bool} {xs : List α}

/-- The elements from `first` up to `stop`, unless these are out of order or out of range. -/
def subslice (xs : List α) (first stop : ℕ) : Option (List α) :=
  if first ≤ stop ∧ stop ≤ xs.length then some ((xs.take stop).drop first) else none

theorem partitionPointIn_map (f : α → β) (p : β → Bool) (fuel lo hi : ℕ) :
    partitionPointIn p (xs.map f) fuel lo hi = partitionPointIn (fun x => p (f x)) xs fuel lo hi := by
  induction fuel generalizing lo hi with
  | zero => rfl
  | succ fuel ih =>
    rw [partitionPointIn,partitionPointIn]
    simp only [ih,List.getElem?_map,Option.any_map]

theorem partitionPoint_map (f : α → β) (p : β → Bool) :
    partitionPoint p (xs.map f) = partitionPoint (fun x => p (f x)) xs := by
  rw [partitionPoint,partitionPoint,partitionPointIn_map,List.length_map]

theorem Partitioned.or (hp : Partitioned p xs) (hq : Partitioned q xs) :
    Partitioned (fun x => p x || q x) xs := by
  apply List.Pairwise.imp _ (List.Pairwise.and hp hq)
  intro a b h hb
  rcases Bool.or_eq_true_iff.mp hb with hb | hb
  · simp [h.1 hb]
  · simp [h.2 hb]

theorem Partitioned.drop_partitionPoint (h : Partitioned p xs) :
    xs.drop (partitionPoint p xs) = xs.filter fun x => !p x := by
  have hfront : (xs.takeWhile p).filter (fun x => !p x) = [] :=
    List.filter_eq_nil_iff.mpr fun x hx => by simp [List.mem_takeWhile_imp hx]
  have hback : (xs.dropWhile p).filter (fun x => !p x) = xs.dropWhile p :=
    List.filter_eq_self.mpr fun x hx => by simp [h.dropWhile_not x hx]
  have hsplit := List.takeWhile_append_dropWhile (p := p) (l := xs)
  rw [h.partitionPoint_eq]
  calc xs.drop (xs.takeWhile p).length
      = (xs.takeWhile p ++ xs.dropWhile p).drop (xs.takeWhile p).length := by rw [hsplit]
    _ = xs.dropWhile p := List.drop_left
    _ = (xs.takeWhile p ++ xs.dropWhile p).filter fun x => !p x := by
      rw [List.filter_append,hfront,hback,List.nil_append]
    _ = xs.filter fun x => !p x := by rw [hsplit]

/-- The nearer point is the one of the stronger predicate. -/
theorem Partitioned.imp_of_le (hp : Partitioned p xs) (hq : Partitioned q xs)
    (h : partitionPoint p xs ≤ partitionPoint q xs) : ∀ x ∈ xs, p x → q x := by
  intro x hx hpx
  have hmem : x ∈ xs.take (partitionPoint p xs) := by
    rw [hp.take_partitionPoint]
    exact List.mem_filter.mpr ⟨hx,hpx⟩
  have hmore : x ∈ xs.take (partitionPoint q xs) := (List.take_subset_take_left xs h) hmem
  rw [hq.take_partitionPoint] at hmore
  exact (List.mem_filter.mp hmore).2

theorem Partitioned.partitionPoint_filter (h : Partitioned p xs) :
    partitionPoint p xs = (xs.filter p).length := by
  rw [h.partitionPoint_eq,h.takeWhile_eq_filter]

theorem Partitioned.partitionPoint_mono (hp : Partitioned p xs) (hq : Partitioned q xs)
    (h : ∀ x ∈ xs, p x → q x) : partitionPoint p xs ≤ partitionPoint q xs := by
  rw [hp.partitionPoint_filter,hq.partitionPoint_filter,← List.countP_eq_length_filter,
    ← List.countP_eq_length_filter]
  exact List.countP_mono_left h

theorem Partitioned.partitionPoint_congr (hp : Partitioned p xs) (hq : Partitioned q xs)
    (h : ∀ x ∈ xs, p x = q x) : partitionPoint p xs = partitionPoint q xs := by
  rw [hp.partitionPoint_filter,hq.partitionPoint_filter,List.filter_congr h]

/-- The farther of two points is the point of either predicate. -/
theorem Partitioned.partitionPoint_or (hp : Partitioned p xs) (hq : Partitioned q xs) :
    partitionPoint (fun x => p x || q x) xs = max (partitionPoint p xs) (partitionPoint q xs) := by
  rcases le_total (partitionPoint p xs) (partitionPoint q xs) with hle | hle
  · rw [max_eq_right hle]
    apply (hp.or hq).partitionPoint_congr hq
    intro x hx
    have himp := hp.imp_of_le hq hle x hx
    cases hpx : p x <;> simp_all
  · rw [max_eq_left hle]
    apply (hp.or hq).partitionPoint_congr hp
    intro x hx
    have himp := hq.imp_of_le hp hle x hx
    cases hqx : q x <;> simp_all

/-- A slice between two points. -/
theorem subslice_between (hp : Partitioned p xs) (hq : Partitioned q xs) (h : ∀ x ∈ xs, p x → q x)
    (f : α → β) : subslice (xs.map f) (partitionPoint p xs) (partitionPoint q xs) =
      some ((xs.filter fun x => q x && !p x).map f) := by
  have hle := hp.partitionPoint_mono hq h
  have hlen := hq.partitionPoint_le
  have hinner : Partitioned p (xs.filter q) := List.Pairwise.filter q hp
  have hpoint : partitionPoint p (xs.filter q) = partitionPoint p xs := by
    rw [hinner.partitionPoint_filter,hp.partitionPoint_filter,List.filter_filter]
    apply congrArg List.length
    apply List.filter_congr
    intro x hx
    have himp := h x hx
    cases hpx : p x <;> simp_all
  rw [subslice,List.length_map,if_pos ⟨hle,hlen⟩,← List.map_take,← List.map_drop,
    hq.take_partitionPoint,← hpoint,hinner.drop_partitionPoint,List.filter_filter]
  simp only [Bool.and_comm]

/-- What a predicate leaves out comes behind what it takes. -/
theorem Partitioned.filter_split (h : Partitioned p xs) (r : α → Bool) :
    xs.filter r = xs.filter (fun x => r x && p x) ++ xs.filter fun x => r x && !p x := by
  have hsplit := List.take_append_drop (partitionPoint p xs) xs
  rw [h.take_partitionPoint,h.drop_partitionPoint] at hsplit
  calc xs.filter r = (xs.filter p ++ xs.filter fun x => !p x).filter r := by rw [hsplit]
    _ = _ := by rw [List.filter_append,List.filter_filter,List.filter_filter]

/-- The element before the point is the last one that matches. -/
theorem Partitioned.last_match (h : Partitioned p xs) :
    (if partitionPoint p xs = 0 then none else xs[partitionPoint p xs-1]?) =
      (xs.filter p).getLast? := by
  have hle := h.partitionPoint_le
  rw [← h.take_partitionPoint,List.getLast?_take]
  by_cases hzero : partitionPoint p xs = 0
  · simp [hzero]
  · have hlt : partitionPoint p xs-1 < xs.length := by omega
    simp [hzero,List.getElem?_eq_getElem hlt]

/-- The last element of an ascending list is its greatest one. -/
theorem getLast?_eq_some_iff_greatest {κ : Type} [LinearOrder κ] {f : α → κ}
    (h : xs.Pairwise fun a b => f a < f b) {x : α} :
    xs.getLast? = some x ↔ x ∈ xs ∧ ∀ y ∈ xs, f y ≤ f x := by
  rcases List.eq_nil_or_concat xs with rfl | ⟨front,last,rfl⟩
  · simp
  · have hfront : ∀ y ∈ front, f y < f last := fun y hy =>
      (List.pairwise_append.mp (by simpa using h)).2.2 y hy last (by simp)
    rw [List.concat_eq_append,List.getLast?_concat,Option.some.injEq]
    constructor
    · rintro rfl
      refine ⟨by simp,?_⟩
      intro y hy
      rcases List.mem_append.mp hy with hy | hy
      · exact (hfront y hy).le
      · rw [List.mem_singleton.mp hy]
    · rintro ⟨hx,hgreatest⟩
      rcases List.mem_append.mp hx with hx | hx
      · exact absurd (hfront x hx) (not_lt.mpr (hgreatest last (by simp)))
      · exact (List.mem_singleton.mp hx).symm

/-- In an ascending list the element at the point of `· ≤ a` decides whether one lies in `(a, b]`. -/
theorem exists_between_iff {κ : Type} [LinearOrder κ] {keys : List κ} (h : keys.Pairwise (· < ·))
    (a b : κ) :
    (keys[partitionPoint (fun k => decide (k ≤ a)) keys]?.any fun k => decide (k ≤ b)) = true ↔
      ∃ k ∈ keys, a < k ∧ k ≤ b := by
  have hp : Partitioned (fun k => decide (k ≤ a)) keys := .of_sorted h fun k k' hk hk' => by
    simp only [decide_eq_true_eq] at hk' ⊢
    exact hk.le.trans hk'
  have hdrop := hp.drop_partitionPoint
  rw [← List.head?_drop,hdrop]
  have hsorted := h.filter fun k => !decide (k ≤ a)
  have hmem : ∀ k, k ∈ keys.filter (fun k => !decide (k ≤ a)) ↔ k ∈ keys ∧ a < k := by simp
  cases hrest : keys.filter fun k => !decide (k ≤ a) with
  | nil =>
    simp only [hrest,List.not_mem_nil,false_iff] at hmem
    simp only [List.head?_nil,Option.any_none,Bool.false_eq_true,false_iff,not_exists,not_and]
    exact fun k hk ha => absurd ⟨hk,ha⟩ (hmem k)
  | cons k rest =>
    rw [hrest] at hsorted hmem
    have hk := (hmem k).mp (by simp)
    simp only [List.head?_cons,Option.any_some,decide_eq_true_eq]
    constructor
    · exact fun hb => ⟨k,hk.1,hk.2,hb⟩
    · rintro ⟨k',hk',ha,hb⟩
      rcases List.mem_cons.mp ((hmem k').mpr ⟨hk',ha⟩) with rfl | hrest
      · exact hb
      · exact ((List.pairwise_cons.mp hsorted).1 k' hrest).le.trans hb

end SortedSlices

end PgKronika
