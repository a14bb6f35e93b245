import Mathlib

/-! The partition point of a list, searched by halving. Where the matches come first it is the
number of matches. -/
namespace PgKronika

section PartitionPoint

variable {α : Type} {p : α → Bool} {xs : List α}

/-- The window from `lo` to `hi` still holds the partition point. -/
def partitionPointIn (p : α → Bool) (xs : List α) : ℕ → ℕ → ℕ → ℕ
  | 0,lo,_ => lo
  | fuel+1,lo,hi =>
    if lo < hi then
      let mid := lo + (hi-lo)/2
      if xs[mid]?.any p then partitionPointIn p xs fuel (mid+1) hi
      else partitionPointIn p xs fuel lo mid
    else lo

def partitionPoint (p : α → Bool) (xs : List α) : ℕ := partitionPointIn p xs xs.length 0 xs.length

/-- No match follows an element that does not match. -/
def Partitioned (p : α → Bool) (xs : List α) : Prop := xs.Pairwise fun a b => p b → p a

theorem Partitioned.of_sorted {r : α → α → Prop} (h : xs.Pairwise r)
    (hp : ∀ a b, r a b → p b → p a) : Partitioned p xs := h.imp fun hab => hp _ _ hab

theorem Partitioned.dropWhile_not (h : Partitioned p xs) : ∀ x ∈ xs.dropWhile p, p x = false := by
  induction xs with
  | nil => simp
  | cons x xs ih =>
    obtain ⟨hlow,hrest⟩ := List.pairwise_cons.mp h
    intro y hy
    by_cases hx : p x
    · rw [List.dropWhile_cons_of_pos hx] at hy
      exact ih hrest y hy
    · rw [List.dropWhile_cons_of_neg hx] at hy
      rcases List.mem_cons.mp hy with rfl | hy
      · simpa using hx
      · have hnot : ¬p y := fun hpy => hx (hlow y hy hpy)
        simpa using hnot

theorem getElem?_split (i : ℕ) : xs[i]? = (xs.takeWhile p ++ xs.dropWhile p)[i]? := by
  rw [List.takeWhile_append_dropWhile]

/-- The matches are the elements before the point. -/
theorem Partitioned.getElem?_any (h : Partitioned p xs) (i : ℕ) :
    xs[i]?.any p = decide (i < (xs.takeWhile p).length) := by
  by_cases hi : i < (xs.takeWhile p).length
  · rw [getElem?_split (p := p),List.getElem?_append_left hi,List.getElem?_eq_getElem hi,
      Option.any_some,List.mem_takeWhile_imp (List.getElem_mem hi),decide_eq_true hi]
  · rw [decide_eq_false hi]
    cases hx : xs[i]? with
    | none => rfl
    | some x =>
      have hmem : x ∈ xs.dropWhile p := by
        rw [getElem?_split (p := p),List.getElem?_append_right (by omega)] at hx
        exact List.mem_of_getElem? hx
      exact h.dropWhile_not x hmem

theorem partitionPointIn_eq {n : ℕ} (hany : ∀ i, xs[i]?.any p = decide (i < n)) {fuel lo hi : ℕ}
    (hlo : lo ≤ n) (hhi : n ≤ hi) (hfuel : hi-lo ≤ fuel) : partitionPointIn p xs fuel lo hi = n := by
  induction fuel generalizing lo hi with
  | zero =>
    rw [partitionPointIn]
    omega
  | succ fuel ih =>
    rw [partitionPointIn]
    by_cases hlt : lo < hi
    · rw [if_pos hlt]
      dsimp only
      rw [hany]
      by_cases hmid : lo + (hi-lo)/2 < n
      · simpa [hmid] using ih (by omega) hhi (by omega)
      · simpa [hmid] using ih hlo (by omega) (by omega)
    · rw [if_neg hlt]
      omega

theorem Partitioned.partitionPoint_eq (h : Partitioned p xs) :
    partitionPoint p xs = (xs.takeWhile p).length := by
  have hle := (List.takeWhile_sublist (l := xs) p).length_le
  exact partitionPointIn_eq h.getElem?_any (Nat.zero_le _) hle (Nat.sub_le _ _)

theorem Partitioned.takeWhile_eq_filter (h : Partitioned p xs) : xs.takeWhile p = xs.filter p := by
  have hrest : (xs.dropWhile p).filter p = [] :=
    List.filter_eq_nil_iff.mpr fun x hx => by simp [h.dropWhile_not x hx]
  have hhead : (xs.takeWhile p).filter p = xs.takeWhile p :=
    List.filter_eq_self.mpr fun x hx => List.mem_takeWhile_imp hx
  have hsplit : xs.filter p = (xs.takeWhile p ++ xs.dropWhile p).filter p := by
    rw [List.takeWhile_append_dropWhile]
  rw [hsplit,List.filter_append,hrest,hhead,List.append_nil]

theorem Partitioned.partitionPoint_le (h : Partitioned p xs) : partitionPoint p xs ≤ xs.length := by
  rw [h.partitionPoint_eq]
  exact (List.takeWhile_sublist p).length_le

/-- What stands before the point are the matches. -/
theorem Partitioned.take_partitionPoint (h : Partitioned p xs) :
    xs.take (partitionPoint p xs) = xs.filter p := by
  have htake : (xs.takeWhile p ++ xs.dropWhile p).take (xs.takeWhile p).length = xs.takeWhile p :=
    List.take_left
  rw [List.takeWhile_append_dropWhile] at htake
  rw [h.partitionPoint_eq,htake,h.takeWhile_eq_filter]

/-- The element at the point is the first one that does not match. -/
theorem Partitioned.getElem?_partitionPoint (h : Partitioned p xs) :
    xs[partitionPoint p xs]? = (xs.dropWhile p).head? := by
  rw [h.partitionPoint_eq,getElem?_split (p := p),List.getElem?_append_right (le_refl _),
    Nat.sub_self,List.head?_eq_getElem?]

end PartitionPoint

end PgKronika
