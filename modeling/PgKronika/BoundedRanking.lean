import Mathlib

/-! Rankings from bounds. Candidates are listed with a lower and an upper bound of their scores, and
one bound holds for all that is not listed; a test on the bounds tells when the front of the list is
the ranking of every score within them. -/
namespace PgKronika
namespace BoundedRanking

variable {α R : Type} [LinearOrder R] [OrderBot R] {lower upper score : α → R} {unseen : R}
  {top : ℕ} {xs : List α}

/-- The first `top` elements that have a score, in descending order of their scores. Elements at the
bottom are left out of account, but for one that may stand last. -/
structure IsTop (score : α → R) (top : ℕ) (xs : List α) : Prop where
  descending : xs.Pairwise fun a b => score b < score a
  short : xs.length ≤ top
  complete : ∀ x, x ∉ xs → score x ≠ ⊥ → xs.length = top ∧ ∀ y ∈ xs, score x < score y

/-- The scores lie within the bounds. -/
structure Within (lower upper : α → R) (unseen : R) (xs : List α) (score : α → R) : Prop where
  above : ∀ x ∈ xs, lower x ≤ score x
  below : ∀ x ∈ xs, score x ≤ upper x
  others : ∀ x, x ∉ xs → score x ≤ unseen

/-- Each of the first `top` elements beats all that comes behind it, unless nothing does. -/
def FrontBeats (lower upper : α → R) (unseen : R) (top : ℕ) (xs : List α) : Prop :=
  ∀ before x after, xs = before ++ x::after → before.length < top →
    (after = [] ∧ unseen = ⊥) ∨ (unseen < lower x ∧ ∀ y ∈ after, upper y < lower x)

/-- Elements of the front have greater scores than those behind them. -/
theorem FrontBeats.beats {x y : α} {before after : List α}
    (h : FrontBeats lower upper unseen top xs) (hwithin : Within lower upper unseen xs score)
    (hsplit : xs = before ++ x::after) (hlength : before.length < top) (hy : y ∈ after) :
    score y < score x := by
  have hx : x ∈ xs := hsplit ▸ List.mem_append_right _ List.mem_cons_self
  have hxs : y ∈ xs := hsplit ▸ List.mem_append_right _ (List.mem_cons_of_mem x hy)
  rcases h before x after hsplit hlength with ⟨hnil,-⟩ | ⟨-,hall⟩
  · rw [hnil] at hy
    cases hy
  · exact (hwithin.below y hxs).trans_lt ((hall y hy).trans_le (hwithin.above x hx))

/-- A split of the front is one of the whole list. -/
theorem take_split {before after : List α} {x : α} (h : xs.take top = before ++ x::after) :
    xs = before ++ x::(after ++ xs.drop top) ∧ before.length < top := by
  have hlength : (before ++ x::after).length ≤ top := h ▸ List.length_take_le top xs
  rw [List.length_append,List.length_cons] at hlength
  refine ⟨?_,by omega⟩
  rw [← List.cons_append,← List.append_assoc,← h,List.take_append_drop]

/-- An element of a front stands before all that is not in the front. -/
theorem mem_take_split {x : α} (h : x ∈ xs.take top) :
    ∃ before after, xs = before ++ x::after ∧ before.length < top ∧
      (∀ y ∈ xs, y ∉ xs.take top → y ∈ after) := by
  obtain ⟨before,after,hfront⟩ := List.append_of_mem h
  obtain ⟨hsplit,hlength⟩ := take_split hfront
  refine ⟨before,after ++ xs.drop top,hsplit,hlength,fun y hy hnot => ?_⟩
  rw [← List.take_append_drop top xs,List.mem_append] at hy
  exact List.mem_append_right _ (hy.resolve_left hnot)

theorem pairwise_of_splits {r : α → α → Prop}
    (h : ∀ before x after, xs = before ++ x::after → ∀ y ∈ after, r x y) : xs.Pairwise r := by
  induction xs with
  | nil => exact .nil
  | cons x xs ih =>
    refine .cons (h [] x xs rfl) (ih fun before y after hsplit => ?_)
    exact h (x::before) y after (by rw [hsplit,List.cons_append])

/-- The front that passes the test is the ranking, when a list that is shorter than asked for leaves
nothing unseen. -/
theorem isTop_take (h : FrontBeats lower upper unseen top xs)
    (hwithin : Within lower upper unseen xs score) (hlong : unseen ≠ ⊥ → top ≤ xs.length) :
    IsTop score top (xs.take top) where
  descending := pairwise_of_splits fun before x after hfront y hy => by
    obtain ⟨hsplit,hlength⟩ := take_split hfront
    exact h.beats hwithin hsplit hlength (List.mem_append_left _ hy)
  short := List.length_take_le top xs
  complete := by
    intro x hx hscore
    by_cases hmem : x ∈ xs
    · have hlength : top ≤ xs.length := by
        by_contra hshort
        rw [List.take_of_length_le (by omega)] at hx
        exact hx hmem
      refine ⟨List.length_take_of_le hlength,fun y hy => ?_⟩
      obtain ⟨before,after,hsplit,hbefore,hbehind⟩ := mem_take_split hy
      exact h.beats hwithin hsplit hbefore (hbehind x hmem hx)
    · have hunseen : unseen ≠ ⊥ := fun hbot =>
        hscore (le_bot_iff.mp (hbot ▸ hwithin.others x hmem))
      refine ⟨List.length_take_of_le (hlong hunseen),fun y hy => ?_⟩
      obtain ⟨before,after,hsplit,hbefore,-⟩ := mem_take_split hy
      have hy : y ∈ xs := List.mem_of_mem_take hy
      rcases h before y after hsplit hbefore with ⟨-,hbot⟩ | ⟨hlt,-⟩
      · exact absurd hbot hunseen
      · exact (hwithin.others x hmem).trans_lt (hlt.trans_le (hwithin.above y hy))

end BoundedRanking
end PgKronika
