import Mathlib

/-! Half-open ranges of two kinds that together cover an interval, each kind kept
in a list of its own. -/
namespace PgKronika
namespace Tiling

variable {α : Type*} [LinearOrder α]

/-- The non-empty ranges of `as` and `bs` lie end to end from the first point to the
second, in some interleaving. -/
inductive Tiles : α → List (α × α) → List (α × α) → α → Prop
  | nil (x : α) : Tiles x [] [] x
  | left {x y stop : α} {as bs : List (α × α)} (lt : x < y) (rest : Tiles y as bs stop) :
      Tiles x ((x,y)::as) bs stop
  | right {x y stop : α} {as bs : List (α × α)} (lt : x < y) (rest : Tiles y as bs stop) :
      Tiles x as ((x,y)::bs) stop

variable {x y stop stop' : α} {as bs : List (α × α)}

theorem Tiles.le (h : Tiles x as bs stop) : x ≤ stop := by
  induction h with
  | nil x => exact le_refl x
  | left lt rest ih => exact le_trans lt.le ih
  | right lt rest ih => exact le_trans lt.le ih

theorem Tiles.snoc_left (h : Tiles x as bs stop) (hlt : stop < stop') :
    Tiles x (as++[(stop,stop')]) bs stop' := by
  induction h with
  | nil x => exact .left hlt (.nil _)
  | left lt rest ih => exact .left lt (ih hlt)
  | right lt rest ih => exact .right lt (ih hlt)

theorem Tiles.snoc_right (h : Tiles x as bs stop) (hlt : stop < stop') :
    Tiles x as (bs++[(stop,stop')]) stop' := by
  induction h with
  | nil x => exact .right hlt (.nil _)
  | left lt rest ih => exact .left lt (ih hlt)
  | right lt rest ih => exact .right lt (ih hlt)

theorem Tiles.mem_left (h : Tiles x as bs stop) {r : α × α} (hr : r ∈ as) :
    x ≤ r.1 ∧ r.1 < r.2 ∧ r.2 ≤ stop := by
  induction h with
  | nil x => cases hr
  | left lt rest ih =>
    rcases List.mem_cons.mp hr with rfl | hr
    · exact ⟨le_refl _,lt,rest.le⟩
    · obtain ⟨h1,h2,h3⟩ := ih hr
      exact ⟨le_trans lt.le h1,h2,h3⟩
  | right lt rest ih =>
    obtain ⟨h1,h2,h3⟩ := ih hr
    exact ⟨le_trans lt.le h1,h2,h3⟩

/-- The two kinds play the same part. -/
theorem Tiles.swap (h : Tiles x as bs stop) : Tiles x bs as stop := by
  induction h with
  | nil x => exact .nil x
  | left lt rest ih => exact .right lt ih
  | right lt rest ih => exact .left lt ih

theorem Tiles.mem_right (h : Tiles x as bs stop) {r : α × α} (hr : r ∈ bs) :
    x ≤ r.1 ∧ r.1 < r.2 ∧ r.2 ≤ stop := h.swap.mem_left hr

/-- Ranges of one kind are disjoint and ascending. -/
theorem Tiles.pairwise_left (h : Tiles x as bs stop) :
    as.Pairwise fun r r' => r.2 ≤ r'.1 := by
  induction h with
  | nil x => exact .nil
  | left lt rest ih => exact .cons (fun r hr => (rest.mem_left hr).1) ih
  | right lt rest ih => exact ih

theorem Tiles.pairwise_right (h : Tiles x as bs stop) :
    bs.Pairwise fun r r' => r.2 ≤ r'.1 := h.swap.pairwise_left

theorem Tiles.disjoint (h : Tiles x as bs stop) {r r' : α × α} (hr : r ∈ as) (hr' : r' ∈ bs) :
    r.2 ≤ r'.1 ∨ r'.2 ≤ r.1 := by
  induction h with
  | nil x => cases hr
  | left lt rest ih =>
    rcases List.mem_cons.mp hr with rfl | hr
    · exact .inl (rest.mem_right hr').1
    · exact ih hr hr'
  | right lt rest ih =>
    rcases List.mem_cons.mp hr' with rfl | hr'
    · exact .inr (rest.mem_left hr).1
    · exact ih hr hr'

/-- A point lies in some range exactly when it lies in the interval. -/
theorem Tiles.covers (h : Tiles x as bs stop) (p : α) :
    ((∃ r ∈ as, r.1 ≤ p ∧ p < r.2) ∨ ∃ r ∈ bs, r.1 ≤ p ∧ p < r.2) ↔ x ≤ p ∧ p < stop := by
  induction h with
  | nil x =>
    refine iff_of_false (by simp) ?_
    rintro ⟨hle,hlt⟩
    exact absurd hlt (not_lt.mpr hle)
  | @left x y stop as bs lt rest ih =>
    have hle := rest.le
    simp only [List.exists_mem_cons_iff,or_assoc,ih]
    constructor
    · rintro (⟨h1,h2⟩ | ⟨h1,h2⟩)
      · exact ⟨h1,lt_of_lt_of_le h2 hle⟩
      · exact ⟨le_trans lt.le h1,h2⟩
    · rintro ⟨h1,h2⟩
      rcases lt_or_ge p y with hp | hp
      · exact .inl ⟨h1,hp⟩
      · exact .inr ⟨hp,h2⟩
  | @right x y stop as bs lt rest ih =>
    have hle := rest.le
    simp only [List.exists_mem_cons_iff]
    rw [or_left_comm,ih]
    constructor
    · rintro (⟨h1,h2⟩ | ⟨h1,h2⟩)
      · exact ⟨h1,lt_of_lt_of_le h2 hle⟩
      · exact ⟨le_trans lt.le h1,h2⟩
    · rintro ⟨h1,h2⟩
      rcases lt_or_ge p y with hp | hp
      · exact .inl ⟨h1,hp⟩
      · exact .inr ⟨hp,h2⟩

/-- Behind a range of one kind, the tail of that kind may be retiled. -/
theorem Tiles.congr_right {r : α × α} {bs' : List (α × α)} (h : Tiles x as (r::bs) stop)
    (hc : ∀ y as', Tiles y as' bs stop → Tiles y as' bs' stop) : Tiles x as (r::bs') stop := by
  generalize hb : r::bs = all at h
  induction h with
  | nil x => cases hb
  | left lt rest ih => exact .left lt (ih hc hb)
  | right lt rest ih =>
    cases hb
    exact .right lt (hc _ _ rest)

/-- Two adjacent ranges of one kind may be joined: nothing lies between them. -/
theorem Tiles.join_right {a b c : α} (h : Tiles x as ((a,b)::(b,c)::bs) stop) :
    Tiles x as ((a,c)::bs) stop := by
  generalize hb : (a,b)::(b,c)::bs = all at h
  induction h with
  | nil x => cases hb
  | left lt rest ih => exact .left lt (ih hb)
  | right lt rest ih =>
    cases hb
    cases rest with
    | left lt' rest' => exact absurd (rest'.mem_right (r := (b,c)) (by simp)).1 (not_le.mpr lt')
    | right lt' rest' => exact .right (lt_trans lt lt') rest'

/-- The lengths add up. -/
theorem Tiles.sum_eq {x stop : ℕ} {as bs : List (ℕ × ℕ)} (h : Tiles x as bs stop) :
    x + (as.map fun r => r.2 - r.1).sum + (bs.map fun r => r.2 - r.1).sum = stop := by
  induction h with
  | nil x => rfl
  | left lt rest ih => simp only [List.map_cons,List.sum_cons]; omega
  | right lt rest ih => simp only [List.map_cons,List.sum_cons]; omega

end Tiling
end PgKronika
