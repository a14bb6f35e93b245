import Mathlib

/-! Lists in the order of last use, the oldest first: what is used moves to the end, and the
oldest leave until the rest fits. -/
namespace PgKronika
namespace RecencyList

section Evict

variable {α : Type} (fits : List α → Prop) [DecidablePred fits]

def evict : List α → List α
  | [] => []
  | x::l => if fits (x::l) then x::l else evict l

variable {fits} {l : List α}

theorem evict_of_fits (h : fits l) : evict fits l = l := by
  cases l with
  | nil => rfl
  | cons x l => exact if_pos h

theorem evict_of_not_fits {x : α} (h : ¬fits (x::l)) : evict fits (x::l) = evict fits l := if_neg h

theorem evict_suffix (l : List α) : evict fits l <:+ l := by
  induction l with
  | nil => exact List.suffix_refl _
  | cons x l ih =>
    by_cases h : fits (x::l)
    · simp only [evict_of_fits h,List.suffix_refl]
    · rw [evict_of_not_fits h]
      exact ih.trans (List.suffix_cons _ _)

theorem evict_fits (hnil : fits []) (l : List α) : fits (evict fits l) := by
  induction l with
  | nil => exact hnil
  | cons x l ih =>
    by_cases h : fits (x::l)
    · rw [evict_of_fits h]
      exact h
    · rw [evict_of_not_fits h]
      exact ih

/-- Nothing leaves that could have stayed. -/
theorem evict_needed {x : α} {gone : List α} (h : l = gone++x::evict fits l) :
    ¬fits (x::evict fits l) := by
  induction l generalizing gone with
  | nil => simp at h
  | cons y l ih =>
    by_cases hy : fits (y::l)
    · rw [evict_of_fits hy] at h
      have hlen := congrArg List.length h
      simp at hlen
      omega
    · rw [evict_of_not_fits hy] at h ⊢
      cases gone with
      | nil =>
        obtain ⟨rfl,hl⟩ := List.cons.inj h
        rw [← hl]
        exact hy
      | cons z gone => exact ih (List.cons.inj h).2

/-- Eviction leaves the longest suffix that fits. -/
theorem suffix_evict {s : List α} (hs : s <:+ l) (hfits : fits s) : s <:+ evict fits l := by
  induction l with
  | nil => exact hs
  | cons x l ih =>
    by_cases h : fits (x::l)
    · rw [evict_of_fits h]
      exact hs
    · rw [evict_of_not_fits h]
      rcases List.suffix_cons_iff.mp hs with rfl | hs
      · exact absurd hfits h
      · exact ih hs

/-- Two bounds one after the other are both bounds at once, if the first passes to suffixes. -/
theorem evict_evict {bound : List α → Prop} [DecidablePred bound]
    (hanti : ∀ s l, s <:+ l → fits l → fits s) (l : List α) :
    evict bound (evict fits l) = evict (fun s => fits s ∧ bound s) l := by
  induction l with
  | nil => rfl
  | cons x l ih =>
    by_cases h : fits (x::l)
    · rw [evict_of_fits h]
      clear ih
      generalize x::l = s at h
      induction s with
      | nil => rfl
      | cons y s ih =>
        by_cases hb : bound (y::s)
        · rw [evict_of_fits hb,evict_of_fits ⟨h,hb⟩]
        · rw [evict_of_not_fits hb,evict_of_not_fits fun hh => hb hh.2,
            ih (hanti _ _ (List.suffix_cons _ _) h)]
    · rw [evict_of_not_fits h,evict_of_not_fits fun hh => h hh.1,ih]

end Evict

section Keys

variable {α κ : Type} [DecidableEq κ] (key : α → κ)

def without (k : κ) (l : List α) : List α := l.filter fun x => key x ≠ k

/-- The use of `x` under its key. -/
def push (x : α) (l : List α) : List α := without key (key x) l++[x]

variable {key} {k : κ} {l : List α}

theorem mem_without {x : α} : x ∈ without key k l ↔ x ∈ l ∧ key x ≠ k := by
  simp [without]

theorem without_of_forall_ne (h : ∀ x ∈ l, key x ≠ k) : without key k l = l :=
  List.filter_eq_self.mpr fun x hx => by simpa using h x hx

theorem without_cons_self (x : α) (l : List α) : without key (key x) (x::l) = without key (key x) l := by
  simp [without]

theorem without_cons_of_ne {x : α} (h : key x ≠ k) :
    without key k (x::l) = x::without key k l := by
  simp [without,h]

theorem without_suffix {s : List α} (h : s <:+ l) : without key k s <:+ without key k l := by
  obtain ⟨a,rfl⟩ := h
  rw [without,without,List.filter_append]
  exact List.suffix_append _ _

variable (key) in
/-- The keys of a use are the use of a key. -/
theorem map_push (x : α) (l : List α) : (push key x l).map key = push id (key x) (l.map key) := by
  simp [push,without,List.filter_map,Function.comp_def]

/-- Uses of one element carry a suffix over to a suffix. -/
theorem push_suffix {s : List α} {x : α} (h : s <:+ l) : push key x s <:+ push key x l := by
  obtain ⟨a,ha⟩ : without key (key x) s <:+ without key (key x) l := without_suffix h
  exact ⟨a,by rw [push,push,← ha,List.append_assoc]⟩

end Keys

end RecencyList
end PgKronika
