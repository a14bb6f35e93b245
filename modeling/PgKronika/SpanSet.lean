import Mathlib

/-! Lists of half-open spans as sets of points: spans that do not touch are the only ones of their
set, and on the integers they measure it. -/
namespace PgKronika
namespace SpanSet

section Points

variable {σ α : Type} [LinearOrder α] {lo hi : σ → α}

/-- The point lies in one of the spans. -/
def Covered (lo hi : σ → α) (spans : List σ) (t : α) : Prop := ∃ s ∈ spans, lo s ≤ t ∧ t < hi s

instance (spans : List σ) (t : α) : Decidable (Covered lo hi spans t) :=
  inferInstanceAs (Decidable (∃ s ∈ spans, _))

/-- Spans in their order, with a point between any two. -/
def Apart (lo hi : σ → α) (spans : List σ) : Prop := spans.Pairwise fun a b => hi a < lo b

theorem covered_cons {s : σ} {rest : List σ} {t : α} :
    Covered lo hi (s::rest) t ↔ (lo s ≤ t ∧ t < hi s) ∨ Covered lo hi rest t := by
  simp [Covered]

theorem covered_append {xs ys : List σ} {t : α} :
    Covered lo hi (xs ++ ys) t ↔ Covered lo hi xs t ∨ Covered lo hi ys t := by
  simp [Covered,or_and_right,exists_or]

theorem Apart.behind {s : σ} {rest : List σ} {t : α} (h : Apart lo hi (s::rest))
    (ht : Covered lo hi rest t) : hi s < t := by
  obtain ⟨r,hr,hle,-⟩ := ht
  exact lt_of_lt_of_le ((List.pairwise_cons.mp h).1 r hr) hle

theorem Apart.covered_rest {s : σ} {rest : List σ} {t : α} (h : Apart lo hi (s::rest)) :
    Covered lo hi rest t ↔ Covered lo hi (s::rest) t ∧ hi s < t := by
  refine ⟨fun ht => ⟨covered_cons.2 (.inr ht),h.behind ht⟩,fun ⟨ht,hbehind⟩ => ?_⟩
  exact (covered_cons.1 ht).resolve_left fun hs => absurd hs.2 hbehind.not_gt

theorem Apart.lo_le {s : σ} {rest : List σ} {t : α} (hlt : lo s < hi s)
    (h : Apart lo hi (s::rest)) (ht : Covered lo hi (s::rest) t) : lo s ≤ t := by
  rcases covered_cons.1 ht with ht | ht
  · exact ht.1
  · exact hlt.le.trans (h.behind ht).le

theorem covered_lo {s : σ} {rest : List σ} (hlt : lo s < hi s) : Covered lo hi (s::rest) (lo s) :=
  covered_cons.2 (.inl ⟨le_rfl,hlt⟩)

theorem Apart.not_covered_hi {s : σ} {rest : List σ} (h : Apart lo hi (s::rest)) :
    ¬Covered lo hi (s::rest) (hi s) := by
  intro ht
  rcases covered_cons.1 ht with ht | ht
  · exact lt_irrefl _ ht.2
  · exact lt_irrefl _ (h.behind ht)

variable (hlt : ∀ s : σ, lo s < hi s)
include hlt

theorem Apart.hi_le {s r : σ} {xs ys : List σ} (hx : Apart lo hi (s::xs)) (hlo : lo s = lo r)
    (h : ∀ t, Covered lo hi (r::ys) t → Covered lo hi (s::xs) t) : hi r ≤ hi s := by
  by_contra hgt
  refine hx.not_covered_hi (h _ (covered_cons.2 (.inl ⟨?_,not_le.mp hgt⟩)))
  rw [← hlo]
  exact (hlt s).le

/-- Lists of spans with a point between any two are told apart by their points. -/
theorem Apart.unique (hext : ∀ a b : σ, lo a = lo b → hi a = hi b → a = b) {xs ys : List σ}
    (hx : Apart lo hi xs) (hy : Apart lo hi ys)
    (h : ∀ t, Covered lo hi xs t ↔ Covered lo hi ys t) : xs = ys := by
  induction xs generalizing ys with
  | nil =>
    cases ys with
    | nil => rfl
    | cons r ys =>
      obtain ⟨s,hs,-⟩ := (h _).mpr (covered_lo (hlt r))
      cases hs
  | cons s xs ih =>
    cases ys with
    | nil =>
      obtain ⟨r,hr,-⟩ := (h _).mp (covered_lo (hlt s))
      cases hr
    | cons r ys =>
      have hlo : lo s = lo r := le_antisymm (hx.lo_le (hlt s) ((h _).mpr (covered_lo (hlt r))))
        (hy.lo_le (hlt r) ((h _).mp (covered_lo (hlt s))))
      have hhi : hi s = hi r := le_antisymm (hy.hi_le hlt hlo.symm fun t => (h t).mp)
        (hx.hi_le hlt hlo fun t => (h t).mpr)
      have hrest := ih (List.pairwise_cons.mp hx).2 (List.pairwise_cons.mp hy).2 fun t => by
        rw [hx.covered_rest,hy.covered_rest,h t,hhi]
      rw [hext s r hlo hhi,hrest]

end Points

section Measure

variable {σ : Type} {lo hi : σ → ℤ}

/-- The points of a window that lie in one of the spans. -/
noncomputable def coveredIn (lo hi : σ → ℤ) (spans : List σ) (a b : ℤ) : Finset ℤ :=
  (Finset.Ico a b).filter fun t => Covered lo hi spans t

theorem coveredIn_cons (s : σ) (rest : List σ) (a b : ℤ) :
    coveredIn lo hi (s::rest) a b =
      Finset.Ico (max (lo s) a) (min (hi s) b) ∪ coveredIn lo hi rest a b := by
  ext t
  simp only [coveredIn,Finset.mem_filter,Finset.mem_union,Finset.mem_Ico,covered_cons,max_le_iff,
    lt_min_iff]
  tauto

/-- Spans that do not touch measure their points in a window one by one. -/
theorem Apart.card_coveredIn {spans : List σ} (h : Apart lo hi spans) (a b : ℤ) :
    (coveredIn lo hi spans a b).card =
      (spans.map fun s => (min (hi s) b - max (lo s) a).toNat).sum := by
  induction spans with
  | nil => simp [coveredIn,Covered]
  | cons s rest ih =>
    rw [coveredIn_cons,Finset.card_union_of_disjoint,Int.card_Ico,ih (List.pairwise_cons.mp h).2,
      List.map_cons,List.sum_cons]
    rw [Finset.disjoint_left]
    intro t hs hrest
    have hbehind := h.behind (Finset.mem_filter.mp hrest).2
    have hlt := (lt_min_iff.mp (Finset.mem_Ico.mp hs).2).1
    omega

theorem card_coveredIn_le (spans : List σ) (a b : ℤ) :
    (coveredIn lo hi spans a b).card ≤ (b-a).toNat :=
  (Finset.card_filter_le _ _).trans (Int.card_Ico a b).le

/-- A window is measured in full exactly when every one of its points is covered. -/
theorem card_coveredIn_eq_iff (spans : List σ) (a b : ℤ) :
    (coveredIn lo hi spans a b).card = (b-a).toNat ↔ ∀ t, a ≤ t → t < b → Covered lo hi spans t := by
  rw [← Int.card_Ico,coveredIn,Finset.card_filter_eq_iff]
  simp only [Finset.mem_Ico,and_imp]

end Measure

end SpanSet
end PgKronika
