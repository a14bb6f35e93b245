import PgKronika.Heatmap

/-! The gaps of a range: the instants that no span covers, as ascending intervals apart from each
other. -/
namespace PgKronika
namespace Heatmap

variable {fromUs toUs coveredTo : ℤ} {spans : List (ℤ × ℤ)}

/-- Without a gap every instant is covered. -/
theorem covered_of_gapsFrom_eq_nil (h : coverageGapsFrom fromUs toUs coveredTo spans = []) {t : ℤ}
    (hcovered : coveredTo ≤ t) (ht : t < toUs) : ∃ span ∈ spans, span.1 ≤ t ∧ t ≤ span.2 := by
  induction spans generalizing coveredTo with
  | nil =>
    rw [coverageGapsFrom,if_pos (by omega)] at h
    cases h
  | cons span spans ih =>
    rw [coverageGapsFrom,List.append_eq_nil_iff] at h
    have hstart : ¬coveredTo < max span.1 fromUs := by
      intro hlt
      rw [if_pos hlt] at h
      cases h.1
    by_cases hstop : t < min (min (span.2+1) (2^63 - 1)) toUs
    · exact ⟨span,List.mem_cons_self,by omega,by omega⟩
    · obtain ⟨other,hother,hin⟩ := ih h.2 (by omega)
      exact ⟨other,List.mem_cons_of_mem _ hother,hin⟩

/-- The spans of a range, in the order of their starts. -/
structure Ordered (toUs : ℤ) (spans : List (ℤ × ℤ)) : Prop where
  proper : ∀ span ∈ spans, span.1 ≤ span.2 ∧ span.1 < toUs
  starts : spans.Pairwise fun a b => a.1 ≤ b.1

theorem Ordered.tail {span : ℤ × ℤ} (h : Ordered toUs (span::spans)) : Ordered toUs spans where
  proper := fun other hother => h.proper other (List.mem_cons_of_mem _ hother)
  starts := h.starts.tail

/-- An instant lies in a gap when it is in the range and no span covers it. -/
theorem mem_gapsFrom (hspans : Ordered toUs spans) (hto : toUs < 2^63) (hcovered : fromUs ≤ coveredTo)
    (t : ℤ) : (∃ gap ∈ coverageGapsFrom fromUs toUs coveredTo spans, gap.fromUs ≤ t ∧ t < gap.toUs) ↔
      coveredTo ≤ t ∧ t < toUs ∧ ∀ span ∈ spans, ¬(span.1 ≤ t ∧ t ≤ span.2) := by
  induction spans generalizing coveredTo with
  | nil =>
    rw [coverageGapsFrom]
    split_ifs with hlt
    · simp
    · simp only [List.not_mem_nil,false_and,exists_false,false_iff]
      omega
  | cons span spans ih =>
    obtain ⟨hproper,hstart⟩ := hspans.proper span List.mem_cons_self
    have hlater : ∀ other ∈ spans, span.1 ≤ other.1 := (List.pairwise_cons.1 hspans.starts).1
    have hrest := ih hspans.tail (hcovered.trans (le_max_left coveredTo
      (min (min (span.2+1) (2^63 - 1)) toUs)))
    have hfirst : (∃ gap ∈ (if coveredTo < max span.1 fromUs then
        [RangeGap.mk coveredTo (max span.1 fromUs)] else []), gap.fromUs ≤ t ∧ t < gap.toUs) ↔
        coveredTo ≤ t ∧ t < span.1 := by
      split_ifs with hlt
      · simp only [List.mem_singleton,exists_eq_left]
        omega
      · simp only [List.not_mem_nil,false_and,exists_false,false_iff]
        omega
    rw [coverageGapsFrom,List.forall_mem_cons]
    simp only [List.mem_append,or_and_right,exists_or]
    rw [hfirst,hrest]
    constructor
    · rintro (⟨hle,hlt⟩ | ⟨hle,hlt,hnone⟩)
      · refine ⟨hle,by omega,by omega,fun other hother => ?_⟩
        have := hlater other hother
        omega
      · exact ⟨by omega,hlt,by omega,hnone⟩
    · rintro ⟨hle,hlt,hout,hnone⟩
      by_cases hin : t < span.1
      · exact .inl ⟨hle,hin⟩
      · exact .inr ⟨by omega,hlt,hnone⟩

theorem gapsFrom_ge {gap : RangeGap} (h : gap ∈ coverageGapsFrom fromUs toUs coveredTo spans) :
    coveredTo ≤ gap.fromUs ∧ gap.fromUs < gap.toUs := by
  induction spans generalizing coveredTo with
  | nil =>
    rw [coverageGapsFrom] at h
    split_ifs at h with hlt
    · rw [List.mem_singleton.1 h]
      exact ⟨le_rfl,hlt⟩
    · cases h
  | cons span spans ih =>
    rw [coverageGapsFrom,List.mem_append] at h
    rcases h with h | h
    · split_ifs at h with hlt
      · rw [List.mem_singleton.1 h]
        exact ⟨le_rfl,hlt⟩
      · cases h
    · exact ⟨(le_max_left _ _).trans (ih h).1,(ih h).2⟩

/-- Between two gaps lies at least one covered instant. -/
theorem gapsFrom_apart (hspans : Ordered toUs spans) (hto : toUs < 2^63)
    (hcovered : fromUs ≤ coveredTo) :
    (coverageGapsFrom fromUs toUs coveredTo spans).Pairwise fun a b => a.toUs < b.fromUs := by
  induction spans generalizing coveredTo with
  | nil =>
    rw [coverageGapsFrom]
    split_ifs <;> simp
  | cons span spans ih =>
    obtain ⟨hproper,hstart⟩ := hspans.proper span List.mem_cons_self
    rw [coverageGapsFrom,List.pairwise_append]
    refine ⟨by split_ifs <;> simp,ih hspans.tail (hcovered.trans (le_max_left _ _)),?_⟩
    intro gap hgap other hother
    have hge := (gapsFrom_ge hother).1
    split_ifs at hgap with hlt
    · rw [List.mem_singleton.1 hgap]
      change max span.1 fromUs < other.fromUs
      omega
    · cases hgap

end Heatmap
end PgKronika
