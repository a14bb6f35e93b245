import Mathlib

/-! Floating-point numbers compare as keys of a linear order, those aside that are no number. -/
namespace PgKronika
namespace FloatOrder

open Float.Model

/-- The kind of a number, then its exponent and its mantissa. -/
def unpackedKey : UnpackedFloat → ℤ ×ₗ ℤ ×ₗ ℤ
  | .infinity .positive => toLex (2,toLex (0,0))
  | .infinity .negative => toLex (-2,toLex (0,0))
  | .finite .positive m e _ => toLex (1,toLex (e,(m : ℤ)))
  | .finite .negative m e _ => toLex (-1,toLex (-e,-(m : ℤ)))
  | .zero _ => toLex (0,toLex (0,0))
  | .notANumber => toLex (0,toLex (0,0))

def orderKey (v : Float) : ℤ ×ₗ ℤ ×ₗ ℤ := unpackedKey v.toModel.unpack

theorem compare_key (kind e m kind' e' m' : ℤ) :
    compare (toLex (kind,toLex (e,m))) (toLex (kind',toLex (e',m'))) =
      (compare kind kind').then ((compare e e').then (compare m m')) := by
  simp [Prod.Lex.compare_def,compareLex,compareOn]

theorem compare_cast (m m' : ℕ) : compare (m : ℤ) (m' : ℤ) = compare m m' := by
  rcases lt_trichotomy m m' with h | rfl | h
  · rw [compare_lt_iff_lt.mpr h,compare_lt_iff_lt.mpr (by omega)]
  · simp
  · rw [compare_gt_iff_gt.mpr h,compare_gt_iff_gt.mpr (by omega)]

theorem compare_neg (a b : ℤ) : compare (-a) (-b) = (compare a b).swap := by
  rcases lt_trichotomy a b with h | rfl | h
  · rw [compare_lt_iff_lt.mpr h,compare_gt_iff_gt.mpr (by omega)]
    rfl
  · simp
  · rw [compare_gt_iff_gt.mpr h,compare_lt_iff_lt.mpr (by omega)]
    rfl

section Compare

attribute [local simp] UnpackedFloat.compare unpackedKey compare_key

theorem compare_eq {a b : UnpackedFloat} (ha : a.isNaN = false) (hb : b.isNaN = false) :
    a.compare b = some (compare (unpackedKey a) (unpackedKey b)) := by
  cases a with
  | notANumber => cases ha
  | zero s =>
    cases b with
    | notANumber => cases hb
    | zero s' => simp
    | infinity s' => cases s' <;> simp <;> rfl
    | finite s' m' e' hm' => cases s' <;> simp <;> rfl
  | infinity s =>
    cases b with
    | notANumber => cases hb
    | zero s' => cases s <;> simp <;> rfl
    | infinity s' => cases s <;> cases s' <;> simp <;> rfl
    | finite s' m' e' hm' => cases s <;> cases s' <;> simp <;> rfl
  | finite s m e hm =>
    cases b with
    | notANumber => cases hb
    | zero s' => cases s <;> simp <;> rfl
    | infinity s' => cases s <;> cases s' <;> simp <;> rfl
    | finite s' m' e' hm' =>
      cases s with
      | negative =>
        cases s' with
        | negative => simp [compare_neg,compare_cast,Ordering.swap_then]
        | positive => simp <;> rfl
      | positive =>
        cases s' with
        | negative => simp <;> rfl
        | positive => simp [compare_cast]

end Compare

variable {a b : Float}

theorem lt_iff (ha : a.isNaN = false) (hb : b.isNaN = false) : a < b ↔ orderKey a < orderKey b := by
  have hcompare := compare_eq ha hb
  have hlt : a < b ↔ a.toModel.unpack.lt b.toModel.unpack = true := by
    change decide (a.toModel < b.toModel) = true ↔ _
    rw [decide_eq_true_iff]
    rfl
  rw [hlt,UnpackedFloat.lt,hcompare,orderKey,orderKey,beq_iff_eq,Option.some_inj,compare_lt_iff_lt]

theorem le_iff (ha : a.isNaN = false) (hb : b.isNaN = false) : a ≤ b ↔ orderKey a ≤ orderKey b := by
  have hcompare := compare_eq ha hb
  have hle : a ≤ b ↔ a.toModel.unpack.le b.toModel.unpack = true := by
    change decide (a.toModel ≤ b.toModel) = true ↔ _
    rw [decide_eq_true_iff]
    rfl
  rw [hle,UnpackedFloat.le,hcompare,orderKey,orderKey,Option.any_some,← compare_le_iff_le,
    Ordering.isLE_iff_ne_gt]

/-- Only numbers compare. -/
theorem numbers_of_lt (h : a < b) : a.isNaN = false ∧ b.isNaN = false := by
  have hlt : a.toModel.unpack.lt b.toModel.unpack = true := of_decide_eq_true h
  change a.toModel.unpack.isNaN = false ∧ b.toModel.unpack.isNaN = false
  revert hlt
  cases a.toModel.unpack <;> cases b.toModel.unpack <;>
    simp [UnpackedFloat.lt,UnpackedFloat.compare,UnpackedFloat.isNaN]

theorem numbers_of_le (h : a ≤ b) : a.isNaN = false ∧ b.isNaN = false := by
  have hle : a.toModel.unpack.le b.toModel.unpack = true := of_decide_eq_true h
  change a.toModel.unpack.isNaN = false ∧ b.toModel.unpack.isNaN = false
  revert hle
  cases a.toModel.unpack <;> cases b.toModel.unpack <;>
    simp [UnpackedFloat.le,UnpackedFloat.compare,UnpackedFloat.isNaN]

theorem le_self (ha : a.isNaN = false) : a ≤ a := (le_iff ha ha).mpr (le_refl _)

theorem le_of_not_lt (ha : a.isNaN = false) (hb : b.isNaN = false) (h : ¬a < b) : b ≤ a := by
  rw [lt_iff ha hb,not_lt] at h
  exact (le_iff hb ha).mpr h

theorem le_of_lt (h : a < b) : a ≤ b := by
  obtain ⟨ha,hb⟩ := numbers_of_lt h
  exact (le_iff ha hb).mpr ((lt_iff ha hb).mp h).le

theorem lt_of_le_of_lt {c : Float} (h : a ≤ b) (h' : b < c) : a < c := by
  obtain ⟨ha,hb⟩ := numbers_of_le h
  have hc := (numbers_of_lt h').2
  exact (lt_iff ha hc).mpr (((le_iff ha hb).mp h).trans_lt ((lt_iff hb hc).mp h'))

end FloatOrder
end PgKronika
