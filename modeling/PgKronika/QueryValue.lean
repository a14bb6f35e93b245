import Mathlib
import PgKronika.Utf8Text

/-! Output values of a section query, with their total order. Floats are their bits. -/
namespace PgKronika

open ByteCodec Utf8Text

inductive Value
  | null
  | i64 (v : Int64)
  | u64 (v : UInt64)
  | f64 (bits : UInt64)
  | bool (v : Bool)
  | ts (v : Int64)
  | str (s : String)
  | blob (text : String) (fullLen : UInt64) (truncated : Bool)
  | listI32 (items : List Int32)
  deriving DecidableEq

/-- One output row: union-column name to value, in column order. -/
abbrev OutRow := List (String × Value)

/-- A stretch of a query window that no readable unit covers. -/
structure Gap where
  fromTs : Int64
  toTs : Int64
  deriving DecidableEq

/-- Position of a float in the total order of its bits: negative ones reversed. -/
def totalOrderKey (bits : UInt64) : ℤ :=
  if bits.toNat < 2^63 then bits.toNat else 2^63 - 1 - bits.toNat

def totalCmp (x y : UInt64) : Ordering := compare (totalOrderKey x) (totalOrderKey y)

def Value.rank : Value → ℕ
  | .null => 0
  | .bool _ => 1
  | .i64 _ => 2
  | .u64 _ => 3
  | .f64 _ => 4
  | .ts _ => 5
  | .str _ => 6
  | .blob .. => 7
  | .listI32 _ => 8

def compareValues : Value → Value → Ordering
  | .null, .null => .eq
  | .bool x, .bool y => compare x y
  | .i64 x, .i64 y => compare x y
  | .u64 x, .u64 y => compare x y
  | .f64 x, .f64 y => totalCmp x y
  | .ts x, .ts y => compare x y
  | .str x, .str y => compare (utf8 x) (utf8 y)
  | .blob xt xl xtr, .blob yt yl ytr =>
    ((compare (utf8 xt) (utf8 yt)).then (compare xl yl)).then (compare xtr ytr)
  | .listI32 x, .listI32 y => compare x y
  | a, b => compare a.rank b.rank

theorem totalOrderKey_injective {x y : UInt64} (h : totalOrderKey x = totalOrderKey y) :
    x = y := by
  have hx := x.toNat_lt
  have hy := y.toNat_lt
  apply UInt64.toNat_inj.mp
  unfold totalOrderKey at h
  split_ifs at h <;> omega

-- A value is its rank and one component for every kind of payload, so its order is the
-- lexicographic order of these.
section Components

def Value.boolPart : Value → Bool
  | .bool v => v
  | .blob _ _ truncated => truncated
  | _ => false

def Value.signedPart : Value → Int64
  | .i64 v => v
  | .ts v => v
  | _ => 0

def Value.unsignedPart : Value → UInt64
  | .u64 v => v
  | .blob _ fullLen _ => fullLen
  | _ => 0

def Value.floatPart : Value → ℤ
  | .f64 bits => totalOrderKey bits
  | _ => 0

def Value.textPart : Value → Bytes
  | .str s => utf8 s
  | .blob text _ _ => utf8 text
  | _ => []

def Value.itemsPart : Value → List Int32
  | .listI32 items => items
  | _ => []

def compareParts : Value → Value → Ordering :=
  compareLex (compareOn Value.rank) <| compareLex (compareOn Value.textPart) <|
    compareLex (compareOn Value.unsignedPart) <| compareLex (compareOn Value.boolPart) <|
      compareLex (compareOn Value.signedPart) <| compareLex (compareOn Value.floatPart) <|
        compareOn Value.itemsPart

theorem compareValues_eq_parts (a b : Value) : compareValues a b = compareParts a b := by
  cases a <;> cases b <;>
    simp [compareValues,compareParts,compareLex,compareOn,Value.rank,Value.textPart,
      Value.unsignedPart,Value.boolPart,Value.signedPart,Value.floatPart,Value.itemsPart,totalCmp,
      Ordering.then_assoc] <;> rfl

end Components

instance : Std.TransCmp compareValues := by
  have h : compareValues = compareParts := funext fun a => funext fun b =>
    compareValues_eq_parts a b
  rw [h]
  unfold compareParts
  infer_instance

/-- Values that compare equal are equal, floats to the bit. -/
theorem compareValues_eq_iff {a b : Value} : compareValues a b = .eq ↔ a = b := by
  refine ⟨fun h => ?_,fun h => h ▸ Std.ReflCmp.compare_self⟩
  rw [compareValues_eq_parts] at h
  simp only [compareParts,compareLex_eq_eq,compareOn,Std.LawfulEqOrd.compare_eq_iff_eq] at h
  obtain ⟨hrank,htext,hunsigned,hbool,hsigned,hfloat,hitems⟩ := h
  cases a <;> cases b <;>
    simp_all [Value.rank,Value.textPart,Value.unsignedPart,Value.boolPart,Value.signedPart,
      Value.floatPart,Value.itemsPart]
  · exact totalOrderKey_injective hfloat
  · exact utf8_injective htext
  · exact utf8_injective htext

end PgKronika
