import PgKronika.ByteCodec

/-! UTF-8 text as bytes, and the lossy decoding that puts a replacement character where
bytes are not UTF-8. -/
namespace PgKronika
namespace Utf8Text

open ByteCodec

def utf8Chars (chars : List Char) : Bytes := chars.flatMap String.utf8EncodeChar

def utf8 (s : String) : Bytes := utf8Chars s.toList

/-- Width of the sequence that a lead byte opens, and the range of its second byte. -/
def sequenceOf (lead : UInt8) : Option (ℕ × UInt8 × UInt8) :=
  if 0xC2 ≤ lead ∧ lead ≤ 0xDF then some (2,0x80,0xBF)
  else if lead = 0xE0 then some (3,0xA0,0xBF)
  else if lead = 0xED then some (3,0x80,0x9F)
  else if 0xE1 ≤ lead ∧ lead ≤ 0xEF then some (3,0x80,0xBF)
  else if lead = 0xF0 then some (4,0x90,0xBF)
  else if 0xF1 ≤ lead ∧ lead ≤ 0xF3 then some (4,0x80,0xBF)
  else if lead = 0xF4 then some (4,0x80,0x8F)
  else none

/-- Length of the ill-formed front of a byte string that one replacement stands for: the
longest start of a well-formed sequence, at least one byte. -/
def invalidPrefix : Bytes → ℕ
  | lead::second::rest =>
    match sequenceOf lead with
    | none => 1
    | some (width,lo,hi) =>
      if second < lo ∨ hi < second then 1
      else if width = 4 ∧ rest.head?.any (fun third => 0x80 ≤ third ∧ third ≤ 0xBF) then 3
      else 2
  | _ => 1

def lossyChars : ℕ → Bytes → List Char
  | 0, _ => []
  | _+1, [] => []
  | fuel+1, b::bs =>
    match (b::bs).toByteArray.utf8DecodeChar? 0 with
    | some c => c :: lossyChars fuel ((b::bs).drop c.utf8Size)
    | none => Char.ofNat 0xFFFD :: lossyChars fuel ((b::bs).drop (invalidPrefix (b::bs)))

def fromUtf8Lossy (b : Bytes) : String := String.ofList (lossyChars b.length b)

theorem utf8Chars_cons (c : Char) (cs : List Char) :
    utf8Chars (c::cs) = String.utf8EncodeChar c ++ utf8Chars cs := rfl

theorem lossyChars_utf8Chars {cs : List Char} {fuel : ℕ} (h : (utf8Chars cs).length ≤ fuel) :
    lossyChars fuel (utf8Chars cs) = cs := by
  induction cs generalizing fuel with
  | nil => cases fuel <;> rfl
  | cons c cs ih =>
    have hsize := c.utf8Size_pos
    rw [utf8Chars_cons] at h ⊢
    rw [List.length_append,String.length_utf8EncodeChar] at h
    obtain ⟨fuel,rfl⟩ : ∃ k, fuel = k+1 := ⟨fuel-1,by omega⟩
    have hfirst : (String.utf8EncodeChar c ++ utf8Chars cs).toByteArray.utf8DecodeChar? 0 =
        some c := by
      rw [List.toByteArray_append]
      exact ByteArray.utf8DecodeChar?_utf8EncodeChar_append
    have hdrop : (String.utf8EncodeChar c ++ utf8Chars cs).drop c.utf8Size = utf8Chars cs :=
      List.drop_left' (String.length_utf8EncodeChar c)
    cases hb : String.utf8EncodeChar c ++ utf8Chars cs with
    | nil => simp at hb
    | cons b bs =>
      rw [hb] at hfirst hdrop
      rw [lossyChars,hfirst]
      dsimp only
      rw [hdrop,ih (by omega)]

/-- Text survives its bytes. -/
@[simp] theorem fromUtf8Lossy_utf8 (s : String) : fromUtf8Lossy (utf8 s) = s := by
  rw [fromUtf8Lossy,utf8,lossyChars_utf8Chars (le_refl _),String.ofList_toList]

theorem utf8_injective {s t : String} (h : utf8 s = utf8 t) : s = t := by
  rw [← fromUtf8Lossy_utf8 s,h,fromUtf8Lossy_utf8]

end Utf8Text
end PgKronika
