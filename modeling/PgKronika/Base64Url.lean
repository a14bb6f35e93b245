import PgKronika.Utf8Text

/-! URL-safe base64 without padding. -/
namespace PgKronika
namespace Base64Url

open ByteCodec

/-- A–Z, a–z, 0–9, minus and underscore. -/
def symbolOf (n : ℕ) : Char :=
  if n < 26 then Char.ofNat (65+n)
  else if n < 52 then Char.ofNat (71+n)
  else if n < 62 then Char.ofNat (n-4)
  else if n = 62 then '-'
  else '_'

def valueOf (c : Char) : Option ℕ := (List.range 64).find? fun n => symbolOf n == c

def encodeChars : Bytes → List Char
  | a::b::c::rest =>
    symbolOf (a.toNat/4) :: symbolOf (a.toNat%4*16+b.toNat/16) ::
      symbolOf (b.toNat%16*4+c.toNat/64) :: symbolOf (c.toNat%64) :: encodeChars rest
  | [a,b] =>
    [symbolOf (a.toNat/4),symbolOf (a.toNat%4*16+b.toNat/16),symbolOf (b.toNat%16*4)]
  | [a] => [symbolOf (a.toNat/4),symbolOf (a.toNat%4*16)]
  | [] => []

/-- Sextets back to bytes. Bits behind the last byte must be zero. -/
def decodeValues : List ℕ → Option Bytes
  | i::j::k::l::rest =>
    (decodeValues rest).map fun bytes =>
      UInt8.ofNat (i*4+j/16) :: UInt8.ofNat (j%16*16+k/4) :: UInt8.ofNat (k%4*64+l) :: bytes
  | [i,j,k] =>
    if k%4 = 0 then some [UInt8.ofNat (i*4+j/16),UInt8.ofNat (j%16*16+k/4)] else none
  | [i,j] => if j%16 = 0 then some [UInt8.ofNat (i*4+j/16)] else none
  | [_] => none
  | [] => some []

def encode (b : Bytes) : String := String.ofList (encodeChars b)

def decode (s : String) : Option Bytes := (s.toList.mapM valueOf).bind decodeValues

theorem valueOf_symbolOf {n : ℕ} (h : n < 64) : valueOf (symbolOf n) = some n := by
  have hall : ∀ n : Fin 64, valueOf (symbolOf n) = some n.val := by decide
  exact hall ⟨n,h⟩

theorem ofNat_eq {x : UInt8} {n : ℕ} (h : n = x.toNat) : UInt8.ofNat n = x := by
  rw [h,UInt8.ofNat_toNat]

theorem mapM_encodeChars (b : Bytes) :
    ∃ values, (encodeChars b).mapM valueOf = some values ∧ decodeValues values = some b := by
  fun_induction encodeChars b with
  | case1 a b c rest ih =>
    obtain ⟨values,hvalues,hdecode⟩ := ih
    have ha := a.toNat_lt
    have hb := b.toNat_lt
    have hc := c.toNat_lt
    refine ⟨a.toNat/4 :: (a.toNat%4*16+b.toNat/16) :: (b.toNat%16*4+c.toNat/64) ::
      (c.toNat%64) :: values,?_,?_⟩
    · rw [List.mapM_cons,List.mapM_cons,List.mapM_cons,List.mapM_cons,
        valueOf_symbolOf (by omega),valueOf_symbolOf (by omega),valueOf_symbolOf (by omega),
        valueOf_symbolOf (by omega),hvalues]
      rfl
    · rw [decodeValues,hdecode,Option.map_some,ofNat_eq (by omega : _ = a.toNat),
        ofNat_eq (by omega : _ = b.toNat),ofNat_eq (by omega : _ = c.toNat)]
  | case2 a b =>
    have ha := a.toNat_lt
    have hb := b.toNat_lt
    refine ⟨[a.toNat/4,a.toNat%4*16+b.toNat/16,b.toNat%16*4],?_,?_⟩
    · rw [List.mapM_cons,List.mapM_cons,List.mapM_cons,List.mapM_nil,
        valueOf_symbolOf (by omega),valueOf_symbolOf (by omega),valueOf_symbolOf (by omega)]
      rfl
    · rw [decodeValues,if_pos (by omega),ofNat_eq (by omega : _ = a.toNat),
        ofNat_eq (by omega : _ = b.toNat)]
  | case3 a =>
    have ha := a.toNat_lt
    refine ⟨[a.toNat/4,a.toNat%4*16],?_,?_⟩
    · rw [List.mapM_cons,List.mapM_cons,List.mapM_nil,valueOf_symbolOf (by omega),
        valueOf_symbolOf (by omega)]
      rfl
    · rw [decodeValues,if_pos (by omega),ofNat_eq (by omega : _ = a.toNat)]
  | case4 => exact ⟨[],rfl,rfl⟩

theorem decode_encode (b : Bytes) : decode (encode b) = some b := by
  obtain ⟨values,hvalues,hdecode⟩ := mapM_encodeChars b
  rw [decode,encode,String.toList_ofList,hvalues]
  exact hdecode

end Base64Url
end PgKronika
