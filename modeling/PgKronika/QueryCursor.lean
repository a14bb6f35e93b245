import PgKronika.QueryValue
import PgKronika.StateLogic

/-! The resume cursor of a section query and its text form. -/
namespace PgKronika

open ByteCodec Utf8Text StateLogic

inductive QueryError
  | unknownSection (name : String)
  | badCursor (message : String)
  deriving DecidableEq

/-- The last returned row's values, in union-column order. -/
structure Cursor where
  values : List Value
  deriving DecidableEq

def tagNull : UInt8 := 0
def tagI64 : UInt8 := 1
def tagU64 : UInt8 := 2
def tagF64 : UInt8 := 3
def tagBool : UInt8 := 4
def tagTs : UInt8 := 5
def tagStr : UInt8 := 6
def tagBlob : UInt8 := 7
def tagListI32 : UInt8 := 8

def u8FromBool (b : Bool) : UInt8 := if b then 1 else 0

def i32Le (x : Int32) : Bytes := u32Le x.toUInt32

/-- Length-prefix, then the raw bytes. -/
def encodeBytes (bytes : Bytes) : Bytes := u64Le (UInt64.ofNat bytes.length) ++ bytes

def encodeValue : Value → Bytes
  | .null => [tagNull]
  | .i64 v => tagI64 :: i64Le v
  | .u64 v => tagU64 :: u64Le v
  | .f64 bits => tagF64 :: u64Le bits
  | .bool v => [tagBool,u8FromBool v]
  | .ts v => tagTs :: i64Le v
  | .str s => tagStr :: encodeBytes (utf8 s)
  | .blob text fullLen truncated =>
    tagBlob :: (encodeBytes (utf8 text) ++ u64Le fullLen ++ [u8FromBool truncated])
  | .listI32 items => tagListI32 :: (u64Le (UInt64.ofNat items.length) ++ items.flatMap i32Le)

def hexDigit (n : UInt8) : UInt8 := if n < 10 then 48 + n else 87 + n

/-- Lowercase hex digits of a byte string. -/
def hexBytes (bytes : Bytes) : Bytes :=
  bytes.flatMap fun byte : UInt8 => [hexDigit (byte >>> 4),hexDigit (byte &&& 0x0F)]

def hexEncode (bytes : Bytes) : String :=
  String.ofList ((hexBytes bytes).map fun digit => Char.ofNat digit.toNat)

def hexNibble (byte : UInt8) : Except QueryError UInt8 :=
  if 48 ≤ byte ∧ byte ≤ 57 then .ok (byte - 48)
  else if 97 ≤ byte ∧ byte ≤ 102 then .ok (byte - 97 + 10)
  else if 65 ≤ byte ∧ byte ≤ 70 then .ok (byte - 65 + 10)
  else .error (.badCursor ("non-hex byte 0x" ++ hexEncode [byte] ++ " in cursor"))

def hexPairs : Bytes → Except QueryError Bytes
  | hi::lo::rest =>
    hexNibble hi >>= fun hi =>
    hexNibble lo >>= fun lo =>
    hexPairs rest >>= fun rest =>
    .ok (((hi <<< 4) ||| lo)::rest)
  | _ => .ok []

def hexDecode (s : String) : Except QueryError Bytes :=
  if (utf8 s).length % 2 ≠ 0 then .error (.badCursor "odd-length hex cursor")
  else hexPairs (utf8 s)

/-- A forward-only reader over the cursor bytes that are left. -/
abbrev ByteReader := Reading Bytes QueryError

def takeSlice (len : ℕ) : ByteReader Bytes := fun left =>
  if left.length < len then .error (.badCursor "cursor ended mid-value")
  else .ok (left.take len,left.drop len)

def takeU8 : ByteReader UInt8 := takeSlice 1 >>= fun b => pure (u8At b 0)

def takeU64 : ByteReader UInt64 := takeSlice 8 >>= fun b => pure (u64At b 0)

def takeI64 : ByteReader Int64 := takeSlice 8 >>= fun b => pure (i64At b 0)

def takeI32 : ByteReader Int32 := takeSlice 4 >>= fun b => pure (u32At b 0).toInt32

def takeBool : ByteReader Bool := takeU8 >>= fun b =>
  if b = 0 then pure false
  else if b = 1 then pure true
  else fail (.badCursor s!"invalid bool byte {b}")

/-- A 64-bit length always fits the address space. -/
def takeUtf8 : ByteReader String := takeU64 >>= fun len =>
  takeSlice len.toNat >>= fun b => pure (fromUtf8Lossy b)

def takeMany {α : Type} (item : ByteReader α) : ℕ → ByteReader (List α)
  | 0 => pure []
  | n+1 => item >>= fun a => takeMany item n >>= fun rest => pure (a::rest)

def decodeValue : ByteReader Value := takeU8 >>= fun tag =>
  if tag = tagNull then pure .null
  else if tag = tagI64 then takeI64 >>= fun v => pure (.i64 v)
  else if tag = tagU64 then takeU64 >>= fun v => pure (.u64 v)
  else if tag = tagF64 then takeU64 >>= fun bits => pure (.f64 bits)
  else if tag = tagBool then takeBool >>= fun v => pure (.bool v)
  else if tag = tagTs then takeI64 >>= fun v => pure (.ts v)
  else if tag = tagStr then takeUtf8 >>= fun s => pure (.str s)
  else if tag = tagBlob then
    takeUtf8 >>= fun text => takeU64 >>= fun fullLen => takeBool >>= fun truncated =>
    pure (.blob text fullLen truncated)
  else if tag = tagListI32 then
    takeU64 >>= fun count => takeMany takeI32 count.toNat >>= fun items => pure (.listI32 items)
  else fail (.badCursor s!"unknown value tag {tag}")

def Cursor.encode (c : Cursor) : String :=
  hexEncode (u64Le (UInt64.ofNat c.values.length) ++ c.values.flatMap encodeValue)

def Cursor.decode (s : String) : Except QueryError Cursor :=
  match hexDecode s with
  | .error e => .error e
  | .ok bytes =>
    match (takeU64 >>= fun count => takeMany decodeValue count.toNat) bytes with
    | .error e => .error e
    | .ok (values,left) =>
      if left.isEmpty then .ok ⟨values⟩
      else .error (.badCursor "trailing bytes after cursor")

/-- A reader that answers `a` in front of anything when it stands before `encoded`. -/
def Reads {α : Type} (m : ByteReader α) (encoded : Bytes) (a : α) : Prop :=
  ∀ rest, m (encoded++rest) = .ok (a,rest)

section Reads

variable {α β : Type} {m : ByteReader α} {f : α → ByteReader β} {b c : Bytes} {x : α} {y : β}

theorem Reads.pure (x : α) : Reads (Pure.pure x) [] x := fun _ => rfl

theorem Reads.bind (hm : Reads m b x) (hf : Reads (f x) c y) : Reads (m >>= f) (b++c) y := by
  intro rest
  rw [List.append_assoc,bind_apply_ok (hm (c++rest))]
  exact hf rest

theorem Reads.map {g : α → β} (hm : Reads m b x) :
    Reads (m >>= fun a => Pure.pure (g a)) b (g x) := by
  have hr := Reads.bind (f := fun a => Pure.pure (g a)) hm (Reads.pure (g x))
  rwa [List.append_nil] at hr

theorem reads_takeSlice {b : Bytes} {len : ℕ} (h : b.length = len) :
    Reads (takeSlice len) b b := by
  intro rest
  subst h
  rw [takeSlice,if_neg (by simp),List.take_left,List.drop_left]

theorem reads_takeU8 (v : UInt8) : Reads takeU8 [v] v :=
  Reads.map (g := fun b => u8At b 0) (reads_takeSlice (b := [v]) rfl)

theorem reads_takeU64 (v : UInt64) : Reads takeU64 (u64Le v) v := by
  have h : u64At (u64Le v) 0 = v := u64At_of_slice (slice_of_append (a := []) (b := []) (by simp)
    rfl (by simp))
  have hr := (reads_takeSlice (u64Le_length v)).map (g := fun b => u64At b 0)
  rwa [h] at hr

theorem reads_takeI64 (v : Int64) : Reads takeI64 (i64Le v) v := by
  have h : i64At (i64Le v) 0 = v := i64At_of_slice (slice_of_append (a := []) (b := []) (by simp)
    rfl (by simp))
  have hr := (reads_takeSlice (i64Le_length v)).map (g := fun b => i64At b 0)
  rwa [h] at hr

theorem reads_takeI32 (v : Int32) : Reads takeI32 (i32Le v) v := by
  have h : u32At (u32Le v.toUInt32) 0 = v.toUInt32 :=
    u32At_of_slice (slice_of_append (a := []) (b := []) (by simp) rfl (by simp))
  have hr := (reads_takeSlice (u32Le_length v.toUInt32)).map (g := fun b => (u32At b 0).toInt32)
  rwa [h,Int32.toInt32_toUInt32] at hr

theorem reads_takeBool (v : Bool) : Reads takeBool [u8FromBool v] v := by
  refine (reads_takeU8 _).bind (c := []) ?_
  cases v <;> exact .pure _

theorem reads_takeUtf8 {s : String} (h : (utf8 s).length < 2^64) :
    Reads takeUtf8 (encodeBytes (utf8 s)) s := by
  refine (reads_takeU64 _).bind ?_
  rw [UInt64.toNat_ofNat_of_lt' h]
  have hr := (reads_takeSlice (rfl : (utf8 s).length = _)).map (g := fromUtf8Lossy)
  rwa [fromUtf8Lossy_utf8] at hr

theorem reads_takeMany {encode : α → Bytes} {items : List α}
    (h : ∀ a ∈ items, Reads m (encode a) a) :
    Reads (takeMany m items.length) (items.flatMap encode) items := by
  induction items with
  | nil => exact .pure []
  | cons a items ih =>
    refine (h a (by simp)).bind ?_
    exact (ih fun x hx => h x (List.mem_cons_of_mem _ hx)).map

end Reads

/-- Lengths that fit their prefix, as every value a query materializes does. -/
def Value.Fits : Value → Prop
  | .str s => (utf8 s).length < 2^64
  | .blob text _ _ => (utf8 text).length < 2^64
  | .listI32 items => items.length < 2^64
  | _ => True

instance (v : Value) : Decidable v.Fits := by
  cases v <;> unfold Value.Fits <;> infer_instance

theorem reads_decodeValue {v : Value} (h : v.Fits) : Reads decodeValue (encodeValue v) v := by
  cases v with
  | null => exact (reads_takeU8 tagNull).bind (.pure _)
  | i64 v => exact (reads_takeU8 tagI64).bind (reads_takeI64 v).map
  | u64 v => exact (reads_takeU8 tagU64).bind (reads_takeU64 v).map
  | f64 bits => exact (reads_takeU8 tagF64).bind (reads_takeU64 bits).map
  | bool v => exact (reads_takeU8 tagBool).bind (reads_takeBool v).map
  | ts v => exact (reads_takeU8 tagTs).bind (reads_takeI64 v).map
  | str s => exact (reads_takeU8 tagStr).bind (reads_takeUtf8 h).map
  | blob text fullLen truncated =>
    have hencode : encodeValue (.blob text fullLen truncated) = [tagBlob] ++
        (encodeBytes (utf8 text) ++ (u64Le fullLen ++ [u8FromBool truncated])) := by
      simp [encodeValue]
    rw [hencode]
    refine (reads_takeU8 tagBlob).bind ?_
    exact (reads_takeUtf8 h).bind ((reads_takeU64 fullLen).bind (reads_takeBool truncated).map)
  | listI32 items =>
    refine (reads_takeU8 tagListI32).bind ((reads_takeU64 _).bind ?_)
    rw [UInt64.toNat_ofNat_of_lt' h]
    exact (reads_takeMany fun a _ => reads_takeI32 a).map

theorem forall_byte {P : UInt8 → Prop} (h : ∀ n < 256, P (UInt8.ofNat n)) (byte : UInt8) :
    P byte := by
  have hb := h byte.toNat byte.toNat_lt
  rwa [UInt8.ofNat_toNat] at hb

/-- One byte, there and back through its two digits. -/
theorem hexNibble_byte (byte : UInt8) :
    hexNibble (hexDigit (byte >>> 4)) = .ok (byte >>> 4) ∧
      hexNibble (hexDigit (byte &&& 0x0F)) = .ok (byte &&& 0x0F) ∧
      ((byte >>> 4) <<< 4) ||| (byte &&& 0x0F) = byte := by
  revert byte
  exact forall_byte (by decide +kernel)

theorem hexPairs_hexBytes (bytes : Bytes) : hexPairs (hexBytes bytes) = .ok bytes := by
  induction bytes with
  | nil => rfl
  | cons byte rest ih =>
    obtain ⟨hhi,hlo,hbyte⟩ := hexNibble_byte byte
    change (hexNibble (hexDigit (byte >>> 4)) >>= fun hi =>
      hexNibble (hexDigit (byte &&& 0x0F)) >>= fun lo =>
      hexPairs (hexBytes rest) >>= fun rest => .ok (((hi <<< 4) ||| lo)::rest)) = _
    rw [hhi,hlo,ih]
    exact congrArg (fun b => Except.ok (b::rest)) hbyte

/-- Every hex digit is one byte of ASCII. -/
theorem utf8_hexDigit (byte : UInt8) :
    String.utf8EncodeChar (Char.ofNat (hexDigit (byte >>> 4)).toNat) = [hexDigit (byte >>> 4)] ∧
      String.utf8EncodeChar (Char.ofNat (hexDigit (byte &&& 0x0F)).toNat) =
        [hexDigit (byte &&& 0x0F)] := by
  revert byte
  exact forall_byte (by decide +kernel)

theorem utf8_hexEncode (bytes : Bytes) : utf8 (hexEncode bytes) = hexBytes bytes := by
  rw [utf8,hexEncode,String.toList_ofList]
  induction bytes with
  | nil => rfl
  | cons byte rest ih =>
    obtain ⟨hhi,hlo⟩ := utf8_hexDigit byte
    change utf8Chars (_::_::(hexBytes rest).map fun digit => Char.ofNat digit.toNat) = _
    rw [utf8Chars_cons,utf8Chars_cons,ih,hhi,hlo]
    rfl

theorem hexDecode_hexEncode (bytes : Bytes) : hexDecode (hexEncode bytes) = .ok bytes := by
  have heven : (hexBytes bytes).length % 2 = 0 := by
    induction bytes with
    | nil => rfl
    | cons byte rest ih =>
      change ((hexBytes rest).length+1+1) % 2 = 0
      omega
  rw [hexDecode,utf8_hexEncode,if_neg (by simp [heven]),hexPairs_hexBytes]

/-- A cursor survives its text form. -/
theorem Cursor.decode_encode {c : Cursor} (hcount : c.values.length < 2^64)
    (h : ∀ v ∈ c.values, v.Fits) : decode c.encode = .ok c := by
  have hreads := (reads_takeU64 (UInt64.ofNat c.values.length)).bind
    (f := fun count => takeMany decodeValue count.toNat) (c := c.values.flatMap encodeValue)
    (y := c.values) (by
      rw [UInt64.toNat_ofNat_of_lt' hcount]
      exact reads_takeMany fun v hv => reads_decodeValue (h v hv))
  have hall := hreads []
  rw [List.append_nil] at hall
  rw [decode,encode,hexDecode_hexEncode]
  dsimp only
  rw [hall]
  rfl

end PgKronika
