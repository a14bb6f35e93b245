import PgKronika.ByteCodec
import PgKronika.CheckedArith
import PgKronika.KeptState
import PgKronika.SealedBounds

/-! The compact Thrift input under the Parquet metadata readers. Every length it is told is held
against what remains before anything is taken. -/
namespace PgKronika

open ByteCodec CheckedArith KeptState

def maxThriftNesting : ℕ := 16
def maxThriftItems : ℕ := maxSectionRows

inductive TType
  | stop | bool | i08 | i16 | i32 | i64 | double | string | list | set | map | struct
  deriving DecidableEq

inductive ThriftError
  | invalidData (message : String)
  | notImplemented (message : String)
  | endOfFile (message : String)
  | utf8
  deriving DecidableEq

/-- The unread bytes and the reader's counters. `fieldStack` holds the live part of the source's
array, the innermost struct first; its length is `struct_depth`. -/
structure BoundedCompactInput where
  remaining : Bytes
  lastFieldId : Int16
  fieldStack : List Int16
  nesting : ℕ
  collectionItems : ℕ
  pendingBool : Option Bool
  deriving DecidableEq

abbrev CompactRead := Request BoundedCompactInput ThriftError

structure TFieldIdentifier where
  fieldType : TType
  id : Option Int16

structure TListIdentifier where
  elementType : TType
  size : Int32

namespace BoundedCompactInput

def new (remaining : Bytes) : BoundedCompactInput := ⟨remaining,0,[],0,0,none⟩

def remainingLen (s : BoundedCompactInput) : ℕ := s.remaining.length

def enter : CompactRead Unit := fun s =>
  if maxThriftNesting ≤ s.nesting then
    (.error (.invalidData "compact metadata nesting is too deep"),s)
  else (.ok (),{ s with nesting := s.nesting+1 })

def leave : CompactRead Unit := fun s =>
  match checkedSub s.nesting 1 with
  | some nesting => (.ok (),{ s with nesting := nesting })
  | none => (.error (.invalidData "unbalanced compact metadata"),s)

def admitItems (count : ℕ) : CompactRead Unit := fun s =>
  if s.remaining.length < count then
    (.error (.invalidData "collection exceeds remaining input"),s)
  else match (checkedAdd s.collectionItems count).filter (· ≤ maxThriftItems) with
  | some items => (.ok (),{ s with collectionItems := items })
  | none => (.error (.invalidData "compact metadata has too many collection items"),s)

/-- Take `len` bytes off the front, all of them or none. -/
def takeBytes (len : ℕ) (short : String) : CompactRead Bytes := fun s =>
  if len ≤ s.remaining.length then
    (.ok (s.remaining.take len),{ s with remaining := s.remaining.drop len })
  else (.error (.endOfFile short),s)

def readByte : CompactRead UInt8 := fun s =>
  match s.remaining with
  | [] => (.error (.endOfFile "compact metadata ended unexpectedly"),s)
  | byte::rest => (.ok byte,{ s with remaining := rest })

/-- The rounds of `readVlq` still to go; the last of ten holds one payload bit. -/
def readVlqFrom : ℕ → UInt64 → CompactRead UInt64
  | 0, _ => Request.fail (.invalidData "unterminated compact integer")
  | left+1, value => readByte >>= fun byte =>
    let index := 9-left
    let payload := (byte &&& 0x7f).toUInt64
    if index = 9 ∧ 1 < payload then Request.fail (.invalidData "compact integer exceeds u64")
    else
      let value := value ||| payload <<< UInt64.ofNat (index*7)
      if byte &&& 0x80 = 0 then pure value else readVlqFrom left value

def readVlq : CompactRead UInt64 := readVlqFrom 10 0

def readZigzag : CompactRead Int64 := readVlq >>= fun value =>
  if 2^63 ≤ (value >>> 1).toNat then Request.fail (.invalidData "compact integer exceeds i64")
  else
    let half := Int64.ofNat (value >>> 1).toNat
    pure (if value &&& 1 = 0 then half else ~~~half)

def compactType (value : UInt8) : Except ThriftError TType :=
  match value.toNat with
  | 0 => .ok .stop
  | 1 | 2 => .ok .bool
  | 3 => .ok .i08
  | 4 => .ok .i16
  | 5 => .ok .i32
  | 6 => .ok .i64
  | 7 => .ok .double
  | 8 => .ok .string
  | 9 => .ok .list
  | 10 => .ok .set
  | 11 => .ok .map
  | 12 => .ok .struct
  | _ => .error (.invalidData "unknown compact field type")

/-- A collection's count follows its type when the header's high half is full. -/
def readCount (inline : UInt8) : CompactRead UInt64 :=
  if inline = 15 then readVlq else pure inline.toUInt64

def readCollection : CompactRead TListIdentifier :=
  enter >>= fun _ => readByte >>= fun header =>
  lift (compactType (header &&& 0x0f)) >>= fun elementType =>
  if elementType = .stop then Request.fail (.invalidData "collection element type is stop")
  else readCount ((header &&& 0xf0) >>> 4) >>= fun count =>
    admitItems count.toNat >>= fun _ =>
    if 2^31 ≤ count.toNat then Request.fail (.invalidData "collection is too large")
    else pure ⟨elementType,Int32.ofNat count.toNat⟩

def readStructBegin : CompactRead Unit := enter >>= fun _ s =>
  if maxThriftNesting ≤ s.fieldStack.length then
    (.error (.invalidData "compact metadata nesting is too deep"),s)
  else (.ok (),{ s with fieldStack := s.lastFieldId::s.fieldStack, lastFieldId := 0 })

def popField : CompactRead Unit := fun s =>
  match s.fieldStack with
  | [] => (.error (.invalidData "unbalanced compact struct"),s)
  | id::rest => (.ok (),{ s with fieldStack := rest, lastFieldId := id })

def readStructEnd : CompactRead Unit := popField >>= fun _ => leave

def readI8 : CompactRead Int8 := readByte >>= fun byte => pure byte.toInt8

def readI16 : CompactRead Int16 := readZigzag >>= fun value =>
  if -2^15 ≤ value.toInt ∧ value.toInt < 2^15 then pure (Int16.ofInt value.toInt)
  else Request.fail (.invalidData "compact i16 is out of range")

def readI32 : CompactRead Int32 := readZigzag >>= fun value =>
  if -2^31 ≤ value.toInt ∧ value.toInt < 2^31 then pure (Int32.ofInt value.toInt)
  else Request.fail (.invalidData "compact i32 is out of range")

def readI64 : CompactRead Int64 := readZigzag

/-- The type in the low half of a field header; a boolean field's value is there too. -/
def readFieldType (low : UInt8) : CompactRead TType := fun s =>
  if low = 1 then (.ok .bool,{ s with pendingBool := some true })
  else if low = 2 then (.ok .bool,{ s with pendingBool := some false })
  else lift (compactType low) s

def addFieldId (delta : ℕ) : CompactRead Int16 := fun s =>
  if s.lastFieldId.toInt+delta < 2^15 then (.ok (Int16.ofInt (s.lastFieldId.toInt+delta)),s)
  else (.error (.invalidData "compact field id overflow"),s)

def noteFieldId (id : Int16) : CompactRead Unit := modify fun s => { s with lastFieldId := id }

def readFieldBegin : CompactRead TFieldIdentifier := fun s =>
  if s.pendingBool.isSome then
    (.error (.invalidData "compact boolean field was not consumed"),s)
  else (readByte >>= fun header =>
    let delta := ((header &&& 0xf0) >>> 4).toNat
    readFieldType (header &&& 0x0f) >>= fun fieldType =>
    if fieldType = .stop then pure ⟨fieldType,none⟩
    else (if delta = 0 then readI16 else addFieldId delta) >>= fun id =>
      noteFieldId id >>= fun _ => pure ⟨fieldType,some id⟩) s

def readBool : CompactRead Bool := fun s =>
  match s.pendingBool with
  | some value => (.ok value,{ s with pendingBool := none })
  | none => (readByte >>= fun byte =>
    if byte = 1 then pure true
    else if byte = 2 then pure false
    else Request.fail (.invalidData "invalid compact boolean")) s

def readBytes : CompactRead Bytes := readVlq >>= fun len =>
  takeBytes len.toNat "binary field exceeds remaining input"

/-- The eight bytes of a double, not yet read as a number. -/
def readDouble : CompactRead Bytes := takeBytes 8 "double exceeds remaining input"

def readString : CompactRead String := readBytes >>= fun bytes =>
  match String.fromUTF8? ⟨bytes.toArray⟩ with
  | some text => pure text
  | none => Request.fail .utf8

def readListBegin : CompactRead TListIdentifier := readCollection

def readListEnd : CompactRead Unit := leave

/-- A part of the protocol that Parquet metadata does not use: messages, sets and maps. -/
def unsupported (message : String) : CompactRead Unit := Request.fail (.notImplemented message)

end BoundedCompactInput

/-- The calls of the protocol trait that can change the input. -/
inductive ProtocolCall
  | structBegin | structEnd | fieldBegin | fieldEnd | bool | bytes | i8 | i16 | i32 | i64 | double
  | string | listBegin | listEnd | byte | unsupported (message : String)

open BoundedCompactInput in
/-- The input after a call, whatever the call answers. -/
def ProtocolCall.perform (s : BoundedCompactInput) : ProtocolCall → BoundedCompactInput
  | .structBegin => (readStructBegin s).2
  | .structEnd => (readStructEnd s).2
  | .fieldBegin => (readFieldBegin s).2
  | .fieldEnd => s
  | .bool => (readBool s).2
  | .bytes => (readBytes s).2
  | .i8 => (readI8 s).2
  | .i16 => (readI16 s).2
  | .i32 => (readI32 s).2
  | .i64 => (readI64 s).2
  | .double => (readDouble s).2
  | .string => (readString s).2
  | .listBegin => (readListBegin s).2
  | .listEnd => (readListEnd s).2
  | .byte => (readByte s).2
  | .unsupported message => (BoundedCompactInput.unsupported message s).2

/-- The reader changes the input through the protocol's calls only. -/
def DrivesProtocol {α : Type} (reader : CompactRead α) : Prop :=
  ∀ s, ∃ calls : List ProtocolCall, (reader s).2 = calls.foldl ProtocolCall.perform s

/-- What is unread is the end of `whole`, and every counter is under its cap. -/
structure Within (whole : Bytes) (s : BoundedCompactInput) : Prop where
  remaining : s.remaining <:+ whole
  nesting : s.nesting ≤ maxThriftNesting
  depth : s.fieldStack.length ≤ maxThriftNesting
  items : s.collectionItems ≤ maxThriftItems

/-- The input stays within `whole`, also when the call fails. -/
def KeepsWithin (whole : Bytes) {α : Type} (m : CompactRead α) : Prop :=
  Triple (Within whole) m (fun _ => Within whole) (Within whole)

namespace KeepsWithin

open BoundedCompactInput

variable {whole : Bytes} {α β : Type}

theorem pure (a : α) : KeepsWithin whole (Pure.pure a : CompactRead α) :=
  Triple.pure (Q := fun _ => Within whole)

theorem fail (e : ThriftError) : KeepsWithin whole (Request.fail e : CompactRead α) := Triple.fail

theorem bind {m : CompactRead α} {f : α → CompactRead β} (hm : KeepsWithin whole m)
    (hf : ∀ a, KeepsWithin whole (f a)) : KeepsWithin whole (m >>= f) := Triple.bind hm hf

theorem lift (a : Except ThriftError α) : KeepsWithin whole (KeptState.lift a : CompactRead α) := by
  cases a with
  | ok a => exact pure a
  | error e => exact fail e

theorem after {m : CompactRead α} (hm : KeepsWithin whole m) {s : BoundedCompactInput}
    (hs : Within whole s) : Within whole (m s).2 := Triple.after hm hs

theorem enter : KeepsWithin whole enter := by
  intro s hs
  unfold BoundedCompactInput.enter
  by_cases h : maxThriftNesting ≤ s.nesting
  · simpa only [if_pos h] using hs
  · simp only [if_neg h]
    exact { hs with nesting := by dsimp only; omega }

theorem leave : KeepsWithin whole leave := by
  intro s hs
  unfold BoundedCompactInput.leave
  have hnesting := hs.nesting
  cases h : checkedSub s.nesting 1 with
  | none => exact hs
  | some nesting =>
    obtain ⟨-,rfl⟩ := checkedSub_eq_some.mp h
    exact { hs with nesting := by dsimp only; omega }

theorem admitItems (count : ℕ) : KeepsWithin whole (admitItems count) := by
  intro s hs
  unfold BoundedCompactInput.admitItems
  by_cases h : s.remaining.length < count
  · simpa only [if_pos h] using hs
  · simp only [if_neg h]
    cases hitems : (checkedAdd s.collectionItems count).filter (· ≤ maxThriftItems) with
    | none => exact hs
    | some items =>
      have hcap := (Option.filter_eq_some_iff.mp hitems).2
      exact { hs with items := by simpa using hcap }

theorem takeBytes (len : ℕ) (short : String) : KeepsWithin whole (takeBytes len short) := by
  intro s hs
  unfold BoundedCompactInput.takeBytes
  by_cases h : len ≤ s.remaining.length
  · simp only [if_pos h]
    exact { hs with remaining := (List.drop_suffix len s.remaining).trans hs.remaining }
  · simpa only [if_neg h] using hs

theorem readByte : KeepsWithin whole readByte := by
  intro s hs
  unfold BoundedCompactInput.readByte
  cases h : s.remaining with
  | nil => exact hs
  | cons byte rest =>
    have hrest : rest <:+ s.remaining := h ▸ List.suffix_cons byte rest
    exact { hs with remaining := hrest.trans hs.remaining }

theorem readVlqFrom (left : ℕ) (value : UInt64) : KeepsWithin whole (readVlqFrom left value) := by
  induction left generalizing value with
  | zero => exact fail _
  | succ left ih =>
    refine readByte.bind fun byte => ?_
    dsimp only
    split_ifs
    · exact fail _
    · exact pure _
    · exact ih _

theorem readVlq : KeepsWithin whole readVlq := readVlqFrom 10 0

theorem readZigzag : KeepsWithin whole readZigzag := by
  refine readVlq.bind fun value => ?_
  split
  · exact fail _
  · exact pure _

theorem readCount (inline : UInt8) : KeepsWithin whole (readCount inline) := by
  unfold BoundedCompactInput.readCount
  split
  · exact readVlq
  · exact pure _

theorem readCollection : KeepsWithin whole readCollection := by
  refine enter.bind fun _ => readByte.bind fun header => (lift _).bind fun elementType => ?_
  split
  · exact fail _
  · refine (readCount _).bind fun count => (admitItems _).bind fun _ => ?_
    split
    · exact fail _
    · exact pure _

theorem readStructBegin : KeepsWithin whole readStructBegin := by
  refine enter.bind fun _ s hs => ?_
  by_cases h : maxThriftNesting ≤ s.fieldStack.length
  · simpa only [if_pos h] using hs
  · simp only [if_neg h]
    exact { hs with depth := by rw [List.length_cons]; omega }

theorem popField : KeepsWithin whole popField := by
  intro s hs
  unfold BoundedCompactInput.popField
  cases h : s.fieldStack with
  | nil => exact hs
  | cons id rest =>
    have hdepth := hs.depth
    rw [h,List.length_cons] at hdepth
    exact { hs with depth := by dsimp only; omega }

theorem readStructEnd : KeepsWithin whole readStructEnd := popField.bind fun _ => leave

theorem readI8 : KeepsWithin whole readI8 := readByte.bind fun _ => pure _

theorem readI16 : KeepsWithin whole readI16 := by
  refine readZigzag.bind fun value => ?_
  split
  · exact pure _
  · exact fail _

theorem readI32 : KeepsWithin whole readI32 := by
  refine readZigzag.bind fun value => ?_
  split
  · exact pure _
  · exact fail _

theorem readFieldType (low : UInt8) : KeepsWithin whole (readFieldType low) := by
  intro s hs
  unfold BoundedCompactInput.readFieldType
  by_cases h : low = 1
  · simp only [if_pos h]
    exact { hs with }
  · by_cases h' : low = 2
    · simp only [if_neg h,if_pos h']
      exact { hs with }
    · simpa only [if_neg h,if_neg h'] using lift (compactType low) s hs

theorem addFieldId (delta : ℕ) : KeepsWithin whole (addFieldId delta) := by
  intro s hs
  unfold BoundedCompactInput.addFieldId
  by_cases h : s.lastFieldId.toInt+delta < 2^15
  · simpa only [if_pos h] using hs
  · simpa only [if_neg h] using hs

theorem noteFieldId (id : Int16) : KeepsWithin whole (noteFieldId id) := fun _ hs => { hs with }

theorem readFieldBegin : KeepsWithin whole readFieldBegin := by
  intro s hs
  unfold BoundedCompactInput.readFieldBegin
  by_cases h : s.pendingBool.isSome
  · simpa only [if_pos h] using hs
  · simp only [if_neg h]
    refine (readByte.bind fun header => (readFieldType _).bind fun fieldType => ?_) s hs
    split
    · exact pure _
    · refine KeepsWithin.bind ?_ fun id => (noteFieldId id).bind fun _ => pure _
      split
      · exact readI16
      · exact addFieldId _

theorem readBool : KeepsWithin whole readBool := by
  intro s hs
  unfold BoundedCompactInput.readBool
  cases h : s.pendingBool with
  | some value => exact { hs with }
  | none =>
    refine (readByte.bind fun byte => ?_) s hs
    split_ifs
    · exact pure _
    · exact pure _
    · exact fail _

theorem readBytes : KeepsWithin whole readBytes := readVlq.bind fun _ => takeBytes _ _

theorem readString : KeepsWithin whole readString := by
  refine readBytes.bind fun bytes => ?_
  split
  · exact pure _
  · exact fail _

end KeepsWithin

theorem ProtocolCall.perform_within {whole : Bytes} {s : BoundedCompactInput}
    (hs : Within whole s) (call : ProtocolCall) : Within whole (call.perform s) := by
  cases call with
  | structBegin => exact KeepsWithin.readStructBegin.after hs
  | structEnd => exact KeepsWithin.readStructEnd.after hs
  | fieldBegin => exact KeepsWithin.readFieldBegin.after hs
  | fieldEnd => exact hs
  | bool => exact KeepsWithin.readBool.after hs
  | bytes => exact KeepsWithin.readBytes.after hs
  | i8 => exact KeepsWithin.readI8.after hs
  | i16 => exact KeepsWithin.readI16.after hs
  | i32 => exact KeepsWithin.readI32.after hs
  | i64 => exact KeepsWithin.readZigzag.after hs
  | double => exact (KeepsWithin.takeBytes _ _).after hs
  | string => exact KeepsWithin.readString.after hs
  | listBegin => exact KeepsWithin.readCollection.after hs
  | listEnd => exact KeepsWithin.leave.after hs
  | byte => exact KeepsWithin.readByte.after hs
  | unsupported message => exact (KeepsWithin.fail (.notImplemented message)).after (α := Unit) hs

theorem Within.new (bytes : Bytes) : Within bytes (.new bytes) :=
  ⟨List.suffix_refl bytes,by simp [BoundedCompactInput.new],by simp [BoundedCompactInput.new],
    by simp [BoundedCompactInput.new]⟩

/-- However malformed the bytes, a reader over the protocol reads on from their start, and nests and
collects no more than the caps. -/
theorem DrivesProtocol.within {α : Type} {reader : CompactRead α} (h : DrivesProtocol reader)
    (bytes : Bytes) : Within bytes (reader (.new bytes)).2 := by
  obtain ⟨calls,hcalls⟩ := h (.new bytes)
  rw [hcalls]
  exact List.foldlRecOn calls ProtocolCall.perform (Within.new bytes)
    fun _ hs call _ => ProtocolCall.perform_within hs call

end PgKronika
