import PgKronika.Crc32c
import PgKronika.LayoutTime

/-! The fixed-width records of `active.parts`: the root header, the reset
marker and the frame header. -/
namespace PgKronika

open ByteCodec

/-- "PGMP", opening every journal frame. -/
def frameMagic : Bytes := [0x50,0x47,0x4D,0x50]

/-- "PGKJNL1\0". -/
def journalMagic : Bytes := [0x50,0x47,0x4B,0x4A,0x4E,0x4C,0x31,0x00]

/-- "PGKRST1\0". -/
def resetMarkerMagic : Bytes := [0x50,0x47,0x4B,0x52,0x53,0x54,0x31,0x00]

def journalVersion : UInt32 := 1

def journalHeaderLen : ℕ := 36
def resetMarkerLen : ℕ := 32
def frameHeaderLen : ℕ := 16

def maxJournalLen : ℕ := 1024*1024*1024
def maxPartLen : UInt64 := 64*1024*1024
def maxJournalParts : ℕ := 1000000

@[simp] theorem frameMagic_length : frameMagic.length = 4 := rfl
@[simp] theorem journalMagic_length : journalMagic.length = 8 := rfl
@[simp] theorem resetMarkerMagic_length : resetMarkerMagic.length = 8 := rfl

inductive JournalState
  | empty
  | active (segmentId : Int64)
  deriving DecidableEq

structure JournalHeader where
  state : JournalState
  bodyLen : UInt64
  deriving DecidableEq

inductive JournalHeaderError
  | unsupportedMagic (actual : Bytes)
  | unsupportedVersion (version : UInt32)
  | badChecksum (stored computed : UInt32)
  | invalidState (state : UInt8)
  | missingIdentity
  | unexpectedIdentity
  | nonZeroReserved
  deriving DecidableEq

def JournalHeader.EMPTY : JournalHeader := ⟨.empty,0⟩

/-- State byte, identity-present byte and the two reserved bytes. -/
def JournalState.flags : JournalState → Bytes
  | .empty => [0,0,0,0]
  | .active _ => [1,1,0,0]

def JournalState.identity : JournalState → Int64
  | .empty => 0
  | .active segmentId => segmentId

/-- The 24 header bytes that no append of one generation changes. -/
def JournalState.encode (state : JournalState) : Bytes :=
  journalMagic ++ u32Le journalVersion ++ state.flags ++ i64Le state.identity

def JournalHeader.encodeFields (h : JournalHeader) : Bytes := h.state.encode ++ u64Le h.bodyLen

def JournalHeader.encode (h : JournalHeader) : Bytes :=
  h.encodeFields ++ u32Le (Crc32c.crc32c h.encodeFields)

def JournalHeader.decode (bytes : Bytes) : Except JournalHeaderError JournalHeader :=
  if slice bytes 0 8 ≠ journalMagic then .error (.unsupportedMagic (slice bytes 0 8))
  else if u32At bytes 8 ≠ journalVersion then .error (.unsupportedVersion (u32At bytes 8))
  else
    let stored := u32At bytes 32
    let computed := Crc32c.crc32c (slice bytes 0 32)
    if stored ≠ computed then .error (.badChecksum stored computed)
    else if u8At bytes 14 ≠ 0 ∨ u8At bytes 15 ≠ 0 then .error .nonZeroReserved
    else
      let segmentId := i64At bytes 16
      let bodyLen := u64At bytes 24
      if u8At bytes 12 = 0 ∧ u8At bytes 13 = 0 then
        if segmentId ≠ 0 then .error .unexpectedIdentity else .ok ⟨.empty,bodyLen⟩
      else if u8At bytes 12 = 1 ∧ u8At bytes 13 = 1 then .ok ⟨.active segmentId,bodyLen⟩
      else if u8At bytes 12 = 1 ∧ u8At bytes 13 = 0 then .error .missingIdentity
      else if u8At bytes 12 = 0 ∧ u8At bytes 13 = 1 then .error .unexpectedIdentity
      else .error (.invalidState (u8At bytes 12))

@[simp] theorem JournalState.flags_length (state : JournalState) : state.flags.length = 4 := by
  cases state <;> rfl

@[simp] theorem JournalState.encode_length (state : JournalState) : state.encode.length = 24 := by
  simp [encode]

@[simp] theorem JournalHeader.encodeFields_length (h : JournalHeader) :
    h.encodeFields.length = 32 := by
  simp [encodeFields]

@[simp] theorem JournalHeader.encode_length (h : JournalHeader) :
    h.encode.length = journalHeaderLen := by
  simp [encode,journalHeaderLen]

theorem JournalHeader.slice_encodeFields (h : JournalHeader) :
    slice h.encode 0 32 = h.encodeFields :=
  slice_of_append (a := []) (b := u32Le (Crc32c.crc32c h.encodeFields)) (by simp [encode]) rfl
    (by simp)

theorem JournalHeader.slice_encodeState (h : JournalHeader) :
    slice h.encode 0 24 = h.state.encode :=
  slice_of_append (a := []) (b := u64Le h.bodyLen ++ u32Le (Crc32c.crc32c h.encodeFields))
    (by simp [encode,encodeFields]) rfl (by simp)

theorem JournalHeader.u64At_bodyLen (h : JournalHeader) : u64At h.encode 24 = h.bodyLen :=
  u64At_of_slice (slice_of_append (a := h.state.encode)
    (b := u32Le (Crc32c.crc32c h.encodeFields)) (by simp [encode,encodeFields]) (by simp) (by simp))

theorem JournalHeader.u32At_checksum (h : JournalHeader) :
    u32At h.encode 32 = Crc32c.crc32c h.encodeFields :=
  u32At_of_slice (slice_of_append (a := h.encodeFields) (b := []) (by simp [encode]) (by simp)
    (by simp))

theorem JournalState.slice_magic (state : JournalState) :
    slice state.encode 0 8 = journalMagic :=
  slice_of_append (a := []) (b := u32Le journalVersion ++ state.flags ++ i64Le state.identity)
    (by simp [encode]) rfl rfl

theorem JournalState.u32At_version (state : JournalState) :
    u32At state.encode 8 = journalVersion :=
  u32At_of_slice (slice_of_append (a := journalMagic) (b := state.flags ++ i64Le state.identity)
    (by simp [encode]) rfl (by simp))

theorem JournalState.i64At_identity (state : JournalState) :
    i64At state.encode 16 = state.identity :=
  i64At_of_slice (slice_of_append (a := journalMagic ++ u32Le journalVersion ++ state.flags)
    (b := []) (by simp [encode]) (by simp) (by simp))

/-- The flag bytes, one at a time. -/
theorem JournalState.u8At_flag (state : JournalState) {k : ℕ} (hk : k < 4) :
    u8At state.encode (12+k) = u8At state.flags k := by
  have hs : slice state.encode (12+k) 1 = slice state.flags k 1 := by
    rw [encode,slice_append_left (by simp; omega),slice_append_right (by simp)]
    simp
  rw [u8At,hs,u8At]

theorem JournalHeader.slice_encode (h : JournalHeader) {offset len : ℕ} (hb : offset + len ≤ 24) :
    slice h.encode offset len = slice h.state.encode offset len := by
  rw [← h.slice_encodeState,slice_slice hb,Nat.zero_add]

theorem JournalHeader.u8At_flag (h : JournalHeader) {k : ℕ} (hk : k < 4) :
    u8At h.encode (12+k) = u8At h.state.flags k := by
  rw [u8At,h.slice_encode (by omega),← u8At,JournalState.u8At_flag _ hk]

theorem JournalHeader.decode_encode (h : JournalHeader) : decode h.encode = .ok h := by
  have h0 : slice h.encode 0 8 = journalMagic := by
    rw [h.slice_encode (by omega),JournalState.slice_magic]
  have h8 : u32At h.encode 8 = journalVersion := by
    rw [u32At,h.slice_encode (by omega),← u32At,JournalState.u32At_version]
  have h16 : i64At h.encode 16 = h.state.identity := by
    rw [i64At,u64At,h.slice_encode (by omega),← u64At,← i64At,JournalState.i64At_identity]
  have h12 := h.u8At_flag (show 0 < 4 by omega)
  have h13 := h.u8At_flag (show 1 < 4 by omega)
  have h14 := h.u8At_flag (show 2 < 4 by omega)
  have h15 := h.u8At_flag (show 3 < 4 by omega)
  obtain ⟨state,bodyLen⟩ := h
  unfold decode
  simp only [Nat.add_zero,Nat.reduceAdd] at h12 h13 h14 h15
  rw [h0,h8,u32At_checksum,slice_encodeFields,h12,h13,h14,h15,h16,u64At_bodyLen]
  cases state <;> simp [JournalState.flags,JournalState.identity,u8At,slice]

/-- What the checksum of a decoded header covers. -/
theorem JournalHeader.decode_ok_checksum {bytes : Bytes} {h : JournalHeader}
    (hd : decode bytes = .ok h) : u32At bytes 32 = Crc32c.crc32c (slice bytes 0 32) := by
  unfold decode at hd
  split at hd
  · cases hd
  · split at hd
    · cases hd
    · dsimp only at hd
      split at hd
      · cases hd
      · rename_i hne
        exact not_not.mp hne

/-- Magic and version are the same in every header. -/
theorem JournalHeader.take_encode_eq (h h' : JournalHeader) {n : ℕ} (hn : n ≤ 12) :
    h.encode.take n = h'.encode.take n := by
  have hpre : ∀ x : JournalHeader, x.encode.take n = (journalMagic ++ u32Le journalVersion).take n := by
    intro x
    have hx : x.encode = (journalMagic ++ u32Le journalVersion) ++ (x.state.flags ++
        i64Le x.state.identity ++ u64Le x.bodyLen ++ u32Le (Crc32c.crc32c x.encodeFields)) := by
      simp [encode,encodeFields,JournalState.encode]
    rw [hx,List.take_append_of_le_length (by simpa using hn)]
  rw [hpre h,hpre h']

/-- Durable intent to replace one active generation with the empty header. -/
structure ResetMarker where
  previousLen : UInt64
  previousSegmentId : Int64
  previousHeaderCrc : UInt32
  deriving DecidableEq

/-- The active header of a journal file of `previousLen` bytes. -/
def activeHeader (previousLen : UInt64) (segmentId : Int64) : JournalHeader :=
  ⟨.active segmentId,previousLen - UInt64.ofNat journalHeaderLen⟩

def ResetMarker.new (previousLen : UInt64) (previousSegmentId : Int64) : Option ResetMarker :=
  if previousLen.toNat ≤ journalHeaderLen then none
  else some ⟨previousLen,previousSegmentId,
    Crc32c.crc32c (activeHeader previousLen previousSegmentId).encode⟩

def ResetMarker.encodeFields (m : ResetMarker) : Bytes :=
  resetMarkerMagic ++ u64Le m.previousLen ++ i64Le m.previousSegmentId ++ u32Le m.previousHeaderCrc

def ResetMarker.encode (m : ResetMarker) : Bytes :=
  m.encodeFields ++ u32Le (Crc32c.crc32c m.encodeFields)

def ResetMarker.decode (bytes : Bytes) : Option ResetMarker :=
  if slice bytes 0 8 ≠ resetMarkerMagic then none
  else if u32At bytes 28 ≠ Crc32c.crc32c (slice bytes 0 28) then none
  else some ⟨u64At bytes 8,i64At bytes 16,u32At bytes 24⟩

/-- The active header named by a marker, when its checksum agrees. -/
def ResetMarker.expectedPreviousHeader (m : ResetMarker) : Option JournalHeader :=
  match ResetMarker.new m.previousLen m.previousSegmentId with
  | none => none
  | some marker =>
    if marker.previousHeaderCrc = m.previousHeaderCrc then
      some (activeHeader m.previousLen m.previousSegmentId)
    else none

inductive ResetHeaderTransition
  | previous
  | empty
  | torn
  deriving DecidableEq

/-- Either complete header, or a prefix of the empty one over the previous one. -/
def ResetMarker.classifyHeaderTransition (m : ResetMarker) (observed : Bytes) :
    Option ResetHeaderTransition :=
  match m.expectedPreviousHeader with
  | none => none
  | some header =>
    let previous := header.encode
    let empty := JournalHeader.EMPTY.encode
    if observed = previous then some .previous
    else if observed = empty then some .empty
    else if (List.range' 1 (journalHeaderLen-1)).any (fun split =>
        observed.take split = empty.take split && observed.drop split = previous.drop split) then
      some .torn
    else none

@[simp] theorem ResetMarker.encodeFields_length (m : ResetMarker) : m.encodeFields.length = 28 := by
  simp [encodeFields]

@[simp] theorem ResetMarker.encode_length (m : ResetMarker) :
    m.encode.length = resetMarkerLen := by
  simp [encode,resetMarkerLen]

theorem ResetMarker.decode_encode (m : ResetMarker) : decode m.encode = some m := by
  have h0 : slice m.encode 0 8 = resetMarkerMagic :=
    slice_of_append (a := []) (b := u64Le m.previousLen ++ i64Le m.previousSegmentId ++
      u32Le m.previousHeaderCrc ++ u32Le (Crc32c.crc32c m.encodeFields))
      (by simp [encode,encodeFields]) rfl rfl
  have h8 : u64At m.encode 8 = m.previousLen :=
    u64At_of_slice (slice_of_append (a := resetMarkerMagic) (b := i64Le m.previousSegmentId ++
      u32Le m.previousHeaderCrc ++ u32Le (Crc32c.crc32c m.encodeFields))
      (by simp [encode,encodeFields]) rfl (by simp))
  have h16 : i64At m.encode 16 = m.previousSegmentId :=
    i64At_of_slice (slice_of_append (a := resetMarkerMagic ++ u64Le m.previousLen)
      (b := u32Le m.previousHeaderCrc ++ u32Le (Crc32c.crc32c m.encodeFields))
      (by simp [encode,encodeFields]) (by simp) (by simp))
  have h24 : u32At m.encode 24 = m.previousHeaderCrc :=
    u32At_of_slice (slice_of_append
      (a := resetMarkerMagic ++ u64Le m.previousLen ++ i64Le m.previousSegmentId)
      (b := u32Le (Crc32c.crc32c m.encodeFields)) (by simp [encode,encodeFields]) (by simp)
      (by simp))
  have h28 : u32At m.encode 28 = Crc32c.crc32c m.encodeFields :=
    u32At_of_slice (slice_of_append (a := m.encodeFields) (b := []) (by simp [encode]) (by simp)
      (by simp))
  have hf : slice m.encode 0 28 = m.encodeFields :=
    slice_of_append (a := []) (b := u32Le (Crc32c.crc32c m.encodeFields)) (by simp [encode]) rfl
      (by simp)
  simp [decode,h0,h8,h16,h24,h28,hf]

/-- The first bytes of a decodable marker are its magic. -/
theorem ResetMarker.decode_some_magic {bytes : Bytes} {m : ResetMarker}
    (h : decode bytes = some m) : slice bytes 0 8 = resetMarkerMagic := by
  by_contra hne
  rw [decode,if_pos hne] at h
  cases h

/-- A marker built for a generation names exactly the header of that generation. -/
theorem ResetMarker.expected_of_new {len : UInt64} {segmentId : Int64} {m : ResetMarker}
    (h : ResetMarker.new len segmentId = some m) :
    m.previousLen = len ∧ m.previousSegmentId = segmentId ∧
      m.expectedPreviousHeader = some (activeHeader len segmentId) := by
  have hm : m = ⟨len,segmentId,Crc32c.crc32c (activeHeader len segmentId).encode⟩ := by
    unfold new at h
    split at h
    · cases h
    · cases h; rfl
  subst hm
  refine ⟨rfl,rfl,?_⟩
  simp [expectedPreviousHeader,h]

theorem ResetMarker.expected_eq_activeHeader {m : ResetMarker} {header : JournalHeader}
    (h : m.expectedPreviousHeader = some header) :
    header = activeHeader m.previousLen m.previousSegmentId := by
  unfold expectedPreviousHeader at h
  split at h
  · cases h
  · split at h
    · cases h; rfl
    · cases h

/-- Every split point of the header rewrite is recognized. -/
theorem ResetMarker.classify_split {m : ResetMarker} {header : JournalHeader}
    (h : m.expectedPreviousHeader = some header) {split : ℕ} (hs : split ≤ journalHeaderLen) :
    (m.classifyHeaderTransition (JournalHeader.EMPTY.encode.take split ++
      header.encode.drop split)).isSome := by
  have hle : JournalHeader.EMPTY.encode.length = journalHeaderLen := by simp
  have hlp : header.encode.length = journalHeaderLen := by simp
  have hlt : (JournalHeader.EMPTY.encode.take split).length = split := by simp; omega
  generalize hE : JournalHeader.EMPTY.encode = empty at *
  generalize hP : header.encode = previous at *
  simp only [classifyHeaderTransition,h,hE,hP]
  rcases Nat.eq_zero_or_pos split with rfl | hpos
  · simp
  · rcases Nat.lt_or_ge split journalHeaderLen with hlt' | hge
    · have hany : (List.range' 1 (journalHeaderLen-1)).any (fun s =>
          (empty.take split ++ previous.drop split).take s = empty.take s &&
          (empty.take split ++ previous.drop split).drop s = previous.drop s) = true := by
        rw [List.any_eq_true]
        refine ⟨split,by simp [List.mem_range'_1]; omega,?_⟩
        simp [hlt]
      split_ifs <;> simp_all
    · have hf : empty.take split ++ previous.drop split = empty := by
        rw [List.take_of_length_le (by omega),List.drop_eq_nil_of_le (by omega),List.append_nil]
      rw [hf]
      split_ifs <;> simp_all

/-- A header whose state byte is not the empty one is recognized only when it is
the complete previous header: the empty header differs from it at byte 12. -/
theorem ResetMarker.classify_nonempty {m : ResetMarker} {observed : Bytes}
    (hstate : u8At observed 12 ≠ 0) (h : (m.classifyHeaderTransition observed).isSome) :
    observed = (activeHeader m.previousLen m.previousSegmentId).encode := by
  have hempty : u8At JournalHeader.EMPTY.encode 12 = 0 :=
    JournalHeader.u8At_flag _ (show 0 < 4 by omega)
  unfold classifyHeaderTransition at h
  split at h
  · cases h
  · rename_i header hexp
    have hp := ResetMarker.expected_eq_activeHeader hexp
    subst hp
    dsimp only at h
    split_ifs at h with h1 h2 h3
    · exact h1
    · exact absurd (h2 ▸ hempty) hstate
    · obtain ⟨split,_,hs⟩ := List.any_eq_true.mp h3
      simp only [Bool.and_eq_true,decide_eq_true_eq] at hs
      obtain ⟨htake,hdrop⟩ := hs
      rcases Nat.lt_or_ge 12 split with hgt | hle
      · have hbyte : u8At observed 12 = u8At JournalHeader.EMPTY.encode 12 := by
          rw [u8At,u8At,← slice_take (n := split) (by omega),htake,slice_take (by omega)]
        exact absurd (hbyte.trans hempty) hstate
      · have hsame := JournalHeader.take_encode_eq JournalHeader.EMPTY
          (activeHeader m.previousLen m.previousSegmentId) hle
        rw [← List.take_append_drop split observed,htake,hdrop,hsame,List.take_append_drop]
    · cases h

structure FrameHeader where
  partLen : UInt64
  deriving DecidableEq

inductive FrameError
  | badMagic (actual : Bytes)
  | badCrc (stored computed : UInt32)
  deriving DecidableEq

def FrameHeader.encodeFields (h : FrameHeader) : Bytes := frameMagic ++ u64Le h.partLen

def FrameHeader.encode (h : FrameHeader) : Bytes :=
  h.encodeFields ++ u32Le (Crc32c.crc32c h.encodeFields)

def FrameHeader.decode (bytes : Bytes) : Except FrameError FrameHeader :=
  if slice bytes 0 4 ≠ frameMagic then .error (.badMagic (slice bytes 0 4))
  else
    let stored := u32At bytes 12
    let computed := Crc32c.crc32c (slice bytes 0 12)
    if stored ≠ computed then .error (.badCrc stored computed)
    else .ok ⟨u64At bytes 4⟩

@[simp] theorem FrameHeader.encodeFields_length (h : FrameHeader) : h.encodeFields.length = 12 := by
  simp [encodeFields]

@[simp] theorem FrameHeader.encode_length (h : FrameHeader) :
    h.encode.length = frameHeaderLen := by
  simp [encode,frameHeaderLen]

theorem FrameHeader.decode_encode (h : FrameHeader) : decode h.encode = .ok h := by
  have h0 : slice h.encode 0 4 = frameMagic :=
    slice_of_append (a := []) (b := u64Le h.partLen ++ u32Le (Crc32c.crc32c h.encodeFields))
      (by simp [encode,encodeFields]) rfl rfl
  have h4 : u64At h.encode 4 = h.partLen :=
    u64At_of_slice (slice_of_append (a := frameMagic) (b := u32Le (Crc32c.crc32c h.encodeFields))
      (by simp [encode,encodeFields]) rfl (by simp))
  have h12 : u32At h.encode 12 = Crc32c.crc32c h.encodeFields :=
    u32At_of_slice (slice_of_append (a := h.encodeFields) (b := []) (by simp [encode]) (by simp)
      (by simp))
  have hf : slice h.encode 0 12 = h.encodeFields :=
    slice_of_append (a := []) (b := u32Le (Crc32c.crc32c h.encodeFields)) (by simp [encode]) rfl
      (by simp)
  simp [decode,h0,h4,h12,hf]

theorem FrameHeader.decode_ok_magic {bytes : Bytes} {h : FrameHeader}
    (hd : decode bytes = .ok h) : slice bytes 0 4 = frameMagic := by
  by_contra hne
  rw [decode,if_pos hne] at hd
  cases hd

end PgKronika
