import PgKronika.JournalFormat
import PgKronika.PartBuild

/-! The fixed layouts are canonical: a decoder accepts exactly what its encoder writes. -/
namespace PgKronika

open ByteCodec

/-- Every value in bounds is read back, and what is accepted is the encoding of its value: no two
strings of the layout are read as one value. -/
structure Canonical {α : Type} (Layout : Bytes → Prop) (InBounds : α → Prop) (encode : α → Bytes)
    (decode : Bytes → Option α) : Prop where
  layout : ∀ x, InBounds x → Layout (encode x)
  decode_encode : ∀ x, InBounds x → decode (encode x) = some x
  encode_decode : ∀ bytes x, Layout bytes → decode bytes = some x → encode x = bytes

theorem toOption_eq_some {ε α : Type} {x : Except ε α} {a : α} :
    x.toOption = some a ↔ x = .ok a := by
  cases x with
  | error e => simp [Except.toOption]
  | ok b => simp [Except.toOption]

theorem slice_whole {b : Bytes} {len : ℕ} (h : b.length = len) : slice b 0 len = b := by
  rw [← h,slice_all]

theorem slice_u8At {b : Bytes} {offset : ℕ} (h : offset < b.length) :
    slice b offset 1 = [u8At b offset] := by
  have hlen : (slice b offset 1).length = 1 := slice_length_of_le h
  obtain ⟨x,hx⟩ := List.length_eq_one_iff.mp hlen
  rw [u8At,hx,List.headD_cons]

section Header

variable {bytes : Bytes}

theorem JournalHeader.split (h : bytes.length = journalHeaderLen) :
    bytes = slice bytes 0 8 ++ (slice bytes 8 4 ++ ([u8At bytes 12,u8At bytes 13,u8At bytes 14,
      u8At bytes 15] ++ (slice bytes 16 8 ++ (slice bytes 24 8 ++ slice bytes 32 4)))) := by
  have hh : journalHeaderLen = 8+(4+((1+(1+(1+1)))+(8+(8+4)))) := rfl
  have hall : slice bytes 0 (8+(4+((1+(1+(1+1)))+(8+(8+4))))) = bytes := slice_whole (h.trans hh)
  simp only [slice_split] at hall
  simp only [Nat.reduceAdd] at hall
  rw [slice_u8At (by rw [h]; decide),slice_u8At (by rw [h]; decide),slice_u8At (by rw [h]; decide),
    slice_u8At (by rw [h]; decide)] at hall
  exact hall.symm

theorem JournalHeader.slice_fields (h : bytes.length = journalHeaderLen) :
    bytes = slice bytes 0 32 ++ slice bytes 32 4 := by
  have hall : slice bytes 0 (32+4) = bytes := slice_whole h
  exact hall.symm.trans (slice_split bytes 0 32 4)

/-- What a decoded header says of its bytes, field by field. -/
theorem JournalHeader.decode_ok {h : JournalHeader} (hd : decode bytes = .ok h) :
    slice bytes 0 8 = journalMagic ∧ u32At bytes 8 = journalVersion ∧
      u32At bytes 32 = Crc32c.crc32c (slice bytes 0 32) ∧
      [u8At bytes 12,u8At bytes 13,u8At bytes 14,u8At bytes 15] = h.state.flags ∧
      i64At bytes 16 = h.state.identity ∧ u64At bytes 24 = h.bodyLen := by
  rw [decode] at hd
  dsimp only at hd
  split_ifs at hd with hmagic hversion hcrc hreserved hempty hidentity hactive hmissing hunexpected
  all_goals cases hd
  all_goals
    rw [not_or,not_not,not_not] at hreserved
    refine ⟨not_not.mp hmagic,not_not.mp hversion,not_not.mp hcrc,?_,?_,rfl⟩
  · rw [hempty.1,hempty.2,hreserved.1,hreserved.2]
    rfl
  · exact not_not.mp hidentity
  · rw [hactive.1,hactive.2,hreserved.1,hreserved.2]
    rfl
  · rfl

theorem JournalHeader.encode_decode {h : JournalHeader} (hlen : bytes.length = journalHeaderLen)
    (hd : decode bytes = .ok h) : h.encode = bytes := by
  have hh : journalHeaderLen = 36 := rfl
  obtain ⟨hmagic,hversion,hcrc,hflags,hidentity,hbody⟩ := decode_ok hd
  have hversionBytes := u32Le_u32At (show 8+4 ≤ bytes.length by omega)
  have hidentityBytes := i64Le_i64At (show 16+8 ≤ bytes.length by omega)
  have hbodyBytes := u64Le_u64At (show 24+8 ≤ bytes.length by omega)
  have hcrcBytes := u32Le_u32At (show 32+4 ≤ bytes.length by omega)
  rw [hversion] at hversionBytes
  rw [hidentity] at hidentityBytes
  rw [hbody] at hbodyBytes
  rw [hcrc] at hcrcBytes
  have hsplit := split hlen
  rw [hmagic,← hversionBytes,hflags,← hidentityBytes,← hbodyBytes,← hcrcBytes] at hsplit
  have hfields : slice bytes 0 32 = h.encodeFields := by
    have hboth := (slice_fields hlen).symm.trans hsplit
    have hsame : slice bytes 0 32 ++ slice bytes 32 4 =
        h.encodeFields ++ u32Le (Crc32c.crc32c (slice bytes 0 32)) := by
      rw [hboth]
      simp [encodeFields,JournalState.encode]
    exact (List.append_inj hsame (by rw [slice_length_of_le (by omega),encodeFields_length])).1
  rw [hfields] at hsplit
  rw [encode,hsplit]
  simp [encodeFields,JournalState.encode]

theorem JournalHeader.canonical : Canonical (fun bytes => bytes.length = journalHeaderLen)
    (fun _ => True) JournalHeader.encode (fun bytes => (JournalHeader.decode bytes).toOption) where
  layout h _ := h.encode_length
  decode_encode h _ := toOption_eq_some.mpr h.decode_encode
  encode_decode _ _ hlen hd := encode_decode hlen (toOption_eq_some.mp hd)

end Header

section Records

variable {bytes : Bytes}

theorem ResetMarker.encode_decode {m : ResetMarker} (hlen : bytes.length = resetMarkerLen)
    (hd : decode bytes = some m) : m.encode = bytes := by
  have hm : resetMarkerLen = 32 := rfl
  rw [decode] at hd
  split_ifs at hd with hmagic hcrc
  cases hd
  have hall : slice bytes 0 (8+(8+(8+4))+4) = bytes := slice_whole hlen
  have hfields : encodeFields ⟨u64At bytes 8,i64At bytes 16,u32At bytes 24⟩ = slice bytes 0 28 := by
    have hsplit : slice bytes 0 28 = _ := slice_split bytes 0 8 (8+(8+4))
    rw [hsplit,slice_split,slice_split,not_not.mp hmagic,encodeFields,u64Le_u64At (by omega),
      i64Le_i64At (by omega),u32Le_u32At (by omega),List.append_assoc,List.append_assoc]
  rw [encode,hfields,← not_not.mp hcrc,u32Le_u32At (by omega)]
  exact (slice_split bytes 0 28 4).symm.trans hall

theorem ResetMarker.canonical : Canonical (fun bytes => bytes.length = resetMarkerLen)
    (fun _ => True) ResetMarker.encode ResetMarker.decode where
  layout m _ := m.encode_length
  decode_encode m _ := m.decode_encode
  encode_decode _ _ hlen hd := encode_decode hlen hd

theorem FrameHeader.encode_decode {h : FrameHeader} (hlen : bytes.length = frameHeaderLen)
    (hd : decode bytes = .ok h) : h.encode = bytes := by
  have hf : frameHeaderLen = 16 := rfl
  rw [decode] at hd
  dsimp only at hd
  split_ifs at hd with hmagic hcrc
  cases hd
  have hall : slice bytes 0 (12+4) = bytes := slice_whole hlen
  have hfields : encodeFields ⟨u64At bytes 4⟩ = slice bytes 0 12 := by
    have hsplit : slice bytes 0 12 = _ := slice_split bytes 0 4 8
    rw [hsplit,not_not.mp hmagic,encodeFields,u64Le_u64At (by omega)]
  rw [encode,hfields,← not_not.mp hcrc,u32Le_u32At (by omega)]
  exact (slice_split bytes 0 12 4).symm.trans hall

theorem FrameHeader.canonical : Canonical (fun bytes => bytes.length = frameHeaderLen)
    (fun _ => True) FrameHeader.encode (fun bytes => (FrameHeader.decode bytes).toOption) where
  layout h _ := h.encode_length
  decode_encode h _ := toOption_eq_some.mpr h.decode_encode
  encode_decode _ _ hlen hd := encode_decode hlen (toOption_eq_some.mp hd)

theorem TailIndex.encode_decode {tail : TailIndex} (hlen : bytes.length = tailIndexLen)
    (hd : decode bytes = .ok tail) : tail.encode = bytes := by
  have ht : tailIndexLen = 8 := rfl
  rw [decode] at hd
  split_ifs at hd with hmagic
  cases hd
  have hall : slice bytes 0 (4+4) = bytes := slice_whole hlen
  rw [encode,u32Le_u32At (by omega),← not_not.mp hmagic]
  exact (slice_split bytes 0 4 4).symm.trans hall

theorem TailIndex.canonical : Canonical (fun bytes => bytes.length = tailIndexLen)
    (fun _ => True) TailIndex.encode (fun bytes => (TailIndex.decode bytes).toOption) where
  layout tail _ := by simp [TailIndex.encode,tailIndexLen]
  decode_encode tail _ := toOption_eq_some.mpr tail.decode_encode
  encode_decode _ _ hlen hd := encode_decode hlen (toOption_eq_some.mp hd)

theorem Entry.encode_decode (hlen : bytes.length = entryLen) : (decodeEntry bytes).encode = bytes := by
  have he : entryLen = 32 := rfl
  have hall : slice bytes 0 (4+(4+(8+(8+(4+4))))) = bytes := slice_whole hlen
  simp only [slice_split] at hall
  simp only [Nat.reduceAdd] at hall
  rw [encode,decodeEntry,u32Le_u32At (by omega),u32Le_u32At (by omega),u64Le_u64At (by omega),
    u64Le_u64At (by omega),u32Le_u32At (by omega),u32Le_u32At (by omega)]
  simpa only [List.append_assoc] using hall

theorem encode_decodeEntries {count : ℕ} (hlen : count*entryLen ≤ bytes.length) :
    (decodeEntries count bytes).flatMap Entry.encode = bytes.take (count*entryLen) := by
  induction count generalizing bytes with
  | zero => simp [decodeEntries]
  | succ count ih =>
    have he : (count+1)*entryLen = entryLen+count*entryLen := by ring
    rw [decodeEntries,List.flatMap_cons,Entry.encode_decode (by simp; omega),
      ih (by simp; omega),he,List.take_add]

end Records

section CatalogBlock

theorem Catalog.encodeMeta_decode {fields : Bytes} {c : Catalog} (hlen : fields.length = metaLen)
    (hmin : c.minTs = i64At fields 0) (hmax : c.maxTs = i64At fields 8)
    (hcount : u32At fields 16 = UInt32.ofNat c.entries.length)
    (hversion : c.formatVersion = u32At fields 20) (hwindows : c.windowCount = u32At fields 28) :
    c.encodeMeta (u32At fields metaCrcOffset) = fields := by
  have hm : metaLen = 32 := rfl
  have hc : metaCrcOffset = 24 := rfl
  have hall : slice fields 0 (8+(8+(4+(4+(4+4))))) = fields := slice_whole hlen
  simp only [slice_split] at hall
  simp only [Nat.reduceAdd] at hall
  rw [encodeMeta,hmin,hmax,← hcount,hversion,hwindows,i64Le_i64At (by omega),i64Le_i64At (by omega),
    u32Le_u32At (by omega),u32Le_u32At (by omega),u32Le_u32At (by omega),u32Le_u32At (by omega)]
  rw [hc]
  simpa only [List.append_assoc] using hall

theorem Catalog.encodeBlock_decode {bytes : Bytes} {c : Catalog} (h : Catalog.decode bytes = .ok c) :
    c.encodeBlock = bytes := by
  have he : entryLen = 32 := rfl
  have hlen := Catalog.decode_entries_length h
  have hat : bytes.length - metaLen = c.entries.length*entryLen := by omega
  have hcount : (bytes.length - metaLen)/entryLen = c.entries.length := by
    rw [hat]
    exact Nat.mul_div_cancel _ (by decide)
  rw [Catalog.decode] at h
  dsimp only at h
  split_ifs at h with hfits hmany hstored hcrc
  rw [hcount,hat] at h
  rw [hcount,hat] at hstored
  rw [hat] at hcrc
  have hc := Except.ok.inj h
  have hfields : (bytes.drop (c.entries.length*entryLen)).length = metaLen := by
    rw [List.length_drop]
    omega
  have hmeta := Catalog.encodeMeta_decode hfields (congrArg Catalog.minTs hc).symm
    (congrArg Catalog.maxTs hc).symm (not_not.mp hstored) (congrArg Catalog.formatVersion hc).symm
    (congrArg Catalog.windowCount hc).symm
  have hentries : c.encodeEntries = bytes.take (c.entries.length*entryLen) := by
    have hsame : c.entries = decodeEntries c.entries.length bytes :=
      (congrArg Catalog.entries hc).symm
    rw [encodeEntries]
    conv_lhs => rw [hsame]
    exact encode_decodeEntries (by omega)
  have hwhole : c.encodeEntries ++
      c.encodeMeta (u32At (bytes.drop (c.entries.length*entryLen)) metaCrcOffset) = bytes := by
    rw [hmeta,hentries,List.take_append_drop]
  have hzeroed := c.crc_zeroed (u32At (bytes.drop (c.entries.length*entryLen)) metaCrcOffset)
  rw [hwhole] at hzeroed
  rw [encodeBlock,← hzeroed,← not_not.mp hcrc]
  exact hwhole

/-- What the encoder accepts: the length of the block fits its tail index. -/
def Catalog.Fits (c : Catalog) : Prop := c.encodedLen < 2^32

theorem Catalog.encodeBlock_canonical : Canonical (fun _ => True)
    Catalog.Fits Catalog.encodeBlock
    (fun bytes => (Catalog.decode bytes).toOption) where
  layout _ _ := trivial
  decode_encode _ h := toOption_eq_some.mpr (decode_encodeBlock h)
  encode_decode _ _ _ hd := encodeBlock_decode (toOption_eq_some.mp hd)

theorem Catalog.encode_eq (c : Catalog) :
    c.encode = c.encodeBlock ++ TailIndex.encode ⟨UInt32.ofNat c.encodedLen⟩ := rfl

/-- A catalog block together with the tail index that gives its length. -/
def decodeTailed (bytes : Bytes) : Option Catalog :=
  let bodyEnd := bytes.length - tailIndexLen
  (TailIndex.decode (slice bytes bodyEnd tailIndexLen)).toOption.bind fun tail =>
    if tail.catalogLen.toNat = bodyEnd then (Catalog.decode (bytes.take bodyEnd)).toOption else none

theorem Catalog.canonical : Canonical (fun bytes => tailIndexLen ≤ bytes.length) Catalog.Fits
    Catalog.encode decodeTailed where
  layout c _ := by
    simp [encode_eq,TailIndex.encode,tailIndexLen]
  decode_encode c h := by
    have ht : tailIndexLen = 8 := rfl
    have hend : c.encode.length - tailIndexLen = c.encodeBlock.length := by
      simp [encode_eq,TailIndex.encode,tailIndexLen]
    have htail : slice c.encode c.encodeBlock.length tailIndexLen =
        TailIndex.encode ⟨UInt32.ofNat c.encodedLen⟩ :=
      slice_of_append (a := c.encodeBlock) (b := []) (by simp [encode_eq]) rfl
        (by simp [TailIndex.encode,tailIndexLen])
    have hlen : (UInt32.ofNat c.encodedLen).toNat = c.encodeBlock.length := by
      rw [UInt32.toNat_ofNat_of_lt' h,encodeBlock_length]
    rw [decodeTailed]
    rw [hend,htail,TailIndex.decode_encode]
    change (if (UInt32.ofNat c.encodedLen).toNat = c.encodeBlock.length then _ else _) = _
    rw [if_pos hlen,encode_eq,List.take_left,toOption_eq_some]
    exact decode_encodeBlock h
  encode_decode bytes c hlayout hd := by
    have ht : tailIndexLen = 8 := rfl
    rw [decodeTailed] at hd
    obtain ⟨tail,htail,hd⟩ := Option.bind_eq_some_iff.mp hd
    split_ifs at hd with hlen
    have hblock := encodeBlock_decode (toOption_eq_some.mp hd)
    have hsplit : bytes.take (bytes.length - tailIndexLen) ++
        slice bytes (bytes.length - tailIndexLen) tailIndexLen = bytes := by
      rw [slice,List.take_of_length_le (l := bytes.drop _) (by simp; omega),List.take_append_drop]
    have htailBytes := TailIndex.encode_decode
      (slice_length_of_le (by omega)) (toOption_eq_some.mp htail)
    have hsame : UInt32.ofNat c.encodedLen = tail.catalogLen := by
      rw [← encodeBlock_length,hblock,List.length_take,min_eq_left (by omega),← hlen,UInt32.ofNat_toNat]
    rw [encode_eq,hsame,hblock,htailBytes,hsplit]

/-- A bounded part ends in the encoding of its catalog. -/
theorem decodeAndBound_encode {bytes : Bytes} {c : Catalog} (h : decodeAndBound bytes = .ok c) :
    ∃ body, bytes = body ++ c.encode := by
  have ht : tailIndexLen = 8 := rfl
  obtain ⟨-,tail,hfit,hdec,-⟩ := decodeAndBound_ok h
  obtain ⟨tail',htail,hlen,-⟩ := decodeAndBound_tail h
  have hblock := Catalog.encodeBlock_decode hdec
  have hwithin : bytes.length - tailIndexLen - tail.catalogLen.toNat + tail.catalogLen.toNat ≤
      bytes.length := by omega
  have hblockLen := slice_length_of_le hwithin
  rw [← hblock,Catalog.encodeBlock_length] at hblockLen
  have htailBytes := TailIndex.encode_decode (slice_length_of_le (by omega)) htail
  have hsame : UInt32.ofNat c.encodedLen = tail'.catalogLen := by
    rw [Catalog.encodedLen,← hlen,UInt32.ofNat_toNat]
  refine ⟨bytes.take (bytes.length - tailIndexLen - tail.catalogLen.toNat),?_⟩
  have hat : bytes.length - tailIndexLen =
      bytes.length - tailIndexLen - tail.catalogLen.toNat + tail.catalogLen.toNat := by omega
  have hend : slice bytes (bytes.length - tailIndexLen) tailIndexLen =
      bytes.drop (bytes.length - tailIndexLen) :=
    List.take_of_length_le (by simp; omega)
  rw [Catalog.encode_eq,hsame,hblock,htailBytes,hend,← List.append_assoc,slice,← List.take_add,
    ← hat,List.take_append_drop]

end CatalogBlock

/-- The fixed layouts are canonical, and what stands at the end of a part is canonical. -/
theorem fixed_layouts_canonical :
    Canonical (fun bytes => tailIndexLen ≤ bytes.length) Catalog.Fits Catalog.encode decodeTailed ∧
    Canonical (fun _ => True) Catalog.Fits Catalog.encodeBlock
      (fun bytes => (Catalog.decode bytes).toOption) ∧
    Canonical (fun bytes => bytes.length = tailIndexLen) (fun _ => True) TailIndex.encode
      (fun bytes => (TailIndex.decode bytes).toOption) ∧
    Canonical (fun bytes => bytes.length = journalHeaderLen) (fun _ => True) JournalHeader.encode
      (fun bytes => (JournalHeader.decode bytes).toOption) ∧
    Canonical (fun bytes => bytes.length = resetMarkerLen) (fun _ => True) ResetMarker.encode
      ResetMarker.decode ∧
    Canonical (fun bytes => bytes.length = frameHeaderLen) (fun _ => True) FrameHeader.encode
      (fun bytes => (FrameHeader.decode bytes).toOption) ∧
    ∀ bytes c, decodeAndBound bytes = .ok c → ∃ body, bytes = body ++ c.encode :=
  ⟨Catalog.canonical,Catalog.encodeBlock_canonical,TailIndex.canonical,JournalHeader.canonical,ResetMarker.canonical,
    FrameHeader.canonical,fun _ _ => decodeAndBound_encode⟩

end PgKronika
