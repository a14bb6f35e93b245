import PgKronika.PartFormat
import PgKronika.Tiling

/-! Assembling section bodies into a part. The builder computes offsets and checksums, the
validator accepts its output exactly when the sections are in canonical order and bounds. -/
namespace PgKronika

open ByteCodec Tiling

section CatalogRoundTrip

def Entry.fields (e : Entry) : List Bytes :=
  [u32Le e.typeId,u32Le e.flags,u64Le e.offset,u64Le e.len,u32Le e.rows,u32Le e.crc32c]

theorem Entry.encode_eq (e : Entry) : e.encode = e.fields.flatten := by simp [encode,fields]

theorem decodeEntry_encode (e : Entry) : decodeEntry e.encode = e := by
  have hfield (i at' n : ℕ) (f : Bytes) (h : e.fields[i]? = some f)
      (ho : ((e.fields.take i).map List.length).sum = at') (hl : f.length = n) :
      slice e.encode at' n = f := by
    rw [e.encode_eq]
    exact slice_flatten h ho hl
  have h0 := hfield 0 0 4 _ rfl rfl (u32Le_length _)
  have h4 := hfield 1 4 4 _ rfl (by simp [Entry.fields]) (u32Le_length _)
  have h8 := hfield 2 8 8 _ rfl (by simp [Entry.fields]) (u64Le_length _)
  have h16 := hfield 3 16 8 _ rfl (by simp [Entry.fields]) (u64Le_length _)
  have h24 := hfield 4 24 4 _ rfl (by simp [Entry.fields]) (u32Le_length _)
  have h28 := hfield 5 28 4 _ rfl (by simp [Entry.fields]) (u32Le_length _)
  rw [decodeEntry,u32At_of_slice h0,u32At_of_slice h4,u64At_of_slice h8,u64At_of_slice h16,
    u32At_of_slice h24,u32At_of_slice h28]

theorem decodeEntries_encode (es : List Entry) (rest : Bytes) :
    decodeEntries es.length (es.flatMap Entry.encode ++ rest) = es := by
  induction es with
  | nil => rfl
  | cons e es ih =>
    have hlen := e.encode_length
    rw [List.length_cons,decodeEntries,List.flatMap_cons,List.append_assoc,List.take_left' hlen,
      List.drop_left' hlen,decodeEntry_encode,ih]

theorem Catalog.encodeEntries_length (c : Catalog) :
    c.encodeEntries.length = c.entries.length*entryLen := by
  rw [encodeEntries,List.length_flatMap]
  simp

theorem Catalog.encodeMeta_length (c : Catalog) (crc : UInt32) :
    (c.encodeMeta crc).length = metaLen := by
  simp [encodeMeta,metaLen]

/-- The catalog block without the tail index. -/
def Catalog.encodeBlock (c : Catalog) : Bytes :=
  c.encodeEntries ++ c.encodeMeta (Crc32c.crc32c (c.encodeEntries ++ c.encodeMeta 0))

theorem Catalog.encodeBlock_length (c : Catalog) : c.encodeBlock.length = c.encodedLen := by
  rw [encodeBlock,List.length_append,encodeEntries_length,encodeMeta_length,encodedLen]

def Catalog.metaFields (c : Catalog) (crc : UInt32) : List Bytes :=
  [i64Le c.minTs,i64Le c.maxTs,u32Le (UInt32.ofNat c.entries.length),u32Le c.formatVersion,
    u32Le crc,u32Le c.windowCount]

theorem Catalog.encodeMeta_eq (c : Catalog) (crc : UInt32) :
    c.encodeMeta crc = (c.metaFields crc).flatten := by
  simp [encodeMeta,metaFields]

/-- The checksum covers the block with its own field zeroed. -/
theorem Catalog.crc_zeroed (c : Catalog) (crc : UInt32) :
    crc32cWithZeroedField (c.encodeEntries ++ c.encodeMeta crc)
        (c.entries.length*entryLen+metaCrcOffset) =
      Crc32c.crc32c (c.encodeEntries ++ c.encodeMeta 0) := by
  have hpre (crc : UInt32) : c.encodeEntries ++ c.encodeMeta crc =
      (c.encodeEntries ++ (i64Le c.minTs ++ i64Le c.maxTs ++
        u32Le (UInt32.ofNat c.entries.length) ++ u32Le c.formatVersion)) ++
          (u32Le crc ++ u32Le c.windowCount) := by
    simp [encodeMeta]
  have hlen : (c.encodeEntries ++ (i64Le c.minTs ++ i64Le c.maxTs ++
      u32Le (UInt32.ofNat c.entries.length) ++ u32Le c.formatVersion)).length =
        c.entries.length*entryLen+metaCrcOffset := by
    rw [List.length_append,encodeEntries_length]
    simp [metaCrcOffset]
  rw [crc32cWithZeroedField,hpre crc,List.take_left' hlen,
    ← List.drop_drop,List.drop_left' hlen,List.drop_left' (u32Le_length _),hpre 0]
  exact congrArg Crc32c.crc32c (List.append_assoc _ _ _)

/-- A catalog block reads back what was written, while its length fits the tail index. -/
theorem Catalog.decode_encodeBlock {c : Catalog} (h : c.encodedLen < 2^32) :
    Catalog.decode c.encodeBlock = .ok c := by
  have hlen := c.encodeBlock_length
  have hcount : c.entries.length < 2^32 := by
    rw [encodedLen,entryLen] at h
    omega
  have hsub : c.encodedLen-metaLen = c.entries.length*entryLen := by
    rw [encodedLen,Nat.add_sub_cancel]
  have hmeta : c.encodeBlock.drop (c.entries.length*entryLen) =
      c.encodeMeta (Crc32c.crc32c (c.encodeEntries ++ c.encodeMeta 0)) :=
    List.drop_left' c.encodeEntries_length
  rw [decode,hlen,hsub,if_neg]
  swap
  · push Not
    exact ⟨by rw [encodedLen]; omega,Nat.mul_mod_left _ _⟩
  dsimp only
  rw [Nat.mul_div_cancel _ (show 0 < entryLen by decide),if_neg (by omega),hmeta,encodeBlock,
    c.crc_zeroed]
  generalize Crc32c.crc32c (c.encodeEntries ++ c.encodeMeta 0) = crc
  have hfield (i at' n : ℕ) (f : Bytes) (h : (c.metaFields crc)[i]? = some f)
      (ho : (((c.metaFields crc).take i).map List.length).sum = at') (hl : f.length = n) :
      slice (c.encodeMeta crc) at' n = f := by
    rw [c.encodeMeta_eq]
    exact slice_flatten h ho hl
  have h0 := hfield 0 0 8 _ rfl rfl (i64Le_length _)
  have h8 := hfield 1 8 8 _ rfl (by simp [metaFields]) (i64Le_length _)
  have h16 := hfield 2 16 4 _ rfl (by simp [metaFields]) (u32Le_length _)
  have h20 := hfield 3 20 4 _ rfl (by simp [metaFields]) (u32Le_length _)
  have h24 := hfield 4 metaCrcOffset 4 _ rfl (by simp [metaFields,metaCrcOffset]) (u32Le_length _)
  have h28 := hfield 5 28 4 _ rfl (by simp [metaFields]) (u32Le_length _)
  rw [u32At_of_slice h16,if_neg (not_not.mpr rfl),u32At_of_slice h24,if_neg (not_not.mpr rfl),
    i64At_of_slice h0,i64At_of_slice h8,u32At_of_slice h20,u32At_of_slice h28,
    encodeEntries,decodeEntries_encode]

theorem TailIndex.decode_encode (tail : TailIndex) : TailIndex.decode tail.encode = .ok tail := by
  have hmagic : slice tail.encode 4 4 = magic :=
    @slice_of_append _ (u32Le tail.catalogLen) magic [] 4 4 (by simp [encode]) (u32Le_length _) rfl
  have hlen : slice tail.encode 0 4 = u32Le tail.catalogLen :=
    @slice_of_append _ [] (u32Le tail.catalogLen) magic 0 4 (by simp [encode]) rfl (u32Le_length _)
  rw [decode,hmagic,if_neg (not_not.mpr rfl),u32At_of_slice hlen]

end CatalogRoundTrip

/-- One opaque section body to place in a part. -/
structure SectionInput where
  typeId : UInt32
  rows : UInt32
  body : Bytes
  deriving DecidableEq

structure PartMeta where
  minTs : Int64
  maxTs : Int64
  deriving DecidableEq

/-- The catalog rows of sections placed from `offset` on. -/
def placeSections : ℕ → List SectionInput → List Entry
  | _,[] => []
  | offset,section'::rest =>
    ⟨section'.typeId,0,UInt64.ofNat offset,UInt64.ofNat section'.body.length,section'.rows,
      Crc32c.crc32c section'.body⟩ :: placeSections (offset+section'.body.length) rest

def bodiesLen (sections : List SectionInput) : ℕ := (sections.map fun s => s.body.length).sum

/-- No allocation is longer. -/
def maxAllocation : ℕ := 2^63-1

def builtCatalog (sections : List SectionInput) (partMeta : PartMeta) : Catalog :=
  ⟨placeSections magic.length sections,partMeta.minTs,partMeta.maxTs,formatVersion,1⟩

/-- The assembled part. The builder panics when the part cannot be allocated or when its
catalog block does not fit in a `u32`. -/
def buildPart (sections : List SectionInput) (partMeta : PartMeta) : Option Bytes :=
  let capacity := magic.length + bodiesLen sections + sections.length*entryLen + metaLen +
    tailIndexLen
  let catalog := builtCatalog sections partMeta
  if maxAllocation < capacity ∨ 2^32 ≤ catalog.encodedLen then none
  else some (magic ++ sections.flatMap SectionInput.body ++ catalog.encode)

section Built

variable {sections : List SectionInput} {partMeta : PartMeta} {part : Bytes}

@[simp] theorem placeSections_length (offset : ℕ) (sections : List SectionInput) :
    (placeSections offset sections).length = sections.length := by
  induction sections generalizing offset with
  | nil => rfl
  | cons s ss ih => simp [placeSections,ih]

@[simp] theorem bodiesLen_cons (s : SectionInput) (ss : List SectionInput) :
    bodiesLen (s::ss) = s.body.length+bodiesLen ss := by simp [bodiesLen]

theorem flatMap_body_length (sections : List SectionInput) :
    (sections.flatMap SectionInput.body).length = bodiesLen sections := List.length_flatMap

theorem toNat_ofNat_of_lt {n : ℕ} (h : n < 2^64) : (UInt64.ofNat n).toNat = n :=
  UInt64.toNat_ofNat_of_lt' (by simpa [UInt64.size] using h)

/-- The placed bodies lie end to end. -/
theorem placeSections_contiguous {offset : ℕ} (h : offset+bodiesLen sections < 2^64) :
    ContiguousFrom offset (placeSections offset sections) (offset+bodiesLen sections) := by
  induction sections generalizing offset with
  | nil => rfl
  | cons s ss ih =>
    rw [bodiesLen_cons] at h ⊢
    refine ⟨toNat_ofNat_of_lt (by omega),?_⟩
    dsimp only
    rw [toNat_ofNat_of_lt (by omega),← Nat.add_assoc]
    exact ih (by omega)

/-- Every placed entry keeps its section, and its range holds the body. -/
theorem placeSections_bodies {pre post : Bytes}
    (h : pre.length+bodiesLen sections < 2^64) :
    (placeSections pre.length sections).map (fun e => (e.typeId,e.rows,
        e.body (pre ++ sections.flatMap SectionInput.body ++ post))) =
      sections.map fun s => (s.typeId,s.rows,s.body) := by
  induction sections generalizing pre with
  | nil => rfl
  | cons s ss ih =>
    rw [bodiesLen_cons] at h
    have hbytes : pre ++ (s::ss).flatMap SectionInput.body ++ post =
        (pre++s.body) ++ ss.flatMap SectionInput.body ++ post := by simp
    have hrest := @ih (pre++s.body) (by rw [List.length_append]; omega)
    rw [List.length_append] at hrest
    rw [placeSections,List.map_cons,List.map_cons,hbytes,hrest]
    congr 1
    have hbody : slice (pre++s.body++ss.flatMap SectionInput.body++post) pre.length
        s.body.length = s.body :=
      @slice_of_append _ pre s.body (ss.flatMap SectionInput.body++post) _ _ (by simp) rfl rfl
    rw [Entry.body]
    dsimp only
    rw [toNat_ofNat_of_lt (by omega),toNat_ofNat_of_lt (by omega),hbody]

theorem placeSections_crcs {pre post : Bytes} (h : pre.length+bodiesLen sections < 2^64) :
    checkSectionCrcs (pre ++ sections.flatMap SectionInput.body ++ post)
      (placeSections pre.length sections) = .ok () := by
  induction sections generalizing pre with
  | nil => rfl
  | cons s ss ih =>
    rw [bodiesLen_cons] at h
    have hbytes : pre ++ (s::ss).flatMap SectionInput.body ++ post =
        (pre++s.body) ++ ss.flatMap SectionInput.body ++ post := by simp
    have hrest := @ih (pre++s.body) (by rw [List.length_append]; omega)
    rw [List.length_append] at hrest
    have hbody : slice (pre++s.body++ss.flatMap SectionInput.body++post) pre.length
        s.body.length = s.body :=
      @slice_of_append _ pre s.body (ss.flatMap SectionInput.body++post) _ _ (by simp) rfl rfl
    rw [placeSections,checkSectionCrcs,hbytes,Entry.body]
    dsimp only
    rw [toNat_ofNat_of_lt (by omega),toNat_ofNat_of_lt (by omega),hbody,if_neg (not_not.mpr rfl)]
    exact hrest

/-- What the builder promises about sizes. -/
theorem buildPart_some (h : buildPart sections partMeta = some part) :
    magic.length+bodiesLen sections < 2^63 ∧ (builtCatalog sections partMeta).encodedLen < 2^32 ∧
      part = magic ++ sections.flatMap SectionInput.body ++ (builtCatalog sections partMeta).encode := by
  rw [buildPart] at h
  split_ifs at h with hpanic
  push Not at hpanic
  obtain ⟨hcapacity,hcatalog⟩ := hpanic
  rw [maxAllocation] at hcapacity
  exact ⟨by omega,by omega,(Option.some.inj h).symm⟩

/-- Validating a built part comes down to the layout of its catalog. -/
theorem validatePart_buildPart (h : buildPart sections partMeta = some part) :
    validatePart part =
      match validateCatalogLayout (builtCatalog sections partMeta)
          (magic.length+bodiesLen sections) with
      | .error e => .error (.layout e)
      | .ok () => .ok (builtCatalog sections partMeta) := by
  obtain ⟨hbodies,hcatalog,rfl⟩ := buildPart_some h
  have hblock := (builtCatalog sections partMeta).encodeBlock_length
  have htail : (TailIndex.encode ⟨UInt32.ofNat (builtCatalog sections partMeta).encodedLen⟩).length =
      tailIndexLen := by simp [TailIndex.encode,tailIndexLen]
  have hfront : (magic ++ sections.flatMap SectionInput.body).length =
      magic.length+bodiesLen sections := by rw [List.length_append,flatMap_body_length]
  have hmeta : metaLen ≤ (builtCatalog sections partMeta).encodedLen := by
    rw [Catalog.encodedLen]
    omega
  have hencode : magic ++ sections.flatMap SectionInput.body ++
      (builtCatalog sections partMeta).encode =
        magic ++ sections.flatMap SectionInput.body ++
          (builtCatalog sections partMeta).encodeBlock ++
            TailIndex.encode ⟨UInt32.ofNat (builtCatalog sections partMeta).encodedLen⟩ := by
    simp [Catalog.encode,Catalog.encodeBlock]
  have hcrcs := @placeSections_crcs sections magic (builtCatalog sections partMeta).encode
    (by omega)
  have hcat : (UInt32.ofNat (builtCatalog sections partMeta).encodedLen).toNat =
      (builtCatalog sections partMeta).encodedLen :=
    UInt32.toNat_ofNat_of_lt' (by simpa [UInt32.size] using hcatalog)
  have hlen : (magic ++ sections.flatMap SectionInput.body ++
      (builtCatalog sections partMeta).encode).length =
        magic.length+bodiesLen sections+(builtCatalog sections partMeta).encodedLen+
          tailIndexLen := by
    rw [hencode,List.length_append,List.length_append,hfront,hblock,htail]
  have hmagic : slice (magic ++ sections.flatMap SectionInput.body ++
      (builtCatalog sections partMeta).encode) 0 4 = magic :=
    @slice_of_append _ [] magic (sections.flatMap SectionInput.body ++
      (builtCatalog sections partMeta).encode) 0 4 (by simp) rfl rfl
  have htailAt : slice (magic ++ sections.flatMap SectionInput.body ++
      (builtCatalog sections partMeta).encode)
        (magic.length+bodiesLen sections+(builtCatalog sections partMeta).encodedLen) tailIndexLen =
          TailIndex.encode ⟨UInt32.ofNat (builtCatalog sections partMeta).encodedLen⟩ :=
    @slice_of_append _ (magic ++ sections.flatMap SectionInput.body ++
      (builtCatalog sections partMeta).encodeBlock) _ [] _ _ (by rw [hencode,List.append_nil])
      (by rw [List.length_append,hfront,hblock]) htail
  have hblockAt : slice (magic ++ sections.flatMap SectionInput.body ++
      (builtCatalog sections partMeta).encode) (magic.length+bodiesLen sections)
        (builtCatalog sections partMeta).encodedLen =
          (builtCatalog sections partMeta).encodeBlock :=
    @slice_of_append _ (magic ++ sections.flatMap SectionInput.body) _ _ _ _ hencode hfront hblock
  have hmin : minPartLen = magic.length+metaLen+tailIndexLen := rfl
  have hend : magic.length+bodiesLen sections+(builtCatalog sections partMeta).encodedLen+
      tailIndexLen-tailIndexLen =
        magic.length+bodiesLen sections+(builtCatalog sections partMeta).encodedLen := by omega
  have hstart : magic.length+bodiesLen sections+(builtCatalog sections partMeta).encodedLen-
      (builtCatalog sections partMeta).encodedLen = magic.length+bodiesLen sections := by omega
  have hspan : magic.length+bodiesLen sections+(builtCatalog sections partMeta).encodedLen-
      (magic.length+bodiesLen sections) = (builtCatalog sections partMeta).encodedLen := by omega
  rw [validatePart,decodeAndBound,hlen,if_neg (by omega),hmagic,if_neg (not_not.mpr rfl)]
  dsimp only
  rw [hend,htailAt,TailIndex.decode_encode]
  dsimp only
  rw [hcat,if_neg (by omega),hstart,if_neg (by omega),hspan,hblockAt,
    Catalog.decode_encodeBlock hcatalog]
  dsimp only
  cases validateCatalogLayout (builtCatalog sections partMeta)
      (magic.length+bodiesLen sections) with
  | error e => rfl
  | ok u =>
    dsimp only
    rw [show (builtCatalog sections partMeta).entries = placeSections magic.length sections from rfl,
      hcrcs]

/-- The order that a part requires: data sections by strictly ascending type, then at most one
dictionary of strings, then at most one of blobs. -/
def CanonicalOrder (typeIds : List UInt32) : Prop :=
  ∃ data strings blobs : List UInt32, typeIds = data ++ strings ++ blobs ∧
    (∀ t ∈ data, t ≠ dictStringsTypeId ∧ t ≠ dictBlobsTypeId) ∧
    data.Pairwise (fun t u => t < u) ∧
    (strings = [] ∨ strings = [dictStringsTypeId]) ∧ (blobs = [] ∨ blobs = [dictBlobsTypeId])

/-- A list of sections that a part may hold. -/
structure CanonicalSections (sections : List SectionInput) : Prop where
  order : CanonicalOrder (sections.map SectionInput.typeId)
  rows : ∀ s ∈ sections, 0 < s.rows ∧ s.rows ≤ maxPhysicalSectionRows
  body : ∀ s ∈ sections, 0 < s.body.length ∧ s.body.length ≤ maxPhysicalSectionBytes.toNat

theorem rank_data {t : UInt32} (h : t ≠ dictStringsTypeId ∧ t ≠ dictBlobsTypeId) :
    (SectionOrder.ofTypeId t).rank = t.toNat := by
  rw [SectionOrder.ofTypeId,if_neg h.1,if_neg h.2]
  rfl

theorem rank_data_lt {t : UInt32} (h : t ≠ dictStringsTypeId ∧ t ≠ dictBlobsTypeId) :
    (SectionOrder.ofTypeId t).rank < 2^32 := by
  rw [rank_data h]
  exact t.toNat_lt

theorem rank_strings : (SectionOrder.ofTypeId dictStringsTypeId).rank = 2^32 := by decide

theorem rank_blobs : (SectionOrder.ofTypeId dictBlobsTypeId).rank = 2^32+1 := by decide

/-- Ascending ranks are the canonical order. -/
theorem canonicalOrder_iff (typeIds : List UInt32) :
    CanonicalOrder typeIds ↔
      (typeIds.map fun t => (SectionOrder.ofTypeId t).rank).Pairwise (fun a b => a < b) := by
  constructor
  · rintro ⟨data,strings,blobs,rfl,hdata,hasc,hstrings,hblobs⟩
    have hranks : (data.map fun t => (SectionOrder.ofTypeId t).rank).Pairwise (· < ·) := by
      rw [List.pairwise_map]
      refine hasc.imp_of_mem fun ht hu hlt => ?_
      rw [rank_data (hdata _ ht),rank_data (hdata _ hu)]
      exact hlt
    have hbelow (t : UInt32) (ht : t ∈ data) (n : ℕ) (hn : 2^32 ≤ n) :
        (SectionOrder.ofTypeId t).rank < n := (rank_data_lt (hdata t ht)).trans_le hn
    rw [List.map_append,List.map_append,List.append_assoc,List.pairwise_append]
    refine ⟨hranks,?_,?_⟩
    · rcases hstrings with rfl | rfl <;> rcases hblobs with rfl | rfl <;>
        simp [rank_strings,rank_blobs]
    · intro r hr r' hr'
      obtain ⟨t,ht,rfl⟩ := List.mem_map.mp hr
      refine hbelow t ht r' ?_
      rcases hstrings with rfl | rfl <;> rcases hblobs with rfl | rfl <;>
        simp [rank_strings,rank_blobs] at hr' <;> omega
  · intro h
    induction typeIds with
    | nil => exact ⟨[],[],[],rfl,by simp,.nil,.inl rfl,.inl rfl⟩
    | cons t ts ih =>
      rw [List.map_cons,List.pairwise_cons] at h
      obtain ⟨hlow,hrest⟩ := h
      obtain ⟨data,strings,blobs,rfl,hdata,hasc,hstrings,hblobs⟩ := ih hrest
      have hmem (u : UInt32) (hu : u ∈ data ++ strings ++ blobs) :
          (SectionOrder.ofTypeId t).rank < (SectionOrder.ofTypeId u).rank :=
        hlow _ (List.mem_map.mpr ⟨u,hu,rfl⟩)
      by_cases ht : t ≠ dictStringsTypeId ∧ t ≠ dictBlobsTypeId
      · refine ⟨t::data,strings,blobs,by simp,?_,?_,hstrings,hblobs⟩
        · intro u hu
          rcases List.mem_cons.mp hu with rfl | hu
          · exact ht
          · exact hdata u hu
        · refine List.pairwise_cons.mpr ⟨fun u hu => ?_,hasc⟩
          have hlt := hmem u (by simp [hu])
          rw [rank_data ht,rank_data (hdata u hu)] at hlt
          exact hlt
      · have hhigh : 2^32 ≤ (SectionOrder.ofTypeId t).rank := by
          rcases Classical.not_and_iff_not_or_not.mp ht with hs | hb
          · rw [not_not.mp hs,rank_strings]
          · rw [not_not.mp hb,rank_blobs]
            omega
        have hnodata : data = [] := by
          cases data with
          | nil => rfl
          | cons u us =>
            have hlt := hmem u (by simp)
            have hu := rank_data_lt (hdata u (by simp))
            omega
        subst hnodata
        have hnostrings : strings = [] := by
          rcases hstrings with rfl | rfl
          · rfl
          · have hlt := hmem dictStringsTypeId (by simp)
            rw [rank_strings] at hlt
            omega
        subst hnostrings
        rcases Classical.not_and_iff_not_or_not.mp ht with hs | hb
        · obtain rfl := not_not.mp hs
          exact ⟨[],[dictStringsTypeId],blobs,rfl,by simp,.nil,.inr rfl,hblobs⟩
        · obtain rfl := not_not.mp hb
          have hnoblobs : blobs = [] := by
            rcases hblobs with rfl | rfl
            · rfl
            · exact absurd (hmem dictBlobsTypeId (by simp)) (lt_irrefl _)
          subst hnoblobs
          exact ⟨[],[],[dictBlobsTypeId],rfl,by simp,.nil,.inl rfl,.inr rfl⟩

theorem placeSections_typeIds (offset : ℕ) (sections : List SectionInput) :
    (placeSections offset sections).map Entry.typeId = sections.map SectionInput.typeId := by
  induction sections generalizing offset with
  | nil => rfl
  | cons s ss ih => rw [placeSections,List.map_cons,List.map_cons,ih]

/-- The entries keep the bounds exactly when the sections do. -/
theorem placeSections_admissible {offset : ℕ} (h : offset+bodiesLen sections < 2^64) :
    (∀ e ∈ placeSections offset sections, e.Admissible) ↔ ∀ s ∈ sections,
      (0 < s.rows ∧ s.rows ≤ maxPhysicalSectionRows) ∧
        0 < s.body.length ∧ s.body.length ≤ maxPhysicalSectionBytes.toNat := by
  induction sections generalizing offset with
  | nil => simp [placeSections]
  | cons s ss ih =>
    rw [bodiesLen_cons] at h
    have hlen := @toNat_ofNat_of_lt s.body.length (by omega)
    rw [placeSections,List.forall_mem_cons,List.forall_mem_cons,ih (by omega)]
    refine and_congr_left fun _ => ⟨fun hs => ?_,fun hs => ?_⟩
    · have hpos : s.body.length ≠ 0 := fun hz => hs.len_pos (by rw [hz]; rfl)
      have hle := UInt64.le_iff_toNat_le.mp hs.len_le
      rw [hlen] at hle
      exact ⟨⟨UInt32.pos_iff_ne_zero.mpr hs.rows_pos,hs.rows_le⟩,by omega,hle⟩
    · obtain ⟨⟨hrows,hcap⟩,hpos,hle⟩ := hs
      refine ⟨rfl,UInt32.pos_iff_ne_zero.mp hrows,hcap,fun hz => ?_,?_⟩
      · have hzero := congrArg UInt64.toNat hz
        dsimp only at hzero
        rw [hlen] at hzero
        change s.body.length = 0 at hzero
        omega
      · rw [UInt64.le_iff_toNat_le,hlen]
        exact hle

/-- The catalog of a built part is laid out as required exactly for canonical sections. -/
theorem builtCatalog_layout_iff (h : magic.length+bodiesLen sections < 2^63) :
    validateCatalogLayout (builtCatalog sections partMeta) (magic.length+bodiesLen sections) =
        .ok () ↔ CanonicalSections sections := by
  have hranks : SectionsAscending (builtCatalog sections partMeta).entries ↔
      CanonicalOrder (sections.map SectionInput.typeId) := by
    rw [canonicalOrder_iff,← placeSections_typeIds magic.length,List.map_map]
    rfl
  rw [validateCatalogLayout_ok_iff (by omega),hranks]
  have hadmissible := @placeSections_admissible sections magic.length (by omega)
  constructor
  · rintro ⟨hadm,_,horder⟩
    exact ⟨horder,fun s hs => (hadmissible.mp hadm s hs).1,fun s hs => (hadmissible.mp hadm s hs).2⟩
  · intro hc
    exact ⟨hadmissible.mpr fun s hs => ⟨hc.rows s hs,hc.body s hs⟩,
      placeSections_contiguous (by omega),hc.order⟩

/-- Bodies laid end to end tile the bytes they span. -/
theorem ContiguousFrom.tiles {start stop : ℕ} {es : List Entry} (h : ContiguousFrom start es stop)
    (hpos : ∀ e ∈ es, e.len ≠ 0) :
    Tiles start (es.map fun e => (e.offset.toNat,e.offset.toNat+e.len.toNat)) [] stop := by
  induction es generalizing start with
  | nil =>
    obtain rfl : start = stop := h
    exact .nil _
  | cons e es ih =>
    obtain ⟨hoffset,hrest⟩ := h
    have hlen : e.len.toNat ≠ 0 := fun hz => hpos e (by simp) (UInt64.toNat_inj.mp hz)
    rw [List.map_cons,hoffset]
    exact .left (by omega) (ih hrest fun e he => hpos e (by simp [he]))

/-- Where the catalog of a part starts. -/
def catalogStart (bytes : Bytes) (catalog : Catalog) : ℕ :=
  bytes.length-tailIndexLen-catalog.encodedLen

theorem validatePart_tiles {bytes : Bytes} {catalog : Catalog}
    (h : validatePart bytes = .ok catalog) :
    Tiles magic.length (catalog.entries.map fun e => (e.offset.toNat,e.offset.toNat+e.len.toNat)) []
      (catalogStart bytes catalog) := by
  obtain ⟨hmin,tail,hfit,hdecode,hlayout⟩ := decodeAndBound_ok (validatePart_ok h).1
  have hminLen : minPartLen = magic.length+metaLen+tailIndexLen := rfl
  have hlen := Catalog.decode_entries_length hdecode
  rw [slice_length_of_le (by omega),← Catalog.encodedLen] at hlen
  rw [hlen,← catalogStart] at hlayout
  rw [validateCatalogLayout] at hlayout
  split at hlayout
  · cases hlayout
  · next stop hentries =>
    split_ifs at hlayout with hstop
    obtain ⟨hadm,hcontiguous,_⟩ := validateEntries_ok hentries
    rw [not_not.mp hstop] at hcontiguous
    exact hcontiguous.tiles fun e he => (hadm e he).len_pos

/-- Building and validating accept the same lists of sections, a built part reads back its
sections, and in every accepted byte string the bodies tile the bytes between the opening magic
and the catalog. -/
theorem parts_accept_canonical :
    (∀ (sections : List SectionInput) (partMeta : PartMeta) (part : Bytes),
      buildPart sections partMeta = some part →
        ((∃ catalog, validatePart part = .ok catalog) ↔ CanonicalSections sections) ∧
        (∀ catalog, validatePart part = .ok catalog →
          catalog.entries.map (fun e => (e.typeId,e.rows,e.body part)) =
              sections.map (fun s => (s.typeId,s.rows,s.body)) ∧
            catalog.minTs = partMeta.minTs ∧ catalog.maxTs = partMeta.maxTs) ∧
        ∀ e, validatePart part = .error e → ∃ layout, e = .layout layout) ∧
    ∀ (bytes : Bytes) (catalog : Catalog), validatePart bytes = .ok catalog →
      catalogStart bytes catalog+catalog.encodedLen+tailIndexLen = bytes.length ∧
      (∀ p, (∃ e ∈ catalog.entries, e.offset.toNat ≤ p ∧ p < e.offset.toNat+e.len.toNat) ↔
        magic.length ≤ p ∧ p < catalogStart bytes catalog) ∧
      catalog.entries.Pairwise fun e e' => e.offset.toNat+e.len.toNat ≤ e'.offset.toNat := by
  refine ⟨fun sections partMeta part hbuild => ?_,fun bytes catalog hvalid => ?_⟩
  · obtain ⟨hbodies,_,hpart⟩ := buildPart_some hbuild
    have hlayout := @builtCatalog_layout_iff sections partMeta hbodies
    rw [validatePart_buildPart hbuild]
    cases hv : validateCatalogLayout (builtCatalog sections partMeta)
        (magic.length+bodiesLen sections) with
    | error layout =>
      rw [hv] at hlayout
      have hno : ¬CanonicalSections sections := fun hc => by cases hlayout.mpr hc
      refine ⟨iff_of_false (by simp) hno,?_,?_⟩
      · intro catalog hcatalog
        cases hcatalog
      · intro e he
        exact ⟨layout,(Except.error.inj he).symm⟩
    | ok u =>
      refine ⟨iff_of_true ⟨_,rfl⟩ (hlayout.mp hv),?_,?_⟩
      · intro catalog hcatalog
        obtain rfl := Except.ok.inj hcatalog
        refine ⟨?_,rfl,rfl⟩
        rw [hpart]
        exact placeSections_bodies (by omega)
      · intro e he
        cases he
  · have htiles := validatePart_tiles hvalid
    obtain ⟨_,hlen⟩ := validatePart_entries_length hvalid
    have hmin : minPartLen = magic.length+metaLen+tailIndexLen := rfl
    have hencoded : catalog.encodedLen = catalog.entries.length*entryLen+metaLen := rfl
    refine ⟨?_,fun p => ?_,?_⟩
    · rw [catalogStart]
      omega
    · rw [← htiles.covers p]
      simp
    · exact List.pairwise_map.mp htiles.pairwise_left

/-- A data section followed by the two dictionaries. -/
def sampleSections : List SectionInput :=
  [⟨1006001,1,[0x64,0x61,0x74,0x61]⟩,⟨3001001,1,[0x73]⟩,⟨3002001,1,[0x62]⟩]

theorem parts_accept_canonical_sample : ∃ part, buildPart sampleSections ⟨1,2⟩ = some part ∧
    ((∃ catalog, validatePart part = .ok catalog) ↔ CanonicalSections sampleSections) ∧
    ∃ catalog, validatePart part = .ok catalog ∧
      catalog.entries.Pairwise fun e e' => e.offset.toNat+e.len.toNat ≤ e'.offset.toNat := by
  have hbuild : buildPart sampleSections ⟨1,2⟩ =
      some (magic ++ sampleSections.flatMap SectionInput.body ++
        (builtCatalog sampleSections ⟨1,2⟩).encode) := by
    rw [buildPart]
    exact if_neg (by decide)
  have hcanonical : CanonicalSections sampleSections :=
    ⟨⟨[1006001],[3001001],[3002001],rfl,List.forall_mem_singleton.mpr (by decide),
      List.pairwise_singleton ..,.inr rfl,.inr rfl⟩,by simp [sampleSections,maxPhysicalSectionRows],
      by simp [sampleSections,maxPhysicalSectionBytes]⟩
  obtain ⟨hiff,_,_⟩ := parts_accept_canonical.1 sampleSections ⟨1,2⟩ _ hbuild
  obtain ⟨catalog,hvalid⟩ := hiff.mpr hcanonical
  exact ⟨_,hbuild,hiff,catalog,hvalid,(parts_accept_canonical.2 _ catalog hvalid).2.2⟩

end Built

end PgKronika
