import PgKronika.FactContainer

/-! Reading the blocks of a fact file one by one from a positional source, against
admission of the whole file. -/
namespace PgKronika
namespace FactContainer

open ByteCodec CheckedArith Crc32c

/-- The work of the positional reads so far. -/
structure FactReadStats where
  readCalls : ℕ
  storedBytesRead : ℕ
  decodedBytes : ℕ
  deriving DecidableEq

structure FactFileReader (σ : Type) where
  reader : σ
  header : FactFileHeader
  directory : List BlockDirectoryEntry
  stats : FactReadStats

section Reader

variable {σ : Type} [ReadAt σ]

def readExact (offset len : ℕ) (reader : σ) : Except CacheReadError (Bytes × σ) :=
  (ReadAt.readExactAt offset len reader).mapError .io

/-- A header of the expected source, or of its own. -/
def verifyHeader (header : FactFileHeader) (expected : Option HeaderIdentity) (bounds : Bounds) :
    Except CacheReadError Unit :=
  match expected with
  | some expected => verifyIdentity header.identity expected
  | none => validateApiInputs header.identity bounds

def openInner (reader : σ) (expected : Option HeaderIdentity) (bounds : Bounds) :
    Except CacheReadError (FactFileReader σ) := do
  refuse .oversized (¬bounds.isWithinAbsoluteLimits)
  let (fileLen,reader) ← (ReadAt.byteLen reader).mapError .io
  refuse .oversized (bounds.factFileLen < fileLen.toNat)
  refuse .corrupt (fileLen.toNat < headerLen)
  let (headerBytes,reader) ← readExact 0 headerLen reader
  let (header,directoryCrc) ← decodeHeader headerBytes
  verifyHeader header expected bounds
  refuse .corrupt (header.fileLen ≠ fileLen)
  let directoryEnd ← checkedDirectoryEnd header bounds
  let (directoryBytes,reader) ← readExact headerLen (directoryEnd-headerLen) reader
  refuse .corrupt (crc32c directoryBytes ≠ directoryCrc)
  let directory ← decodeDirectory directoryBytes header.directoryCount bounds
  validateDirectory directory header directoryEnd bounds
  return ⟨reader,header,directory,⟨2,directoryEnd,0⟩⟩

/-- Open a file for an expected identity. -/
def openFile (reader : σ) (expected : HeaderIdentity) (bounds : Bounds) :
    Except CacheReadError (FactFileReader σ) := do
  validateApiInputs expected bounds
  openInner reader (some expected) bounds

def readStored (entry : BlockDirectoryEntry) (file : FactFileReader σ) :
    Except CacheReadError (Bytes × FactFileReader σ) :=
  if entry.storedLen = 0 then .ok ([],file)
  else do
    let (stored,reader) ← readExact entry.offset.toNat entry.storedLen.toNat file.reader
    let readCalls ← addOr .oversized file.stats.readCalls 1
    let storedBytesRead ← addOr .oversized file.stats.storedBytesRead entry.storedLen.toNat
    return (stored,{file with reader, stats := {file.stats with readCalls,storedBytesRead}})

def readEntry (zstd : Decompressor) (entry : BlockDirectoryEntry) (file : FactFileReader σ) :
    Except CacheReadError (Bytes × FactFileReader σ) := do
  let (stored,file) ← readStored entry file
  refuse .corrupt (crc32c stored ≠ entry.blockCrc32c)
  let decoded ← decodedBody zstd entry stored
  let decodedBytes ← addOr .oversized file.stats.decodedBytes entry.decodedLen.toNat
  return (decoded,{file with stats := {file.stats with decodedBytes}})

namespace FactFileReader

def readBlock (zstd : Decompressor) (kind : BlockKind) (logicalId : UInt32)
    (file : FactFileReader σ) : Except CacheReadError (Option Bytes × FactFileReader σ) :=
  match file.directory.find? fun entry => entry.blockKind = kind.code ∧ entry.logicalId = logicalId with
  | none => .ok (none,file)
  | some entry => do
    let (body,file) ← readEntry zstd entry file
    return (some body,file)

def selects (range : Option (Int64 × Int64)) (entry : BlockDirectoryEntry) : Bool :=
  match range with
  | none => true
  | some (fromTs,toTs) => !entry.flags.hasTimeRange ||
      (fromTs < toTs && fromTs ≤ entry.maxTsUs && entry.minTsUs < toTs)

def readEach (zstd : Decompressor) : List BlockDirectoryEntry → FactFileReader σ →
    Except CacheReadError (List (BlockDirectoryEntry × Bytes) × FactFileReader σ)
  | [],file => .ok ([],file)
  | entry::rest,file => do
    let (body,file) ← readEntry zstd entry file
    let (bodies,file) ← readEach zstd rest file
    return ((entry,body)::bodies,file)

def readMatchingBlocks (zstd : Decompressor) (kind : BlockKind) (range : Option (Int64 × Int64))
    (file : FactFileReader σ) :
    Except CacheReadError (List (BlockDirectoryEntry × Bytes) × FactFileReader σ) :=
  readEach zstd ((file.directory.filter fun entry => entry.blockKind = kind.code).filter
    (selects range)) file

def readBlocks (zstd : Decompressor) (kind : BlockKind) (file : FactFileReader σ) :
    Except CacheReadError (List Bytes × FactFileReader σ) := do
  let (blocks,file) ← file.readMatchingBlocks zstd kind none
  return (blocks.map Prod.snd,file)

def readBlocksInRange (zstd : Decompressor) (kind : BlockKind) (fromTs toTs : Int64)
    (file : FactFileReader σ) : Except CacheReadError (List Bytes × FactFileReader σ) := do
  let (blocks,file) ← file.readMatchingBlocks zstd kind (some (fromTs,toTs))
  return (blocks.map Prod.snd,file)

end FactFileReader

end Reader

/-- What is known of every directory that either path accepts. -/
structure Accepted (bounds : Bounds) (fileLen : ℕ) (directory : List BlockDirectoryEntry) : Prop where
  within : DirectoryWithin bounds (headerLen+directoryEntryLen*directory.length) fileLen directory
  entries : ∀ entry ∈ directory, EntryWithin bounds entry
  len : fileLen ≤ bounds.factFileLen
  limits : bounds.isWithinAbsoluteLimits = true

section Metadata

variable {bounds : Bounds} {directory : List BlockDirectoryEntry} {bytes : Bytes}

theorem decodeEntries_length {count : ℕ} (h : decodeEntries bounds count bytes = .ok directory) :
    directory.length = count := by
  induction count generalizing bytes directory with
  | zero =>
    cases h
    rfl
  | succ count ih =>
    obtain ⟨entry,-,h⟩ := bind_ok h
    obtain ⟨rest,hrest,h⟩ := bind_ok h
    cases h
    rw [List.length_cons,ih hrest]

theorem directoryBytes_ok {count : UInt32} {n : ℕ} (h : directoryBytes count bounds = .ok n) :
    n = count.toNat*directoryEntryLen := by
  obtain ⟨_,-,h⟩ := bind_ok h
  obtain ⟨_,-,h⟩ := bind_ok h
  exact (Except.ok.inj h).symm

theorem decodeDirectory_length {count : UInt32} (h : decodeDirectory bytes count bounds = .ok directory) :
    directory.length = count.toNat := by
  obtain ⟨_,-,h⟩ := bind_ok h
  obtain ⟨_,-,h⟩ := bind_ok h
  exact decodeEntries_length h

theorem checkedDirectoryEnd_ok {header : FactFileHeader} {directoryEnd : ℕ}
    (h : checkedDirectoryEnd header bounds = .ok directoryEnd) :
    directoryEnd = headerLen+directoryEntryLen*header.directoryCount.toNat ∧
      directoryEnd ≤ header.fileLen.toNat := by
  obtain ⟨_,-,h⟩ := bind_ok h
  obtain ⟨n,hn,h⟩ := bind_ok h
  obtain ⟨_,hend,h⟩ := bind_ok h
  cases h
  rw [directoryBytes_ok hn] at hend ⊢
  exact ⟨by rw [mul_comm],not_lt.mp (refuse_ok.mp hend)⟩

theorem validateApiInputs_limits {identity : HeaderIdentity}
    (h : validateApiInputs identity bounds = .ok ()) : bounds.isWithinAbsoluteLimits = true := by
  obtain ⟨_,hlimits,-⟩ := bind_ok h
  exact not_not.mp (refuse_ok.mp hlimits)

theorem factFileLen_le (h : bounds.isWithinAbsoluteLimits = true) :
    bounds.factFileLen ≤ Bounds.limit.factFileLen := by
  simp only [Bounds.isWithinAbsoluteLimits,Bool.and_eq_true,decide_eq_true_eq] at h
  tauto

theorem decodedFileBytes_le (h : bounds.isWithinAbsoluteLimits = true) :
    bounds.decodedFileBytes ≤ Bounds.limit.decodedFileBytes := by
  simp only [Bounds.isWithinAbsoluteLimits,Bool.and_eq_true,decide_eq_true_eq] at h
  tauto

end Metadata

/-- A block's body in the bytes of a whole file. -/
def entryBody (zstd : Decompressor) (bytes : Bytes) (entry : BlockDirectoryEntry) :
    Except CacheReadError Bytes := do
  let stored ← storedBody bytes entry
  decodedBody zstd entry stored

/-- A stored block whose checksum holds and whose body decodes. -/
structure Readable (zstd : Decompressor) (bytes : Bytes) (entry : BlockDirectoryEntry) (body : Bytes) :
    Prop where
  inside : entry.offset.toNat+entry.storedLen.toNat ≤ bytes.length
  checksum : crc32c (slice bytes entry.offset.toNat entry.storedLen.toNat) = entry.blockCrc32c
  body : entryBody zstd bytes entry = .ok body

namespace FactReadStats

def after (stats : FactReadStats) (entry : BlockDirectoryEntry) : FactReadStats where
  readCalls := stats.readCalls+if entry.storedLen = 0 then 0 else 1
  storedBytesRead := stats.storedBytesRead+entry.storedLen.toNat
  decodedBytes := stats.decodedBytes+entry.decodedLen.toNat

/-- The counters can take one read of each block. -/
structure HasRoom (stats : FactReadStats) (entries : List BlockDirectoryEntry) : Prop where
  calls : stats.readCalls+entries.length ≤ u64Max
  stored : stats.storedBytesRead+(entries.map fun entry => entry.storedLen.toNat).sum ≤ u64Max
  decoded : stats.decodedBytes+(entries.map fun entry => entry.decodedLen.toNat).sum ≤ u64Max

variable {stats : FactReadStats} {entry : BlockDirectoryEntry} {entries rest : List BlockDirectoryEntry}

theorem HasRoom.tail (h : stats.HasRoom (entry::rest)) : (stats.after entry).HasRoom rest := by
  have hcalls := h.calls
  have hstored := h.stored
  have hdecoded := h.decoded
  simp only [List.length_cons,List.map_cons,List.sum_cons] at hcalls hstored hdecoded
  constructor
  · simp only [after]
    split <;> omega
  · simp only [after]
    omega
  · simp only [after]
    omega

theorem HasRoom.sub (h : stats.HasRoom entries) (hsub : rest.Sublist entries) : stats.HasRoom rest := by
  have hcalls := h.calls
  have hstored := h.stored
  have hdecoded := h.decoded
  have hlen := hsub.length_le
  have hstoredSum := (hsub.map fun entry => entry.storedLen.toNat).sum_le_sum (by simp)
  have hdecodedSum := (hsub.map fun entry => entry.decodedLen.toNat).sum_le_sum (by simp)
  exact ⟨by omega,by omega,by omega⟩

theorem HasRoom.single (h : stats.HasRoom entries) (hentry : entry ∈ entries) :
    stats.HasRoom [entry] := h.sub (List.singleton_sublist.mpr hentry)

end FactReadStats

section Reads

variable {σ : Type} [ReadAt σ] {zstd : Decompressor} {bytes body : Bytes} {entry : BlockDirectoryEntry}
  {entries : List BlockDirectoryEntry} {bodies : List Bytes} {file : FactFileReader σ}

theorem readStored_eq (hsource : ReadsAs file.reader bytes)
    (hinside : entry.offset.toNat+entry.storedLen.toNat ≤ bytes.length)
    (hroom : file.stats.HasRoom [entry]) : readStored entry file =
      .ok (slice bytes entry.offset.toNat entry.storedLen.toNat,{file with stats :=
        {file.stats.after entry with decodedBytes := file.stats.decodedBytes}}) := by
  have hcalls := hroom.calls
  have hstored := hroom.stored
  simp only [List.length_singleton,List.map_cons,List.map_nil,List.sum_cons,List.sum_nil] at hcalls hstored
  rw [readStored]
  by_cases hzero : entry.storedLen = 0
  · simp [hzero,slice,FactReadStats.after]
  · have hread := hsource.read hinside
    rw [if_neg hzero,readExact,hread,addOr_of_le (by omega),addOr_of_le (by omega)]
    simp only [FactReadStats.after,if_neg hzero]
    rfl

theorem readEntry_eq (hsource : ReadsAs file.reader bytes) (hentry : Readable zstd bytes entry body)
    (hroom : file.stats.HasRoom [entry]) :
    readEntry zstd entry file = .ok (body,{file with stats := file.stats.after entry}) := by
  have hdecoded := hroom.decoded
  simp only [List.map_cons,List.map_nil,List.sum_cons,List.sum_nil] at hdecoded
  obtain ⟨stored,hstored,hbody⟩ := bind_ok hentry.body
  obtain ⟨_,-,hstored⟩ := bind_ok hstored
  obtain ⟨_,-,hstored⟩ := bind_ok hstored
  cases hstored
  have hcrc : refuse CacheReadError.corrupt
      (crc32c (slice bytes entry.offset.toNat entry.storedLen.toNat) ≠ entry.blockCrc32c) = .ok () :=
    refuse_ok.mpr (not_not.mpr hentry.checksum)
  rw [readEntry,readStored_eq hsource hentry.inside hroom]
  simp only [bind,Except.bind]
  rw [hcrc,hbody,addOr_of_le (by omega)]
  rfl

theorem readEach_eq (hsource : ReadsAs file.reader bytes)
    (hentries : List.Forall₂ (Readable zstd bytes) entries bodies)
    (hroom : file.stats.HasRoom entries) : ∃ stats,
      FactFileReader.readEach zstd entries file = .ok (entries.zip bodies,{file with stats}) := by
  induction hentries generalizing file with
  | nil => exact ⟨_,rfl⟩
  | @cons entry body rest bodies hentry hrest ih =>
    obtain ⟨stats,hstats⟩ := @ih {file with stats := file.stats.after entry} hsource hroom.tail
    refine ⟨stats,?_⟩
    rw [FactFileReader.readEach,readEntry_eq hsource hentry (hroom.single List.mem_cons_self)]
    simp only [bind,Except.bind]
    rw [hstats]
    rfl

end Reads

/-- The time range of a block meets a half-open range. -/
def MeetsRange (entry : BlockDirectoryEntry) (fromTs toTs : Int64) : Prop :=
  ∃ t, entry.minTsUs ≤ t ∧ t ≤ entry.maxTsUs ∧ fromTs ≤ t ∧ t < toTs

theorem selects_iff {bounds : Bounds} {entry : BlockDirectoryEntry} (h : EntryWithin bounds entry)
    (fromTs toTs : Int64) : FactFileReader.selects (some (fromTs,toTs)) entry = true ↔
      entry.flags.hasTimeRange = false ∨ MeetsRange entry fromTs toTs := by
  cases htimes : entry.flags.hasTimeRange with
  | false => simp [FactFileReader.selects,htimes]
  | true =>
    have hle := h.times htimes
    simp only [FactFileReader.selects,htimes,Bool.not_true,Bool.false_or,Bool.and_eq_true,
      decide_eq_true_eq,Bool.true_eq_false,false_or,MeetsRange]
    constructor
    · rintro ⟨⟨hrange,hmax⟩,hmin⟩
      by_cases hfrom : fromTs ≤ entry.minTsUs
      · exact ⟨entry.minTsUs,Int64.le_refl _,hle,hfrom,hmin⟩
      · exact ⟨fromTs,Int64.le_of_lt (Int64.not_le.mp hfrom),hmax,Int64.le_refl _,hrange⟩
    · rintro ⟨t,hmin,hmax,hfrom,hto⟩
      simp only [Int64.le_iff_toInt_le,Int64.lt_iff_toInt_lt] at *
      omega

section Admitted

variable {Manifest Strings Budgets σ : Type} [ReadAt σ] {zstd : Decompressor}
  {decoders : BlockDecoders Manifest Strings Budgets} {bytes : Bytes} {expected : HeaderIdentity}
  {lineage : SegmentIdentity} {bounds : Bounds} {file : FactFile} {source : σ}
  {reader : FactFileReader σ}

/-- Admission decodes every body of a known kind. -/
theorem validateLogicalBlocks_bodies {blocks : List (BlockDirectoryEntry × Bytes)}
    {identity : HeaderIdentity}
    (h : validateLogicalBlocks zstd decoders blocks identity lineage bounds = .ok ()) :
    ∀ block ∈ blocks, ∀ kind : BlockKind, block.1.blockKind = kind.code →
      ∃ body, decodedBody zstd block.1 block.2 = .ok body := by
  obtain ⟨manifestBody,-,h⟩ := bind_ok h
  obtain ⟨manifest,-,h⟩ := bind_ok h
  obtain ⟨_,-,h⟩ := bind_ok h
  obtain ⟨stringsBody,-,h⟩ := bind_ok h
  obtain ⟨strings,-,h⟩ := bind_ok h
  obtain ⟨budgets,hblocks,-⟩ := bind_ok h
  intro block hblock kind hkind
  obtain ⟨left,next,hstep⟩ := foldlM_mem hblocks block hblock
  rw [validateLogicalBlock,hkind,BlockKind.fromCode_code] at hstep
  obtain ⟨body,hbody,-⟩ := bind_ok hstep
  exact ⟨body,hbody⟩

theorem checkedBody_ok {entry : BlockDirectoryEntry} {block : BlockDirectoryEntry × Bytes}
    (h : checkedBody bytes entry = .ok block) :
    block = (entry,slice bytes entry.offset.toNat entry.storedLen.toNat) ∧
      storedBody bytes entry = .ok block.2 ∧ crc32c block.2 = entry.blockCrc32c ∧
      entry.offset.toNat+entry.storedLen.toNat ≤ bytes.length := by
  obtain ⟨stored,hstored,h⟩ := bind_ok h
  obtain ⟨_,hcrc,h⟩ := bind_ok h
  cases h
  refine ⟨?_,hstored,not_not.mp (refuse_ok.mp hcrc),?_⟩
  · obtain ⟨_,-,hstored⟩ := bind_ok hstored
    obtain ⟨_,-,hstored⟩ := bind_ok hstored
    cases hstored
    rfl
  · obtain ⟨_,-,hstored⟩ := bind_ok hstored
    obtain ⟨_,hinside,-⟩ := bind_ok hstored
    exact not_lt.mp (refuse_ok.mp hinside)

/-- What the metadata checks establish, for either path. -/
structure MetadataOk (bytes : Bytes) (bounds : Bounds) (header : FactFileHeader)
    (directory : List BlockDirectoryEntry) (directoryEnd : ℕ) : Prop where
  limits : bounds.isWithinAbsoluteLimits = true
  fileLen : header.fileLen.toNat ≤ bounds.factFileLen
  ending : checkedDirectoryEnd header bounds = .ok directoryEnd
  decoded : decodeDirectory bytes header.directoryCount bounds = .ok directory
  valid : validateDirectory directory header directoryEnd bounds = .ok ()

theorem MetadataOk.accepted {header : FactFileHeader} {directory : List BlockDirectoryEntry}
    {directoryEnd : ℕ} (h : MetadataOk bytes bounds header directory directoryEnd) :
    Accepted bounds header.fileLen.toNat directory := by
  have hend := (checkedDirectoryEnd_ok h.ending).1
  rw [← decodeDirectory_length h.decoded] at hend
  exact ⟨hend ▸ validateDirectory_ok h.valid,decodeDirectory_within h.decoded,h.fileLen,h.limits⟩

/-- What admission has checked. -/
structure AdmitOk (zstd : Decompressor) (bytes : Bytes) (expected : HeaderIdentity) (bounds : Bounds)
    (file : FactFile) : Prop where
  bytes_eq : file.bytes = bytes
  inputs : validateApiInputs expected bounds = .ok ()
  len : headerLen ≤ bytes.length
  header : ∃ crc directoryEnd, decodeHeader (bytes.take headerLen) = .ok (file.header,crc) ∧
    crc32c (slice bytes headerLen (directoryEnd-headerLen)) = crc ∧
    MetadataOk (slice bytes headerLen (directoryEnd-headerLen)) bounds file.header file.directory
      directoryEnd
  identity : verifyIdentity file.header.identity expected = .ok ()
  fileLen : file.header.fileLen.toNat = bytes.length
  bodies : ∀ entry ∈ file.directory, ∀ kind : BlockKind, entry.blockKind = kind.code →
    ∃ body, Readable zstd bytes entry body

theorem admit_ok (h : admitBytes zstd decoders bytes expected lineage bounds = .ok file) :
    AdmitOk zstd bytes expected bounds file := by
  obtain ⟨_,hinputs,h⟩ := bind_ok h
  obtain ⟨_,-,h⟩ := bind_ok h
  obtain ⟨_,hlen,h⟩ := bind_ok h
  obtain ⟨_,hheaderLen,h⟩ := bind_ok h
  obtain ⟨⟨header,crc⟩,hheader,h⟩ := bind_ok h
  obtain ⟨_,hidentity,h⟩ := bind_ok h
  obtain ⟨_,hfileLen,h⟩ := bind_ok h
  obtain ⟨directoryEnd,hend,h⟩ := bind_ok h
  obtain ⟨_,hcrc,h⟩ := bind_ok h
  obtain ⟨directory,hdirectory,h⟩ := bind_ok h
  obtain ⟨_,hvalid,h⟩ := bind_ok h
  obtain ⟨blocks,hblocks,h⟩ := bind_ok h
  obtain ⟨_,hlogical,h⟩ := bind_ok h
  cases h
  have hfile := not_not.mp (refuse_ok.mp hfileLen)
  refine ⟨rfl,hinputs,not_lt.mp (refuse_ok.mp hheaderLen),⟨crc,directoryEnd,hheader,?_,?_⟩,
    hidentity,hfile,?_⟩
  · exact not_not.mp (refuse_ok.mp hcrc)
  · exact ⟨validateApiInputs_limits hinputs,hfile ▸ not_lt.mp (refuse_ok.mp hlen),hend,hdirectory,
      hvalid⟩
  · intro entry hentry kind hkind
    have hchecked := mapM_eq_ok.mp hblocks
    obtain ⟨block,hblock,hbody⟩ : ∃ block ∈ blocks, checkedBody bytes entry = .ok block := by
      obtain ⟨i,hi,rfl⟩ := List.mem_iff_getElem.mp hentry
      have hi' : i < blocks.length := hchecked.length_eq ▸ hi
      exact ⟨blocks[i],List.getElem_mem hi',(List.forall₂_iff_get.mp hchecked).2 i hi hi'⟩
    obtain ⟨rfl,hstored,hsum,hinside⟩ := checkedBody_ok hbody
    obtain ⟨body,hdecoded⟩ := validateLogicalBlocks_bodies hlogical _ hblock kind hkind
    refine ⟨body,hinside,hsum,?_⟩
    rw [entryBody,hstored]
    exact hdecoded

/-- The open that the metadata of an admitted file passes. -/
theorem openFile_of_admitted (h : AdmitOk zstd bytes expected bounds file)
    (hsource : ReadsAs source bytes) : openFile source expected bounds =
      .ok ⟨source,file.header,file.directory,
        ⟨2,headerLen+directoryEntryLen*file.directory.length,0⟩⟩ := by
  obtain ⟨crc,directoryEnd,hheader,hcrc,hmetadata⟩ := h.header
  obtain ⟨hend,hwithin⟩ := checkedDirectoryEnd_ok hmetadata.ending
  have hlimit := factFileLen_le hmetadata.limits
  have hbound : Bounds.limit.factFileLen < 2^64 := by decide
  have hlen : (UInt64.ofNat bytes.length).toNat = bytes.length := by
    have hfile := hmetadata.fileLen
    rw [h.fileLen] at hfile
    have hsize : UInt64.size = 2^64 := rfl
    exact UInt64.toNat_ofNat_of_lt' (by omega)
  have hfileLen : file.header.fileLen = UInt64.ofNat bytes.length := by
    rw [← UInt64.toNat_inj,hlen,h.fileLen]
  have hsome : verifyHeader file.header (some expected) bounds = .ok () := h.identity
  have hlast : headerLen+(directoryEnd-headerLen) ≤ bytes.length := by
    rw [h.fileLen] at hwithin
    omega
  have hmax : refuse CacheReadError.oversized (bounds.factFileLen < (UInt64.ofNat bytes.length).toNat) =
      .ok () := refuse_ok.mpr (by rw [hlen,← h.fileLen]; exact not_lt.mpr hmetadata.fileLen)
  have hmin : refuse CacheReadError.corrupt ((UInt64.ofNat bytes.length).toNat < headerLen) = .ok () :=
    refuse_ok.mpr (by rw [hlen]; exact not_lt.mpr h.len)
  have hlimits : refuse CacheReadError.oversized (¬bounds.isWithinAbsoluteLimits = true) = .ok () :=
    refuse_ok.mpr (not_not.mpr hmetadata.limits)
  have hfile : refuse CacheReadError.corrupt (file.header.fileLen ≠ UInt64.ofNat bytes.length) = .ok () :=
    refuse_ok.mpr (not_not.mpr hfileLen)
  have hchecksum : refuse CacheReadError.corrupt
      (crc32c (slice bytes headerLen (directoryEnd-headerLen)) ≠ crc) = .ok () :=
    refuse_ok.mpr (not_not.mpr hcrc)
  have hfirst : readExact 0 headerLen source = .ok (bytes.take headerLen,source) := by
    rw [readExact,hsource.read (by have hle := h.len; omega)]
    rfl
  have hsecond : readExact headerLen (directoryEnd-headerLen) source =
      .ok (slice bytes headerLen (directoryEnd-headerLen),source) := by
    rw [readExact,hsource.read hlast]
    rfl
  rw [decodeDirectory_length hmetadata.decoded,← hend,openFile,h.inputs,openInner]
  simp only [bind,Except.bind]
  rw [hlimits,hsource.byteLen]
  simp only [Except.mapError]
  rw [hmax,hmin,hfirst]
  simp only [hheader,hsome,hfile,hmetadata.ending,hsecond,hchecksum,hmetadata.decoded,hmetadata.valid]
  rfl

theorem openFile_ok (hsource : ReadsAs source bytes)
    (h : openFile source expected bounds = .ok reader) :
    reader.header.fileLen = UInt64.ofNat bytes.length ∧
      Accepted bounds reader.header.fileLen.toNat reader.directory := by
  obtain ⟨_,-,h⟩ := bind_ok h
  obtain ⟨_,hlimits,h⟩ := bind_ok h
  obtain ⟨⟨fileLen,next⟩,hlen,h⟩ := bind_ok h
  rw [hsource.byteLen] at hlen
  cases hlen
  obtain ⟨_,hmax,h⟩ := bind_ok h
  obtain ⟨_,-,h⟩ := bind_ok h
  obtain ⟨⟨headerBytes,next⟩,-,h⟩ := bind_ok h
  obtain ⟨⟨header,crc⟩,-,h⟩ := bind_ok h
  obtain ⟨_,-,h⟩ := bind_ok h
  obtain ⟨_,hfileLen,h⟩ := bind_ok h
  obtain ⟨directoryEnd,hend,h⟩ := bind_ok h
  obtain ⟨⟨directoryBytes,last⟩,-,h⟩ := bind_ok h
  obtain ⟨_,-,h⟩ := bind_ok h
  obtain ⟨directory,hdirectory,h⟩ := bind_ok h
  obtain ⟨_,hvalid,h⟩ := bind_ok h
  cases h
  have hfile := not_not.mp (refuse_ok.mp hfileLen)
  have hwithin := not_lt.mp (refuse_ok.mp hmax)
  rw [← hfile] at hwithin
  exact ⟨hfile,(MetadataOk.mk (not_not.mp (refuse_ok.mp hlimits)) hwithin hend hdirectory
    hvalid).accepted⟩

theorem AdmitOk.accepted (h : AdmitOk zstd bytes expected bounds file) :
    Accepted bounds bytes.length file.directory := by
  obtain ⟨crc,directoryEnd,-,-,hmetadata⟩ := h.header
  have haccepted := hmetadata.accepted
  rwa [h.fileLen] at haccepted

/-- A reader that answers as the whole file does. -/
structure Serves (zstd : Decompressor) (file : FactFile) (reader : FactFileReader σ) : Prop where
  block : ∀ kind logicalId, ∃ body stats, file.readBlock zstd kind logicalId = .ok body ∧
    reader.readBlock zstd kind logicalId = .ok (body,{reader with stats})
  inRange : ∀ kind fromTs toTs, ∃ entries bodies stats, entries.Sublist file.directory ∧
    (∀ entry, entry ∈ entries ↔ entry ∈ file.directory ∧ entry.blockKind = kind.code ∧
      (entry.flags.hasTimeRange = false ∨ MeetsRange entry fromTs toTs)) ∧
    List.Forall₂ (fun entry body => entryBody zstd file.bytes entry = .ok body) entries bodies ∧
    reader.readBlocksInRange zstd kind fromTs toTs = .ok (bodies,{reader with stats})

theorem AdmitOk.readable {entries : List BlockDirectoryEntry} {kind : BlockKind}
    (h : AdmitOk zstd bytes expected bounds file)
    (hentries : ∀ entry ∈ entries, entry ∈ file.directory ∧ entry.blockKind = kind.code) :
    ∃ bodies, List.Forall₂ (Readable zstd bytes) entries bodies := by
  induction entries with
  | nil => exact ⟨[],.nil⟩
  | cons entry rest ih =>
    simp only [List.mem_cons,forall_eq_or_imp] at hentries
    obtain ⟨body,hbody⟩ := h.bodies entry hentries.1.1 kind hentries.1.2
    obtain ⟨bodies,hbodies⟩ := ih hentries.2
    exact ⟨body::bodies,.cons hbody hbodies⟩

theorem AdmitOk.serves (h : AdmitOk zstd bytes expected bounds file)
    (hsource : ReadsAs source bytes) (hreader : reader.reader = source)
    (hdirectory : reader.directory = file.directory) (hroom : reader.stats.HasRoom file.directory) :
    Serves zstd file reader := by
  obtain ⟨_,header,_,stats⟩ := reader
  dsimp only at hreader hdirectory hroom
  subst hreader hdirectory
  constructor
  · intro kind logicalId
    rw [FactFile.readBlock,FactFileReader.readBlock]
    cases hfind : file.directory.find? fun entry =>
      entry.blockKind = kind.code ∧ entry.logicalId = logicalId with
    | none => exact ⟨none,stats,rfl,rfl⟩
    | some entry =>
      have hmem := List.mem_of_find?_eq_some hfind
      have hkind := List.find?_some hfind
      simp only [Bool.decide_and,Bool.and_eq_true,decide_eq_true_eq] at hkind
      obtain ⟨body,hbody⟩ := h.bodies entry hmem kind hkind.1
      have hread := @readEntry_eq _ _ _ _ _ _ ⟨_,header,file.directory,stats⟩ hsource hbody (hroom.single hmem)
      obtain ⟨stored,hstored,hdecoded⟩ := bind_ok hbody.body
      refine ⟨some body,stats.after entry,?_,?_⟩
      · simp only [h.bytes_eq,hstored,bind,Except.bind,hdecoded]
        rfl
      · simp only [hread,bind,Except.bind]
        rfl
  · intro kind fromTs toTs
    have hsub : ((file.directory.filter fun entry => entry.blockKind = kind.code).filter
        (FactFileReader.selects (some (fromTs,toTs)))).Sublist file.directory :=
      List.filter_sublist.trans List.filter_sublist
    have hmem : ∀ entry, entry ∈ (file.directory.filter fun entry => entry.blockKind = kind.code).filter
        (FactFileReader.selects (some (fromTs,toTs))) ↔ entry ∈ file.directory ∧
          entry.blockKind = kind.code ∧
          (entry.flags.hasTimeRange = false ∨ MeetsRange entry fromTs toTs) := by
      intro entry
      rw [List.mem_filter,List.mem_filter,decide_eq_true_eq,and_assoc]
      refine and_congr_right fun hentry => and_congr_right fun _ => ?_
      exact selects_iff (h.accepted.entries entry hentry) fromTs toTs
    obtain ⟨bodies,hbodies⟩ := h.readable fun entry hentry =>
      ⟨((hmem entry).mp hentry).1,((hmem entry).mp hentry).2.1⟩
    obtain ⟨last,hread⟩ :=
      @readEach_eq _ _ _ _ _ _ ⟨_,header,file.directory,stats⟩ hsource hbodies (hroom.sub hsub)
    refine ⟨_,bodies,last,hsub,hmem,?_,?_⟩
    · rw [h.bytes_eq]
      exact hbodies.imp fun entry body hbody => hbody.body
    · rw [FactFileReader.readBlocksInRange,FactFileReader.readMatchingBlocks,hread]
      simp only [bind,Except.bind]
      rw [List.map_snd_zip hbodies.length_eq.symm.le]
      rfl

end Admitted

/-- The totals of an accepted directory, none past a counter. -/
structure TotalsFit (bounds : Bounds) (fileLen : ℕ) (directory : List BlockDirectoryEntry) : Prop where
  stored : headerLen+directoryEntryLen*directory.length+
    (directory.map fun entry => entry.storedLen.toNat).sum = fileLen
  fileLen : fileLen ≤ bounds.factFileLen ∧ fileLen ≤ u64Max
  decoded : (directory.map fun entry => entry.decodedLen.toNat).sum ≤ bounds.decodedFileBytes ∧
    (directory.map fun entry => entry.decodedLen.toNat).sum ≤ u64Max
  items : ∀ entry ∈ directory,
    entry.sharedItems+ownTotal entry directory ≤ itemCountBound entry.blockKind bounds ∧
      entry.sharedItems+ownTotal entry directory ≤ u64Max

theorem itemCountBound_le {bounds : Bounds} (h : bounds.isWithinAbsoluteLimits = true)
    (kind : UInt32) : itemCountBound kind bounds ≤ u64Max := by
  simp only [Bounds.isWithinAbsoluteLimits,Bool.and_eq_true,decide_eq_true_eq] at h
  have hdirectory : Bounds.limit.directoryEntries = 4096 := rfl
  have hitems : Bounds.limit.itemsPerBlock = 1048576 := rfl
  have hviews : Bounds.limit.webSummaryViews = 32 := rfl
  have hmetrics : Bounds.limit.webMetricsPerView = 16 := rfl
  rw [itemCountBound,u64Max]
  split <;> omega

theorem Accepted.totals {bounds : Bounds} {fileLen : ℕ} {directory : List BlockDirectoryEntry}
    (h : Accepted bounds fileLen directory) : TotalsFit bounds fileLen directory := by
  have hfile := factFileLen_le h.limits
  have hdecoded := decodedFileBytes_le h.limits
  have hfileMax : Bounds.limit.factFileLen ≤ u64Max := by decide
  have hdecodedMax : Bounds.limit.decodedFileBytes ≤ u64Max := by decide
  exact {
    stored := h.within.extents.sum
    fileLen := ⟨h.len,(h.len.trans hfile).trans hfileMax⟩
    decoded := ⟨h.within.decoded,(h.within.decoded.trans hdecoded).trans hdecodedMax⟩
    items := fun entry hentry => ⟨h.within.items entry hentry,
      (h.within.items entry hentry).trans (itemCountBound_le h.limits _)⟩ }

/-- A newly opened reader has room for every block. -/
theorem Accepted.room {bounds : Bounds} {fileLen : ℕ} {directory : List BlockDirectoryEntry}
    (h : Accepted bounds fileLen directory) : FactReadStats.HasRoom
      ⟨2,headerLen+directoryEntryLen*directory.length,0⟩ directory := by
  have hstored := h.totals.stored
  have hfile := h.totals.fileLen.2
  have hdecoded := h.totals.decoded.2
  have hentry : directoryEntryLen = 64 := rfl
  have hheader : headerLen = 184 := rfl
  constructor
  · dsimp only
    rw [hentry,hheader] at hstored
    omega
  · dsimp only
    omega
  · dsimp only
    omega

/-- An admitted file opens with the same header and directory, and its blocks are read alike;
whichever path accepts, the blocks tile the file in order and their totals are within bounds. -/
theorem selective_reading_agrees {Manifest Strings Budgets : Type} (zstd : Decompressor)
    (decoders : BlockDecoders Manifest Strings Budgets) :
    (∀ bytes expected lineage bounds file,
      admitBytes zstd decoders bytes expected lineage bounds = .ok file →
        (Accepted bounds bytes.length file.directory ∧ TotalsFit bounds bytes.length file.directory) ∧
        ∀ (σ : Type) [ReadAt σ] (source : σ), ReadsAs source bytes →
          ∃ reader, openFile source expected bounds = .ok reader ∧ reader.header = file.header ∧
            reader.directory = file.directory ∧ reader.stats.HasRoom file.directory ∧
            ∀ stats, stats.HasRoom file.directory → Serves zstd file {reader with stats}) ∧
    ∀ (σ : Type) [ReadAt σ] (source : σ) bytes expected bounds reader, ReadsAs source bytes →
      openFile source expected bounds = .ok reader →
        reader.header.fileLen = UInt64.ofNat bytes.length ∧
        Accepted bounds reader.header.fileLen.toNat reader.directory ∧
        TotalsFit bounds reader.header.fileLen.toNat reader.directory := by
  constructor
  · intro bytes expected lineage bounds file hadmit
    have h := admit_ok hadmit
    refine ⟨⟨h.accepted,h.accepted.totals⟩,fun σ _ source hsource => ?_⟩
    refine ⟨_,openFile_of_admitted h hsource,rfl,rfl,h.accepted.room,fun stats hroom => ?_⟩
    exact h.serves hsource rfl rfl hroom
  · intro σ _ source bytes expected bounds reader hsource hopen
    obtain ⟨hlen,haccepted⟩ := openFile_ok hsource hopen
    exact ⟨hlen,haccepted,haccepted.totals⟩

end FactContainer
end PgKronika
