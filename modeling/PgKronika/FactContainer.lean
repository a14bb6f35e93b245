import PgKronika.Catalog
import PgKronika.LiveBuilder
import PgKronika.OrderedMap
import PgKronika.ReadAt
import PgKronika.Sha256

/-! The framing of a fact file: its header, the directory of its blocks, and the admission
of a whole file. -/
namespace PgKronika
namespace FactContainer

open ByteCodec CheckedArith Crc32c

inductive BlockKind
  | sourceManifest | eventObservations | eventFacts | lossCoverage | gaugeSamples
  | counterSamples | resetMarkers | entityStates | stringTable | uiSummary | entitySeries
  deriving DecidableEq

namespace BlockKind

def code : BlockKind → UInt32
  | sourceManifest => 1
  | eventObservations => 2
  | eventFacts => 3
  | lossCoverage => 4
  | gaugeSamples => 5
  | counterSamples => 6
  | resetMarkers => 7
  | entityStates => 8
  | stringTable => 9
  | uiSummary => 10
  | entitySeries => 11

/-- The kinds every file has. -/
def baseline : List BlockKind :=
  [sourceManifest,eventObservations,eventFacts,lossCoverage,gaugeSamples,counterSamples,
    resetMarkers,entityStates,stringTable,uiSummary]

def known : List BlockKind := baseline++[entitySeries]

def fromCode (code : UInt32) : Option BlockKind := known.find? fun kind => kind.code = code

theorem fromCode_code (kind : BlockKind) : fromCode kind.code = some kind := by
  cases kind <;> rfl

theorem fromCode_eq_some {code : UInt32} {kind : BlockKind} :
    fromCode code = some kind ↔ code = kind.code := by
  constructor
  · intro h
    have hcode := List.find?_some h
    simpa using (of_decide_eq_true hcode).symm
  · rintro rfl
    exact fromCode_code kind

end BlockKind

inductive BlockCodec
  | none | zstd
  deriving DecidableEq

inductive BlockError
  | truncated | aboveBound | malformed | unsorted | duplicate | nonFiniteFloat | trailingBytes
  | invalidEnum | invalidFlags | reconstruct
  deriving DecidableEq

inductive CacheReadError
  | incompatible | corrupt | wrongSource | oversized
  | io (error : IoError)
  deriving DecidableEq

def CacheReadError.ofBlock : BlockError → CacheReadError
  | .aboveBound => .oversized
  | .invalidFlags => .incompatible
  | _ => .corrupt

structure BlockFlags where
  requiredForSchema : Bool
  canonicallySorted : Bool
  hasTimeRange : Bool
  codec : BlockCodec
  deriving DecidableEq

namespace BlockFlags

def requiredBit : UInt16 := 1
def sortedBit : UInt16 := 2
def timeRangeBit : UInt16 := 4
def codecShift : UInt16 := 8
def codecMask : UInt16 := 0x0F00
def knownMask : UInt16 := requiredBit ||| sortedBit ||| timeRangeBit ||| codecMask

def fromBits (bits : UInt16) : Except BlockError BlockFlags := do
  refuse .invalidFlags (bits &&& ~~~knownMask ≠ 0)
  let codec ← match (bits &&& codecMask) >>> codecShift with
    | 0 => .ok BlockCodec.none
    | 1 => .ok BlockCodec.zstd
    | _ => .error .invalidFlags
  return {
    requiredForSchema := bits &&& requiredBit ≠ 0
    canonicallySorted := bits &&& sortedBit ≠ 0
    hasTimeRange := bits &&& timeRangeBit ≠ 0
    codec }

end BlockFlags

def factMagic : Bytes := [0x50,0x47,0x4B,0x4F,0x56,0x46,0,0]

def headerLen : ℕ := 184
def directoryEntryLen : ℕ := 64
def fileKindSegmentFacts : UInt16 := 1
def descriptorKindCatalog : UInt16 := 1
def blockSchemaVersion : UInt16 := 4
def webBlockSchemaVersion : UInt16 := 1
def headerCrcOffset : ℕ := 180
def containerVersion : UInt16 := 3
def factSchemaVersion : UInt32 := 4
def extractorSemanticsVersion : UInt32 := 8
def registryContractVersion : UInt32 := 1

structure SourceDescriptor where
  bytes : Vector UInt8 32
  deriving DecidableEq

structure HeaderIdentity where
  factSchemaVersion : UInt32
  extractorSemanticsVersion : UInt32
  registryContractVersion : UInt32
  sourceFormatVersion : UInt32
  sourceMinTsUs : Int64
  sourceMaxTsUs : Int64
  sourceFileLen : UInt64
  sourceDescriptor : SourceDescriptor
  factKey : FactKey
  segmentLineageId : SegmentLineageId
  deriving DecidableEq

/-- "pgk-overview-fact-key-v3". -/
def factKeyTag : Bytes :=
  [0x70,0x67,0x6b,0x2d,0x6f,0x76,0x65,0x72,0x76,0x69,0x65,0x77,0x2d,0x66,0x61,0x63,0x74,0x2d,
    0x6b,0x65,0x79,0x2d,0x76,0x33]

/-- The key of a segment's facts under the versions of its header. -/
def factKeyForIdentity (identity : HeaderIdentity) : FactKey :=
  ⟨(Sha256.sha256 (factKeyTag ++ identity.sourceDescriptor.bytes.toList ++
    u16Le fileKindSegmentFacts ++ u32Le identity.factSchemaVersion ++
    u32Le identity.extractorSemanticsVersion ++ u32Le identity.registryContractVersion)).bytes⟩

def HeaderIdentity.currentContract (identity : HeaderIdentity) : Bool :=
  identity.factSchemaVersion = FactContainer.factSchemaVersion &&
    identity.extractorSemanticsVersion = FactContainer.extractorSemanticsVersion &&
    identity.registryContractVersion = FactContainer.registryContractVersion &&
    identity.sourceFormatVersion = formatVersion

structure FactFileHeader where
  identity : HeaderIdentity
  directoryOffset : UInt64
  directoryCount : UInt32
  fileLen : UInt64
  deriving DecidableEq

structure BlockDirectoryEntry where
  blockKind : UInt32
  blockSchemaVersion : UInt16
  flags : BlockFlags
  logicalId : UInt32
  offset : UInt64
  storedLen : UInt64
  decodedLen : UInt64
  itemCount : UInt32
  blockCrc32c : UInt32
  minTsUs : Int64
  maxTsUs : Int64
  deriving DecidableEq

def validateApiInputs (identity : HeaderIdentity) (bounds : Bounds) : Except CacheReadError Unit := do
  refuse .oversized (¬bounds.isWithinAbsoluteLimits)
  refuse .incompatible (¬identity.currentContract)
  refuse .corrupt (identity.sourceMaxTsUs < identity.sourceMinTsUs)
  refuse .corrupt (identity.factKey ≠ factKeyForIdentity identity)

def array32At (bytes : Bytes) (offset : ℕ) : Vector UInt8 32 :=
  Vector.ofFn fun i => (slice bytes offset 32).getD i 0

def decodeIdentity (bytes : Bytes) : HeaderIdentity where
  factSchemaVersion := u32At bytes 16
  extractorSemanticsVersion := u32At bytes 20
  registryContractVersion := u32At bytes 24
  sourceFormatVersion := u32At bytes 28
  sourceMinTsUs := i64At bytes 32
  sourceMaxTsUs := i64At bytes 40
  sourceFileLen := u64At bytes 48
  sourceDescriptor := ⟨array32At bytes 56⟩
  factKey := ⟨array32At bytes 88⟩
  segmentLineageId := ⟨array32At bytes 120⟩

/-- The header and the checksum of the directory. -/
def decodeHeader (bytes : Bytes) : Except CacheReadError (FactFileHeader × UInt32) := do
  refuse .corrupt (bytes.length ≠ headerLen)
  refuse .corrupt (crc32cWithZeroedField bytes headerCrcOffset ≠ u32At bytes headerCrcOffset)
  refuse .incompatible (slice bytes 0 8 ≠ factMagic)
  refuse .incompatible (u16At bytes 8 ≠ containerVersion ∨ u16At bytes 10 ≠ 184 ∨
    u16At bytes 12 ≠ fileKindSegmentFacts ∨ u16At bytes 14 ≠ 0)
  let identity := decodeIdentity bytes
  refuse .incompatible (¬identity.currentContract)
  refuse .incompatible (u16At bytes 164 ≠ 64 ∨ u16At bytes 166 ≠ descriptorKindCatalog)
  refuse .corrupt (identity.sourceMaxTsUs < identity.sourceMinTsUs)
  return (⟨identity,u64At bytes 152,u32At bytes 160,u64At bytes 168⟩,u32At bytes 176)

def verifyIdentity (actual expected : HeaderIdentity) : Except CacheReadError Unit := do
  refuse .incompatible (actual.factSchemaVersion ≠ expected.factSchemaVersion ∨
    actual.extractorSemanticsVersion ≠ expected.extractorSemanticsVersion ∨
    actual.registryContractVersion ≠ expected.registryContractVersion)
  refuse .wrongSource (actual.sourceDescriptor ≠ expected.sourceDescriptor ∨
    actual.sourceMinTsUs ≠ expected.sourceMinTsUs ∨ actual.sourceMaxTsUs ≠ expected.sourceMaxTsUs ∨
    actual.sourceFormatVersion ≠ expected.sourceFormatVersion ∨
    actual.sourceFileLen ≠ expected.sourceFileLen ∨ actual.factKey ≠ expected.factKey ∨
    actual.segmentLineageId ≠ expected.segmentLineageId)

def directoryBytes (count : UInt32) (bounds : Bounds) : Except CacheReadError ℕ := do
  refuse .oversized (count = 0 ∨ bounds.directoryEntries < count.toNat)
  refuse .oversized (bounds.directoryBytes < count.toNat*directoryEntryLen)
  return count.toNat*directoryEntryLen

def checkedDirectoryEnd (header : FactFileHeader) (bounds : Bounds) : Except CacheReadError ℕ := do
  refuse .corrupt (header.directoryOffset ≠ 184)
  let bytes ← directoryBytes header.directoryCount bounds
  refuse .corrupt (header.fileLen.toNat < headerLen+bytes)
  return headerLen+bytes

def expectedSorted (kind : BlockKind) : Bool := kind ≠ .sourceManifest

def expectedBlockSchemaVersion : BlockKind → UInt16
  | .uiSummary | .entitySeries => webBlockSchemaVersion
  | _ => blockSchemaVersion

def decodedLenBound (bounds : Bounds) : BlockKind → ℕ
  | .uiSummary => bounds.webSummaryDecodedBytes
  | .entitySeries => bounds.webSeriesDecodedBytes
  | _ => bounds.decodedBlockLen

def storedLenBound (bounds : Bounds) : BlockKind → ℕ
  | .entitySeries => bounds.webSeriesStoredBytes
  | _ => bounds.storedBlockLen

def itemCountBound (blockKind : UInt32) (bounds : Bounds) : ℕ :=
  match BlockKind.fromCode blockKind with
  | some .sourceManifest => bounds.directoryEntries+1
  | some .uiSummary => bounds.webSummaryViews
  | some .entitySeries => bounds.webMetricsPerView
  | _ => bounds.itemsPerBlock

/-- A known kind has its own schema version, flags and addresses; an unknown one is optional. -/
def checkKind (blockKind : UInt32) (blockSchemaVersion : UInt16) (flags : BlockFlags)
    (logicalId : UInt32) : Except CacheReadError Unit :=
  match BlockKind.fromCode blockKind with
  | some kind => do
    refuse .incompatible (blockSchemaVersion ≠ expectedBlockSchemaVersion kind)
    refuse .corrupt (¬flags.requiredForSchema ∨ flags.canonicallySorted ≠ expectedSorted kind)
    refuse .incompatible (flags.codec = .zstd ∧ kind ≠ .entitySeries)
    refuse .corrupt (kind = .uiSummary ∧ logicalId ≠ 0 ∨ kind = .entitySeries ∧ logicalId = 0)
  | none => refuse .incompatible (flags.requiredForSchema = true)

def checkKindLen (bounds : Bounds) (blockKind : UInt32) (storedLen decodedLen : UInt64) :
    Except CacheReadError Unit :=
  match BlockKind.fromCode blockKind with
  | some kind => refuse .oversized (storedLenBound bounds kind < storedLen.toNat ∨
      decodedLenBound bounds kind < decodedLen.toNat)
  | none => .ok ()

def checkItems (entry : BlockDirectoryEntry) : Except CacheReadError Unit :=
  if entry.itemCount = 0 then
    refuse .corrupt (entry.storedLen ≠ 0 ∨ entry.decodedLen ≠ 0 ∨ entry.flags.hasTimeRange ∨
      entry.minTsUs ≠ 0 ∨ entry.maxTsUs ≠ 0)
  else if entry.flags.hasTimeRange then
    refuse .corrupt (entry.storedLen = 0 ∨ entry.maxTsUs < entry.minTsUs)
  else refuse .corrupt (entry.storedLen = 0 ∨ entry.minTsUs ≠ 0 ∨ entry.maxTsUs ≠ 0)

def decodeEntry (bounds : Bounds) (bytes : Bytes) : Except CacheReadError BlockDirectoryEntry := do
  refuse .corrupt (u32At bytes 12 ≠ 0)
  let flags ← (BlockFlags.fromBits (u16At bytes 6)).mapError .ofBlock
  let entry : BlockDirectoryEntry := {
    blockKind := u32At bytes 0
    blockSchemaVersion := u16At bytes 4
    flags
    logicalId := u32At bytes 8
    offset := u64At bytes 16
    storedLen := u64At bytes 24
    decodedLen := u64At bytes 32
    itemCount := u32At bytes 40
    blockCrc32c := u32At bytes 44
    minTsUs := i64At bytes 48
    maxTsUs := i64At bytes 56 }
  checkKind entry.blockKind entry.blockSchemaVersion flags entry.logicalId
  refuse .oversized (bounds.storedBlockLen < entry.storedLen.toNat ∨
    bounds.decodedBlockLen < entry.decodedLen.toNat)
  checkKindLen bounds entry.blockKind entry.storedLen entry.decodedLen
  refuse .corrupt (flags.codec = .none ∧ entry.storedLen ≠ entry.decodedLen)
  refuse .oversized (itemCountBound entry.blockKind bounds < entry.itemCount.toNat)
  checkItems entry
  return entry

/-- `count` fixed-width entries from the start of `bytes`. -/
def decodeEntries (bounds : Bounds) : ℕ → Bytes → Except CacheReadError (List BlockDirectoryEntry)
  | 0,_ => .ok []
  | count+1,bytes => do
    let entry ← decodeEntry bounds (bytes.take directoryEntryLen)
    let rest ← decodeEntries bounds count (bytes.drop directoryEntryLen)
    return entry::rest

def decodeDirectory (bytes : Bytes) (count : UInt32) (bounds : Bounds) :
    Except CacheReadError (List BlockDirectoryEntry) := do
  let expectedLen ← directoryBytes count bounds
  refuse .corrupt (bytes.length ≠ expectedLen)
  decodeEntries bounds count.toNat bytes

namespace BlockDirectoryEntry

def key (entry : BlockDirectoryEntry) : ℕ ×ₗ ℕ := toLex (entry.blockKind.toNat,entry.logicalId.toNat)

/-- The order of a directory. -/
def order (entry : BlockDirectoryEntry) : ℕ ×ₗ ℕ ×ₗ ℤ :=
  toLex (entry.blockKind.toNat,toLex (entry.logicalId.toNat,entry.minTsUs.toInt))

def isCoverage (entry : BlockDirectoryEntry) : Bool :=
  BlockKind.fromCode entry.blockKind = some .lossCoverage

end BlockDirectoryEntry

/-- What a walk over the directory has seen. -/
structure DirectoryWalk where
  cursor : ℕ
  previousOrder : Option (ℕ ×ₗ ℕ ×ₗ ℤ)
  previousRange : OrderedMap (ℕ ×ₗ ℕ) (Option Int64)
  itemSums : OrderedMap (ℕ ×ₗ ℕ) ℕ
  flattenedItemSums : ℕ
  decodedSum : ℕ

def DirectoryWalk.start (directoryEnd : ℕ) : DirectoryWalk := ⟨directoryEnd,none,.empty,.empty,0,0⟩

/-- The items held so far under the key of an entry; the first coverage record of a key is
held once. -/
def DirectoryWalk.itemSum (walk : DirectoryWalk) (entry : BlockDirectoryEntry) : ℕ :=
  (walk.itemSums.lookup entry.key).getD (if entry.isCoverage then 1 else 0)

/-- A sum that fits in a counter. -/
def addOr (e : CacheReadError) (a b : ℕ) : Except CacheReadError ℕ :=
  match checkedAdd a b with
  | some sum => .ok sum
  | none => .error e

/-- The items a block adds. Every coverage block of a key repeats the first record. -/
def addedItems (entry : BlockDirectoryEntry) : Except CacheReadError ℕ := do
  if entry.isCoverage then
    refuse .corrupt (entry.itemCount = 0)
    return entry.itemCount.toNat-1
  return entry.itemCount.toNat

/-- Observations are held together over all their blocks. -/
def flattenedSum (bounds : Bounds) (walk : DirectoryWalk) (entry : BlockDirectoryEntry) :
    Except CacheReadError ℕ :=
  if BlockKind.fromCode entry.blockKind = some .eventObservations then do
    let sum ← addOr .oversized walk.flattenedItemSums entry.itemCount.toNat
    refuse .oversized (bounds.itemsPerBlock < sum)
    return sum
  else .ok walk.flattenedItemSums

/-- Blocks of one key follow each other in time. -/
def checkPreviousRange (walk : DirectoryWalk) (entry : BlockDirectoryEntry) :
    Except CacheReadError Unit :=
  match walk.previousRange.lookup entry.key with
  | some (some previousMax) =>
    refuse .corrupt (¬entry.flags.hasTimeRange ∨ entry.minTsUs ≤ previousMax)
  | some none => .error .corrupt
  | none => .ok ()

def validateEntry (header : FactFileHeader) (bounds : Bounds) (walk : DirectoryWalk)
    (entry : BlockDirectoryEntry) : Except CacheReadError DirectoryWalk := do
  refuse .corrupt (∃ previous ∈ walk.previousOrder, entry.order ≤ previous)
  refuse .corrupt (entry.offset.toNat ≠ walk.cursor)
  let cursor ← addOr .oversized walk.cursor entry.storedLen.toNat
  refuse .corrupt (header.fileLen.toNat < cursor)
  let decodedSum ← addOr .oversized walk.decodedSum entry.decodedLen.toNat
  refuse .oversized (bounds.decodedFileBytes < decodedSum)
  let added ← addedItems entry
  let itemSum ← addOr .oversized (walk.itemSum entry) added
  refuse .oversized (itemCountBound entry.blockKind bounds < itemSum)
  let flattened ← flattenedSum bounds walk entry
  checkPreviousRange walk entry
  refuse .corrupt (entry.flags.hasTimeRange ∧ (entry.minTsUs < header.identity.sourceMinTsUs ∨
    header.identity.sourceMaxTsUs < entry.maxTsUs))
  return {
    cursor,decodedSum
    previousOrder := some entry.order
    previousRange := walk.previousRange.insert entry.key
      (if entry.flags.hasTimeRange then some entry.maxTsUs else none)
    itemSums := walk.itemSums.insert entry.key itemSum
    flattenedItemSums := flattened }

def verifyRequiredBaseline (directory : List BlockDirectoryEntry) : Except CacheReadError Unit := do
  BlockKind.baseline.forM fun kind => do
    let count := directory.countP fun entry => entry.blockKind = kind.code
    refuse .corrupt (count = 0)
    refuse .corrupt (kind ∈ [.sourceManifest,.eventFacts,.stringTable,.uiSummary] ∧ count ≠ 1)
  refuse .corrupt (¬((directory.filter fun entry =>
    entry.blockKind = BlockKind.entitySeries.code).map BlockDirectoryEntry.logicalId).Nodup)

def validateDirectory (directory : List BlockDirectoryEntry) (header : FactFileHeader)
    (directoryEnd : ℕ) (bounds : Bounds) : Except CacheReadError Unit := do
  let walk ← directory.foldlM (validateEntry header bounds) (.start directoryEnd)
  refuse .corrupt (walk.cursor ≠ header.fileLen.toNat)
  verifyRequiredBaseline directory

/-- Extents that lie end to end from one offset to another. -/
def Extents : ℕ → List BlockDirectoryEntry → ℕ → Prop
  | start,[],stop => start = stop
  | start,entry::rest,stop => entry.offset.toNat = start ∧ Extents (start+entry.storedLen.toNat) rest stop

/-- What the checks of one entry establish by themselves. -/
structure EntryWithin (bounds : Bounds) (entry : BlockDirectoryEntry) : Prop where
  stored : entry.storedLen.toNat ≤ bounds.storedBlockLen
  decoded : entry.decodedLen.toNat ≤ bounds.decodedBlockLen
  items : entry.itemCount.toNat ≤ itemCountBound entry.blockKind bounds
  known : ∀ kind, BlockKind.fromCode entry.blockKind = some kind →
    entry.storedLen.toNat ≤ storedLenBound bounds kind ∧
      entry.decodedLen.toNat ≤ decodedLenBound bounds kind
  plain : entry.flags.codec = .none → entry.storedLen = entry.decodedLen
  times : entry.flags.hasTimeRange = true → entry.minTsUs ≤ entry.maxTsUs

section Directory

variable {bounds : Bounds} {entry : BlockDirectoryEntry} {directory : List BlockDirectoryEntry}
  {header : FactFileHeader} {walk next : DirectoryWalk}

theorem addOr_ok {e : CacheReadError} {a b sum : ℕ} (h : addOr e a b = .ok sum) :
    sum = a+b ∧ sum ≤ u64Max := by
  cases hadd : checkedAdd a b with
  | none => simp [addOr,hadd] at h
  | some c =>
    have hc := checkedAdd_eq_some.mp hadd
    simp only [addOr,hadd,Except.ok.injEq] at h
    omega

theorem addOr_of_le {e : CacheReadError} {a b : ℕ} (h : a+b ≤ u64Max) : addOr e a b = .ok (a+b) := by
  simp [addOr,checkedAdd_of_le h]

theorem checkItems_times (h : checkItems entry = .ok ()) (htimes : entry.flags.hasTimeRange = true) :
    entry.minTsUs ≤ entry.maxTsUs := by
  rw [checkItems] at h
  by_cases hzero : entry.itemCount = 0
  · rw [if_pos hzero] at h
    simp [refuse_ok,htimes] at h
  · rw [if_neg hzero,if_pos htimes] at h
    have hmin := refuse_ok.mp h
    simp only [not_or,Int64.not_lt] at hmin
    exact hmin.2

theorem decodeEntry_within {bytes : Bytes} (h : decodeEntry bounds bytes = .ok entry) :
    EntryWithin bounds entry := by
  obtain ⟨_,-,h⟩ := bind_ok h
  obtain ⟨flags,-,h⟩ := bind_ok h
  obtain ⟨_,-,h⟩ := bind_ok h
  obtain ⟨_,hlen,h⟩ := bind_ok h
  obtain ⟨_,hknown,h⟩ := bind_ok h
  obtain ⟨_,hplain,h⟩ := bind_ok h
  obtain ⟨_,hitems,h⟩ := bind_ok h
  obtain ⟨_,hcount,h⟩ := bind_ok h
  cases h
  have hlen' := refuse_ok.mp hlen
  push Not at hlen'
  constructor
  · exact hlen'.1
  · exact hlen'.2
  · exact not_lt.mp (refuse_ok.mp hitems)
  · intro kind hkind
    rw [checkKindLen,hkind] at hknown
    have hkind' := refuse_ok.mp hknown
    push Not at hkind'
    exact hkind'
  · intro hcodec
    have hsame := refuse_ok.mp hplain
    by_contra hne
    exact hsame ⟨hcodec,hne⟩
  · exact checkItems_times hcount

theorem decodeEntries_within {count : ℕ} {bytes : Bytes}
    (h : decodeEntries bounds count bytes = .ok directory) : ∀ entry ∈ directory, EntryWithin bounds entry := by
  induction count generalizing bytes directory with
  | zero =>
    cases h
    simp
  | succ count ih =>
    obtain ⟨entry,hentry,h⟩ := bind_ok h
    obtain ⟨rest,hrest,h⟩ := bind_ok h
    cases h
    simp only [List.mem_cons,forall_eq_or_imp]
    exact ⟨decodeEntry_within hentry,ih hrest⟩

theorem decodeDirectory_within {bytes : Bytes} {count : UInt32}
    (h : decodeDirectory bytes count bounds = .ok directory) :
    ∀ entry ∈ directory, EntryWithin bounds entry := by
  obtain ⟨_,-,h⟩ := bind_ok h
  obtain ⟨_,-,h⟩ := bind_ok h
  exact decodeEntries_within h

/-- The items of a block beside the record that its key holds once. -/
def BlockDirectoryEntry.ownItems (entry : BlockDirectoryEntry) : ℕ :=
  if entry.isCoverage then entry.itemCount.toNat-1 else entry.itemCount.toNat

def BlockDirectoryEntry.sharedItems (entry : BlockDirectoryEntry) : ℕ := if entry.isCoverage then 1 else 0

def BlockDirectoryEntry.observationItems (entry : BlockDirectoryEntry) : ℕ :=
  if BlockKind.fromCode entry.blockKind = some .eventObservations then entry.itemCount.toNat else 0

theorem kind_of_key {a b : BlockDirectoryEntry} (h : a.key = b.key) : a.blockKind = b.blockKind := by
  have hkey := congrArg Prod.fst (toLex.injective h)
  exact UInt32.toNat_inj.mp hkey

/-- What a checked entry adds to the walk. -/
structure Stepped (header : FactFileHeader) (bounds : Bounds) (walk : DirectoryWalk)
    (entry : BlockDirectoryEntry) (next : DirectoryWalk) : Prop where
  later : ∀ previous ∈ walk.previousOrder, previous < entry.order
  order : next.previousOrder = some entry.order
  offset : entry.offset.toNat = walk.cursor
  cursor : next.cursor = walk.cursor+entry.storedLen.toNat
  decoded : next.decodedSum = walk.decodedSum+entry.decodedLen.toNat
  decodedWithin : next.decodedSum ≤ bounds.decodedFileBytes
  items : next.itemSums = walk.itemSums.insert entry.key (walk.itemSum entry+entry.ownItems)
  itemsWithin : walk.itemSum entry+entry.ownItems ≤ itemCountBound entry.blockKind bounds
  observations : next.flattenedItemSums = walk.flattenedItemSums+entry.observationItems
  observationsWithin : walk.flattenedItemSums ≤ bounds.itemsPerBlock →
    next.flattenedItemSums ≤ bounds.itemsPerBlock
  first : entry.isCoverage = true → entry.itemCount ≠ 0

theorem addedItems_ok {added : ℕ} (h : addedItems entry = .ok added) :
    added = entry.ownItems ∧ (entry.isCoverage = true → entry.itemCount ≠ 0) := by
  rw [addedItems] at h
  by_cases hcoverage : entry.isCoverage
  · simp only [hcoverage,if_true] at h
    obtain ⟨_,hzero,h⟩ := bind_ok h
    cases h
    exact ⟨by simp [BlockDirectoryEntry.ownItems,hcoverage],fun _ => refuse_ok.mp hzero⟩
  · simp only [hcoverage] at h
    cases h
    exact ⟨by simp [BlockDirectoryEntry.ownItems,hcoverage],fun htrue => absurd htrue hcoverage⟩

theorem flattenedSum_ok {sum : ℕ} (h : flattenedSum bounds walk entry = .ok sum) :
    sum = walk.flattenedItemSums+entry.observationItems ∧
      (walk.flattenedItemSums ≤ bounds.itemsPerBlock → sum ≤ bounds.itemsPerBlock) := by
  rw [flattenedSum] at h
  by_cases hkind : BlockKind.fromCode entry.blockKind = some .eventObservations
  · rw [if_pos hkind] at h
    obtain ⟨total,htotal,h⟩ := bind_ok h
    obtain ⟨_,hwithin,h⟩ := bind_ok h
    cases h
    rw [BlockDirectoryEntry.observationItems,if_pos hkind]
    exact ⟨(addOr_ok htotal).1,fun _ => not_lt.mp (refuse_ok.mp hwithin)⟩
  · rw [if_neg hkind] at h
    cases h
    rw [BlockDirectoryEntry.observationItems,if_neg hkind]
    exact ⟨rfl,id⟩

theorem validateEntry_ok (h : validateEntry header bounds walk entry = .ok next) :
    Stepped header bounds walk entry next := by
  obtain ⟨_,hlater,h⟩ := bind_ok h
  obtain ⟨_,hoffset,h⟩ := bind_ok h
  obtain ⟨cursor,hcursor,h⟩ := bind_ok h
  obtain ⟨_,-,h⟩ := bind_ok h
  obtain ⟨decodedSum,hdecoded,h⟩ := bind_ok h
  obtain ⟨_,hdecodedWithin,h⟩ := bind_ok h
  obtain ⟨added,hadded,h⟩ := bind_ok h
  obtain ⟨itemSum,hitemSum,h⟩ := bind_ok h
  obtain ⟨_,hitemsWithin,h⟩ := bind_ok h
  obtain ⟨flattened,hflattened,h⟩ := bind_ok h
  obtain ⟨_,-,h⟩ := bind_ok h
  obtain ⟨_,-,h⟩ := bind_ok h
  cases h
  obtain ⟨rfl,hfirst⟩ := addedItems_ok hadded
  obtain ⟨rfl,-⟩ := addOr_ok hitemSum
  obtain ⟨rfl,hobservations⟩ := flattenedSum_ok hflattened
  have hlater' := refuse_ok.mp hlater
  push Not at hlater'
  exact {
    later := hlater'
    order := rfl
    offset := not_not.mp (refuse_ok.mp hoffset)
    cursor := (addOr_ok hcursor).1
    decoded := (addOr_ok hdecoded).1
    decodedWithin := not_lt.mp (refuse_ok.mp hdecodedWithin)
    items := rfl
    itemsWithin := not_lt.mp (refuse_ok.mp hitemsWithin)
    observations := rfl
    observationsWithin := hobservations
    first := hfirst }

/-- The items under the key of an entry, in the blocks of a list. -/
def ownTotal (entry : BlockDirectoryEntry) (directory : List BlockDirectoryEntry) : ℕ :=
  ((directory.filter fun other => other.key = entry.key).map BlockDirectoryEntry.ownItems).sum

theorem Stepped.itemSum (h : Stepped header bounds walk entry next) (other : BlockDirectoryEntry) :
    next.itemSum other = walk.itemSum other+ownTotal other [entry] := by
  rw [DirectoryWalk.itemSum,h.items,OrderedMap.lookup_insert]
  by_cases hkey : other.key = entry.key
  · have hkind : other.isCoverage = entry.isCoverage := by
      rw [BlockDirectoryEntry.isCoverage,BlockDirectoryEntry.isCoverage,kind_of_key hkey]
    simp [ownTotal,DirectoryWalk.itemSum,hkey,hkind]
  · simp [ownTotal,DirectoryWalk.itemSum,hkey,Ne.symm hkey]

/-- What a walk over several entries adds. -/
structure Walked (bounds : Bounds) (walk : DirectoryWalk) (directory : List BlockDirectoryEntry)
    (last : DirectoryWalk) : Prop where
  ascending : (walk.previousOrder.toList++directory.map BlockDirectoryEntry.order).Pairwise (· < ·)
  extents : Extents walk.cursor directory last.cursor
  decoded : last.decodedSum =
    walk.decodedSum+(directory.map fun entry => entry.decodedLen.toNat).sum
  decodedWithin : walk.decodedSum ≤ bounds.decodedFileBytes →
    last.decodedSum ≤ bounds.decodedFileBytes
  items : ∀ entry, last.itemSum entry = walk.itemSum entry+ownTotal entry directory
  itemsKept : ∀ entry, walk.itemSum entry ≤ itemCountBound entry.blockKind bounds →
    last.itemSum entry ≤ itemCountBound entry.blockKind bounds
  itemsWithin : ∀ entry ∈ directory, last.itemSum entry ≤ itemCountBound entry.blockKind bounds
  observations : last.flattenedItemSums =
    walk.flattenedItemSums+(directory.map BlockDirectoryEntry.observationItems).sum
  observationsWithin : walk.flattenedItemSums ≤ bounds.itemsPerBlock →
    last.flattenedItemSums ≤ bounds.itemsPerBlock
  first : ∀ entry ∈ directory, entry.isCoverage = true → entry.itemCount ≠ 0

theorem Walked.cons {last : DirectoryWalk} (hstep : Stepped header bounds walk entry next)
    (h : Walked bounds next directory last) : Walked bounds walk (entry::directory) last := by
  have htotal : ∀ other, ownTotal other (entry::directory) =
      ownTotal other [entry]+ownTotal other directory := by
    intro other
    by_cases hkey : entry.key = other.key <;> simp [ownTotal,hkey]
  have hstepped : ∀ other, walk.itemSum other ≤ itemCountBound other.blockKind bounds →
      next.itemSum other ≤ itemCountBound other.blockKind bounds := by
    intro other hother
    rw [hstep.itemSum]
    by_cases hkey : entry.key = other.key
    · have hwithin := hstep.itemsWithin
      have hsum : walk.itemSum other = walk.itemSum entry := by
        rw [DirectoryWalk.itemSum,DirectoryWalk.itemSum,BlockDirectoryEntry.isCoverage,
          BlockDirectoryEntry.isCoverage,kind_of_key hkey,hkey]
      simpa [ownTotal,hkey,hsum,kind_of_key hkey] using hwithin
    · simpa [ownTotal,hkey] using hother
  constructor
  · have hrest := h.ascending
    rw [hstep.order] at hrest
    cases hprevious : walk.previousOrder with
    | none => simpa using hrest
    | some previous =>
      have hlt := hstep.later previous hprevious
      simp only [Option.toList_some,List.cons_append,List.nil_append,List.map_cons,
        List.pairwise_cons] at hrest ⊢
      refine ⟨?_,hrest⟩
      intro order horder
      rcases List.mem_cons.mp horder with heq | hmem
      · exact heq ▸ hlt
      · exact hlt.trans (hrest.1 order hmem)
  · exact ⟨hstep.offset,hstep.cursor ▸ h.extents⟩
  · rw [h.decoded,hstep.decoded,List.map_cons,List.sum_cons]
    omega
  · exact fun _ => h.decodedWithin hstep.decodedWithin
  · intro other
    rw [h.items,hstep.itemSum,htotal]
    omega
  · exact fun other hother => h.itemsKept other (hstepped other hother)
  · intro other hother
    rcases List.mem_cons.mp hother with heq | hmem
    · subst heq
      apply h.itemsKept
      rw [hstep.itemSum]
      simpa [ownTotal] using hstep.itemsWithin
    · exact h.itemsWithin other hmem
  · rw [h.observations,hstep.observations,List.map_cons,List.sum_cons]
    omega
  · exact fun hwithin => h.observationsWithin (hstep.observationsWithin hwithin)
  · intro other hother
    rcases List.mem_cons.mp hother with heq | hmem
    · exact heq ▸ hstep.first
    · exact h.first other hmem

theorem validate_run {last : DirectoryWalk}
    (h : directory.foldlM (validateEntry header bounds) walk = .ok last) :
    Walked bounds walk directory last := by
  induction directory generalizing walk with
  | nil =>
    cases h
    constructor <;> simp [Extents,ownTotal]
  | cons entry rest ih =>
    rw [List.foldlM_cons] at h
    obtain ⟨next,hnext,h⟩ := bind_ok h
    exact .cons (validateEntry_ok hnext) (ih h)

/-- What an admitted directory holds, beside the checks of its entries. -/
structure DirectoryWithin (bounds : Bounds) (directoryEnd fileLen : ℕ)
    (directory : List BlockDirectoryEntry) : Prop where
  extents : Extents directoryEnd directory fileLen
  ascending : directory.Pairwise fun a b => a.order < b.order
  decoded : (directory.map fun entry => entry.decodedLen.toNat).sum ≤ bounds.decodedFileBytes
  items : ∀ entry ∈ directory,
    entry.sharedItems+ownTotal entry directory ≤ itemCountBound entry.blockKind bounds
  observations : (directory.map BlockDirectoryEntry.observationItems).sum ≤ bounds.itemsPerBlock
  first : ∀ entry ∈ directory, entry.isCoverage = true → entry.itemCount ≠ 0

theorem validateDirectory_ok {directoryEnd : ℕ}
    (h : validateDirectory directory header directoryEnd bounds = .ok ()) :
    DirectoryWithin bounds directoryEnd header.fileLen.toNat directory := by
  obtain ⟨last,hlast,h⟩ := bind_ok h
  obtain ⟨_,hcursor,-⟩ := bind_ok h
  have hwalked := validate_run hlast
  have hend := not_not.mp (refuse_ok.mp hcursor)
  constructor
  · exact hend ▸ hwalked.extents
  · simpa [DirectoryWalk.start,List.pairwise_map] using hwalked.ascending
  · have hwithin := hwalked.decodedWithin (Nat.zero_le _)
    rw [hwalked.decoded] at hwithin
    simpa [DirectoryWalk.start] using hwithin
  · intro entry hentry
    have hwithin := hwalked.itemsWithin entry hentry
    rw [hwalked.items] at hwithin
    simpa [DirectoryWalk.start,DirectoryWalk.itemSum,BlockDirectoryEntry.sharedItems] using hwithin
  · have hwithin := hwalked.observationsWithin (Nat.zero_le _)
    rw [hwalked.observations] at hwithin
    simpa [DirectoryWalk.start] using hwithin
  · exact hwalked.first

theorem Extents.sum {start stop : ℕ} (h : Extents start directory stop) :
    start+(directory.map fun entry => entry.storedLen.toNat).sum = stop := by
  induction directory generalizing start with
  | nil => exact h
  | cons entry rest ih =>
    have hrest := ih h.2
    rw [List.map_cons,List.sum_cons]
    omega

theorem Extents.inside {start stop : ℕ} (h : Extents start directory stop) :
    ∀ entry ∈ directory, start ≤ entry.offset.toNat ∧
      entry.offset.toNat+entry.storedLen.toNat ≤ stop := by
  induction directory generalizing start with
  | nil => simp
  | cons first rest ih =>
    have hsum := h.2.sum
    intro entry hentry
    rcases List.mem_cons.mp hentry with heq | hmem
    · have hoffset := h.1
      rw [heq]
      omega
    · have hrest := ih h.2 entry hmem
      omega

end Directory

/-- What a decompressor gives for stored bytes: its output, and whether it then ends
rather than fails. -/
structure ZstdStream where
  output : Bytes
  ends : Bool
  deriving DecidableEq

abbrev Decompressor := Bytes → Option ZstdStream

def decodedBody (zstd : Decompressor) (entry : BlockDirectoryEntry) (stored : Bytes) :
    Except CacheReadError Bytes :=
  match entry.flags.codec with
  | .none => .ok stored
  | .zstd =>
    match zstd stored with
    | some stream =>
      if stream.output.length = entry.decodedLen.toNat ∧ stream.ends then .ok stream.output
      else .error .corrupt
    | none => .error .corrupt

structure LogicalDescriptor where
  sorted : Bool
  itemCount : ℕ
  timeRange : Option (Int64 × Int64)

def validateLogicalDescriptor (entry : BlockDirectoryEntry) (logical : LogicalDescriptor) :
    Except CacheReadError Unit := do
  refuse .corrupt (logical.sorted ≠ entry.flags.canonicallySorted ∨
    logical.itemCount ≠ entry.itemCount.toNat ∨
    logical.timeRange.isSome ≠ entry.flags.hasTimeRange)
  match logical.timeRange with
    | some range => refuse .corrupt (range.1 ≠ entry.minTsUs ∨ range.2 ≠ entry.maxTsUs)
    | none => refuse .corrupt (entry.minTsUs ≠ 0 ∨ entry.maxTsUs ≠ 0)

inductive IdentityQuality
  | contentDerived | approximate
  deriving DecidableEq

structure SegmentIdentity where
  id : SegmentLineageId
  quality : IdentityQuality
  deriving DecidableEq

/-- The decoders of the block bodies. `Budgets` is what they have left to spend over one
file, with the texts referenced so far. -/
structure BlockDecoders (Manifest Strings Budgets : Type) where
  manifest : Bytes → Bounds → Except BlockError Manifest
  manifestFormatVersion : Manifest → UInt32
  manifestTimeRange : Manifest → Int64 × Int64
  manifestFileLen : Manifest → UInt64
  strings : Bytes → Bounds → Except BlockError Strings
  budgets : Bounds → Budgets
  block : Manifest → Strings → SegmentIdentity → Bounds → BlockKind → UInt32 → Bytes → Budgets →
    Except CacheReadError (LogicalDescriptor × Budgets)
  /-- The table of the referenced texts is the stored one. -/
  referencesAll : Strings → Bounds → Budgets → Except BlockError Bool

section Admission

variable {Manifest Strings Budgets : Type} (zstd : Decompressor)
  (decoders : BlockDecoders Manifest Strings Budgets)

def verifyManifestIdentity (manifest : Manifest) (identity : HeaderIdentity) :
    Except CacheReadError Unit :=
  refuse .wrongSource (decoders.manifestFormatVersion manifest ≠ identity.sourceFormatVersion ∨
    decoders.manifestTimeRange manifest ≠ (identity.sourceMinTsUs,identity.sourceMaxTsUs) ∨
    decoders.manifestFileLen manifest ≠ identity.sourceFileLen)

/-- The body of the first block of a kind. -/
def firstBody (kind : BlockKind) (blocks : List (BlockDirectoryEntry × Bytes)) :
    Except CacheReadError Bytes :=
  match blocks.find? fun block => block.1.blockKind = kind.code with
  | some block => decodedBody zstd block.1 block.2
  | none => .error .corrupt

def validateLogicalBlock (manifest : Manifest) (strings : Strings) (lineage : SegmentIdentity)
    (bounds : Bounds) (budgets : Budgets) (block : BlockDirectoryEntry × Bytes) :
    Except CacheReadError Budgets :=
  match BlockKind.fromCode block.1.blockKind with
  | none => .ok budgets
  | some kind => do
    let body ← decodedBody zstd block.1 block.2
    let (logical,left) ← decoders.block manifest strings lineage bounds kind block.1.logicalId body
      budgets
    validateLogicalDescriptor block.1 logical
    return left

def validateLogicalBlocks (blocks : List (BlockDirectoryEntry × Bytes)) (identity : HeaderIdentity)
    (lineage : SegmentIdentity) (bounds : Bounds) : Except CacheReadError Unit := do
  let manifestBody ← firstBody zstd .sourceManifest blocks
  let manifest ← (decoders.manifest manifestBody bounds).mapError .ofBlock
  verifyManifestIdentity decoders manifest identity
  let stringsBody ← firstBody zstd .stringTable blocks
  let strings ← (decoders.strings stringsBody bounds).mapError .ofBlock
  let budgets ← blocks.foldlM (validateLogicalBlock zstd decoders manifest strings lineage bounds)
    (decoders.budgets bounds)
  let references ← (decoders.referencesAll strings bounds budgets).mapError .ofBlock
  refuse .corrupt (references = false)

/-- A fully admitted file. -/
structure FactFile where
  header : FactFileHeader
  directory : List BlockDirectoryEntry
  bytes : Bytes

def storedBody (bytes : Bytes) (entry : BlockDirectoryEntry) : Except CacheReadError Bytes := do
  refuse .corrupt (u64Max < entry.offset.toNat+entry.storedLen.toNat)
  refuse .corrupt (bytes.length < entry.offset.toNat+entry.storedLen.toNat)
  return slice bytes entry.offset.toNat entry.storedLen.toNat

def checkedBody (bytes : Bytes) (entry : BlockDirectoryEntry) :
    Except CacheReadError (BlockDirectoryEntry × Bytes) := do
  let body ← storedBody bytes entry
  refuse .corrupt (crc32c body ≠ entry.blockCrc32c)
  return (entry,body)

def admitBytes (bytes : Bytes) (expected : HeaderIdentity) (lineage : SegmentIdentity)
    (bounds : Bounds) : Except CacheReadError FactFile := do
  validateApiInputs expected bounds
  refuse .wrongSource (lineage.id ≠ expected.segmentLineageId)
  refuse .oversized (bounds.factFileLen < bytes.length)
  refuse .corrupt (bytes.length < headerLen)
  let (header,directoryCrc) ← decodeHeader (bytes.take headerLen)
  verifyIdentity header.identity expected
  refuse .corrupt (header.fileLen.toNat ≠ bytes.length)
  let directoryEnd ← checkedDirectoryEnd header bounds
  let directoryBytes := slice bytes headerLen (directoryEnd-headerLen)
  refuse .corrupt (crc32c directoryBytes ≠ directoryCrc)
  let directory ← decodeDirectory directoryBytes header.directoryCount bounds
  validateDirectory directory header directoryEnd bounds
  let blocks ← directory.mapM (checkedBody bytes)
  validateLogicalBlocks zstd decoders blocks header.identity lineage bounds
  return ⟨header,directory,bytes⟩

def FactFile.readBlock (file : FactFile) (kind : BlockKind) (logicalId : UInt32) :
    Except CacheReadError (Option Bytes) :=
  match file.directory.find? fun entry => entry.blockKind = kind.code ∧ entry.logicalId = logicalId with
  | none => .ok none
  | some entry => do
    let stored ← storedBody file.bytes entry
    let body ← decodedBody zstd entry stored
    return some body

end Admission

end FactContainer
end PgKronika
