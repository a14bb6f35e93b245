import PgKronika.SectionRows
import PgKronika.SegmentPlan
import PgKronika.SnapshotRefresh
import PgKronika.TypeBloom

/-! The units of a snapshot as a query sees them: what the scan has kept of their catalogs, and
opening them, which fails when the file no longer has that catalog. -/
namespace PgKronika

open ByteCodec CheckedArith Utf8Text

inductive ReadError (ε : Type)
  | io (error : ε)
  | codec (error : ε)
  | other (error : ε)
  | unknownType (typeId : UInt32)
  | dictionarySection (typeId : UInt32)
  | dictionaryConflict (strId : UInt64)
  | staleSnapshot (unitIdx : ℕ)
  | counterOverflow
  | catalogRowCountMismatch (typeId declared : UInt32) (decoded : ℕ)

inductive SealedFactError (ε : Type)
  | descriptorUnavailable (locator : SealedLocator)
  | staleDescriptor (locator : SealedLocator)
  | build (error : ReadError ε)

inductive QueryWorkResource
  | units | catalogBytes | dictionaryBytes
  deriving DecidableEq

inductive SectionQueryError (ε : Type)
  | unknownSection (name : String)
  | read (error : ReadError ε)
  | sealedDescriptor (error : SealedFactError ε)
  | resultTooLarge (maxCells : ℕ)
  | materializedBytesTooLarge (maxBytes : ℕ)
  | workLimitExceeded (resource : QueryWorkResource) (limit observed : ℕ)

/-- An opened container: its catalog, and the reading of its verified section bodies. -/
abbrev QueryUnit (ε : Type) := PgmUnit (Entry → Except (ReadError ε) Bytes)

/-- What the Parquet codec makes of a section body. -/
structure SectionCodec (ε : Type) where
  cells : SectionContract → Bytes → Except ε (List (List Cell))
  dictionary : UInt32 → Bytes → Except ε (List (UInt64 × Resolved) × ℕ)

def entryDigestBytes (entry : Entry) : Bytes :=
  u32Le entry.typeId ++ u32Le entry.flags ++ u64Le entry.len ++ u32Le entry.rows ++
    u32Le entry.crc32c

def catalogDigestHead (domain : String) (catalog : Catalog) (entryCount : UInt32) : Bytes :=
  utf8 domain ++ [0] ++ i64Le catalog.minTs ++ i64Le catalog.maxTs ++
    u32Le catalog.formatVersion ++ u32Le catalog.windowCount ++ u64Le entryCount.toUInt64 ++ u64Le 0

/-- The logical and the offset-sensitive identity of a catalog. -/
def catalogDigests (sha256 : Bytes → Digest) (catalog : Catalog) (entryCount : UInt32) :
    Digest × Digest :=
  (sha256 (catalogDigestHead "pgk-overview-catalog-v2" catalog entryCount ++
      catalog.entries.flatMap entryDigestBytes),
    sha256 (catalogDigestHead "pgk-pgm-catalog-layout-v2" catalog entryCount ++
      catalog.entries.flatMap fun entry => u64Le entry.offset ++ entryDigestBytes entry))

def CatalogSummary.fromCatalog (sha256 : Bytes → Digest) (catalog : Catalog)
    (catalogLen : UInt32) : CatalogSummary :=
  let entryCount := UInt32.ofNat catalog.entries.length
  let digests := catalogDigests sha256 catalog entryCount
  { minTs := catalog.minTs
    maxTs := catalog.maxTs
    entryCount
    formatVersion := catalog.formatVersion
    windowCount := catalog.windowCount
    catalogLen
    logicalDigest := digests.1
    layoutDigest := digests.2
    nonemptyTypeBloom := PgKronika.nonemptyTypeBloom catalog.entries }

def CatalogSummary.mayContainAnyNonemptyType (summary : CatalogSummary) (typeIds : List UInt32) :
    Bool :=
  typeIds.any (bloomMayContain summary.nonemptyTypeBloom)

def hasNonemptyType (catalog : Catalog) (typeIds : List UInt32) : Bool :=
  catalog.entries.any fun entry => entry.rows ≠ 0 ∧ entry.typeId ∈ typeIds

structure UnitMeta where
  minTs : Int64
  maxTs : Int64
  live : Bool
  deriving DecidableEq

/-- The scanned unit that an index of the snapshot stands for. -/
inductive UnitHandle
  | sealed (unit : SealedUnit)
  | active (part : ActivePart)
  deriving DecidableEq

inductive UnitCatalogHint
  | sealed (summary : CatalogSummary)
  | active (catalog : Catalog)
  deriving DecidableEq

structure UnitDescriptor where
  index : ℕ
  handle : UnitHandle
  unitMeta : UnitMeta
  eagerOpenBytes : ℕ
  catalogHint : UnitCatalogHint
  deriving DecidableEq

def metaForHandle : UnitHandle → UnitMeta
  | .sealed unit => ⟨unit.summary.minTs,unit.summary.maxTs,false⟩
  | .active part => ⟨part.catalog.minTs,part.catalog.maxTs,true⟩

/-- The bytes that opening a unit reads. -/
def eagerOpenBytes : UnitHandle → ℕ
  | .sealed unit =>
    saturatingAdd (saturatingAdd unit.summary.catalogLen.toNat magic.length) tailIndexLen
  | .active part => min part.part.len u64Max

def hintForHandle : UnitHandle → UnitCatalogHint
  | .sealed unit => .sealed unit.summary
  | .active part => .active part.catalog

def UnitDescriptor.mayContainAnyNonemptyType (unit : UnitDescriptor) (typeIds : List UInt32) :
    Bool :=
  match unit.catalogHint with
  | .sealed summary => summary.mayContainAnyNonemptyType typeIds
  | .active catalog => hasNonemptyType catalog typeIds

section Snapshot

variable {ω ε : Type}

/-- Sealed units first; a sealed segment that holds what the journal holds hides the journal. -/
def LocalDirSnapshot.handles (s : LocalDirSnapshot ω) : List UnitHandle :=
  s.scan.sealed.map UnitHandle.sealed ++
    if s.sealedActiveGenerationMatch then [] else s.scan.active.parts.map UnitHandle.active

def describeUnit (handle : UnitHandle) (index : ℕ) : UnitDescriptor where
  index
  handle
  unitMeta := metaForHandle handle
  eagerOpenBytes := eagerOpenBytes handle
  catalogHint := hintForHandle handle

def LocalDirSnapshot.unitDescriptors (s : LocalDirSnapshot ω) : List UnitDescriptor :=
  s.handles.zipIdx.map fun (handle,index) => describeUnit handle index

/-- What the files of the units are when they are opened. -/
structure SnapshotFiles (ε : Type) where
  openSealed : ℕ → SealedUnit → Except (ReadError ε) (QueryUnit ε)
  readActivePart : ℕ → ActivePart → Except (ReadError ε) (QueryUnit ε)

/-- The reading side of a query: the types, the codec and the digest of catalogs. -/
structure QueryReader (ε : Type) where
  registry : SectionRegistry
  codec : SectionCodec ε
  sha256 : Bytes → Digest

variable (reader : QueryReader ε)

def openCheckedSealed (files : SnapshotFiles ε) (unitIdx : ℕ) (unit : SealedUnit) :
    Except (ReadError ε) (QueryUnit ε) :=
  match files.openSealed unitIdx unit with
  | .error error => .error error
  | .ok opened =>
    if 2^32 ≤ opened.catalog.encodedLen then .error .counterOverflow
    else if CatalogSummary.fromCatalog reader.sha256 opened.catalog
        (UInt32.ofNat opened.catalog.encodedLen) ≠ unit.summary then .error (.staleSnapshot unitIdx)
    else .ok opened

/-- Open a unit, if its catalog is still the scanned one. -/
def openUnitHandle (files : SnapshotFiles ε) (unitIdx : ℕ) :
    UnitHandle → Except (ReadError ε) (QueryUnit ε)
  | .sealed unit => openCheckedSealed reader files unitIdx unit
  | .active part =>
    match files.readActivePart unitIdx part with
    | .error error => .error error
    | .ok opened => if opened.catalog ≠ part.catalog then .error (.staleSnapshot unitIdx) else .ok opened

def isDictionaryType (typeId : UInt32) : Bool :=
  typeId = dictStringsTypeId ∨ typeId = dictBlobsTypeId

def validateCatalogRowCount (entry : Entry) (decoded : ℕ) : Except (ReadError ε) Unit :=
  if decoded = entry.rows.toNat then .ok ()
  else .error (.catalogRowCountMismatch entry.typeId entry.rows decoded)

/-- The rows of one section, under the contract of its type. -/
def decodeRows (unit : QueryUnit ε) (entry : Entry) : Except (ReadError ε) (List Row) :=
  if isDictionaryType entry.typeId then .error (.dictionarySection entry.typeId)
  else
    unit.body entry >>= fun body =>
    match reader.registry.contracts.find? fun contract => contract.typeId = entry.typeId with
    | none => .error (.unknownType entry.typeId)
    | some contract =>
      (reader.codec.cells contract body).mapError .codec >>= fun rows =>
      validateCatalogRowCount entry rows.length >>= fun _ =>
      .ok (rows.map (Row.mk contract))

def UnitDictionary.insert (dict : UnitDictionary) (value : UInt64 × Resolved) :
    Except (ReadError ε) UnitDictionary :=
  if (dict.resolve value.1).isSome then .error (.dictionaryConflict value.1)
  else .ok ⟨fun id => if id = value.1 then some value.2 else dict.resolve id⟩

def addDictionarySection (unit : QueryUnit ε) (dict : UnitDictionary) (entry : Entry) :
    Except (ReadError ε) UnitDictionary :=
  unit.body entry >>= fun body =>
  (reader.codec.dictionary entry.typeId body).mapError .codec >>= fun decoded =>
  validateCatalogRowCount entry decoded.2 >>= fun _ =>
  decoded.1.foldlM UnitDictionary.insert dict

/-- The values of the dictionary sections; an id that stands in two of them is an error. -/
def unitDictionary (unit : QueryUnit ε) : Except (ReadError ε) UnitDictionary :=
  (unit.catalog.entries.filter fun entry => isDictionaryType entry.typeId).foldlM
    (addDictionarySection reader unit) ⟨fun _ => none⟩

end Snapshot

section Hints

variable {ω ε : Type} {reader : QueryReader ε} {files : SnapshotFiles ε}

theorem LocalDirSnapshot.mem_unitDescriptors {s : LocalDirSnapshot ω} {unit : UnitDescriptor}
    (h : unit ∈ s.unitDescriptors) : unit = describeUnit unit.handle unit.index := by
  obtain ⟨⟨handle,index⟩,_,rfl⟩ := List.mem_map.mp h
  rfl

/-- An opened unit has the catalog that was scanned. -/
theorem openUnitHandle_ok {unitIdx : ℕ} {handle : UnitHandle} {opened : QueryUnit ε}
    (h : openUnitHandle reader files unitIdx handle = .ok opened) :
    (∀ unit, handle = .sealed unit → ∃ len, unit.summary =
      CatalogSummary.fromCatalog reader.sha256 opened.catalog len) ∧
    ∀ part, handle = .active part → part.catalog = opened.catalog := by
  cases handle with
  | sealed unit =>
    refine ⟨fun _ hu => ?_,fun _ hp => by cases hp⟩
    cases hu
    rw [openUnitHandle,openCheckedSealed] at h
    split at h
    · cases h
    · split_ifs at h with hlen hsummary
      cases h
      exact ⟨_,(not_not.mp hsummary).symm⟩
  | active part =>
    refine ⟨fun _ hu => (by cases hu),fun _ hp => ?_⟩
    cases hp
    rw [openUnitHandle] at h
    split at h
    · cases h
    · split_ifs at h with hcatalog
      cases h
      exact (not_not.mp hcatalog).symm

/-- A unit that the hint rules out has no section with rows of these types. -/
theorem mayContain_of_nonempty {s : LocalDirSnapshot ω} {unit : UnitDescriptor}
    {opened : QueryUnit ε} {typeIds : List UInt32} (hunit : unit ∈ s.unitDescriptors)
    (h : openUnitHandle reader files unit.index unit.handle = .ok opened)
    (hrows : hasNonemptyType opened.catalog typeIds) :
    unit.mayContainAnyNonemptyType typeIds := by
  rw [LocalDirSnapshot.mem_unitDescriptors hunit]
  obtain ⟨hsealed,hactive⟩ := openUnitHandle_ok h
  cases hhandle : unit.handle with
  | sealed sealedUnit =>
    obtain ⟨len,hsummary⟩ := hsealed _ hhandle
    obtain ⟨entry,hentry,hnonempty⟩ := List.any_eq_true.mp hrows
    simp only [ne_eq,decide_eq_true_eq] at hnonempty
    change sealedUnit.summary.mayContainAnyNonemptyType typeIds
    rw [CatalogSummary.mayContainAnyNonemptyType,hsummary,List.any_eq_true]
    exact ⟨entry.typeId,hnonempty.2,bloomMayContain_nonempty hentry hnonempty.1⟩
  | active part =>
    change hasNonemptyType part.catalog typeIds
    rw [hactive _ hhandle]
    exact hrows

theorem decodeRows_length {unit : QueryUnit ε} {entry : Entry} {rows : List Row}
    (h : decodeRows reader unit entry = .ok rows) : rows.length = entry.rows.toNat := by
  rw [decodeRows] at h
  split_ifs at h
  obtain ⟨body,-,h⟩ := bind_ok h
  split at h
  · cases h
  · obtain ⟨cells,-,h⟩ := bind_ok h
    obtain ⟨_,hcount,h⟩ := bind_ok h
    rw [validateCatalogRowCount] at hcount
    split_ifs at hcount with hlen
    rw [← Except.ok.inj h,List.length_map,hlen]

end Hints

end PgKronika
