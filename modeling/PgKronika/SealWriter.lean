import PgKronika.PartDictionary
import PgKronika.SortedFront

/-! The sealer: the data sections of all parts are decoded, merged by type and sorted, the
dictionaries are merged, and both are written as one PGM file. Arrow and Parquet are parameters. -/
namespace PgKronika

open ByteCodec CheckedArith SortedFront

structure RecordBatch (ρ : Type) where
  schema : List Column
  rows : List ρ
  deriving DecidableEq

/-- What a reader of a data section sees. -/
structure DataFile (ρ : Type) where
  rowGroups : ℕ
  numRows : ℤ
  schema : List Column
  batches : List (RecordBatch ρ)

/-- Arrow and Parquet, as far as data sections use them: the two ends of a section body, the length
of a list cell, and the order of the cells of a column. -/
structure DataCodec (ρ : Type) where
  decodeWork : ℕ → Bytes → Except CodecError Unit
  read : Bytes → Except CodecError (DataFile ρ)
  write : TypeContract → List ρ → Except CodecError Bytes
  listLen : String → ρ → ℕ
  compareCells : String → ρ → ρ → Ordering

def maxListI32ValuesPerRow : ℕ := 4096

/-- Row count and list values of each list column, so far. -/
structure BatchTotals where
  rows : ℕ
  listValues : List (String × ℕ)
  deriving DecidableEq

def TypeContract.listColumns (contract : TypeContract) : List String :=
  (contract.columns.filter fun column => column.ty == .listI32).map Column.name

def TypeContract.noRows (contract : TypeContract) : BatchTotals :=
  ⟨0,contract.listColumns.map fun name => (name,0)⟩

/-- A total of list values stays under the cap of a section. -/
def addListValues (name : String) (total values : ℕ) : Except CodecError ℕ :=
  match checkedAdd total values with
  | none => .error (.tooManyListValues name u64Max maxListI32ValuesPerSection)
  | some total =>
    if maxListI32ValuesPerSection < total then
      .error (.tooManyListValues name total maxListI32ValuesPerSection)
    else .ok total

section Codec

variable {ρ : Type} (codec : DataCodec ρ) (registry : Registry)

def validateListI32Row (name : String) (total : ℕ) (row : ρ) : Except CodecError ℕ :=
  if maxListI32ValuesPerRow < codec.listLen name row then
    .error (.tooManyListValues name (codec.listLen name row) maxListI32ValuesPerRow)
  else addListValues name total (codec.listLen name row)

def validateListI32Batch (name : String) (rows : List ρ) : Except CodecError ℕ :=
  rows.foldlM (validateListI32Row codec name) 0

def addBatchLists (rows : List ρ) (totals : List (String × ℕ)) :
    Except CodecError (List (String × ℕ)) :=
  totals.mapM fun p =>
    validateListI32Batch codec p.1 rows >>= fun values =>
    (addListValues p.1 p.2 values).map fun total => (p.1,total)

/-- The list values of all list columns together. -/
def totalListValues (totals : List (String × ℕ)) : Except CodecError ℕ :=
  (totals.map Prod.snd).foldlM (fun total values =>
    orError (.tooManyListValues ((totals.head?.map Prod.fst).getD "ListI32") u64Max
      maxListI32ValuesPerSection) (checkedAdd total values)) 0

/-- A body with a plausible size, work, number of row groups and of rows. -/
def cappedReader (body : Bytes) : Except CodecError (DataFile ρ) :=
  if maxSectionBytes < body.length then .error (.sectionTooLarge body.length maxSectionBytes)
  else
    codec.decodeWork maxDecodedSectionBytes body >>= fun _ =>
    codec.read body >>= fun file =>
    if maxRowGroups < file.rowGroups then .error (.tooManyRowGroups file.rowGroups maxRowGroups)
    else if file.numRows < 0 then .error (.invalidRowCount file.numRows)
    else if maxSectionRows < file.numRows.toNat then
      .error (.tooManyRows file.numRows.toNat maxSectionRows)
    else .ok file

structure DecodedSection (ρ : Type) where
  batches : List (RecordBatch ρ)
  rows : ℕ
  listI32ChildValues : ℕ

def decodeBatch (totals : BatchTotals) (batch : RecordBatch ρ) : Except CodecError BatchTotals :=
  if maxSectionRows < totals.rows+batch.rows.length then
    .error (.tooManyRows (totals.rows+batch.rows.length) maxSectionRows)
  else (addBatchLists codec batch.rows totals.listValues).map fun listValues =>
    ⟨totals.rows+batch.rows.length,listValues⟩

def decodeBatches (contract : TypeContract) (body : Bytes) :
    Except CodecError (DecodedSection ρ) :=
  cappedReader codec body >>= fun file =>
  if file.schema ≠ contract.columns then .error .schemaMismatch
  else
    file.batches.foldlM (decodeBatch codec) contract.noRows >>= fun totals =>
    totalListValues totals.listValues >>= fun values => .ok ⟨file.batches,totals.rows,values⟩

def decodeAny (typeId : UInt32) (body : Bytes) : Except CodecError (DecodedSection ρ) :=
  registry.contract typeId >>= fun contract =>
  (decodeBatches codec contract body).mapError (.inSection typeId body.length)

/-- The sort key, then every other column. -/
def TypeContract.sortNames (contract : TypeContract) : List String :=
  contract.sortKey ++
    (contract.columns.map Column.name).filter fun name => !contract.sortKey.contains name

/-- Rows compared column by column. -/
def compareRows (names : List String) (a b : ρ) : Ordering :=
  names.foldr (fun name rest => (codec.compareCells name a b).then rest) .eq

def sortCanonical (contract : TypeContract) (rows : List ρ) : Except CodecError (List ρ) :=
  if contract.columns = [] ∨ rows.length ≤ 1 then .ok rows
  else
    match contract.sortNames.find? fun name => !(contract.columns.map Column.name).contains name with
    | some name => .error (.missingColumn name)
    | none => .ok (sortBy (compareRows codec contract.sortNames) rows)

def mergeBatch (contract : TypeContract) (totals : BatchTotals) (batch : RecordBatch ρ) :
    Except CodecError BatchTotals :=
  if batch.schema ≠ contract.columns then .error .schemaMismatch
  else
    orError (.tooManyRows u64Max maxSectionRows) (checkedAdd totals.rows batch.rows.length) >>=
      fun rows =>
    checkRowCap rows >>= fun _ =>
    (addBatchLists codec batch.rows totals.listValues).map fun listValues => ⟨rows,listValues⟩

/-- The body of one sealed section: all rows of its type in canonical order. -/
def encodeSealedBatches (typeId : UInt32) (batches : List (RecordBatch ρ)) :
    Except CodecError Bytes :=
  registry.contract typeId >>= fun contract =>
  batches.foldlM (mergeBatch codec contract) contract.noRows >>= fun totals =>
  totalListValues totals.listValues >>= fun values =>
  sealedDataBodyBound registry typeId totals.rows values >>= fun _ =>
  sortCanonical codec contract (batches.flatMap RecordBatch.rows) >>= fun rows =>
  codec.write contract rows >>= fun body =>
  if maxSectionBytes < body.length then .error (.sectionTooLarge body.length maxSectionBytes)
  else .ok body

end Codec

def maxCatalogBytes : ℕ := 64*1024*1024
def maxCatalogEntries : ℕ := (maxCatalogBytes-metaLen)/entryLen

def checkedCatalogEntries (current additional : ℕ) : Except SealError ℕ :=
  match checkedAdd current additional with
  | none => .error (.catalogTooLarge u64Max maxCatalogEntries)
  | some attempted =>
    if maxCatalogEntries < attempted then .error (.catalogTooLarge attempted maxCatalogEntries)
    else .ok attempted

/-- The file being written, with the catalog to come. -/
structure PgmWriter where
  out : Bytes
  entries : List Entry
  offset : ℕ
  deriving DecidableEq

def PgmWriter.start : PgmWriter := ⟨magic,[],magic.length⟩

/-- Sections follow each other in ascending order of their types. -/
def PgmWriter.writeSection (w : PgmWriter) (typeId rows : UInt32) (body : Bytes) :
    Except SealError PgmWriter :=
  if w.entries.getLast?.any fun entry => typeId ≤ entry.typeId then .error (.codec .schemaMismatch)
  else
    checkedCatalogEntries w.entries.length 1 >>= fun _ =>
    match checkedAdd w.offset body.length with
    | none => .error (.arithmeticOverflow "segment offset")
    | some next => .ok ⟨w.out ++ body,w.entries ++ [⟨typeId,0,UInt64.ofNat w.offset,
        UInt64.ofNat body.length,rows,Crc32c.crc32c body⟩],next⟩

def overflowing {α : Type} (what : String) : Option α → Except SealError α
  | none => .error (.arithmeticOverflow what)
  | some a => .ok a

def aggregateRows (typeId : UInt32) (ds : List SectionDescriptor) : Except SealError ℕ :=
  ds.foldlM (fun rows d => overflowing "section row count" (checkedAdd rows d.entry.rows.toNat)) 0
    >>= fun rows =>
  if maxSectionRows < rows then .error (.codec (.tooManyRows rows maxSectionRows))
  else if typeId = 0 then .error (.codec (.unknownType typeId))
  else .ok rows

/-- The decoded sections of one type, so far. -/
structure TypeRows (ρ : Type) where
  batches : List (RecordBatch ρ)
  rows : ℕ
  listI32ChildValues : ℕ

section Seal

variable {ρ : Type} (codec : DataCodec ρ) (registry : Registry) (dicts : DictCodec)
  (hashes : Hashes) (journal : Journal)

def decodeDescriptor (typeId : UInt32) (s : TypeRows ρ) (d : SectionDescriptor) :
    Except SealError (TypeRows ρ) :=
  readVerifiedBody journal d >>= fun body =>
  (decodeAny codec registry typeId body).mapError .codec >>= fun decoded =>
  if decoded.rows ≠ d.entry.rows.toNat then
    .error (.rowCountMismatch typeId d.entry.rows decoded.rows)
  else
    overflowing "decoded row count" (checkedAdd s.rows decoded.rows) >>= fun rows =>
    overflowing "decoded ListI32 child count"
      (checkedAdd s.listI32ChildValues decoded.listI32ChildValues) >>= fun values =>
    (sealedDataBodyBound registry typeId rows values).mapError .codec >>= fun _ =>
      .ok ⟨s.batches ++ decoded.batches,rows,values⟩

/-- All sections of one type become one. -/
def sealType (w : PgmWriter) (group : UInt32 × List SectionDescriptor) :
    Except SealError PgmWriter :=
  aggregateRows group.1 group.2 >>= fun declared =>
  group.2.foldlM (decodeDescriptor codec registry journal group.1) ⟨[],0,0⟩ >>= fun s =>
  if s.rows ≠ declared then
    .error (.rowCountMismatch group.1 (UInt32.ofNat (min declared (2^32-1))) s.rows)
  else
    (encodeSealedBatches codec registry group.1 s.batches).mapError .codec >>= fun body =>
    if 2^32 ≤ declared then .error (.arithmeticOverflow "section row count")
    else w.writeSection group.1 (UInt32.ofNat declared) body

end Seal

/-- A normalized value as an entry to encode. -/
def DictionaryValue.snapshot (strId : StrId) (value : DictionaryValue) : EntrySnapshot :=
  match value with
  | .string bytes => ⟨strId,bytes,bytes.length,false,none,.strings,.none,false⟩
  | .blob bytes fullLen truncated fullSha256 =>
    ⟨strId,bytes,fullLen,truncated,fullSha256,.blobs,.none,true⟩

/-- Rows and stored bytes of one placement. -/
def placedSize (entries : List EntrySnapshot) (placement : Placement) : Except CodecError (ℕ × ℕ) :=
  (entries.filter fun e => e.placement = placement).foldlM (fun size e =>
    (orError sectionTooLargeMax (checkedAdd size.2 e.storedBytes.length)).map fun bytes =>
      (size.1+1,bytes)) (0,0)

/-- Both placements are counted and bounded, then encoded. -/
def encodeSealedEntries (dicts : DictCodec) (entries : List EntrySnapshot) :
    Except CodecError (List DictSection) :=
  placedSize entries .strings >>= fun strings =>
  placedSize entries .blobs >>= fun blobs =>
  let truncated := (entries.filter fun e => e.placement = .blobs && e.truncated).length
  (if strings.1 = 0 then .ok 0 else sealedDictionaryBodyBound .strings strings.1 strings.2 0)
    >>= fun _ =>
  (if blobs.1 = 0 then .ok 0 else sealedDictionaryBodyBound .blobs blobs.1 blobs.2 truncated)
    >>= fun _ => encodeEntriesWithProperties dicts .segment entries

def NormalizedDictionary.snapshots (n : NormalizedDictionary) : List EntrySnapshot :=
  n.values.entries.map fun p => p.2.snapshot p.1

def NormalizedDictionary.sections (dicts : DictCodec) (n : NormalizedDictionary) :
    Except SealError (List DictSection) :=
  (encodeSealedEntries dicts n.snapshots).mapError .codec

structure SealSummary where
  sections : ℕ
  bytes : ℕ
  minTs : Int64
  maxTs : Int64
  deriving DecidableEq

/-- The groups of the plan that hold data. -/
def SegmentPlan.dataGroups (plan : SegmentPlan) : List (UInt32 × List SectionDescriptor) :=
  ((plan.byType.erase dictStringsTypeId).erase dictBlobsTypeId).entries

/-- The merged segment of a journal. -/
def writeTmp {ρ : Type} (codec : DataCodec ρ) (registry : Registry) (dicts : DictCodec)
    (hashes : Hashes) (journal : Journal) : Except SealError (Bytes × SealSummary) :=
  planSegment journal >>= fun plan =>
  normalizeDictionary dicts hashes journal ((plan.byType.lookup dictStringsTypeId).getD [])
    ((plan.byType.lookup dictBlobsTypeId).getD []) >>= fun dictionary =>
  plan.dataGroups.foldlM (sealType codec registry journal) .start >>= fun w =>
  dictionary.sections dicts >>= fun sections =>
  sections.foldlM (fun w s => w.writeSection s.typeId s.rows s.body) w >>= fun w =>
  let bytes := w.out ++
    (Catalog.mk w.entries plan.minTs plan.maxTs formatVersion plan.windowCount).encode
  .ok (bytes,⟨w.entries.length,bytes.length,plan.minTs,plan.maxTs⟩)

end PgKronika
