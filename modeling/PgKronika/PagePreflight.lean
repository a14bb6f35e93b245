import Mathlib
import PgKronika.CompactInput
import PgKronika.Tiling

/-! The pass over a Parquet body before anything decodes it: the footer's claims are admitted, and
then every column chunk is walked page by page against them. -/
namespace PgKronika

open ByteCodec CheckedArith KeptState Tiling

/-- The codec errors of the pass. -/
inductive PreflightError
  | sectionTooLarge (len max : ℕ)
  | decodedSectionTooLarge (len max : ℕ)
  | tooManyRows (rows max : ℕ)
  | tooManyRowGroups (groups max : ℕ)
  | invalidRowCount (raw : Int64)
  | invalidPageLayout
  | dictionaryEncodingUnsupported
  | unsupportedPageEncoding (encoding : Int32)
  deriving DecidableEq

structure Encoding where
  code : Int32
  deriving DecidableEq

namespace Encoding

def plain : Encoding := ⟨0⟩
def plainDictionary : Encoding := ⟨2⟩
def rle : Encoding := ⟨3⟩
def bitPacked : Encoding := ⟨4⟩
def rleDictionary : Encoding := ⟨8⟩

end Encoding

structure PageType where
  code : Int32
  deriving DecidableEq

namespace PageType

def dataPage : PageType := ⟨0⟩
def indexPage : PageType := ⟨1⟩
def dictionaryPage : PageType := ⟨2⟩
def dataPageV2 : PageType := ⟨3⟩

end PageType

structure DataPageHeader where
  numValues : Int32
  encoding : Encoding
  definitionLevelEncoding : Encoding
  repetitionLevelEncoding : Encoding

structure DataPageHeaderV2 where
  numValues : Int32
  numNulls : Int32
  numRows : Int32
  encoding : Encoding
  definitionLevelsByteLength : Int32
  repetitionLevelsByteLength : Int32

structure DictionaryPageHeader where
  numValues : Int32
  encoding : Encoding

structure PageHeader where
  type : PageType
  uncompressedPageSize : Int32
  compressedPageSize : Int32
  dataPageHeader : Option DataPageHeader
  indexPageHeader : Option Unit
  dictionaryPageHeader : Option DictionaryPageHeader
  dataPageHeaderV2 : Option DataPageHeaderV2

structure ColumnMetaData where
  numValues : Int64
  totalUncompressedSize : Int64
  totalCompressedSize : Int64
  dataPageOffset : Int64
  dictionaryPageOffset : Option Int64

/-- Of the encryption fields the pass reads only whether they are there. -/
structure ColumnChunk where
  filePath : Option String
  metaData : Option ColumnMetaData
  cryptoMetadata : Bool
  encryptedColumnMetadata : Bool

structure RowGroup where
  columns : List ColumnChunk
  numRows : Int64

structure FileMetaData where
  schemaElements : ℕ
  numRows : Int64
  rowGroups : List RowGroup
  encryptionAlgorithm : Bool
  footerSigningKeyMetadata : Bool

/-- The generated Thrift readers. They are not part of the repository. -/
structure MetadataReaders where
  fileMetaData : CompactRead FileMetaData
  pageHeader : CompactRead PageHeader

structure ParquetDecodeProfile where
  rows : ℕ
  decodedBytes : ℕ
  deriving DecidableEq

def parquetMagic : Bytes := [0x50,0x41,0x52,0x31]

def pageValueLimit : ℕ := maxSectionRows+maxListI32ValuesPerSection

def checkedRows (raw : Int64) : Except PreflightError ℕ :=
  if 0 ≤ raw.toInt then .ok raw.toInt.toNat else .error (.invalidRowCount raw)

def checkedNonnegative (raw : ℤ) : Except PreflightError ℕ :=
  if 0 ≤ raw then .ok raw.toNat else .error .invalidPageLayout

def addPageValues (total : ℕ) (raw : Int32) : Except PreflightError ℕ :=
  checkedNonnegative raw.toInt >>= fun values =>
  match (checkedAdd total values).filter (· ≤ pageValueLimit) with
  | some count => .ok count
  | none => .error .invalidPageLayout

/-- A sum of decoded bytes; only overflow is refused. -/
def checkedWork (total add max : ℕ) : Except PreflightError ℕ :=
  match checkedAdd total add with
  | some next => .ok next
  | none => .error (.decodedSectionTooLarge u64Max max)

def addWork (total add max : ℕ) : Except PreflightError ℕ := checkedWork total add max >>= fun next =>
  if max < next then .error (.decodedSectionTooLarge next max) else .ok next

def validateDataEncoding (encoding : Encoding) (allowDictionary : Bool) : Except PreflightError Unit :=
  if encoding = .plain ∨ encoding = .rle ∨
      allowDictionary ∧ (encoding = .plainDictionary ∨ encoding = .rleDictionary) then .ok ()
  else .error (.unsupportedPageEncoding encoding.code)

def validateLevelEncoding (encoding : Encoding) : Except PreflightError Unit :=
  if encoding = .rle ∨ encoding = .bitPacked then .ok ()
  else .error (.unsupportedPageEncoding encoding.code)

section Footer

variable (readers : MetadataReaders) (maxDecodedBytes : ℕ) (allowDictionary : Bool)

def parseFooter (body : Bytes) : Except PreflightError (FileMetaData × ℕ) :=
  if body.length < 12 ∨ body.take 4 ≠ parquetMagic ∨ body.drop (body.length-4) ≠ parquetMagic then
    .error .invalidPageLayout
  else
    let footerLen := (u32At body (body.length-8)).toNat
    let metadataEnd := body.length-8
    match (checkedSub metadataEnd footerLen).filter (parquetMagic.length ≤ ·) with
    | none => .error .invalidPageLayout
    | some metadataStart =>
      match readers.fileMetaData (.new (slice body metadataStart (metadataEnd-metadataStart))) with
      | (.error _,_) => .error .invalidPageLayout
      | (.ok metadata,s) =>
        if s.remainingLen ≠ 0 ∨ s.nesting ≠ 0 then .error .invalidPageLayout
        else .ok (metadata,metadataStart)

/-- The bytes a column chunk declares as its own, where its data pages start, and what its pages
have to add up to. -/
structure ColumnRange where
  start : ℕ
  stop : ℕ
  dataStart : ℕ
  declared : ℕ
  values : ℕ
  hasDictionary : Bool

structure FooterTotals where
  groupedRows : ℕ
  footerWork : ℕ
  ranges : List ColumnRange

def columnStart (dictionaryPageOffset : Option Int64) (dataStart : ℕ) : Except PreflightError ℕ :=
  match dictionaryPageOffset with
  | none => .ok dataStart
  | some raw => checkedNonnegative raw.toInt >>= fun dictionaryStart =>
    if dataStart < dictionaryStart then .error .invalidPageLayout else .ok dictionaryStart

/-- A chunk without bytes has nothing to walk. -/
def columnRange (metadataStart start compressed dataStart declared values : ℕ)
    (hasDictionary : Bool) : Except PreflightError (Option ColumnRange) :=
  if compressed = 0 then
    if declared ≠ 0 ∨ values ≠ 0 ∨ hasDictionary ∨ start ≠ dataStart ∨
        start < parquetMagic.length ∨ metadataStart < start then .error .invalidPageLayout
    else .ok none
  else match (checkedAdd start compressed).filter fun stop => parquetMagic.length ≤ start ∧
      start ≤ dataStart ∧ dataStart ≤ stop ∧ stop ≤ metadataStart with
    | some stop => .ok (some ⟨start,stop,dataStart,declared,values,hasDictionary⟩)
    | none => .error .invalidPageLayout

def admitColumn (metadataStart : ℕ) (t : FooterTotals) (column : ColumnMetaData) :
    Except PreflightError FooterTotals :=
  checkedNonnegative column.totalUncompressedSize.toInt >>= fun declared =>
  addWork t.footerWork declared maxDecodedBytes >>= fun footerWork =>
  checkedNonnegative column.numValues.toInt >>= fun values =>
  if pageValueLimit < values then .error .invalidPageLayout
  else checkedNonnegative column.totalCompressedSize.toInt >>= fun compressed =>
    checkedNonnegative column.dataPageOffset.toInt >>= fun dataStart =>
    if column.dictionaryPageOffset.isSome ∧ ¬allowDictionary then
      .error .dictionaryEncodingUnsupported
    else columnStart column.dictionaryPageOffset dataStart >>= fun start =>
      columnRange metadataStart start compressed dataStart declared values
        column.dictionaryPageOffset.isSome >>= fun range =>
      .ok { t with footerWork := footerWork, ranges := t.ranges ++ range.toList }

def admitChunk (metadataStart : ℕ) (t : FooterTotals) (chunk : ColumnChunk) :
    Except PreflightError FooterTotals :=
  if chunk.filePath.isSome ∨ chunk.cryptoMetadata ∨ chunk.encryptedColumnMetadata then
    .error .invalidPageLayout
  else match chunk.metaData with
  | none => .error .invalidPageLayout
  | some column => admitColumn maxDecodedBytes allowDictionary metadataStart t column

def addGroupRows (groupedRows groupRows : ℕ) : Except PreflightError ℕ :=
  match checkedAdd groupedRows groupRows with
  | some rows => .ok rows
  | none => .error .invalidPageLayout

def admitGroup (metadataStart : ℕ) (t : FooterTotals) (group : RowGroup) :
    Except PreflightError FooterTotals :=
  checkedRows group.numRows >>= fun groupRows =>
  if maxSectionRows < groupRows then .error (.tooManyRows groupRows maxSectionRows)
  else addGroupRows t.groupedRows groupRows >>= fun groupedRows =>
    if group.columns = [] then .error .invalidPageLayout
    else group.columns.foldlM (admitChunk maxDecodedBytes allowDictionary metadataStart)
      { t with groupedRows := groupedRows }

end Footer

/-- What the pass counts over all columns, and where it has read a page header so far. -/
structure PageWalk where
  pageWork : ℕ
  pageCount : ℕ
  reads : List ℕ
  deriving DecidableEq

def PageWalk.start : PageWalk := ⟨0,0,[]⟩

/-- The walk of one column. -/
structure ColumnWalk where
  offset : ℕ
  columnWork : ℕ
  dataValues : ℕ
  sawDictionary : Bool
  sawData : Bool

def ColumnRange.begin (column : ColumnRange) : ColumnWalk := ⟨column.start,0,0,false,false⟩

/-- A page header with the number of bytes it took. -/
structure MeasuredHeader where
  header : PageHeader
  len : ℕ
  len_ne_zero : len ≠ 0

def countPage (offset : ℕ) : Request PageWalk PreflightError Unit := fun w =>
  match (checkedAdd w.pageCount 1).filter (· ≤ maxSectionRows) with
  | some count => (.ok (),{ w with pageCount := count, reads := w.reads ++ [offset] })
  | none => (.error .invalidPageLayout,w)

def addPageWork (decoded max : ℕ) : Request PageWalk PreflightError Unit := fun w =>
  match addWork w.pageWork decoded max with
  | .ok work => (.ok (),{ w with pageWork := work })
  | .error e => (.error e,w)

def readPageHeader (reader : CompactRead PageHeader) (bytes : Bytes) :
    Except PreflightError MeasuredHeader :=
  match reader (.new bytes) with
  | (.error _,_) => .error .invalidPageLayout
  | (.ok header,s) => match checkedSub bytes.length s.remainingLen with
    | none => .error .invalidPageLayout
    | some len => if h : len ≠ 0 ∧ s.nesting = 0 then .ok ⟨header,len,h.1⟩
      else .error .invalidPageLayout

/-- Where a page of this type may stand. The answer is whether a data page has been seen. -/
def placePage (column : ColumnRange) (c : ColumnWalk) (type : PageType) :
    Except PreflightError Bool :=
  if type = .dictionaryPage then
    if column.hasDictionary ∧ ¬c.sawDictionary ∧ c.offset = column.start then .ok c.sawData
    else .error .invalidPageLayout
  else if type = .dataPage ∨ type = .dataPageV2 then
    if ¬c.sawData ∧ c.offset ≠ column.dataStart then .error .invalidPageLayout else .ok true
  else if c.offset < column.dataStart then .error .invalidPageLayout
  else .ok c.sawData

def validateDataPage (header : PageHeader) (allowDictionary : Bool) (dataValues : ℕ) :
    Except PreflightError ℕ :=
  match header.dataPageHeader.filter fun _ => header.dataPageHeaderV2.isNone ∧
      header.dictionaryPageHeader.isNone ∧ header.indexPageHeader.isNone with
  | none => .error .invalidPageLayout
  | some page =>
    validateDataEncoding page.encoding allowDictionary >>= fun _ =>
    validateLevelEncoding page.definitionLevelEncoding >>= fun _ =>
    validateLevelEncoding page.repetitionLevelEncoding >>= fun _ =>
    addPageValues dataValues page.numValues

def validateDataPageV2 (header : PageHeader) (uncompressed compressed : ℕ) (allowDictionary : Bool)
    (dataValues : ℕ) : Except PreflightError ℕ :=
  match header.dataPageHeaderV2.filter fun _ => header.dataPageHeader.isNone ∧
      header.dictionaryPageHeader.isNone ∧ header.indexPageHeader.isNone with
  | none => .error .invalidPageLayout
  | some page =>
    validateDataEncoding page.encoding allowDictionary >>= fun _ =>
    checkedNonnegative page.numValues.toInt >>= fun values =>
    checkedNonnegative page.numNulls.toInt >>= fun nulls =>
    checkedNonnegative page.numRows.toInt >>= fun rows =>
    checkedNonnegative page.definitionLevelsByteLength.toInt >>= fun definition =>
    checkedNonnegative page.repetitionLevelsByteLength.toInt >>= fun repetition =>
    if values < nulls ∨ maxSectionRows < rows then .error .invalidPageLayout
    else match (checkedAdd definition repetition).filter
        fun len => len ≤ uncompressed ∧ len ≤ compressed with
      | none => .error .invalidPageLayout
      | some _ => addPageValues dataValues page.numValues

def validateDictionaryPage (header : PageHeader) (sawDictionary : Bool) :
    Except PreflightError Unit :=
  match header.dictionaryPageHeader.filter fun _ => header.dataPageHeader.isNone ∧
      header.dataPageHeaderV2.isNone ∧ header.indexPageHeader.isNone with
  | none => .error .invalidPageLayout
  | some page =>
    if page.encoding ≠ .plain ∧ page.encoding ≠ .plainDictionary then
      .error (.unsupportedPageEncoding page.encoding.code)
    else checkedNonnegative page.numValues.toInt >>= fun values =>
      if sawDictionary ∨ pageValueLimit < values then .error .invalidPageLayout else .ok ()

/-- The column's data values and whether its dictionary has been seen, behind the page. -/
def validatePageHeader (header : PageHeader) (uncompressed compressed dataValues : ℕ)
    (sawDictionary allowDictionary : Bool) : Except PreflightError (ℕ × Bool) :=
  if header.type = .dataPage then
    (validateDataPage header allowDictionary dataValues).map fun values => (values,sawDictionary)
  else if header.type = .dataPageV2 then
    (validateDataPageV2 header uncompressed compressed allowDictionary dataValues).map
      fun values => (values,sawDictionary)
  else if header.type = .dictionaryPage then
    (validateDictionaryPage header sawDictionary).map fun _ => (dataValues,true)
  else if header.type = .indexPage then
    if header.indexPageHeader.isNone ∨ header.dataPageHeader.isSome ∨
        header.dataPageHeaderV2.isSome ∨ header.dictionaryPageHeader.isSome then
      .error .invalidPageLayout
    else .ok (dataValues,sawDictionary)
  else .error .invalidPageLayout

/-- The walk behind a page stands further on, and not behind the column. -/
abbrev ColumnWalk.Next (c : ColumnWalk) (stop : ℕ) :=
  { next : ColumnWalk // c.offset < next.offset ∧ next.offset ≤ stop }

/-- The position behind a page, when the page ends within the column. -/
def advancePage (offset : ℕ) (h : MeasuredHeader) (compressed stop : ℕ) :
    Except PreflightError { next : ℕ // offset < next ∧ next ≤ stop } :=
  match hnext : (checkedAdd offset h.len).bind fun offset => checkedAdd offset compressed with
  | none => .error .invalidPageLayout
  | some next =>
    if hstop : next ≤ stop then .ok ⟨next,by
      obtain ⟨behind,hbehind,hsum⟩ := Option.bind_eq_some_iff.mp hnext
      have hlen := h.len_ne_zero
      have h1 := (checkedAdd_eq_some.mp hbehind).1
      have h2 := (checkedAdd_eq_some.mp hsum).1
      exact ⟨by omega,hstop⟩⟩
    else .error .invalidPageLayout

section Pages

variable (reader : CompactRead PageHeader) (body : Bytes) (maxDecodedBytes : ℕ)
  (allowDictionary : Bool)

/-- One round of the page loop. -/
def walkPage (column : ColumnRange) (c : ColumnWalk) :
    Request PageWalk PreflightError (c.Next column.stop) :=
  countPage c.offset >>= fun _ =>
  lift (readPageHeader reader (slice body c.offset (column.stop-c.offset))) >>= fun measured =>
  lift (checkedNonnegative measured.header.compressedPageSize.toInt) >>= fun compressed =>
  lift (checkedNonnegative measured.header.uncompressedPageSize.toInt) >>= fun uncompressed =>
  lift (placePage column c measured.header.type) >>= fun sawData =>
  lift (checkedWork measured.len uncompressed maxDecodedBytes) >>= fun decoded =>
  lift (checkedWork c.columnWork decoded maxDecodedBytes) >>= fun columnWork =>
  addPageWork decoded maxDecodedBytes >>= fun _ =>
  lift (validatePageHeader measured.header uncompressed compressed c.dataValues c.sawDictionary
    allowDictionary) >>= fun seen =>
  lift (advancePage c.offset measured compressed column.stop) >>= fun next =>
  pure ⟨⟨next.1,columnWork,seen.1,seen.2,sawData⟩,next.2⟩

/-- The page loop. It ends because each page stands further on than the one before. -/
def walkPages (column : ColumnRange) (c : ColumnWalk) :
    Request PageWalk PreflightError ColumnWalk :=
  if c.offset < column.stop then
    walkPage reader body maxDecodedBytes allowDictionary column c >>= fun next =>
    walkPages column next.1
  else pure c
termination_by column.stop-c.offset
decreasing_by
  have := next.2
  omega

def checkColumn (column : ColumnRange) (c : ColumnWalk) : Except PreflightError Unit :=
  if c.offset ≠ column.stop ∨ c.columnWork ≠ column.declared ∨ c.dataValues ≠ column.values ∨
      c.sawDictionary ≠ column.hasDictionary ∨ column.values ≠ 0 ∧ ¬c.sawData then
    .error .invalidPageLayout
  else .ok ()

def walkColumn (column : ColumnRange) : Request PageWalk PreflightError Unit :=
  walkPages reader body maxDecodedBytes allowDictionary column column.begin >>= fun c =>
  lift (checkColumn column c)

def walkColumns (ranges : List ColumnRange) : Request PageWalk PreflightError Unit :=
  ranges.foldlM (fun _ column => walkColumn reader body maxDecodedBytes allowDictionary column) ()

def checkPageWork (footerWork : ℕ) : Request PageWalk PreflightError ℕ := fun w =>
  if w.pageWork ≠ footerWork then (.error .invalidPageLayout,w) else (.ok w.pageWork,w)

/-- Sorted ranges of which one runs into the next. -/
def rangesOverlap (ranges : List ColumnRange) : Bool :=
  (ranges.zip ranges.tail).any fun pair => pair.2.start < pair.1.stop

/-- The order among ranges of one start is left open by the source's sort; such ranges overlap. -/
def sortRanges (ranges : List ColumnRange) : List ColumnRange :=
  ranges.insertionSort fun a b => a.start ≤ b.start

def admitFooter (metadata : FileMetaData) (metadataStart : ℕ) :
    Except PreflightError (ℕ × FooterTotals) :=
  checkedRows metadata.numRows >>= fun rows =>
  if maxSectionRows < rows then .error (.tooManyRows rows maxSectionRows)
  else if maxRowGroups < metadata.rowGroups.length then
    .error (.tooManyRowGroups metadata.rowGroups.length maxRowGroups)
  else if metadata.schemaElements = 0 ∨ metadata.encryptionAlgorithm ∨
      metadata.footerSigningKeyMetadata then .error .invalidPageLayout
  else metadata.rowGroups.foldlM (admitGroup maxDecodedBytes allowDictionary metadataStart)
      ⟨0,0,[]⟩ >>= fun totals =>
    if totals.groupedRows ≠ rows then .error .invalidPageLayout
    else if rangesOverlap (sortRanges totals.ranges) then .error .invalidPageLayout
    else .ok (rows,totals)

def validateFileMetadata (metadata : FileMetaData) (metadataStart : ℕ) :
    Request PageWalk PreflightError ParquetDecodeProfile :=
  lift (admitFooter maxDecodedBytes allowDictionary metadata metadataStart) >>= fun footer =>
  walkColumns reader body maxDecodedBytes allowDictionary (sortRanges footer.2.ranges) >>= fun _ =>
  checkPageWork footer.2.footerWork >>= fun pageWork =>
  pure ⟨footer.1,pageWork⟩

end Pages

section Preflight

variable (readers : MetadataReaders) (body : Bytes) (maxDecodedBytes : ℕ)

def admitBody (readers : MetadataReaders) (body : Bytes) (maxDecodedBytes : ℕ) :
    Except PreflightError (FileMetaData × ℕ) :=
  if maxSectionBytes < body.length then .error (.sectionTooLarge body.length maxSectionBytes)
  else if maxDecodedSectionBytes < maxDecodedBytes then
    .error (.decodedSectionTooLarge maxDecodedBytes maxDecodedSectionBytes)
  else parseFooter readers body

def validateParquetDecodeProfile (allowDictionary : Bool) :
    Request PageWalk PreflightError ParquetDecodeProfile :=
  lift (admitBody readers body maxDecodedBytes) >>= fun footer =>
  validateFileMetadata readers.pageHeader body maxDecodedBytes allowDictionary footer.1 footer.2

def parquetDecodeProfile : Except PreflightError ParquetDecodeProfile :=
  (validateParquetDecodeProfile readers body maxDecodedBytes true .start).1

def plainParquetDecodeProfile : Except PreflightError ParquetDecodeProfile :=
  (validateParquetDecodeProfile readers body maxDecodedBytes false .start).1

def validateParquetDecodeWork : Except PreflightError Unit :=
  (parquetDecodeProfile readers body maxDecodedBytes).map fun _ => ()

def validatePlainParquetDecodeWork : Except PreflightError Unit :=
  (plainParquetDecodeProfile readers body maxDecodedBytes).map fun _ => ()

end Preflight

end PgKronika
