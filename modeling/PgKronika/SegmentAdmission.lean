import PgKronika.Catalog
import PgKronika.Interner
import PgKronika.SegmentPlan

/-! What an open segment has accumulated against the limits of one sealed file, and the check
that a window still fits before it is appended. -/
namespace PgKronika

open ByteCodec CheckedArith

/-- Encoded rows of one section of a flushed part. -/
structure SectionFlushSummary where
  typeId : UInt32
  rows : UInt32
  bodyBytes : ℕ
  listI32ChildValueCount : ℕ
  deriving DecidableEq

structure FlushSummary where
  sections : List SectionFlushSummary
  partBytes : ℕ
  deriving DecidableEq

/-- A part ready for the journal, with its accounting. -/
structure FlushedPart where
  body : Bytes
  summary : FlushSummary
  deriving DecidableEq

inductive AdmissionDictionaryValue
  | string (bytes : Bytes)
  | blob (bytes : Bytes) (fullLen : ℕ) (truncated : Bool) (fullSha256 : Option Bytes)
  deriving DecidableEq

namespace AdmissionDictionaryValue

def fromSnapshot (entry : EntrySnapshot) : AdmissionDictionaryValue :=
  match entry.placement with
  | .strings => .string entry.storedBytes
  | .blobs => .blob entry.storedBytes entry.fullLen entry.truncated entry.fullSha256

def matchesSnapshot (entry : EntrySnapshot) : AdmissionDictionaryValue → Bool
  | .string bytes => entry.placement = .strings && bytes == entry.storedBytes
  | .blob bytes fullLen truncated fullSha256 =>
    entry.placement = .blobs && bytes == entry.storedBytes && fullLen == entry.fullLen &&
      truncated == entry.truncated && fullSha256 == entry.fullSha256

def placement : AdmissionDictionaryValue → Placement
  | .string _ => .strings
  | .blob .. => .blobs

def storedLen : AdmissionDictionaryValue → ℕ
  | .string bytes => bytes.length
  | .blob bytes .. => bytes.length

def truncated : AdmissionDictionaryValue → Bool
  | .string _ => false
  | .blob _ _ truncated _ => truncated

/-- A recorded value matches the snapshot it was recorded from. -/
theorem matchesSnapshot_self (entry : EntrySnapshot) :
    (fromSnapshot entry).matchesSnapshot entry = true := by
  rw [fromSnapshot]
  cases h : entry.placement <;> simp [matchesSnapshot,h]

end AdmissionDictionaryValue

inductive AdmissionError
  | capacity (resource : String) (projected max : ℕ)
  | dictionaryConflict (strId : UInt64)
  | dictionaryPlacementConflict (strId : UInt64)
  | arithmeticOverflow (resource : String)
  | codec (error : CodecError)
  deriving DecidableEq

/-- Whether a fresh segment could take what this one refuses. -/
def AdmissionError.isCapacity : AdmissionError → Bool
  | .capacity .. => true
  | .codec (.tooManyRows ..) => true
  | .codec (.tooManyListValues ..) => true
  | .codec (.plainPageTooLarge ..) => true
  | .codec (.sectionTooLarge ..) => true
  | _ => false

structure DataAdmission where
  rows : ℕ
  listI32ChildValues : ℕ
  deriving DecidableEq

def DataAdmission.default : DataAdmission := ⟨0,0⟩

/-- Dictionary rows and bytes, in total or of one window. -/
structure DictAdmission where
  stringRows : ℕ
  stringStoredBytes : ℕ
  blobRows : ℕ
  blobStoredBytes : ℕ
  truncatedBlobRows : ℕ
  deriving DecidableEq

def DictAdmission.default : DictAdmission := ⟨0,0,0,0,0⟩

structure AdmissionDelta where
  dataByType : OrderedMap UInt32 DataAdmission
  dictionary : List (StrId × AdmissionDictionaryValue)
  descriptors : ℕ
  counts : DictAdmission
  deriving DecidableEq

structure SegmentAdmission where
  dataByType : OrderedMap UInt32 DataAdmission
  dictionary : OrderedMap StrId AdmissionDictionaryValue
  descriptors : ℕ
  counts : DictAdmission
  deriving DecidableEq

def SegmentAdmission.default : SegmentAdmission := ⟨.empty,.empty,0,.default⟩

def checkedAdmission (resource : String) : Option ℕ → Except AdmissionError ℕ
  | none => .error (.arithmeticOverflow resource)
  | some n => .ok n

/-- Rows and list values of one section more. -/
def DataAdmission.grow (data : DataAdmission) (rows listValues : ℕ) :
    Except AdmissionError DataAdmission :=
  checkedAdmission "data rows" (checkedAdd data.rows rows) >>= fun rows =>
  checkedAdmission "ListI32 child values" (checkedAdd data.listI32ChildValues listValues) >>=
    fun listValues => .ok ⟨rows,listValues⟩

/-- The incoming data rows by type; the dictionary sections are assessed by their entries. -/
def incomingData : List SectionFlushSummary → OrderedMap UInt32 DataAdmission →
    Except AdmissionError (OrderedMap UInt32 DataAdmission)
  | [], found => .ok found
  | section_::sections, found =>
    if section_.typeId = dictStringsTypeId ∨ section_.typeId = dictBlobsTypeId then
      incomingData sections found
    else
      ((found.lookup section_.typeId).getD .default).grow section_.rows.toNat
          section_.listI32ChildValueCount >>= fun data =>
        incomingData sections (found.insert section_.typeId data)

/-- Every type with its incoming rows stays inside one sealed section. -/
def boundData (registry : Registry) (current : OrderedMap UInt32 DataAdmission) :
    List (UInt32 × DataAdmission) → Except AdmissionError Unit
  | [] => .ok ()
  | (typeId,incoming)::rest =>
    ((current.lookup typeId).getD .default).grow incoming.rows incoming.listI32ChildValues >>=
      fun data =>
    (sealedDataBodyBound registry typeId data.rows data.listI32ChildValues).mapError .codec >>=
      fun _ => boundData registry current rest

/-- One new value counted. -/
def DictAdmission.grow (counts : DictAdmission) (value : AdmissionDictionaryValue) :
    Except AdmissionError DictAdmission :=
  match value.placement with
  | .strings =>
    checkedAdmission "dictionary rows" (checkedAdd counts.stringRows 1) >>= fun rows =>
    checkedAdmission "dictionary bytes" (checkedAdd counts.stringStoredBytes value.storedLen) >>=
      fun bytes => .ok { counts with stringRows := rows, stringStoredBytes := bytes }
  | .blobs =>
    checkedAdmission "dictionary rows" (checkedAdd counts.blobRows 1) >>= fun rows =>
    checkedAdmission "dictionary bytes" (checkedAdd counts.blobStoredBytes value.storedLen) >>=
      fun bytes =>
    (if value.truncated then
      checkedAdmission "truncated dictionary rows" (checkedAdd counts.truncatedBlobRows 1)
    else .ok counts.truncatedBlobRows) >>= fun truncated =>
      .ok { counts with
        blobRows := rows
        blobStoredBytes := bytes
        truncatedBlobRows := truncated }

def DictAdmission.bound (counts : DictAdmission) : Placement → Except CodecError ℕ
  | .strings => sealedDictionaryBodyBound .strings counts.stringRows counts.stringStoredBytes 0
  | .blobs => sealedDictionaryBodyBound .blobs counts.blobRows counts.blobStoredBytes
      counts.truncatedBlobRows

/-- New dictionary values are counted and bounded; a value that the segment holds already must
be the same. `totals` runs over the segment with the window. -/
def assessDictionary (known : OrderedMap StrId AdmissionDictionaryValue) :
    List EntrySnapshot → DictAdmission → AdmissionDelta → Except AdmissionError AdmissionDelta
  | [], _, delta => .ok delta
  | entry::entries, totals, delta =>
    match known.lookup entry.strId with
    | some existing =>
      if existing.placement ≠ entry.placement then
        .error (.dictionaryPlacementConflict entry.strId.get)
      else if existing.matchesSnapshot entry then assessDictionary known entries totals delta
      else .error (.dictionaryConflict entry.strId.get)
    | none =>
      let value := AdmissionDictionaryValue.fromSnapshot entry
      totals.grow value >>= fun totals =>
      delta.counts.grow value >>= fun counts =>
      (totals.bound value.placement).mapError .codec >>= fun _ =>
        assessDictionary known entries totals { delta with
          counts
          dictionary := delta.dictionary ++ [(entry.strId,value)] }

/-- What a window adds to the segment, or why the sealed file could not hold it. -/
def SegmentAdmission.assess (registry : Registry) (admission : SegmentAdmission)
    (summary : FlushSummary) (entries : List EntrySnapshot) :
    Except AdmissionError AdmissionDelta :=
  checkedAdmission "section descriptors"
      (checkedAdd admission.descriptors summary.sections.length) >>= fun descriptors =>
  if maxSectionRows < descriptors then
    .error (.capacity "section descriptors" descriptors maxSectionRows)
  else
    incomingData summary.sections .empty >>= fun dataByType =>
    boundData registry admission.dataByType dataByType.entries >>= fun _ =>
    assessDictionary admission.dictionary entries admission.counts
      ⟨dataByType,[],summary.sections.length,.default⟩

def DataAdmission.add (a b : DataAdmission) : DataAdmission :=
  ⟨saturatingAdd a.rows b.rows,saturatingAdd a.listI32ChildValues b.listI32ChildValues⟩

def DictAdmission.add (a b : DictAdmission) : DictAdmission where
  stringRows := saturatingAdd a.stringRows b.stringRows
  stringStoredBytes := saturatingAdd a.stringStoredBytes b.stringStoredBytes
  blobRows := saturatingAdd a.blobRows b.blobRows
  blobStoredBytes := saturatingAdd a.blobStoredBytes b.blobStoredBytes
  truncatedBlobRows := saturatingAdd a.truncatedBlobRows b.truncatedBlobRows

def SegmentAdmission.commit (admission : SegmentAdmission) (delta : AdmissionDelta) :
    SegmentAdmission where
  dataByType := delta.dataByType.entries.foldl (fun found p =>
    found.insert p.1 (((found.lookup p.1).getD .default).add p.2)) admission.dataByType
  dictionary := delta.dictionary.foldl (fun found p => found.insert p.1 p.2) admission.dictionary
  descriptors := saturatingAdd admission.descriptors delta.descriptors
  counts := admission.counts.add delta.counts

end PgKronika
