import PgKronika.CheckedArith
import PgKronika.Dictionary

/-! Caps of one section, and the bounds that prove in advance that rows of a type or
entries of a dictionary fit one sealed body. -/
namespace PgKronika

open ByteCodec CheckedArith

def maxSectionRows : ℕ := 65536
def maxSectionBytes : ℕ := 8*1024*1024
def maxDecodedSectionBytes : ℕ := 128*1024*1024
def maxRowGroups : ℕ := 16
def maxListI32ValuesPerSection : ℕ := maxSectionRows*4
def sealedDataPageBytes : ℕ := 1024*1024
def sealedPageFramingBound : ℕ := 4*1024
def sealedFileFramingBound : ℕ := 64*1024

inductive CodecError
  | library (message : String)
  | tooManyRows (rows max : ℕ)
  | invalidRowCount (raw : ℤ)
  | sectionTooLarge (len max : ℕ)
  | plainPageTooLarge (name : String) (len max : ℕ)
  | decodedSectionTooLarge (len max : ℕ)
  | tooManyRowGroups (groups max : ℕ)
  | missingColumn (name : String)
  | columnType (name : String)
  | tooManyListValues (name : String) (values max : ℕ)
  | unknownType (typeId : UInt32)
  | schemaMismatch
  | sectionCrcMismatch (expected got : UInt32)
  | inSection (typeId : UInt32) (bytesIn : ℕ) (source : CodecError)
  deriving DecidableEq

inductive ColumnType
  | i8 | i16 | i32 | i64 | u8 | u16 | u32 | u64 | f32 | f64 | bool | ts | strId | listI32
  deriving DecidableEq

structure Column where
  name : String
  ty : ColumnType
  nullable : Bool
  deriving DecidableEq

/-- What sealing uses of the contract of one type. -/
structure TypeContract where
  typeId : UInt32
  columns : List Column
  sortKey : List String
  deriving DecidableEq

abbrev Registry := List TypeContract

def Registry.contract (registry : Registry) (typeId : UInt32) : Except CodecError TypeContract :=
  match registry.find? fun contract => contract.typeId == typeId with
  | none => .error (.unknownType typeId)
  | some contract => .ok contract

def checkRowCap (rows : ℕ) : Except CodecError Unit :=
  if maxSectionRows < rows then .error (.tooManyRows rows maxSectionRows) else .ok ()

/-- Bytes of one physical column before compression. -/
structure SealedPlainColumnSize where
  name : String
  valueBytes : ℕ
  levelBytes : ℕ
  deriving DecidableEq

def zstdCompressBound (srcSize : ℕ) : Option ℕ :=
  let smallInputMargin := if srcSize < 128*1024 then (128*1024-srcSize)/2^11 else 0
  (checkedAdd srcSize (srcSize/2^8)).bind fun bytes => checkedAdd bytes smallInputMargin

def sectionTooLargeMax : CodecError := .sectionTooLarge u64Max maxSectionBytes

def pageTooLarge (name : String) : CodecError :=
  .plainPageTooLarge name u64Max (sealedDataPageBytes-1)

/-- The running body bound over the columns. -/
def sealedPlainColumns (body : ℕ) : List SealedPlainColumnSize → Except CodecError ℕ
  | [] => .ok body
  | column::columns =>
    if sealedDataPageBytes ≤ column.valueBytes then
      .error (.plainPageTooLarge column.name column.valueBytes (sealedDataPageBytes-1))
    else
      match (checkedAdd column.valueBytes column.levelBytes).bind zstdCompressBound with
      | none => .error sectionTooLargeMax
      | some compressed =>
        match (checkedAdd body compressed).bind fun bytes =>
            checkedAdd bytes sealedPageFramingBound with
        | none => .error sectionTooLargeMax
        | some body => sealedPlainColumns body columns

def sealedPlainBodyBound (columns : List SealedPlainColumnSize) : Except CodecError ℕ :=
  match sealedPlainColumns sealedFileFramingBound columns with
  | .error e => .error e
  | .ok body =>
    if maxSectionBytes < body then .error (.sectionTooLarge body maxSectionBytes) else .ok body

def ColumnType.plainWidth : ColumnType → ℕ
  | .i8 | .i16 | .i32 | .u8 | .u16 | .u32 | .f32 => 4
  | .i64 | .u64 | .f64 | .ts | .strId => 8
  | .bool => 1
  | .listI32 => 0

/-- Value and level bytes of a column of `rows` rows. -/
def plainColumnSize (rows listValues : ℕ) (column : Column) :
    Except CodecError SealedPlainColumnSize :=
  if column.ty = .listI32 then
    match checkedMul listValues 4 with
    | none => .error (pageTooLarge column.name)
    | some values =>
      match ((checkedAdd rows listValues).bind fun count => checkedMul count 4).bind fun bytes =>
          checkedAdd bytes 16 with
      | none => .error sectionTooLargeMax
      | some levels => .ok ⟨column.name,values,levels⟩
  else
    match checkedMul rows column.ty.plainWidth with
    | none => .error (pageTooLarge column.name)
    | some values =>
      if column.nullable then
        match (checkedMul rows 2).bind fun bytes => checkedAdd bytes 8 with
        | none => .error sectionTooLargeMax
        | some levels => .ok ⟨column.name,values,levels⟩
      else .ok ⟨column.name,values,0⟩

/-- The bound of one sealed section of a registered type. -/
def sealedDataBodyBound (registry : Registry) (typeId : UInt32) (rows listValues : ℕ) :
    Except CodecError ℕ :=
  checkRowCap rows >>= fun _ =>
  registry.contract typeId >>= fun contract =>
  let list := contract.columns.find? fun column => column.ty == .listI32
  if maxListI32ValuesPerSection < listValues then
    .error (.tooManyListValues ((list.map Column.name).getD "ListI32") listValues
      maxListI32ValuesPerSection)
  else if listValues != 0 && list.isNone then .error .schemaMismatch
  else contract.columns.mapM (plainColumnSize rows listValues) >>= sealedPlainBodyBound

def orError {α : Type} (e : CodecError) : Option α → Except CodecError α
  | none => .error e
  | some a => .ok a

/-- The bound of one sealed dictionary body. -/
def sealedDictionaryBodyBound (placement : Placement) (rows storedBytes truncatedRows : ℕ) :
    Except CodecError ℕ :=
  checkRowCap rows >>= fun _ =>
  if rows < truncatedRows || (placement = .strings && truncatedRows != 0) then
    .error .schemaMismatch
  else
    orError (pageTooLarge "str_id") (checkedMul rows 8) >>= fun ids =>
    orError (pageTooLarge "stored_bytes")
      ((checkedMul rows 4).bind fun offsets => checkedAdd offsets storedBytes) >>= fun binary =>
    match placement with
    | .strings => sealedPlainBodyBound [⟨"str_id",ids,0⟩,⟨"bytes",binary,0⟩]
    | .blobs =>
      orError (pageTooLarge "full_len") (checkedMul rows 8) >>= fun fullLen =>
      orError (pageTooLarge "full_sha256") (checkedMul truncatedRows 32) >>= fun sha =>
      orError sectionTooLargeMax ((checkedMul rows 2).bind fun bytes => checkedAdd bytes 8) >>=
        fun shaLevels => sealedPlainBodyBound [⟨"str_id",ids,0⟩,⟨"stored_bytes",binary,0⟩,
          ⟨"full_len",fullLen,0⟩,⟨"truncated",rows,0⟩,⟨"full_sha256",sha,shaLevels⟩]

theorem checkRowCap_ok {rows : ℕ} (h : checkRowCap rows = .ok ()) : rows ≤ maxSectionRows := by
  unfold checkRowCap at h
  split_ifs at h with hr
  exact not_lt.mp hr

theorem sealedPlainBodyBound_ok {columns : List SealedPlainColumnSize} {bound : ℕ}
    (h : sealedPlainBodyBound columns = .ok bound) :
    bound ≤ maxSectionBytes ∧ ∀ c ∈ columns, c.valueBytes < sealedDataPageBytes := by
  have hcolumns : ∀ (body stop : ℕ) (cs : List SealedPlainColumnSize),
      sealedPlainColumns body cs = .ok stop → ∀ c ∈ cs, c.valueBytes < sealedDataPageBytes := by
    intro body stop cs hcs
    induction cs generalizing body with
    | nil => simp
    | cons c cs ih =>
      rw [sealedPlainColumns] at hcs
      split_ifs at hcs with hpage
      split at hcs
      · cases hcs
      · split at hcs
        · cases hcs
        · intro d hd
          rcases List.mem_cons.mp hd with rfl | hd
          · exact not_le.mp hpage
          · exact ih _ hcs d hd
  unfold sealedPlainBodyBound at h
  split at h
  · cases h
  · rename_i body hbody
    split_ifs at h with hmax
    cases h
    exact ⟨not_lt.mp hmax,hcolumns _ _ _ hbody⟩

/-- What an accepted data bound says. -/
theorem sealedDataBodyBound_ok {registry : Registry} {typeId : UInt32} {rows listValues bound : ℕ}
    (h : sealedDataBodyBound registry typeId rows listValues = .ok bound) :
    rows ≤ maxSectionRows ∧ listValues ≤ maxListI32ValuesPerSection ∧
      bound ≤ maxSectionBytes := by
  unfold sealedDataBodyBound at h
  obtain ⟨_,hrows,h⟩ := bind_ok h
  obtain ⟨contract,_,h⟩ := bind_ok h
  dsimp only at h
  split_ifs at h with hlist hnone
  obtain ⟨columns,_,h⟩ := bind_ok h
  exact ⟨checkRowCap_ok hrows,not_lt.mp hlist,(sealedPlainBodyBound_ok h).1⟩

theorem orError_ok {α : Type} {e : CodecError} {o : Option α} {a : α} (h : orError e o = .ok a) :
    o = some a := by
  cases o with
  | none => cases h
  | some b => cases h; rfl

/-- What an accepted dictionary bound says. -/
theorem sealedDictionaryBodyBound_ok {placement : Placement} {rows storedBytes truncated bound : ℕ}
    (h : sealedDictionaryBodyBound placement rows storedBytes truncated = .ok bound) :
    rows ≤ maxSectionRows ∧ storedBytes < sealedDataPageBytes ∧ bound ≤ maxSectionBytes := by
  unfold sealedDictionaryBodyBound at h
  obtain ⟨_,hrows,h⟩ := bind_ok h
  split_ifs at h with hbad
  obtain ⟨ids,_,h⟩ := bind_ok h
  obtain ⟨binary,hbinary,h⟩ := bind_ok h
  have hstored : storedBytes ≤ binary := by
    obtain ⟨offsets,_,hadd⟩ := Option.bind_eq_some_iff.mp (orError_ok hbinary)
    have he := (checkedAdd_eq_some.mp hadd).1
    omega
  refine ⟨checkRowCap_ok hrows,lt_of_le_of_lt hstored ?_,?_⟩
  · cases placement with
    | strings => exact (sealedPlainBodyBound_ok h).2 ⟨"bytes",binary,0⟩ (by simp)
    | blobs =>
      obtain ⟨fullLen,_,h⟩ := bind_ok h
      obtain ⟨sha,_,h⟩ := bind_ok h
      obtain ⟨shaLevels,_,h⟩ := bind_ok h
      exact (sealedPlainBodyBound_ok h).2 ⟨"stored_bytes",binary,0⟩ (by simp)
  · cases placement with
    | strings => exact (sealedPlainBodyBound_ok h).1
    | blobs =>
      obtain ⟨fullLen,_,h⟩ := bind_ok h
      obtain ⟨sha,_,h⟩ := bind_ok h
      obtain ⟨shaLevels,_,h⟩ := bind_ok h
      exact (sealedPlainBodyBound_ok h).1

end PgKronika
