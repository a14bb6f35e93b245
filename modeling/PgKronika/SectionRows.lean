import PgKronika.SectionPaging

/-! Decoded section rows and their output over the union columns of a logical section. -/
namespace PgKronika

open ByteCodec Utf8Text

/-- One typed cell. Floats are their bits. -/
inductive Cell
  | i16 (v : Int16)
  | i32 (v : Int32)
  | i64 (v : Int64)
  | u32 (v : UInt32)
  | u64 (v : UInt64)
  | f64 (bits : UInt64)
  | bool (v : Bool)
  | ts (v : Int64)
  | strId (id : UInt64)
  | listI32 (items : List Int32)
  | null
  deriving DecidableEq

inductive Resolved
  | string (bytes : Bytes)
  | blob (bytes : Bytes) (fullLen : UInt64) (truncated : Bool)
  deriving DecidableEq

/-- The values of a unit by their ids. -/
structure UnitDictionary where
  resolve : UInt64 → Option Resolved

/-- The output value of a cell, and the id that failed to resolve. -/
def cellToValue (dict : UnitDictionary) : Cell → Value × Option UInt64
  | .i16 v => (.i64 v.toInt64,none)
  | .i32 v => (.i64 v.toInt64,none)
  | .i64 v => (.i64 v,none)
  | .u32 v => (.u64 v.toUInt64,none)
  | .u64 v => (.u64 v,none)
  | .f64 bits => (.f64 bits,none)
  | .bool v => (.bool v,none)
  | .ts v => (.ts v,none)
  | .listI32 items => (.listI32 items,none)
  | .null => (.null,none)
  | .strId id =>
    if id = 0 then (.null,none)
    else match dict.resolve id with
      | some (.string bytes) => (.str (fromUtf8Lossy bytes),none)
      | some (.blob bytes fullLen truncated) =>
        (.blob (fromUtf8Lossy bytes) fullLen truncated,none)
      | none => (.null,some id)

/-- The layout of one section type: what the readers of its rows use. -/
structure SectionContract where
  typeId : UInt32
  name : String
  columns : List String
  sortKey : List String
  deriving DecidableEq

/-- The contracts of all types. Layout versions of one name have one sort key. -/
structure SectionRegistry where
  contracts : List SectionContract
  sortKeys : ∀ a ∈ contracts, ∀ b ∈ contracts, a.name = b.name → a.sortKey = b.sortKey
  width : (contracts.flatMap SectionContract.columns).length < 2^64

/-- A logical section with the types of its layout versions. -/
structure RegisteredSection extends LogicalSection where
  typeIds : List UInt32

theorem RegisteredSection.elem_typeIds (logical : RegisteredSection) (typeId : UInt32) :
    logical.typeIds.elem typeId = true ↔ typeId ∈ logical.typeIds :=
  List.elem_iff

instance (logical : RegisteredSection) (typeId : UInt32) : Decidable (typeId ∈ logical.typeIds) :=
  decidable_of_iff _ (logical.elem_typeIds typeId)

def SectionRegistry.versions (registry : SectionRegistry) (name : String) : List SectionContract :=
  (registry.contracts.filter fun contract => contract.name = name).mergeSort
    fun a b => a.typeId ≤ b.typeId

def pushColumn (columns : List String) (column : String) : List String :=
  if column ∈ columns then columns else columns ++ [column]

/-- The columns of some contracts by their first appearance. -/
def unionColumns (contracts : List SectionContract) : List String :=
  (contracts.flatMap SectionContract.columns).foldl pushColumn []

theorem foldl_pushColumn (names : List String) {columns : List String} (h : columns.Nodup) :
    (names.foldl pushColumn columns).Nodup ∧
      (names.foldl pushColumn columns).length ≤ columns.length + names.length := by
  induction names generalizing columns with
  | nil => exact ⟨h,le_refl _⟩
  | cons name names ih =>
    rw [List.foldl_cons,pushColumn]
    by_cases hmem : name ∈ columns
    · rw [if_pos hmem]
      exact ⟨(ih h).1,(ih h).2.trans (by simp)⟩
    · rw [if_neg hmem]
      have hpush : (columns ++ [name]).Nodup := by
        simp only [List.nodup_append,List.nodup_singleton,List.mem_singleton,ne_eq,true_and]
        exact ⟨h,fun a ha b hb heq => hmem (hb ▸ heq ▸ ha)⟩
      exact ⟨(ih hpush).1,(ih hpush).2.trans (by simp; omega)⟩

theorem unionColumns_nodup (contracts : List SectionContract) : (unionColumns contracts).Nodup :=
  (foldl_pushColumn _ .nil).1

theorem length_flatMap_filter (p : SectionContract → Bool) (contracts : List SectionContract) :
    ((contracts.filter p).flatMap SectionContract.columns).length ≤
      (contracts.flatMap SectionContract.columns).length := by
  induction contracts with
  | nil => simp
  | cons contract contracts ih =>
    by_cases hp : p contract
    · simpa [hp] using ih
    · simpa [hp] using Nat.le_add_left_of_le ih

theorem SectionRegistry.versions_width (registry : SectionRegistry) (name : String) :
    (unionColumns (registry.versions name)).length < 2^64 := by
  have hunion := (foldl_pushColumn ((registry.versions name).flatMap SectionContract.columns) .nil).2
  have hperm : ((registry.versions name).flatMap SectionContract.columns).length =
      ((registry.contracts.filter fun contract => contract.name = name).flatMap
        SectionContract.columns).length :=
    ((List.mergeSort_perm _ _).flatMap_right _).length_eq
  have hfilter := length_flatMap_filter (fun contract => contract.name = name) registry.contracts
  have hwidth := registry.width
  rw [unionColumns]
  simp only [List.length_nil] at hunion
  omega

/-- The union view of a name, when any contract carries it. -/
def logicalSection (registry : SectionRegistry) (name : String) : Option RegisteredSection :=
  match registry.versions name with
  | [] => none
  | first::_ => some
    { columns := unionColumns (registry.versions name)
      sortKey := first.sortKey
      nodup := unionColumns_nodup _
      width := registry.versions_width name
      typeIds := (registry.versions name).map SectionContract.typeId }

/-- A decoded row: cells in the order of its contract's columns. -/
structure Row where
  contract : SectionContract
  cells : List Cell
  deriving DecidableEq

/-- The cell of a row under a name, when its layout version has the column. -/
def Row.get (row : Row) (name : String) : Option Cell :=
  (row.contract.columns.findIdx? fun column => column = name).bind fun index => row.cells[index]?

/-- The time of a row. -/
def Row.ts (row : Row) : Option Int64 :=
  match row.get "ts" with
  | some (.ts t) => some t
  | _ => none

/-- A row over the union columns; a column that its layout version lacks is null. -/
def Row.output (row : Row) (columns : List String) (dict : UnitDictionary) : OutRow :=
  columns.map fun name => (name,((row.get name).map fun cell => (cellToValue dict cell).1).getD .null)

@[simp] theorem Row.output_columns (row : Row) (columns : List String) (dict : UnitDictionary) :
    (row.output columns dict).map Prod.fst = columns := by
  simp [Row.output,Function.comp_def]

end PgKronika
