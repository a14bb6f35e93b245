import PgKronika.CoverageGaps
import PgKronika.KeptState
import PgKronika.LatestRow

/-! The work of section queries: units, catalog bytes and dictionary bytes are charged before a unit
is opened or a dictionary read, cells and bytes before a row is retained. -/
namespace PgKronika

open CheckedArith KeptState Utf8Text

structure QueryWorkLimits where
  units : ℕ
  catalogReadBytes : ℕ
  dictionaryReadBytes : ℕ
  deriving DecidableEq

structure QueryLimits where
  rows : ℕ
  cells : ℕ
  bytes : ℕ
  work : QueryWorkLimits
  deriving DecidableEq

def maxMaterializedCells : ℕ := 10000000

def maxMaterializedBytes : ℕ := 64*1024*1024

def QueryLimits.effective (limits : QueryLimits) : QueryLimits :=
  { limits with
    cells := min limits.cells maxMaterializedCells
    bytes := min limits.bytes maxMaterializedBytes }

structure QueryWorkBudget where
  limits : QueryWorkLimits
  units : ℕ
  catalogReadBytes : ℕ
  dictionaryReadBytes : ℕ
  deriving DecidableEq

def QueryWorkBudget.new (limits : QueryWorkLimits) : QueryWorkBudget := ⟨limits,0,0,0⟩

structure MaterializationUsage where
  cells : ℕ
  bytes : ℕ
  deriving DecidableEq

/-- What a query does, in order: a charge that was admitted, an open or a read. -/
inductive WorkEvent
  | chargeUnit
  | chargeCatalog (bytes : ℕ)
  | chargeDictionary (bytes : ℕ)
  | openUnit (handle : UnitHandle)
  | readDictionary (catalog : Catalog)

/-- The counters of a request, and all of its work so far. -/
structure QueryState where
  budget : QueryWorkBudget
  usage : MaterializationUsage
  events : List WorkEvent

def QueryState.new (limits : QueryWorkLimits) : QueryState := ⟨.new limits,⟨0,0⟩,[]⟩

inductive GatherError (ε : Type)
  | stale
  | read (error : ReadError ε)
  | resultTooLarge
  | materializedBytesTooLarge
  | workLimitExceeded (resource : QueryWorkResource) (limit observed : ℕ)

/-- The counter after a charge, if the limit admits it. -/
def chargeWork (current amount limit : ℕ) (resource : QueryWorkResource) {ε : Type} :
    Except (GatherError ε) ℕ :=
  let observed := (checkedAdd current amount).getD u64Max
  if limit < observed then .error (.workLimitExceeded resource limit observed) else .ok observed

section Charges

variable {ε : Type}

/-- Charge a counter; a refused charge leaves the state as it is. -/
def charge (counter : QueryWorkBudget → ℕ) (set : ℕ → QueryWorkBudget → QueryWorkBudget)
    (amount limit : ℕ) (resource : QueryWorkResource) (event : WorkEvent) :
    Request QueryState (GatherError ε) Unit := fun s =>
  match chargeWork (counter s.budget) amount limit resource with
  | .error error => (.error error,s)
  | .ok observed => (.ok (),{ s with budget := set observed s.budget, events := s.events ++ [event] })

def chargeUnit : Request QueryState (GatherError ε) Unit := fun s =>
  charge QueryWorkBudget.units (fun units budget => { budget with units }) 1
    (min s.budget.limits.units u64Max) .units .chargeUnit s

def chargeCatalogRead (bytes : ℕ) : Request QueryState (GatherError ε) Unit := fun s =>
  charge QueryWorkBudget.catalogReadBytes
    (fun catalogReadBytes budget => { budget with catalogReadBytes }) bytes
    s.budget.limits.catalogReadBytes .catalogBytes (.chargeCatalog bytes) s

def chargeDictionaryRead (bytes : ℕ) : Request QueryState (GatherError ε) Unit := fun s =>
  charge QueryWorkBudget.dictionaryReadBytes
    (fun dictionaryReadBytes budget => { budget with dictionaryReadBytes }) bytes
    s.budget.limits.dictionaryReadBytes .dictionaryBytes (.chargeDictionary bytes) s

/-- An open or a read stands behind all work so far. -/
def perform (event : WorkEvent) : Request QueryState (GatherError ε) Unit :=
  modify fun s => { s with events := s.events ++ [event] }

def chargeCells (rowWidth maxCells : ℕ) : Request QueryState (GatherError ε) Unit := fun s =>
  match (checkedAdd s.usage.cells rowWidth).filter fun cells => cells ≤ maxCells with
  | none => (.error .resultTooLarge,s)
  | some cells => (.ok (),{ s with usage := { s.usage with cells } })

def chargeBytes (rowBytes : Option ℕ) (maxBytes : ℕ) :
    Request QueryState (GatherError ε) Unit := fun s =>
  match rowBytes.bind fun rowBytes =>
      (checkedAdd s.usage.bytes rowBytes).filter fun bytes => bytes ≤ maxBytes with
  | none => (.error .materializedBytesTooLarge,s)
  | some bytes => (.ok (),{ s with usage := { s.usage with bytes } })

end Charges

def saturatingMul (a b : ℕ) : ℕ := min (a*b) u64Max

def materializedValueBytes (dict : UnitDictionary) : Cell → ℕ
  | .listI32 values => saturatingMul values.length 4
  | .strId id =>
    if id = 0 then 0
    else match dict.resolve id with
      | some (.string bytes) => saturatingMul bytes.length 3
      | some (.blob bytes _ _) => saturatingMul bytes.length 3
      | none => 0
  | _ => 0

def columnBytes (dict : UnitDictionary) (row : Row) (name : String) : ℕ :=
  ((row.get name).map (materializedValueBytes dict)).getD 0

/-- The bytes of a row: its column names and its values. -/
def materializedRowBytes (columns : List String) (dict : UnitDictionary) (row : Row) : Option ℕ :=
  columns.foldlM (fun total name => (checkedAdd total (utf8 name).length).bind fun sum =>
    checkedAdd sum (columnBytes dict row name)) 0

structure GatherQuery where
  fromTs : Int64
  toTs : Int64
  requested : List (String × RegisteredSection)
  skipStale : Bool
  limits : QueryLimits

/-- The types of all requested sections, ascending and distinct. -/
def requestedTypeIds (requested : List (String × RegisteredSection)) : List UInt32 :=
  ((requested.flatMap fun section_ => section_.2.typeIds).insertionSort (· ≤ ·)).dedup

def dictionaryReadBytes (catalog : Catalog) : ℕ :=
  (catalog.entries.filter fun entry => isDictionaryType entry.typeId).foldl
    (fun bytes entry => saturatingAdd bytes entry.len.toNat) 0

section Gather

variable {ω ε : Type} (reader : QueryReader ε) (files : SnapshotFiles ε)

def inWindow (query : GatherQuery) (row : Row) : Bool :=
  row.ts.any fun t => query.fromTs ≤ t ∧ t ≤ query.toTs

/-- Retain a row of the window, after its cells and its bytes are charged. -/
def retainRow (query : GatherQuery) (logical : RegisteredSection) (dict : UnitDictionary)
    (buffer : List OutRow) (row : Row) : Request QueryState (GatherError ε) (List OutRow) :=
  if inWindow query row then
    chargeCells logical.columns.length query.limits.cells >>= fun _ =>
    chargeBytes (materializedRowBytes logical.columns dict row) query.limits.bytes >>= fun _ =>
    pure (buffer ++ [row.output logical.columns dict])
  else pure buffer

def decodeSection (query : GatherQuery) (logical : RegisteredSection) (opened : QueryUnit ε)
    (dict : UnitDictionary) (buffer : List OutRow) (entry : Entry) :
    Request QueryState (GatherError ε) (List OutRow) :=
  if entry.rows = 0 ∨ entry.typeId ∉ logical.typeIds then pure buffer
  else
    lift ((decodeRows reader opened entry).mapError .read) >>= fun rows =>
    rows.foldlM (retainRow query logical dict) buffer

def decodeLogical (query : GatherQuery) (opened : QueryUnit ε) (dict : UnitDictionary)
    (buffer : List OutRow) (logical : RegisteredSection) :
    Request QueryState (GatherError ε) (List OutRow) :=
  opened.catalog.entries.foldlM (decodeSection reader query logical opened dict) buffer

/-- Each buffer takes the rows of its section. -/
def decodeRequestedRows (query : GatherQuery) (opened : QueryUnit ε) (dict : UnitDictionary) :
    List (List OutRow) → List (String × RegisteredSection) →
      Request QueryState (GatherError ε) (List (List OutRow))
  | buffer::buffers,section_::requested =>
    decodeLogical reader query opened dict buffer section_.2 >>= fun buffer =>
    decodeRequestedRows query opened dict buffers requested >>= fun buffers =>
    pure (buffer::buffers)
  | buffers,_ => pure buffers

/-- Per-section buffers and the ranges of the units that were read or ruled out. -/
abbrev Gathered := List (List OutRow) × List TimeRange

/-- The rows of an opened unit, when it has any of the requested types. -/
def gatherOpened (query : GatherQuery) (opened : QueryUnit ε) (gathered : Gathered) :
    Request QueryState (GatherError ε) Gathered :=
  if hasNonemptyType opened.catalog (requestedTypeIds query.requested) then
    chargeDictionaryRead (dictionaryReadBytes opened.catalog) >>= fun _ =>
    perform (.readDictionary opened.catalog) >>= fun _ =>
    lift ((unitDictionary reader opened).mapError .read) >>= fun dict =>
    decodeRequestedRows reader query opened dict gathered.1 query.requested >>= fun buffers =>
    pure (buffers,gathered.2)
  else pure gathered

def gatherUnit (query : GatherQuery) (gathered : Gathered) (unit : UnitDescriptor) :
    Request QueryState (GatherError ε) Gathered :=
  chargeUnit >>= fun _ =>
  let covered := gathered.2 ++ [(unit.unitMeta.minTs,unit.unitMeta.maxTs)]
  if unit.mayContainAnyNonemptyType (requestedTypeIds query.requested) then
    chargeCatalogRead unit.eagerOpenBytes >>= fun _ =>
    perform (.openUnit unit.handle) >>= fun _ =>
    match openUnitHandle reader files unit.index unit.handle with
    | .ok opened => gatherOpened reader query opened (gathered.1,covered)
    | .error (.staleSnapshot _) => if query.skipStale then pure gathered else Request.fail .stale
    | .error error => Request.fail (.read error)
  else pure (gathered.1,covered)

def windowUnits (s : LocalDirSnapshot ω) (fromTs toTs : Int64) : List UnitDescriptor :=
  s.unitDescriptors.filter fun unit => fromTs ≤ unit.unitMeta.maxTs ∧ unit.unitMeta.minTs ≤ toTs

/-- One pass over the units of the window; what is retained starts anew. -/
def gather (s : LocalDirSnapshot ω) (query : GatherQuery) :
    Request QueryState (GatherError ε) Gathered :=
  modify (fun state => { state with usage := ⟨0,0⟩ }) >>= fun _ =>
  (windowUnits s query.fromTs query.toTs).foldlM (gatherUnit reader files query)
    (List.replicate query.requested.length [],[])

end Gather

section Windowed

variable {ω ε : Type} (reader : QueryReader ε)

/-- Resolve the names; the first unknown one fails the call. -/
def resolveSections : List String →
    Except (SectionQueryError ε) (List (String × RegisteredSection))
  | [] => .ok []
  | name::names =>
    match logicalSection reader.registry name with
    | none => .error (.unknownSection name)
    | some logical => (resolveSections names).map fun requested => (name,logical)::requested

/-- A stale unit is retried, or skipped, before it gets here. -/
def queryErrorFromGather (limits : QueryLimits) : GatherError ε → SectionQueryError ε
  | .stale => .read (.staleSnapshot 0)
  | .read error => .read error
  | .resultTooLarge => .resultTooLarge limits.cells
  | .materializedBytesTooLarge => .materializedBytesTooLarge limits.bytes
  | .workLimitExceeded resource limit observed => .workLimitExceeded resource limit observed

/-- The last attempt skips stale units. -/
def attemptQuery (query : GatherQuery) (refreshed : ℕ) : GatherQuery :=
  { query with skipStale := maxRefresh ≤ refreshed }

/-- Passes until one of them is not stale. -/
def gatherAttempts (world : QueryWorld ω ε) (query : GatherQuery) :
    ℕ → ℕ → LocalDirSnapshot ω → Request QueryState (SectionQueryError ε) Gathered
  | remaining,refreshed,s => fun state =>
    match gather reader (world.files refreshed) s (attemptQuery query refreshed) state with
    | (.ok gathered,next) => (.ok gathered,next)
    | (.error .stale,next) =>
      match remaining with
      | 0 => (.error (queryErrorFromGather query.limits .stale),next)
      | remaining+1 =>
        match world.refresh refreshed s with
        | .error error => (.error (.read (.io error)),next)
        | .ok refreshedTo => gatherAttempts world query remaining (refreshed+1) refreshedTo next
    | (.error error,next) => (.error (queryErrorFromGather query.limits error),next)

def gatherQuery (fromTs toTs : Int64) (requested : List (String × RegisteredSection))
    (limits : QueryLimits) : GatherQuery :=
  ⟨fromTs,toTs,requested,false,limits⟩

def asLogical (requested : List (String × RegisteredSection)) : List (String × LogicalSection) :=
  requested.map fun section_ => (section_.1,section_.2.toLogicalSection)

/-- A batch of sections over a window, with the state that it leaves. -/
def runSectionsWithLimits (world : QueryWorld ω ε) (s : LocalDirSnapshot ω) (fromTs toTs : Int64)
    (names : List String) (cursors : OrderedMap String Cursor) (limits : QueryLimits) :
    Except (SectionQueryError ε) (OrderedMap String SectionPage) × QueryState :=
  match resolveSections reader names with
  | .error error => (.error error,.new limits.work)
  | .ok requested =>
    match gatherAttempts reader world (gatherQuery fromTs toTs requested limits.effective)
        maxRefresh 0 s (.new limits.work) with
    | (.error error,state) => (.error error,state)
    | (.ok gathered,state) =>
      (.ok (sectionsWithLimits (asLogical requested)
        (gathered.1,coverageGaps fromTs toTs gathered.2) cursors limits.rows),state)

/-- One section over a window. -/
def runSectionWithLimits (world : QueryWorld ω ε) (s : LocalDirSnapshot ω) (name : String)
    (fromTs toTs : Int64) (cursor : Option Cursor) (limits : QueryLimits) :
    Except (SectionQueryError ε) SectionPage × QueryState :=
  match runSectionsWithLimits reader world s fromTs toTs [name] (cursorMap name cursor) limits with
  | (.error error,state) => (.error error,state)
  | (.ok pages,state) =>
    match pages.entries with
    | [] => (.error (.unknownSection name),state)
    | page::_ => (.ok page.2,state)

end Windowed

structure OpenedSealedQuery (ε : Type) where
  descriptor : SealedDescriptor
  unit : QueryUnit ε
  dictionary : Option UnitDictionary

/-- The counters of a session and its pinned units. -/
structure SessionState (ε : Type) where
  query : QueryState
  opened : List (OpenedSealedQuery ε)

def maxExactQueryDescriptors : ℕ := 2

section Session

variable {ω ε : Type} (reader : QueryReader ε) (files : SnapshotFiles ε) (s : LocalDirSnapshot ω)
  (limits : QueryLimits)

def onQuery {α : Type} (m : Request QueryState (GatherError ε) α) :
    Request (SessionState ε) (SectionQueryError ε) α :=
  mapError (queryErrorFromGather limits)
    (zoom SessionState.query (fun query state => { state with query }) m)

/-- The scanned unit that a descriptor stands for, with its index. -/
def findSealed (descriptor : SealedDescriptor) : Except (SealedFactError ε) (SealedUnit × ℕ) :=
  match s.scan.sealed.zipIdx.find? fun unit => SealedLocator.mk unit.1.id = descriptor.locator with
  | none => .error (.descriptorUnavailable descriptor.locator)
  | some unit =>
    if descriptorForSealed unit.1 ≠ descriptor then .error (.staleDescriptor descriptor.locator)
    else .ok unit

def sealedQueryEagerOpenBytes (descriptor : SealedDescriptor) : Except (SealedFactError ε) ℕ :=
  (findSealed s descriptor).map fun unit => eagerOpenBytes (.sealed unit.1)

def openSealedByDescriptor (descriptor : SealedDescriptor) (unit : SealedUnit × ℕ) :
    Except (SealedFactError ε) (QueryUnit ε) :=
  (openCheckedSealed reader files unit.2 unit.1).mapError fun error =>
    match error with
    | .staleSnapshot _ => .staleDescriptor descriptor.locator
    | error => .build error

/-- Open a descriptor that the session has not pinned yet. -/
def openNewDescriptor (descriptor : SealedDescriptor) :
    Request (SessionState ε) (SectionQueryError ε) (OpenedSealedQuery ε) :=
  onQuery limits chargeUnit >>= fun _ =>
  lift ((sealedQueryEagerOpenBytes s descriptor).mapError .sealedDescriptor) >>= fun bytes =>
  onQuery limits (chargeCatalogRead bytes) >>= fun _ =>
  lift ((findSealed s descriptor).mapError .sealedDescriptor) >>= fun unit =>
  onQuery limits (perform (.openUnit (.sealed unit.1))) >>= fun _ =>
  lift ((openSealedByDescriptor reader files descriptor unit).mapError .sealedDescriptor) >>=
    fun opened => pure ⟨descriptor,opened,none⟩

def openDescriptor (descriptor : SealedDescriptor) :
    Request (SessionState ε) (SectionQueryError ε) (ℕ × OpenedSealedQuery ε) := fun state =>
  match state.opened.zipIdx.find? fun opened => opened.1.descriptor = descriptor with
  | some opened => (.ok (opened.2,opened.1),state)
  | none =>
    if state.opened.length = maxExactQueryDescriptors then
      (.error (.workLimitExceeded .units maxExactQueryDescriptors (maxExactQueryDescriptors+1)),state)
    else
      (openNewDescriptor reader files s limits descriptor >>= fun opened =>
        modify (fun state => { state with opened := state.opened ++ [opened] }) >>= fun _ =>
        pure (state.opened.length,opened)) state

/-- The dictionary of a pinned unit; the first use loads it. -/
def loadDictionary (opened : ℕ × OpenedSealedQuery ε) :
    Request (SessionState ε) (SectionQueryError ε) UnitDictionary :=
  match opened.2.dictionary with
  | some dict => pure dict
  | none =>
    let catalog := opened.2.unit.catalog
    onQuery limits (chargeDictionaryRead (dictionaryReadBytes catalog)) >>= fun _ =>
    onQuery limits (perform (.readDictionary catalog)) >>= fun _ =>
    lift ((unitDictionary reader opened.2.unit).mapError .read) >>= fun dict =>
    modify (fun state => { state with
      opened := state.opened.set opened.1 { opened.2 with dictionary := some dict } }) >>= fun _ =>
    pure dict

/-- A call on a session. -/
structure SealedCall where
  descriptor : SealedDescriptor
  fromTs : Int64
  toTs : Int64
  names : List String
  cursors : OrderedMap String Cursor

def sealedRows (call : SealedCall) (requested : List (String × RegisteredSection)) :
    Request (SessionState ε) (SectionQueryError ε) (List (List OutRow)) :=
  openDescriptor reader files s limits call.descriptor >>= fun opened =>
  if hasNonemptyType opened.2.unit.catalog (requestedTypeIds requested) then
    loadDictionary reader limits opened >>= fun dict =>
    onQuery limits (decodeRequestedRows reader (gatherQuery call.fromTs call.toTs requested limits)
      opened.2.unit dict (List.replicate requested.length []) requested)
  else pure (List.replicate requested.length [])

/-- The sections of one exact sealed descriptor. -/
def sealedSections (call : SealedCall) :
    Request (SessionState ε) (SectionQueryError ε) (OrderedMap String SectionPage) :=
  lift (resolveSections reader call.names) >>= fun requested =>
  sealedRows reader files s limits call requested >>= fun buffers =>
  pure (finishPages (asLogical requested) buffers
    (coverageGaps call.fromTs call.toTs [(call.descriptor.minTs,call.descriptor.maxTs)])
    call.cursors limits.rows)

def SessionState.new (limits : QueryLimits) : SessionState ε := ⟨.new limits.work,[]⟩

/-- The answers of a session, call by call, and the state that they leave. -/
def runSession : List (SnapshotFiles ε × SealedCall) → SessionState ε →
    List (Except (SectionQueryError ε) (OrderedMap String SectionPage)) × SessionState ε
  | [],state => ([],state)
  | (files,call)::calls,state =>
    let answered := sealedSections reader files s limits call state
    let rest := runSession calls answered.2
    (answered.1::rest.1,rest.2)

/-- A new session under the reader's hard caps. -/
def sealedQuerySession (calls : List (SnapshotFiles ε × SealedCall)) :
    List (Except (SectionQueryError ε) (OrderedMap String SectionPage)) × SessionState ε :=
  runSession reader s limits.effective calls (.new limits.effective)

end Session

end PgKronika
