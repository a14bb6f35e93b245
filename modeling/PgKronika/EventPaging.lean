import Mathlib
import PgKronika.EventCursor
import PgKronika.EventQuery

/-! The events endpoint. A page keeps the smallest positions behind its cursor; following
the cursors on the pinned view serves every notable item once, in the order of positions. -/
namespace PgKronika

open ByteCodec SmallestKept CheckedArith

inductive LimitResource
  | bytes
  | rows
  deriving DecidableEq

inductive ApiError
  | storeReadFailed
  | queryLimitExceeded (resource : LimitResource) (limit : ℕ)
  | invalidCursor
  | cursorQueryMismatch
  | viewGone
  | cursorExpired
  | cursorCapacityUnavailable
  deriving DecidableEq

def cursorError : CursorError → ApiError
  | .invalid => .invalidCursor
  | .queryMismatch => .cursorQueryMismatch
  | .viewGone => .viewGone
  | .expired => .cursorExpired
  | .capacityUnavailable => .cursorCapacityUnavailable

def oracleError : OracleError → ApiError
  | .limitExceeded .materializedBytes => .queryLimitExceeded .bytes queryMaterializedBytes
  | .limitExceeded .observations => .queryLimitExceeded .rows queryMaxObservations
  | .observationIdCollision => .storeReadFailed

def maxFactorCoverageRecords : ℕ := 65536

def canonicalFactError : CanonicalFactQueryError → ApiError
  | .limitExceeded => .queryLimitExceeded .rows maxFactorCoverageRecords
  | .contradictoryFacts => .storeReadFailed

/-- What the process holds for the endpoint: its digest, the cursor secret, the registry
bounds and the charges of views and observations. -/
structure EventsApp where
  sha256 : Bytes → Digest
  secret : Digest
  config : CursorConfig
  residentBytes : EventsView → Option ℕ
  charge : EventObservation → Option ℕ

inductive PageCandidateSource
  | observation (observation : EventObservation)
  | canonical (fact : CanonicalEventFact)
  deriving DecidableEq

structure PageCandidate where
  position : EventFactPosition
  source : PageCandidateSource
  notable : NotableClass
  deriving DecidableEq

def passesResponseFilter (observation : EventObservation) (request : EventsRequest) : Bool :=
  passesMinSeverity observation request.minSeverity &&
    request.kind.all fun kind => observation.payload.kindCode == kind

def passesCanonicalResponseFilter (fact : CanonicalEventFact) (request : EventsRequest) : Bool :=
  request.kind.all fun kind => fact.kind.wireCode == kind

/-- The payloads that `/events` takes from canonical facts. -/
def CanonicalEventPayload.isDerived : CanonicalEventPayload → Bool
  | .observed => false
  | _ => true

/-- The page under construction: a bounded heap in order, and the filtered items. -/
structure PageState where
  notable : List PageCandidate
  omittedByResponseFilter : ℕ

def EventsCursor.position (cursor : EventsCursor) : EventFactPosition :=
  ⟨cursor.lastTsUs,cursor.lastEventId,cursor.lastEventInstanceId⟩

/-- Offer one candidate, unless the cursor is past it. -/
def PageState.offer (state : PageState) (request : EventsRequest)
    (startAfter : Option EventsCursor) (candidate : PageCandidate) : PageState :=
  if startAfter.any fun cursor => decide (candidate.position ≤ cursor.position) then state
  else { state with
    notable := retain PageCandidate.position (request.limit+1) state.notable candidate }

def PageState.omit (state : PageState) : Except ApiError PageState :=
  match checkedAdd state.omittedByResponseFilter 1 with
  | none => .error .storeReadFailed
  | some omittedByResponseFilter => .ok { state with omittedByResponseFilter }

section Render

variable (app : EventsApp)

def foldObservation (request : EventsRequest) (startAfter : Option EventsCursor)
    (state : PageState) (observation : EventObservation) : Except ApiError PageState :=
  match classify observation with
  | none => .ok state
  | some c =>
    if passesResponseFilter observation request = false then state.omit
    else
      match eventPosition app.sha256 observation c with
      | none => .error .storeReadFailed
      | some position => .ok (state.offer request startAfter ⟨position,.observation observation,c⟩)

def foldCanonical (request : EventsRequest) (startAfter : Option EventsCursor)
    (state : PageState) (fact : CanonicalEventFact) : Except ApiError PageState :=
  if fact.payload.isDerived = false then .ok state
  else
    match classifyFact fact with
    | none => .ok state
    | some c =>
      if passesCanonicalResponseFilter fact request = false then state.omit
      else .ok (state.offer request startAfter
        ⟨canonicalPosition app.sha256 fact,.canonical fact,c⟩)

inductive EventPayload
  | error (kind severity category : String) (sqlstate : Option SqlState)
    (droppedFieldCount : UInt32)
  | lifecycle (kind : String) (pid signal : Option Int32) (droppedFieldCount : UInt32)
  | counterDelta (kind : String) (value : CounterDeltaFactPayload)
  | stateTransition (kind : String) (value : StateTransitionFactPayload)
  | capacity (kind : String) (value : CapacityFactPayload)
  | marker (kind : String)
  deriving DecidableEq

/-- One notable fact on the wire. -/
structure EventFact where
  eventId : String
  eventInstanceId : String
  sectionTypeId : Option UInt32
  sortTsUs : Int64
  occurredAtUs : Option Int64
  observedInterval : Option CoverageSpan
  occurrenceCount : UInt64
  eventKind : String
  notableClass : String
  payload : EventPayload
  deriving DecidableEq

def eventPayload (payload : ObservationPayload) : Option EventPayload :=
  match payload with
  | .errorGroup error => some (.error payload.kindCode error.severity.wireCode
      error.category.wireCode error.sqlstate error.droppedFieldCount)
  | .childSignalTermination lifecycle => some (.lifecycle payload.kindCode lifecycle.pid
      lifecycle.signal lifecycle.droppedFieldCount)
  | .childProcessCrash lifecycle => some (.lifecycle payload.kindCode lifecycle.pid
      lifecycle.signal lifecycle.droppedFieldCount)
  | .shutdownRequested lifecycle => some (.lifecycle payload.kindCode lifecycle.pid
      lifecycle.signal lifecycle.droppedFieldCount)
  | .readyObserved lifecycle => some (.lifecycle payload.kindCode lifecycle.pid
      lifecycle.signal lifecycle.droppedFieldCount)
  | _ => none

def project (observation : EventObservation) (c : NotableClass) : Option EventFact :=
  (eventPosition app.sha256 observation c).bind fun position =>
    (eventPayload observation.payload).map fun payload => {
      eventId := Base64Url.encode position.eventId.asBytes
      eventInstanceId := Base64Url.encode position.eventInstanceId.asBytes
      sectionTypeId := some observation.sectionTypeId
      sortTsUs := observation.time.sortTsUs
      occurredAtUs := observation.time.occurredAtUs
      observedInterval := observation.time.observedInterval
      occurrenceCount := observation.occurrenceCount
      eventKind := observation.payload.kindCode
      notableClass := c.wireCode
      payload }

def canonicalPayload (fact : CanonicalEventFact) : Option EventPayload :=
  match fact.payload with
  | .counterDelta value => some (.counterDelta fact.kind.wireCode value)
  | .stateTransition value => some (.stateTransition fact.kind.wireCode value)
  | .capacity value => some (.capacity fact.kind.wireCode value)
  | .marker => some (.marker fact.kind.wireCode)
  | .observed => none

def projectCanonical (fact : CanonicalEventFact) (c : NotableClass) : Option EventFact :=
  let position := canonicalPosition app.sha256 fact
  (canonicalPayload fact).map fun payload => {
    eventId := Base64Url.encode position.eventId.asBytes
    eventInstanceId := Base64Url.encode position.eventInstanceId.asBytes
    sectionTypeId := none
    sortTsUs := fact.interval.fromUs
    occurredAtUs := some fact.interval.fromUs
    observedInterval := some fact.interval
    occurrenceCount := fact.count
    eventKind := fact.kind.wireCode
    notableClass := c.wireCode
    payload }

def PageCandidate.project (candidate : PageCandidate) : Option EventFact :=
  match candidate.source with
  | .observation observation => PgKronika.project app observation candidate.notable
  | .canonical fact => projectCanonical app fact candidate.notable

structure EventsResponse where
  notablePolicyVersion : UInt32
  events : List EventFact
  nextCursor : Option String
  omittedByResponseFilter : ℕ
  deriving DecidableEq

abbrev EventsRegistry := RegistryInner EventsView

def pinEvents (registry : EventsRegistry) (view : EventsView) (nowSecs : UInt64) :
    Except CursorError CursorLease × EventsRegistry :=
  registry.pin EventsView.factSetId app.residentBytes app.config view nowSecs

def pageItems (view : EventsView) (request : EventsRequest) (startAfter : Option EventsCursor) :
    Except ApiError PageState :=
  match view.queryRange app.charge request.range with
  | .error e => .error (oracleError e)
  | .ok observations =>
    match view.queryCanonicalFacts request.range with
    | .error e => .error (canonicalFactError e)
    | .ok facts =>
      observations.foldlM (foldObservation app request startAfter) ⟨[],0⟩ >>= fun state =>
        facts.foldlM (foldCanonical app request startAfter) state

/-- The lease of the cursor that continues a page: the one it came with, or a new one. -/
def pageLease (registry : EventsRegistry) (view : EventsView) (startAfter : Option EventsCursor)
    (pinSecs : UInt64) : Except CursorError CursorLease × EventsRegistry :=
  match startAfter with
  | none => pinEvents app registry view pinSecs
  | some cursor => (.ok cursor.lease,registry)

def renderEvents (registry : EventsRegistry) (view : EventsView) (request : EventsRequest)
    (startAfter : Option EventsCursor) (queryHash : Digest) (pinSecs : UInt64) :
    Except ApiError EventsResponse × EventsRegistry :=
  match pageItems app view request startAfter with
  | .error e => (.error e,registry)
  | .ok state =>
    let page := state.notable.take request.limit
    match page.mapM (PageCandidate.project app) with
    | none => (.error .storeReadFailed,registry)
    | some events =>
      let respond := fun nextCursor : Option String => EventsResponse.mk notablePolicyVersion
        events nextCursor state.omittedByResponseFilter
      if page.length < state.notable.length then
        match page.getLast? with
        | none => (.ok (respond none),registry)
        | some candidate =>
          match pageLease app registry view startAfter pinSecs with
          | (.error e,registry) => (.error (cursorError e),registry)
          | (.ok lease,registry) =>
            (.ok (respond (some (EventsCursor.encode app.sha256 {
              lease
              queryHash
              lastTsUs := candidate.position.sortTsUs
              lastEventId := candidate.position.eventId
              lastEventInstanceId := candidate.position.eventInstanceId } app.secret))),registry)
      else (.ok (respond none),registry)

/-- One request. `loaded` is the view that the loader answers a first page with. -/
def serveEvents (registry : EventsRegistry) (loaded : EventsView) (request : EventsRequest)
    (nowSecs pinSecs : UInt64) : Except ApiError EventsResponse × EventsRegistry :=
  let queryHash := eventsQueryHash app.sha256 request
  let registry := registry.pruneExpired nowSecs
  match request.cursor with
  | some token =>
    match EventsCursor.decode app.sha256 app.secret token queryHash nowSecs with
    | .error e => (.error (cursorError e),registry)
    | .ok cursor =>
      match registry.resolve cursor.lease.factSetId nowSecs with
      | (.error e,registry) => (.error (cursorError e),registry)
      | (.ok view,registry) =>
        renderEvents app registry view request (some cursor) queryHash pinSecs
  | none => renderEvents app registry loaded request none queryHash pinSecs

end Render

section Items

/-- What one observation or fact is to a page. -/
inductive PageItem
  | skipped
  | filtered
  | candidate (candidate : PageCandidate)

def PageItem.candidate? : PageItem → Option PageCandidate
  | .candidate c => some c
  | _ => none

def PageItem.isFiltered : PageItem → Bool
  | .filtered => true
  | _ => false

def observationItem (app : EventsApp) (request : EventsRequest) (observation : EventObservation) :
    PageItem :=
  match classify observation with
  | none => .skipped
  | some c =>
    if passesResponseFilter observation request = false then .filtered
    else
      match eventPosition app.sha256 observation c with
      | none => .skipped
      | some position => .candidate ⟨position,.observation observation,c⟩

def canonicalItem (app : EventsApp) (request : EventsRequest) (fact : CanonicalEventFact) :
    PageItem :=
  if fact.payload.isDerived = false then .skipped
  else
    match classifyFact fact with
    | none => .skipped
    | some c =>
      if passesCanonicalResponseFilter fact request = false then .filtered
      else .candidate ⟨canonicalPosition app.sha256 fact,.canonical fact,c⟩

def PageState.step (state : PageState) (request : EventsRequest)
    (startAfter : Option EventsCursor) : PageItem → Except ApiError PageState
  | .skipped => .ok state
  | .filtered => state.omit
  | .candidate c => .ok (state.offer request startAfter c)

variable {app : EventsApp} {request : EventsRequest} {startAfter : Option EventsCursor}

theorem foldObservation_eq (state : PageState) (observation : EventObservation) :
    foldObservation app request startAfter state observation =
      state.step request startAfter (observationItem app request observation) := by
  rw [foldObservation,observationItem]
  cases hclass : classify observation with
  | none => rfl
  | some c =>
    dsimp only
    split_ifs
    · rfl
    · obtain ⟨eventId,hposition⟩ := eventPosition_of_classify app.sha256 hclass
      rw [hposition]
      rfl

theorem foldCanonical_eq (state : PageState) (fact : CanonicalEventFact) :
    foldCanonical app request startAfter state fact =
      state.step request startAfter (canonicalItem app request fact) := by
  rw [foldCanonical,canonicalItem]
  by_cases hderived : fact.payload.isDerived = false
  · rw [if_pos hderived,if_pos hderived]
    rfl
  · rw [if_neg hderived,if_neg hderived]
    cases classifyFact fact with
    | none => rfl
    | some c =>
      dsimp only
      split_ifs <;> rfl

/-- Behind the cursor. -/
def beyond (startAfter : Option EventsCursor) (candidate : PageCandidate) : Bool :=
  !startAfter.any fun cursor => decide (candidate.position ≤ cursor.position)

/-- The state after some items: the kept candidates and the count of the filtered ones. -/
def PageState.after (state : PageState) (request : EventsRequest)
    (startAfter : Option EventsCursor) (items : List PageItem) : PageState where
  notable := ((items.filterMap PageItem.candidate?).filter (beyond startAfter)).foldl
    (retain PageCandidate.position (request.limit+1)) state.notable
  omittedByResponseFilter := state.omittedByResponseFilter + items.countP PageItem.isFiltered

theorem PageState.after_append (state : PageState) (items items' : List PageItem) :
    state.after request startAfter (items++items') =
      (state.after request startAfter items).after request startAfter items' := by
  simp [PageState.after,Nat.add_assoc]

theorem PageState.step_eq {state : PageState} {item : PageItem}
    (h : state.omittedByResponseFilter+1 ≤ u64Max) :
    state.step request startAfter item = .ok (state.after request startAfter [item]) := by
  cases item with
  | skipped => rfl
  | filtered =>
    rw [PageState.step,PageState.omit,checkedAdd_of_le h]
    rfl
  | candidate c =>
    rw [PageState.step,PageState.offer,PageState.after]
    cases hpast : startAfter.any fun cursor => decide (c.position ≤ cursor.position) with
    | true => simp [PageItem.candidate?,beyond,hpast,PageItem.isFiltered]
    | false => simp [PageItem.candidate?,beyond,hpast,PageItem.isFiltered]

/-- Fewer items than the counter can hold never overflow it. -/
theorem foldlM_items {α : Type} {f : PageState → α → Except ApiError PageState}
    {item : α → PageItem} (hf : ∀ state a, f state a = state.step request startAfter (item a))
    {l : List α} {state : PageState} (h : state.omittedByResponseFilter+l.length ≤ u64Max) :
    l.foldlM f state = .ok (state.after request startAfter (l.map item)) := by
  induction l generalizing state with
  | nil => rfl
  | cons a l ih =>
    rw [List.length_cons] at h
    rw [List.foldlM_cons,hf,PageState.step_eq (by omega)]
    have hcount : (state.after request startAfter [item a]).omittedByResponseFilter ≤
        state.omittedByResponseFilter+1 := by
      rw [PageState.after]
      exact Nat.add_le_add_left (List.countP_le_length) _
    change l.foldlM f (state.after request startAfter [item a]) = _
    rw [ih (by omega),List.map_cons]
    exact congrArg Except.ok (PageState.after_append state [item a] (l.map item)).symm

/-- The items of an answer, the observations first. -/
def answerItems (app : EventsApp) (request : EventsRequest) (observations : List EventObservation)
    (facts : List CanonicalEventFact) : List PageItem :=
  observations.map (observationItem app request) ++ facts.map (canonicalItem app request)

/-- Everything that the pages of a query serve, in order. -/
def eventItems (app : EventsApp) (request : EventsRequest) (observations : List EventObservation)
    (facts : List CanonicalEventFact) : List PageCandidate :=
  sortByKey PageCandidate.position
    ((answerItems app request observations facts).filterMap PageItem.candidate?)

variable {view : EventsView} {observations : List EventObservation}
  {facts : List CanonicalEventFact}

theorem pageItems_eq (hobservations : view.queryRange app.charge request.range = .ok observations)
    (hfacts : view.queryCanonicalFacts request.range = .ok facts) :
    pageItems app view request startAfter = .ok ⟨
      (sortByKey PageCandidate.position
        (((answerItems app request observations facts).filterMap PageItem.candidate?).filter
          (beyond startAfter))).take (request.limit+1),
      (answerItems app request observations facts).countP PageItem.isFiltered⟩ := by
  have hlen := (queryRange_spec hobservations).2.2
  have hlen' := (queryCanonicalFacts_spec hfacts).2.2
  rw [queryMaxObservations] at hlen hlen'
  have hmax : 2*1048576 ≤ u64Max := by decide
  have hfirst : observations.foldlM (foldObservation app request startAfter) ⟨[],0⟩ =
      .ok (PageState.after ⟨[],0⟩ request startAfter
        (observations.map (observationItem app request))) :=
    foldlM_items foldObservation_eq (by dsimp only; omega)
  have hcount : (PageState.after ⟨[],0⟩ request startAfter
      (observations.map (observationItem app request))).omittedByResponseFilter ≤
        observations.length := by
    rw [PageState.after]
    dsimp only
    rw [Nat.zero_add]
    exact List.countP_le_length.trans_eq (List.length_map _)
  have hsecond := @foldlM_items request startAfter _ _ _ (@foldCanonical_eq app request startAfter) facts
    (PageState.after ⟨[],0⟩ request startAfter (observations.map (observationItem app request)))
    (by omega)
  rw [pageItems,hobservations,hfacts]
  dsimp only
  rw [hfirst]
  change facts.foldlM (foldCanonical app request startAfter) _ = _
  rw [hsecond,← PageState.after_append,PageState.after,foldl_retain,Nat.zero_add]
  rfl

/-- Cutting before sorting is cutting after it. -/
theorem sortByKey_filter {l : List PageCandidate} {q : PageCandidate → Bool}
    (h : (l.map PageCandidate.position).Nodup) :
    sortByKey PageCandidate.position (l.filter q) =
      (sortByKey PageCandidate.position l).filter q := by
  have hperm : (sortByKey PageCandidate.position (l.filter q)).Perm
      ((sortByKey PageCandidate.position l).filter q) :=
    (sortByKey_perm _).trans ((sortByKey_perm l).filter q).symm
  refine List.Perm.eq_of_pairwise (fun a b _ _ hab hba => absurd hba (lt_asymm hab))
    (sortByKey_strict ?_) ((sortByKey_strict h).filter q) hperm
  exact h.sublist (List.filter_sublist.map _)

end Items

end PgKronika
