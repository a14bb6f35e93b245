import PgKronika.EventPaging
import PgKronika.Sha256

/-! Following the cursors of the events endpoint. The pages cut one ascending list of items
into consecutive pieces, whatever other requests do to the registry in between. -/
namespace PgKronika

open ByteCodec SmallestKept CheckedArith

section Positions

variable {app : EventsApp} {request : EventsRequest} {startAfter : Option EventsCursor}
  {observations : List EventObservation} {facts : List CanonicalEventFact}

/-- The bytes whose digests tell the items of an answer apart. -/
def instanceInputs (observations : List EventObservation) (facts : List CanonicalEventFact) :
    Set Bytes :=
  {b | (∃ o ∈ observations, b = eventInstanceInput o) ∨
    ∃ f ∈ facts, b = canonicalInstanceInput f}

theorem observationItem_candidate {o : EventObservation} {c : PageCandidate} :
    (observationItem app request o).candidate? = some c ↔
      c.source = .observation o ∧ classify o = some c.notable ∧
        passesResponseFilter o request = true ∧
        eventPosition app.sha256 o c.notable = some c.position := by
  rw [observationItem]
  cases hclass : classify o with
  | none => simp [PageItem.candidate?]
  | some n =>
    dsimp only
    cases hpass : passesResponseFilter o request with
    | false => simp [PageItem.candidate?]
    | true =>
      rw [if_neg (by decide)]
      constructor
      · intro h
        cases hposition : eventPosition app.sha256 o n with
        | none =>
          rw [hposition] at h
          cases h
        | some position =>
          rw [hposition] at h
          obtain rfl := Option.some.inj h
          exact ⟨rfl,rfl,rfl,hposition⟩
      · rintro ⟨hsource,hn,_,hposition⟩
        obtain ⟨position,source,notable⟩ := c
        obtain rfl := Option.some.inj hn
        obtain rfl := hsource
        rw [hposition]
        rfl

theorem canonicalItem_candidate {f : CanonicalEventFact} {c : PageCandidate} :
    (canonicalItem app request f).candidate? = some c ↔
      c.source = .canonical f ∧ f.payload.isDerived = true ∧ classifyFact f = some c.notable ∧
        passesCanonicalResponseFilter f request = true ∧
        canonicalPosition app.sha256 f = c.position := by
  rw [canonicalItem]
  cases hderived : f.payload.isDerived with
  | false => simp [PageItem.candidate?]
  | true =>
    rw [if_neg (by decide)]
    cases hclass : classifyFact f with
    | none => simp [PageItem.candidate?]
    | some n =>
      dsimp only
      cases hpass : passesCanonicalResponseFilter f request with
      | false => simp [PageItem.candidate?]
      | true =>
        rw [if_neg (by decide)]
        constructor
        · intro h
          obtain rfl := Option.some.inj h
          exact ⟨rfl,rfl,rfl,rfl,rfl⟩
        · rintro ⟨hsource,_,hn,_,hposition⟩
          obtain ⟨position,source,notable⟩ := c
          obtain rfl := Option.some.inj hn
          obtain rfl := hsource
          obtain rfl := hposition
          rfl

theorem observation_instance {o : EventObservation} {c : PageCandidate}
    (h : (observationItem app request o).candidate? = some c) :
    c.position.eventInstanceId = app.sha256 (eventInstanceInput o) := by
  obtain ⟨_,hclass,_,hposition⟩ := observationItem_candidate.mp h
  obtain ⟨eventId,hp⟩ := eventPosition_of_classify app.sha256 hclass
  rw [Option.some.inj (hposition.symm.trans hp)]
  rfl

theorem canonical_instance {f : CanonicalEventFact} {c : PageCandidate}
    (h : (canonicalItem app request f).candidate? = some c) :
    c.position.eventInstanceId = app.sha256 (canonicalInstanceInput f) := by
  obtain ⟨_,_,_,_,hposition⟩ := canonicalItem_candidate.mp h
  rw [← hposition]
  rfl

/-- Items have positions of their own. -/
theorem positions_nodup (hobservations : (observations.map EventObservation.observationId).Nodup)
    (hfacts : (facts.map CanonicalEventFact.factId).Nodup)
    (hinj : Set.InjOn app.sha256 (instanceInputs observations facts)) :
    (((answerItems app request observations facts).filterMap PageItem.candidate?).map
      PageCandidate.position).Nodup := by
  have ho (o : EventObservation) (hmem : o ∈ observations) :
      eventInstanceInput o ∈ instanceInputs observations facts := .inl ⟨o,hmem,rfl⟩
  have hf (f : CanonicalEventFact) (hmem : f ∈ facts) :
      canonicalInstanceInput f ∈ instanceInputs observations facts := .inr ⟨f,hmem,rfl⟩
  rw [answerItems,List.filterMap_append,List.filterMap_map,List.filterMap_map,List.Nodup,
    List.pairwise_map,List.pairwise_append,List.pairwise_filterMap,List.pairwise_filterMap]
  refine ⟨?_,?_,?_⟩
  · refine (List.pairwise_map.mp hobservations).imp_of_mem fun ha hb hne c hc d hd hcd => hne ?_
    have hid := congrArg EventFactPosition.eventInstanceId hcd
    rw [observation_instance hc,observation_instance hd] at hid
    exact eventInstanceInput_injective (hinj (ho _ ha) (ho _ hb) hid)
  · refine (List.pairwise_map.mp hfacts).imp_of_mem fun ha hb hne c hc d hd hcd => hne ?_
    have hid := congrArg EventFactPosition.eventInstanceId hcd
    rw [canonical_instance hc,canonical_instance hd] at hid
    exact canonicalInstanceInput_injective (hinj (hf _ ha) (hf _ hb) hid)
  · intro c hc d hd hcd
    obtain ⟨o,hmem,hc⟩ := List.mem_filterMap.mp hc
    obtain ⟨f,hmem',hd⟩ := List.mem_filterMap.mp hd
    have hid := congrArg EventFactPosition.eventInstanceId hcd
    rw [observation_instance hc,canonical_instance hd] at hid
    exact eventInstanceInput_ne o f (hinj (ho o hmem) (hf f hmem') hid)

/-- A candidate of the view is a notable observation or derived fact in the range that passes
the filters, at its position. -/
def Serves (app : EventsApp) (view : EventsView) (request : EventsRequest) (c : PageCandidate) :
    Prop :=
  match c.source with
  | .observation o =>
    (o ∈ view.observations ∧ observationInRange o request.range = true) ∧
      classify o = some c.notable ∧ passesResponseFilter o request = true ∧
      eventPosition app.sha256 o c.notable = some c.position
  | .canonical f =>
    (∃ derived, view.derivedFacts request.range = .ok derived ∧ f ∈ derived) ∧
      f.payload.isDerived = true ∧ classifyFact f = some c.notable ∧
      passesCanonicalResponseFilter f request = true ∧
      canonicalPosition app.sha256 f = c.position

variable {view : EventsView}

theorem mem_eventItems (hobservations : view.queryRange app.charge request.range = .ok observations)
    (hfacts : view.queryCanonicalFacts request.range = .ok facts) (c : PageCandidate) :
    c ∈ eventItems app request observations facts ↔ Serves app view request c := by
  have hobs := (queryRange_spec hobservations).1
  obtain ⟨derived,hderived,hfact⟩ := (queryCanonicalFacts_spec hfacts).1
  rw [eventItems,(sortByKey_perm _).mem_iff,answerItems,List.filterMap_append,List.mem_append,
    List.filterMap_map,List.filterMap_map,List.mem_filterMap,List.mem_filterMap]
  simp only [Function.comp_apply,observationItem_candidate,canonicalItem_candidate]
  rw [Serves]
  cases hsource : c.source with
  | observation o =>
    simp only [PageCandidateSource.observation.injEq,reduceCtorEq,false_and,and_false,
      exists_false,or_false]
    rw [← hobs o]
    constructor
    · rintro ⟨o,hmem,rfl,hrest⟩
      exact ⟨hmem,hrest⟩
    · rintro ⟨hmem,hrest⟩
      exact ⟨o,hmem,rfl,hrest⟩
  | canonical f =>
    simp only [PageCandidateSource.canonical.injEq,reduceCtorEq,false_and,and_false,
      exists_false,false_or]
    constructor
    · rintro ⟨f,hmem,rfl,hrest⟩
      exact ⟨⟨derived,hderived,(hfact f).mp hmem⟩,hrest⟩
    · rintro ⟨⟨derived',hderived',hmem⟩,hrest⟩
      obtain rfl := Except.ok.inj (hderived.symm.trans hderived')
      exact ⟨f,(hfact f).mpr hmem,rfl,hrest⟩

/-- What is notable has a payload on the wire. -/
theorem eventPayload_of_classify {o : EventObservation} {n : NotableClass}
    (h : classify o = some n) : ∃ payload, eventPayload o.payload = some payload := by
  rw [classify] at h
  split at h
  · next he => exact ⟨_,by rw [he]; rfl⟩
  · next he => exact ⟨_,by rw [he]; rfl⟩
  · next he => exact ⟨_,by rw [he]; rfl⟩
  · cases h

theorem canonicalPayload_of_isDerived {f : CanonicalEventFact}
    (h : f.payload.isDerived = true) : ∃ payload, canonicalPayload f = some payload := by
  rw [canonicalPayload]
  cases hpayload : f.payload with
  | observed =>
    rw [hpayload] at h
    cases h
  | counterDelta value => exact ⟨_,rfl⟩
  | stateTransition value => exact ⟨_,rfl⟩
  | capacity value => exact ⟨_,rfl⟩
  | marker => exact ⟨_,rfl⟩

/-- Every item of the view reaches the wire. -/
theorem project_of_serves {c : PageCandidate} (h : Serves app view request c) :
    ∃ event, c.project app = some event := by
  rw [Serves] at h
  rw [PageCandidate.project]
  cases hsource : c.source with
  | observation o =>
    rw [hsource] at h
    obtain ⟨_,hclass,_,hposition⟩ := h
    obtain ⟨payload,hpayload⟩ := eventPayload_of_classify hclass
    dsimp only
    rw [PgKronika.project,hposition,hpayload]
    exact ⟨_,rfl⟩
  | canonical f =>
    rw [hsource] at h
    obtain ⟨_,hderived,_⟩ := h
    obtain ⟨payload,hpayload⟩ := canonicalPayload_of_isDerived hderived
    dsimp only
    rw [projectCanonical,hpayload]
    exact ⟨_,rfl⟩

end Positions

section Pages

variable {app : EventsApp} {request : EventsRequest} {startAfter : Option EventsCursor}
  {observations : List EventObservation} {facts : List CanonicalEventFact} {view : EventsView}

theorem eventItems_strict (hobservations : view.queryRange app.charge request.range = .ok observations)
    (hfacts : view.queryCanonicalFacts request.range = .ok facts)
    (hinj : Set.InjOn app.sha256 (instanceInputs observations facts)) :
    (eventItems app request observations facts).Pairwise fun c d => c.position < d.position :=
  sortByKey_strict (positions_nodup (queryRange_spec hobservations).2.1
    (queryCanonicalFacts_spec hfacts).2.1 hinj)

/-- The cursor stands behind the first `m` items. -/
def StartsAt (items : List PageCandidate) : Option EventsCursor → ℕ → Prop
  | none,m => m = 0
  | some cursor,m => ∃ i, ∃ h : i < items.length, m = i+1 ∧ cursor.position = items[i].position

/-- How many notable items the filters keep out of every page. -/
def omittedItems (app : EventsApp) (request : EventsRequest)
    (observations : List EventObservation) (facts : List CanonicalEventFact) : ℕ :=
  (answerItems app request observations facts).countP PageItem.isFiltered

/-- A page is cut where its cursor stands. -/
theorem pageItems_at (hobservations : view.queryRange app.charge request.range = .ok observations)
    (hfacts : view.queryCanonicalFacts request.range = .ok facts)
    (hinj : Set.InjOn app.sha256 (instanceInputs observations facts)) {m : ℕ}
    (hstart : StartsAt (eventItems app request observations facts) startAfter m) :
    pageItems app view request startAfter =
      .ok ⟨((eventItems app request observations facts).drop m).take (request.limit+1),
        omittedItems app request observations facts⟩ := by
  have hstrict := eventItems_strict hobservations hfacts hinj
  have hnodup := @positions_nodup app request _ _ (queryRange_spec hobservations).2.1
    (queryCanonicalFacts_spec hfacts).2.1 hinj
  rw [pageItems_eq hobservations hfacts,sortByKey_filter hnodup]
  change Except.ok (PageState.mk (((eventItems app request observations facts).filter
    (beyond startAfter)).take (request.limit+1)) _) = _
  suffices h : (eventItems app request observations facts).filter (beyond startAfter) =
      (eventItems app request observations facts).drop m by
    rw [h]
    rfl
  cases startAfter with
  | none =>
    obtain rfl : m = 0 := hstart
    rw [List.drop_zero,List.filter_eq_self]
    exact fun _ _ => rfl
  | some cursor =>
    obtain ⟨i,hi,rfl,hposition⟩ := hstart
    rw [← filter_behind hstrict hi]
    refine List.filter_congr fun c _ => ?_
    rw [beyond,Option.any_some,hposition,← decide_not]
    exact decide_eq_decide.mpr not_le

/-- A map that always succeeds. -/
theorem mapM_of_forall {α β : Type} {f : α → Option β} {l : List α}
    (h : ∀ a ∈ l, ∃ b, f a = some b) : ∃ bs, l.mapM f = some bs ∧ bs.map some = l.map f := by
  induction l with
  | nil => exact ⟨[],rfl,rfl⟩
  | cons a l ih =>
    obtain ⟨b,hb⟩ := h a (List.mem_cons_self ..)
    obtain ⟨bs,hbs,hmap⟩ := ih fun c hc => h c (List.mem_cons_of_mem _ hc)
    refine ⟨b::bs,?_,?_⟩
    · rw [List.mapM_cons,hb,hbs]
      rfl
    · rw [List.map_cons,List.map_cons,hb,hmap]

/-- The cursor that continues behind a position. -/
def EventsCursor.behind (lease : CursorLease) (queryHash : Digest) (position : EventFactPosition) :
    EventsCursor :=
  ⟨lease,queryHash,position.sortTsUs,position.eventId,position.eventInstanceId⟩

/-- The page that stands behind the first `m` items. -/
structure IsPage (app : EventsApp) (request : EventsRequest) (items : List PageCandidate)
    (omitted m : ℕ) (response : EventsResponse) : Prop where
  events : response.events.map some = ((items.drop m).take request.limit).map
    (PageCandidate.project app)
  nextCursor : response.nextCursor = none ↔ items.length ≤ m+request.limit
  omittedByResponseFilter : response.omittedByResponseFilter = omitted

theorem IsPage.length_le {items : List PageCandidate} {omitted m : ℕ} {response : EventsResponse}
    (h : IsPage app request items omitted m response) :
    response.events.length ≤ request.limit := by
  have hlen := congrArg List.length h.events
  rw [List.length_map,List.length_map,List.length_take] at hlen
  omega

/-- One page, and the cursor behind it. -/
theorem renderEvents_page
    (hobservations : view.queryRange app.charge request.range = .ok observations)
    (hfacts : view.queryCanonicalFacts request.range = .ok facts)
    (hinj : Set.InjOn app.sha256 (instanceInputs observations facts)) {m : ℕ}
    (hstart : StartsAt (eventItems app request observations facts) startAfter m)
    {registry : EventsRegistry} {queryHash : Digest} {pinSecs : UInt64} {lease : CursorLease}
    (hlease : m+request.limit < (eventItems app request observations facts).length →
      (pageLease app registry view startAfter pinSecs).1 = .ok lease) :
    ∃ response, (renderEvents app registry view request startAfter queryHash pinSecs).1 =
        .ok response ∧
      IsPage app request (eventItems app request observations facts)
        (omittedItems app request observations facts) m response ∧
      ∀ token, response.nextCursor = some token →
        ∃ i, ∃ h : i < (eventItems app request observations facts).length,
          i+1 = m+request.limit ∧ token = (EventsCursor.behind lease queryHash
            (eventItems app request observations facts)[i].position).encode app.sha256
              app.secret := by
  have hserves := mem_eventItems hobservations hfacts
  generalize hitems : eventItems app request observations facts = items at *
  have hpage : ((items.drop m).take (request.limit+1)).take request.limit =
      (items.drop m).take request.limit := by
    rw [List.take_take,Nat.min_eq_left (Nat.le_succ _)]
  obtain ⟨events,hevents,hmap⟩ := @mapM_of_forall _ _ (PageCandidate.project app)
    ((items.drop m).take request.limit) fun c hc =>
      project_of_serves ((hserves c).mp (List.mem_of_mem_drop (List.mem_of_mem_take hc)))
  have hlimit := request.limitPos
  rw [renderEvents,pageItems_at hobservations hfacts hinj (hitems ▸ hstart),hitems]
  dsimp only
  rw [hpage,hevents]
  dsimp only
  rw [List.length_take,List.length_take,List.length_drop]
  by_cases hmore : m+request.limit < items.length
  · have hget : ((items.drop m).take request.limit).getLast? = some items[m+request.limit-1] := by
      rw [List.getLast?_eq_getElem?,List.length_take,List.length_drop,
        List.getElem?_take_of_lt (by omega),List.getElem?_drop,List.getElem?_eq_getElem (by omega)]
      congr 2
      omega
    have hpin := hlease hmore
    rw [if_pos (by omega),hget]
    dsimp only
    rcases hp : pageLease app registry view startAfter pinSecs with ⟨result,registry'⟩
    rw [hp] at hpin
    obtain rfl : result = .ok lease := hpin
    refine ⟨_,rfl,⟨hmap,?_,rfl⟩,?_⟩
    · exact iff_of_false (by simp) (by omega)
    · intro token htoken
      exact ⟨m+request.limit-1,by omega,by omega,(Option.some.inj htoken).symm⟩
  · rw [if_neg (by omega)]
    refine ⟨_,rfl,⟨hmap,iff_of_true rfl (by omega),rfl⟩,?_⟩
    intro token htoken
    cases htoken

end Pages

section Following

/-- What a request of the client meets: the registry as the requests served in between have
left it, the view that the loader holds by then, and the clock. -/
structure Turn where
  registry : EventsRegistry
  loaded : EventsView
  nowSecs : UInt64
  pinSecs : UInt64

def Turn.serve (turn : Turn) (app : EventsApp) (request : EventsRequest)
    (token : Option String) : Except ApiError EventsResponse :=
  (serveEvents app turn.registry turn.loaded { request with cursor := token } turn.nowSecs
    turn.pinSecs).1

/-- The lease has not expired and the view has not been evicted. -/
def Turn.Keeps (turn : Turn) (view : EventsView) (lease : CursorLease) : Prop :=
  turn.nowSecs < lease.expiresAt ∧
    ∃ pinned, turn.registry.views.lookup view.factSetId = some pinned ∧ pinned.view = view ∧
      turn.nowSecs < pinned.expiresAt

/-- The client follows `next_cursor` from turn `k` on until it is absent. -/
inductive FollowsCursors (app : EventsApp) (request : EventsRequest) (turns : ℕ → Turn) :
    ℕ → Option String → List EventsResponse → Prop
  | last {k : ℕ} {token : Option String} {response : EventsResponse}
      (hserve : (turns k).serve app request token = .ok response)
      (hnone : response.nextCursor = none) : FollowsCursors app request turns k token [response]
  | more {k : ℕ} {token : Option String} {response : EventsResponse} {next : String}
      {rest : List EventsResponse} (hserve : (turns k).serve app request token = .ok response)
      (hnext : response.nextCursor = some next)
      (hrest : FollowsCursors app request turns (k+1) (some next) rest) :
      FollowsCursors app request turns k token (response::rest)

variable {app : EventsApp} {request : EventsRequest} {turns : ℕ → Turn}
  {observations : List EventObservation} {facts : List CanonicalEventFact} {view : EventsView}

/-- Following is determined by the turns. -/
theorem FollowsCursors.unique {k : ℕ} {token : Option String} {rs rs' : List EventsResponse}
    (h : FollowsCursors app request turns k token rs) (h' : FollowsCursors app request turns k token rs') :
    rs = rs' := by
  induction h generalizing rs' with
  | last hserve hnone =>
    cases h' with
    | last hserve' _ => rw [Except.ok.inj (hserve.symm.trans hserve')]
    | more hserve' hnext' _ =>
      rw [Except.ok.inj (hserve.symm.trans hserve'),hnext'] at hnone
      cases hnone
  | more hserve hnext hrest ih =>
    cases h' with
    | last hserve' hnone' =>
      rw [Except.ok.inj (hserve.symm.trans hserve'),hnone'] at hnext
      cases hnext
    | more hserve' hnext' hrest' =>
      obtain rfl := Except.ok.inj (hserve.symm.trans hserve')
      obtain rfl := Option.some.inj (hnext.symm.trans hnext')
      rw [ih hrest']

/-- The token behind the first `m` items. -/
def TokenAt (app : EventsApp) (request : EventsRequest) (items : List PageCandidate)
    (lease : CursorLease) : Option String → ℕ → Prop
  | none,m => m = 0
  | some token,m => ∃ i, ∃ h : i < items.length, m = i+1 ∧
      token = (EventsCursor.behind lease (eventsQueryHash app.sha256 request)
        items[i].position).encode app.sha256 app.secret

/-- The lease and the view that following needs: a granted pin at the first turn when one page
is not enough, and a view kept at every later turn that has items left. -/
structure Leased (app : EventsApp) (request : EventsRequest) (turns : ℕ → Turn)
    (view : EventsView) (count : ℕ) (lease : CursorLease) : Prop where
  loaded : (turns 0).loaded = view
  granted : request.limit < count → (pinEvents app
    ((turns 0).registry.pruneExpired (turns 0).nowSecs) view (turns 0).pinSecs).1 = .ok lease
  kept : ∀ k, 0 < k → k*request.limit < count → (turns k).Keeps view lease

/-- A cursor that is accepted continues on the view that it resolves to. -/
theorem serveEvents_continues {registry : EventsRegistry} {loaded : EventsView} {token : String}
    {nowSecs pinSecs : UInt64} {cursor : EventsCursor}
    (hdecode : EventsCursor.decode app.sha256 app.secret token
      (eventsQueryHash app.sha256 request) nowSecs = .ok cursor)
    (hresolve : ((registry.pruneExpired nowSecs).resolve cursor.lease.factSetId nowSecs).1 =
      .ok view) :
    serveEvents app registry loaded { request with cursor := some token } nowSecs pinSecs =
      renderEvents app ((registry.pruneExpired nowSecs).resolve cursor.lease.factSetId nowSecs).2
        view request (some cursor) (eventsQueryHash app.sha256 request) pinSecs := by
  have hhash : eventsQueryHash app.sha256 { request with cursor := some token } =
      eventsQueryHash app.sha256 request := rfl
  rw [serveEvents]
  dsimp only
  rw [hhash,hdecode]
  dsimp only
  rcases hr : (registry.pruneExpired nowSecs).resolve cursor.lease.factSetId nowSecs with
    ⟨result,rest⟩
  rw [hr] at hresolve
  obtain rfl : result = .ok view := hresolve
  rfl

/-- One turn serves the page behind its token. -/
theorem serve_page {lease : CursorLease}
    (hobservations : view.queryRange app.charge request.range = .ok observations)
    (hfacts : view.queryCanonicalFacts request.range = .ok facts)
    (hinj : Set.InjOn app.sha256 (instanceInputs observations facts))
    (hleased : Leased app request turns view (eventItems app request observations facts).length
      lease) {k : ℕ} {token : Option String}
    (htoken : TokenAt app request (eventItems app request observations facts) lease token
      (k*request.limit))
    (hleft : 0 < k → k*request.limit < (eventItems app request observations facts).length) :
    ∃ response, (turns k).serve app request token = .ok response ∧
      IsPage app request (eventItems app request observations facts)
        (omittedItems app request observations facts) (k*request.limit) response ∧
      ∀ next, response.nextCursor = some next →
        TokenAt app request (eventItems app request observations facts) lease (some next)
          ((k+1)*request.limit) := by
  have hlimit := request.limitPos
  have hnext (response : EventsResponse)
      (h : ∀ token, response.nextCursor = some token →
        ∃ i, ∃ h : i < (eventItems app request observations facts).length,
          i+1 = k*request.limit+request.limit ∧ token = (EventsCursor.behind lease
            (eventsQueryHash app.sha256 request)
            (eventItems app request observations facts)[i].position).encode app.sha256
              app.secret) (next : String) (hn : response.nextCursor = some next) :
      TokenAt app request (eventItems app request observations facts) lease (some next)
        ((k+1)*request.limit) := by
    obtain ⟨i,hi,heq,ht⟩ := h next hn
    exact ⟨i,hi,by rw [Nat.succ_mul,← heq],ht⟩
  cases token with
  | none =>
    have hk : k = 0 := (Nat.mul_eq_zero.mp htoken).resolve_right (by omega)
    subst hk
    have hview := hleased.loaded
    obtain ⟨response,hrender,hpage,hcursor⟩ := @renderEvents_page app request none observations
      facts view hobservations hfacts hinj (0*request.limit) (Nat.zero_mul _)
      ((turns 0).registry.pruneExpired (turns 0).nowSecs) (eventsQueryHash app.sha256 request)
      (turns 0).pinSecs lease fun hmore => hleased.granted (by omega)
    refine ⟨response,?_,hpage,hnext response hcursor⟩
    rw [Turn.serve,serveEvents,hview]
    exact hrender
  | some token =>
    obtain ⟨i,hi,hm,rfl⟩ := htoken
    have hkpos : 0 < k := by
      refine Nat.pos_of_ne_zero fun hk => ?_
      rw [hk,Nat.zero_mul] at hm
      omega
    obtain ⟨hlive,pinned,hlookup,hpinned,hexpires⟩ := hleased.kept k hkpos (hleft hkpos)
    have hmore : request.limit < (eventItems app request observations facts).length :=
      (Nat.le_mul_of_pos_left _ hkpos).trans_lt (hleft hkpos)
    obtain ⟨rfl,hclock⟩ := pin_ok (hleased.granted hmore)
    have hissued : (turns 0).pinSecs ≤ (turns 0).pinSecs+app.config.ttlSecs := by
      rw [UInt64.le_iff_toNat_le,UInt64.toNat_add,Nat.mod_eq_of_lt hclock]
      omega
    obtain ⟨response,hrender,hpage,hcursor⟩ := @renderEvents_page app request
      (some (EventsCursor.behind _ (eventsQueryHash app.sha256 request)
        (eventItems app request observations facts)[i].position)) observations
      facts view hobservations hfacts hinj (k*request.limit) ⟨i,hi,hm,rfl⟩
      ((((turns k).registry.pruneExpired (turns k).nowSecs).resolve view.factSetId
        (turns k).nowSecs).2) (eventsQueryHash app.sha256 request) (turns k).pinSecs
      ⟨view.factSetId,(turns 0).pinSecs,(turns 0).pinSecs+app.config.ttlSecs⟩ fun _ => rfl
    refine ⟨response,?_,hpage,hnext response hcursor⟩
    have hdecode := @decode_encode app.sha256 app.secret (EventsCursor.behind
      ⟨view.factSetId,(turns 0).pinSecs,(turns 0).pinSecs+app.config.ttlSecs⟩
      (eventsQueryHash app.sha256 request)
      (eventItems app request observations facts)[i].position) (turns k).nowSecs hissued hlive
    have hresolve := resolve_held (pruneExpired_lookup hlookup hexpires) hexpires
    rw [hpinned] at hresolve
    rw [Turn.serve,serveEvents_continues hdecode hresolve]
    exact hrender

/-- Following from the first `k*limit` items on serves the rest of them, page after page. -/
theorem follows_from {lease : CursorLease}
    (hobservations : view.queryRange app.charge request.range = .ok observations)
    (hfacts : view.queryCanonicalFacts request.range = .ok facts)
    (hinj : Set.InjOn app.sha256 (instanceInputs observations facts))
    (hleased : Leased app request turns view (eventItems app request observations facts).length
      lease) (left : ℕ) {k : ℕ} {token : Option String}
    (hcount : (eventItems app request observations facts).length-k*request.limit ≤ left)
    (htoken : TokenAt app request (eventItems app request observations facts) lease token
      (k*request.limit))
    (hleft : 0 < k → k*request.limit < (eventItems app request observations facts).length) :
    ∃ responses, FollowsCursors app request turns k token responses ∧
      (responses.flatMap EventsResponse.events).map some =
        ((eventItems app request observations facts).drop (k*request.limit)).map
          (PageCandidate.project app) ∧
      ∀ i response, responses[i]? = some response →
        IsPage app request (eventItems app request observations facts)
          (omittedItems app request observations facts) ((k+i)*request.limit) response := by
  induction left using Nat.strong_induction_on generalizing k token with
  | _ left ih =>
    obtain ⟨response,hserve,hpage,hnext⟩ := serve_page hobservations hfacts hinj hleased htoken
      hleft
    have hlimit := request.limitPos
    have hsucc : (k+1)*request.limit = k*request.limit+request.limit := Nat.succ_mul _ _
    cases hcursor : response.nextCursor with
    | none =>
      have hend := hpage.nextCursor.mp hcursor
      refine ⟨[response],.last hserve hcursor,?_,?_⟩
      · rw [List.flatMap_singleton,hpage.events,List.take_of_length_le]
        rw [List.length_drop]
        omega
      · intro i r hr
        obtain ⟨hi,rfl⟩ := List.getElem?_eq_some_iff.mp hr
        obtain rfl : i = 0 := by simpa using hi
        exact hpage
    | some next =>
      have hmore : ¬(eventItems app request observations facts).length ≤
          k*request.limit+request.limit := fun hle => by
        rw [hpage.nextCursor.mpr hle] at hcursor
        cases hcursor
      obtain ⟨rest,hrest,hevents,hpages⟩ := ih (left-request.limit) (by omega) (by omega)
        (hnext next hcursor) fun _ => by omega
      refine ⟨response::rest,.more hserve hcursor hrest,?_,?_⟩
      · rw [List.flatMap_cons,List.map_append,hpage.events,hevents,hsucc,← List.map_append,
          ← List.drop_drop,List.take_append_drop]
      · intro i r hr
        cases i with
        | zero =>
          obtain rfl := Option.some.inj hr
          exact hpage
        | succ i =>
          have h := hpages i r hr
          rw [Nat.add_right_comm,Nat.add_assoc k i 1] at h
          exact h

end Following

section Acceptance

variable {app : EventsApp} {request : EventsRequest}

/-- The endpoint answered a request with this cursor. -/
def Issued (app : EventsApp) (request : EventsRequest) (token : String) : Prop :=
  ∃ registry loaded nowSecs pinSecs response,
    (serveEvents app registry loaded request nowSecs pinSecs).1 = .ok response ∧
      response.nextCursor = some token

theorem renderEvents_token {registry : EventsRegistry} {view : EventsView}
    {startAfter : Option EventsCursor} {queryHash : Digest} {pinSecs : UInt64}
    {response : EventsResponse} {token : String}
    (h : (renderEvents app registry view request startAfter queryHash pinSecs).1 = .ok response)
    (htoken : response.nextCursor = some token) :
    ∃ cursor : EventsCursor, cursor.queryHash = queryHash ∧
      token = cursor.encode app.sha256 app.secret := by
  rw [renderEvents] at h
  cases hitems : pageItems app view request startAfter with
  | error e =>
    rw [hitems] at h
    cases h
  | ok state =>
    rw [hitems] at h
    dsimp only at h
    cases hevents : (state.notable.take request.limit).mapM (PageCandidate.project app) with
    | none =>
      rw [hevents] at h
      cases h
    | some events =>
      rw [hevents] at h
      dsimp only at h
      by_cases hmore : (state.notable.take request.limit).length < state.notable.length
      · rw [if_pos hmore] at h
        cases hlast : (state.notable.take request.limit).getLast? with
        | none =>
          rw [hlast] at h
          obtain rfl := Except.ok.inj h
          cases htoken
        | some candidate =>
          rw [hlast] at h
          dsimp only at h
          rcases hlease : pageLease app registry view startAfter pinSecs with ⟨_ | lease,rest⟩
          · rw [hlease] at h
            cases h
          · rw [hlease] at h
            obtain rfl := Except.ok.inj h
            exact ⟨_,rfl,(Option.some.inj htoken).symm⟩
      · rw [if_neg hmore] at h
        obtain rfl := Except.ok.inj h
        cases htoken

/-- An issued cursor carries the query of its request. -/
theorem issued_cursor {token : String} (h : Issued app request token) :
    ∃ cursor : EventsCursor, cursor.queryHash = eventsQueryHash app.sha256 request ∧
      token = cursor.encode app.sha256 app.secret := by
  obtain ⟨registry,loaded,nowSecs,pinSecs,response,hserve,htoken⟩ := h
  rw [serveEvents] at hserve
  cases hcursor : request.cursor with
  | none =>
    rw [hcursor] at hserve
    exact renderEvents_token hserve htoken
  | some token =>
    rw [hcursor] at hserve
    dsimp only at hserve
    cases hdecode : EventsCursor.decode app.sha256 app.secret token
        (eventsQueryHash app.sha256 request) nowSecs with
    | error e =>
      rw [hdecode] at hserve
      cases hserve
    | ok cursor =>
      rw [hdecode] at hserve
      dsimp only at hserve
      rcases hresolve : (registry.pruneExpired nowSecs).resolve cursor.lease.factSetId nowSecs with
        ⟨_ | view,rest⟩
      · rw [hresolve] at hserve
        cases hserve
      · rw [hresolve] at hserve
        exact renderEvents_token hserve htoken

/-- A cursor is accepted for the query hash that it was issued under. -/
theorem accepted_hash {token issued : String} {expected : Digest} {nowSecs : UInt64}
    {cursor : EventsCursor} (hissued : Issued app request issued)
    (hsame : Base64Url.decode issued = Base64Url.decode token)
    (h : EventsCursor.decode app.sha256 app.secret token expected nowSecs = .ok cursor) :
    expected = eventsQueryHash app.sha256 request := by
  obtain ⟨origin,horigin,rfl⟩ := issued_cursor hissued
  obtain ⟨payload,hpayload,rfl,hexpected,_⟩ := decode_ok h
  rw [← hsame,EventsCursor.encode,Base64Url.decode_encode] at hpayload
  have hbytes := Option.some.inj hpayload
  have hsplit := List.append_inj' hbytes (by rw [Digest.asBytes_length,Digest.asBytes_length])
  rw [← hsplit.1,ofPayload_payload] at hexpected
  rw [← hexpected,horigin]

end Acceptance

/-- Following the cursors serves the notable items of the view that pass the filters, in
strict order, once each, in pages that end where nothing remains. A cursor is accepted only
for its own query, and reads back what it was made of. -/
theorem events_pages_tile {app : EventsApp} {request : EventsRequest} {turns : ℕ → Turn}
    {view : EventsView} {observations : List EventObservation} {facts : List CanonicalEventFact}
    {lease : CursorLease} {asked : Set EventsRequest} {presented : Set String}
    (hobservations : view.queryRange app.charge request.range = .ok observations)
    (hfacts : view.queryCanonicalFacts request.range = .ok facts)
    (hinj : Set.InjOn app.sha256 (instanceInputs observations facts))
    (hleased : Leased app request turns view (eventItems app request observations facts).length
      lease)
    (hquery : Set.InjOn app.sha256
      (Set.image (fun r => eventsQueryInput r.range r.filters) asked))
    (hforge : ∀ token ∈ presented, ∀ payload, Base64Url.decode token =
        some (payload ++ (hmacSha256 app.sha256 app.secret payload).asBytes) →
      ∃ origin ∈ asked, ∃ issued, Issued app origin issued ∧
        Base64Url.decode issued = Base64Url.decode token) :
    (∃ (items : List PageCandidate) (responses : List EventsResponse) (omitted : ℕ),
      items.Pairwise (fun c d => c.position < d.position) ∧
      (∀ c, c ∈ items ↔ Serves app view request c) ∧
      (∀ rs, FollowsCursors app request turns 0 none rs ↔ rs = responses) ∧
      (responses.flatMap EventsResponse.events).map some =
        items.map (PageCandidate.project app) ∧
      ∀ i response, responses[i]? = some response →
        IsPage app request items omitted (i*request.limit) response ∧
          response.events.length ≤ request.limit) ∧
    (∀ token ∈ presented, ∀ r ∈ asked, ∀ nowSecs cursor,
      EventsCursor.decode app.sha256 app.secret token (eventsQueryHash app.sha256 r) nowSecs =
          .ok cursor →
        ∃ origin ∈ asked, origin.query = r.query ∧ ∃ issued, Issued app origin issued ∧
          Base64Url.decode issued = Base64Url.decode token) ∧
    ∀ (cursor : EventsCursor) (nowSecs : UInt64),
      EventsCursor.decode app.sha256 app.secret (cursor.encode app.sha256 app.secret)
          cursor.queryHash nowSecs =
        if cursor.lease.expiresAt < cursor.lease.issuedAt ∨ cursor.lease.expiresAt ≤ nowSecs
        then .error .expired else .ok cursor := by
  refine ⟨?_,?_,fun cursor nowSecs => decode_encode_lease⟩
  · obtain ⟨responses,hfollows,hevents,hpages⟩ := @follows_from app request turns observations
      facts view lease hobservations hfacts hinj hleased _ 0 none le_rfl (Nat.zero_mul _)
      fun h => absurd h (lt_irrefl 0)
    refine ⟨eventItems app request observations facts,responses,
      omittedItems app request observations facts,eventItems_strict hobservations hfacts hinj,
      mem_eventItems hobservations hfacts,fun rs => ⟨fun h => h.unique hfollows,?_⟩,?_,?_⟩
    · rintro rfl
      exact hfollows
    · rw [hevents,Nat.zero_mul,List.drop_zero]
    · intro i response hresponse
      have hpage := hpages i response hresponse
      rw [Nat.zero_add] at hpage
      exact ⟨hpage,hpage.length_le⟩
  · intro token htoken r hr nowSecs cursor hdecode
    obtain ⟨payload,hpayload,-⟩ := decode_ok hdecode
    obtain ⟨origin,horigin,issued,hissued,hsame⟩ := hforge token htoken payload hpayload
    have hhash := accepted_hash hissued hsame hdecode
    have hinput := hquery ⟨r,hr,rfl⟩ ⟨origin,horigin,rfl⟩ hhash
    exact ⟨origin,horigin,(eventsQueryInput_injective hinput).symm,issued,hissued,hsame⟩

section Sample

/-- A child of the server killed at an instant. -/
def sampleKill (instant : Int64) (row : UInt8) : EventObservation where
  observationId := ⟨Vector.replicate 32 row⟩
  sectionTypeId := 1027001
  time := ⟨instant,some instant,none,false⟩
  occurrenceCount := 1
  payload := .childSignalTermination ⟨some 42,some 9,0⟩
  provenance := ⟨⟨Vector.replicate 32 1⟩,0,row.toUInt32,⟨Vector.replicate 32 2⟩⟩

def sampleKills : EventsView where
  factSetId := ⟨Vector.replicate 32 7⟩
  observations := [sampleKill 20 1,sampleKill 10 2]
  derivedFacts := fun _ => .ok []

def sampleEventsApp : EventsApp where
  sha256 := Sha256.sha256
  secret := ⟨Vector.replicate 32 5⟩
  config := {}
  residentBytes := fun _ => some 1024
  charge := fun _ => some 256

def sampleEventsRequest : EventsRequest where
  range := ⟨0,100,by decide⟩
  limit := 1
  limitPos := by decide
  limitBound := by decide
  cursor := none
  minSeverity := none
  kind := none

/-- The registry that the first page leaves, and the later turns that meet it. -/
def sampleTurn : ℕ → Turn
  | 0 => ⟨.init,sampleKills,100,100⟩
  | _ => ⟨⟨OrderedMap.empty.insert sampleKills.factSetId ⟨sampleKills,1024,400,1⟩,
      OrderedMap.empty.insert (toLex (1,sampleKills.factSetId)) (),1024,1⟩,
      ⟨⟨Vector.replicate 32 8⟩,[],fun _ => .ok []⟩,110,110⟩

theorem sampleKills_range : sampleKills.queryRange sampleEventsApp.charge
    sampleEventsRequest.range = .ok [sampleKill 10 2,sampleKill 20 1] := by decide

theorem sampleKills_distinct : Set.InjOn sampleEventsApp.sha256
    (instanceInputs [sampleKill 10 2,sampleKill 20 1] []) := by
  have hne : Sha256.sha256 (eventInstanceInput (sampleKill 10 2)) ≠
      Sha256.sha256 (eventInstanceInput (sampleKill 20 1)) := by decide +kernel
  have hcases (b : Bytes) (h : b ∈ instanceInputs [sampleKill 10 2,sampleKill 20 1] []) :
      b = eventInstanceInput (sampleKill 10 2) ∨ b = eventInstanceInput (sampleKill 20 1) := by
    rcases h with ⟨o,ho,rfl⟩ | ⟨f,hf,_⟩
    · rcases List.mem_pair.mp ho with rfl | rfl
      · exact .inl rfl
      · exact .inr rfl
    · cases hf
  intro a ha b hb hab
  rcases hcases a ha with rfl | rfl <;> rcases hcases b hb with rfl | rfl
  · rfl
  · exact absurd hab hne
  · exact absurd hab.symm hne
  · rfl

theorem sampleKills_leased : Leased sampleEventsApp sampleEventsRequest sampleTurn sampleKills
    (eventItems sampleEventsApp sampleEventsRequest [sampleKill 10 2,sampleKill 20 1] []).length
    ⟨sampleKills.factSetId,100,400⟩ where
  loaded := rfl
  granted := fun _ => by decide
  kept := by
    intro k hk _
    cases k with
    | zero => exact absurd hk (lt_irrefl 0)
    | succ k =>
      have hlive : (110 : UInt64) < 400 := by decide
      refine ⟨hlive,⟨sampleKills,1024,400,1⟩,?_,rfl,hlive⟩
      exact (OrderedMap.lookup_insert _ _ _ _).trans (if_pos rfl)

/-- Two kills on pages of one, with another view loaded in between. -/
theorem events_pages_tile_sample :
    (∃ responses : List EventsResponse,
      FollowsCursors sampleEventsApp sampleEventsRequest sampleTurn 0 none responses ∧
        ∀ response ∈ responses, response.events.length ≤ 1) ∧
    ∀ token, Issued sampleEventsApp sampleEventsRequest token → ∀ nowSecs cursor,
      EventsCursor.decode sampleEventsApp.sha256 sampleEventsApp.secret token
          (eventsQueryHash sampleEventsApp.sha256 sampleEventsRequest) nowSecs = .ok cursor →
        ∃ issued, Issued sampleEventsApp sampleEventsRequest issued ∧
          Base64Url.decode issued = Base64Url.decode token := by
  have hquery : Set.InjOn sampleEventsApp.sha256
      (Set.image (fun r => eventsQueryInput r.range r.filters) {sampleEventsRequest}) := by
    rw [Set.image_singleton]
    exact Set.injOn_singleton _ _
  obtain ⟨⟨items,responses,omitted,-,-,hfollows,-,hpages⟩,haccepted,-⟩ :=
    events_pages_tile sampleKills_range rfl sampleKills_distinct sampleKills_leased hquery
      fun token (htoken : token ∈ {t | Issued sampleEventsApp sampleEventsRequest t}) _ _ =>
        ⟨sampleEventsRequest,rfl,token,htoken,rfl⟩
  refine ⟨⟨responses,(hfollows responses).mpr rfl,fun response hmem => ?_⟩,?_⟩
  · obtain ⟨i,hi⟩ := List.mem_iff_getElem?.mp hmem
    exact (hpages i response hi).2
  · intro token htoken nowSecs cursor hdecode
    obtain ⟨origin,rfl,-,hissued⟩ := haccepted token htoken sampleEventsRequest rfl nowSecs cursor
      hdecode
    exact hissued

end Sample

end PgKronika
