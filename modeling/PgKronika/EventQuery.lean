import PgKronika.EventFacts
import PgKronika.SmallestKept

/-! The observations and canonical facts that a loaded view holds in a range, each under
its own identity. -/
namespace PgKronika

open ByteCodec SmallestKept

section Collect

variable {α σ ε : Type} [DecidableEq α]

/-- Collect elements under their identities. A repeat is skipped, a second element under one
identity ends the collection, and a new one must be admitted. -/
def collect (id : α → Digest) (accept : OrderedMap Digest α → σ → α → Except ε σ) (clash : ε) :
    List α → OrderedMap Digest α → σ → Except ε (OrderedMap Digest α)
  | [],seen,_ => .ok seen
  | a::rest,seen,s =>
    match seen.lookup (id a) with
    | some existing => if existing = a then collect id accept clash rest seen s else .error clash
    | none =>
      match accept seen s a with
      | .error e => .error e
      | .ok s => collect id accept clash rest (seen.insert (id a) a) s

variable {id : α → Digest} {accept : OrderedMap Digest α → σ → α → Except ε σ} {clash : ε}

/-- A collection holds what it was given, under its identity. -/
theorem collect_lookup {l : List α} {seen found : OrderedMap Digest α} {s : σ}
    (h : collect id accept clash l seen s = .ok found) (k : Digest) (a : α) :
    found.lookup k = some a ↔ seen.lookup k = some a ∨ a ∈ l ∧ id a = k := by
  induction l generalizing seen s with
  | nil =>
    obtain rfl := Except.ok.inj h
    simp
  | cons b rest ih =>
    rw [collect] at h
    cases hseen : seen.lookup (id b) with
    | some existing =>
      rw [hseen] at h
      dsimp only at h
      split_ifs at h with heq
      rw [ih h,List.mem_cons]
      refine ⟨?_,?_⟩
      · rintro (ha | ⟨ha,hk⟩)
        · exact .inl ha
        · exact .inr ⟨.inr ha,hk⟩
      · rintro (ha | ⟨rfl | ha,hk⟩)
        · exact .inl ha
        · exact .inl (by rw [← hk,hseen,heq])
        · exact .inr ⟨ha,hk⟩
    | none =>
      rw [hseen] at h
      dsimp only at h
      cases haccept : accept seen s b with
      | error e =>
        rw [haccept] at h
        cases h
      | ok s' =>
        rw [haccept] at h
        rw [ih h,OrderedMap.lookup_insert,List.mem_cons]
        by_cases hk : k = id b
        · rw [if_pos hk,hk,hseen]
          refine ⟨?_,?_⟩
          · rintro (ha | ⟨ha,hk⟩)
            · rw [← Option.some.inj ha]
              exact .inr ⟨.inl rfl,rfl⟩
            · exact .inr ⟨.inr ha,hk⟩
          · rintro (ha | ⟨rfl | ha,hk⟩)
            · cases ha
            · exact .inl rfl
            · exact .inr ⟨ha,hk⟩
        · rw [if_neg hk]
          refine or_congr_right ⟨fun ha => ⟨.inr ha.1,ha.2⟩,?_⟩
          rintro ⟨rfl | ha,hid⟩
          · exact absurd hid.symm hk
          · exact ⟨ha,hid⟩

/-- An admission that refuses beyond a count bounds the collection. -/
theorem collect_length {l : List α} {seen found : OrderedMap Digest α} {s : σ} {most : ℕ}
    (h : collect id accept clash l seen s = .ok found)
    (haccept : ∀ seen s a s', accept seen s a = .ok s' → seen.entries.length ≠ most)
    (hseen : seen.entries.length ≤ most) : found.entries.length ≤ most := by
  induction l generalizing seen s with
  | nil =>
    obtain rfl := Except.ok.inj h
    exact hseen
  | cons b rest ih =>
    rw [collect] at h
    cases hlook : seen.lookup (id b) with
    | some existing =>
      rw [hlook] at h
      dsimp only at h
      split_ifs at h
      exact ih h hseen
    | none =>
      rw [hlook] at h
      dsimp only at h
      cases hadm : accept seen s b with
      | error e =>
        rw [hadm] at h
        cases h
      | ok s' =>
        rw [hadm] at h
        refine ih h ?_
        have hlen := (OrderedMap.insert_perm hlook b).length_eq
        have hne := haccept seen s b s' hadm
        rw [List.length_cons] at hlen
        omega

end Collect

inductive OracleResource
  | observations
  | materializedBytes
  deriving DecidableEq

inductive OracleError
  | limitExceeded (resource : OracleResource)
  | observationIdCollision
  deriving DecidableEq

inductive CanonicalFactQueryError
  | limitExceeded
  | contradictoryFacts
  deriving DecidableEq

def queryMaxObservations : ℕ := 1048576
def queryMaterializedBytes : ℕ := 64*1024*1024

/-- A loaded view: the observations of its queryable facts, sealed before live, and the
canonical facts they persist or derive for a range, in the order they are inserted. -/
structure EventsView where
  factSetId : Digest
  observations : List EventObservation
  derivedFacts : CoverageSpan → Except CanonicalFactQueryError (List CanonicalEventFact)

def observationInRange (observation : EventObservation) (range : CoverageSpan) : Bool :=
  match observation.time.intervalOnly,observation.time.observedInterval with
  | true,some interval =>
    decide (interval.fromUs < range.toUs ∧ range.fromUs < interval.toUs)
  | _,_ =>
    decide (range.fromUs ≤ observation.time.sortTsUs ∧ observation.time.sortTsUs < range.toUs)

/-- One more observation, within the count and the bytes of one answer. -/
def admitObservation (charge : EventObservation → Option ℕ)
    (seen : OrderedMap Digest EventObservation) (bytes : ℕ) (observation : EventObservation) :
    Except OracleError ℕ :=
  if seen.entries.length = queryMaxObservations then .error (.limitExceeded .observations)
  else
    match charge observation with
    | none => .error (.limitExceeded .materializedBytes)
    | some charge =>
      if queryMaterializedBytes < bytes+charge then .error (.limitExceeded .materializedBytes)
      else .ok (bytes+charge)

def observationOrder (observation : EventObservation) : ℤ ×ₗ Digest :=
  toLex (observation.time.sortTsUs.toInt,observation.observationId)

def EventsView.queryRange (charge : EventObservation → Option ℕ) (view : EventsView)
    (range : CoverageSpan) : Except OracleError (List EventObservation) :=
  (collect EventObservation.observationId (admitObservation charge) .observationIdCollision
    (view.observations.filter fun o => observationInRange o range) .empty 0).map fun seen =>
      sortByKey observationOrder (seen.entries.map Prod.snd)

def admitFact (seen : OrderedMap Digest CanonicalEventFact) (_ : Unit)
    (_ : CanonicalEventFact) : Except CanonicalFactQueryError Unit :=
  if seen.entries.length = queryMaxObservations then .error .limitExceeded else .ok ()

def factOrder (fact : CanonicalEventFact) : ℤ ×ₗ Digest :=
  toLex (fact.interval.fromUs.toInt,fact.factId)

def EventsView.queryCanonicalFacts (view : EventsView) (range : CoverageSpan) :
    Except CanonicalFactQueryError (List CanonicalEventFact) :=
  match view.derivedFacts range with
  | .error e => .error e
  | .ok derived =>
    (collect CanonicalEventFact.factId admitFact .contradictoryFacts derived .empty ()).map
      fun seen => sortByKey factOrder (seen.entries.map Prod.snd)

section Answers

variable {α σ ε κ : Type} [DecidableEq α] [LinearOrder κ] {id : α → Digest} {key : α → κ}
  {accept : OrderedMap Digest α → σ → α → Except ε σ} {clash : ε}

/-- An answer holds what was given, each identity once. -/
theorem answer_spec {l : List α} {s : σ} {answer : List α}
    (h : (collect id accept clash l .empty s).map
      (fun seen => sortByKey key (seen.entries.map Prod.snd)) = .ok answer) :
    (∀ a, a ∈ answer ↔ a ∈ l) ∧ (answer.map id).Nodup := by
  obtain ⟨seen,hseen,rfl⟩ := CheckedArith.map_ok h
  have hlook := collect_lookup hseen
  have hperm := @sortByKey_perm _ _ _ key (seen.entries.map Prod.snd)
  refine ⟨fun a => ?_,?_⟩
  · rw [hperm.mem_iff,List.mem_map]
    constructor
    · rintro ⟨⟨k,b⟩,hp,rfl⟩
      exact (((hlook k b).mp (OrderedMap.mem_entries_iff.mp hp)).resolve_left (by simp)).1
    · intro ha
      exact ⟨(id a,a),OrderedMap.mem_entries_iff.mpr ((hlook (id a) a).mpr (.inr ⟨ha,rfl⟩)),rfl⟩
  · rw [(hperm.map id).nodup_iff,List.map_map]
    have hkeys : seen.entries.map (id ∘ Prod.snd) = seen.entries.map Prod.fst :=
      List.map_congr_left fun p hp =>
        (((hlook p.1 p.2).mp (OrderedMap.mem_entries_iff.mp hp)).resolve_left (by simp)).2
    rw [hkeys]
    exact seen.nodup_keys

theorem answer_length {l : List α} {s : σ} {answer : List α} {most : ℕ}
    (h : (collect id accept clash l .empty s).map
      (fun seen => sortByKey key (seen.entries.map Prod.snd)) = .ok answer)
    (haccept : ∀ seen s a s', accept seen s a = .ok s' → seen.entries.length ≠ most) :
    answer.length ≤ most := by
  obtain ⟨seen,hseen,rfl⟩ := CheckedArith.map_ok h
  rw [(sortByKey_perm _).length_eq,List.length_map]
  exact collect_length hseen haccept (Nat.zero_le _)

end Answers

variable {view : EventsView} {range : CoverageSpan} {charge : EventObservation → Option ℕ}

theorem queryRange_spec {observations : List EventObservation}
    (h : view.queryRange charge range = .ok observations) :
    (∀ o, o ∈ observations ↔ o ∈ view.observations ∧ observationInRange o range = true) ∧
      (observations.map EventObservation.observationId).Nodup ∧
      observations.length ≤ queryMaxObservations := by
  obtain ⟨hmem,hnodup⟩ := answer_spec h
  refine ⟨fun o => by rw [hmem,List.mem_filter],hnodup,answer_length h ?_⟩
  intro seen bytes o bytes' hok hfull
  rw [admitObservation,if_pos hfull] at hok
  cases hok

theorem queryCanonicalFacts_spec {facts : List CanonicalEventFact}
    (h : view.queryCanonicalFacts range = .ok facts) :
    (∃ derived, view.derivedFacts range = .ok derived ∧ ∀ f, f ∈ facts ↔ f ∈ derived) ∧
      (facts.map CanonicalEventFact.factId).Nodup ∧ facts.length ≤ queryMaxObservations := by
  rw [EventsView.queryCanonicalFacts] at h
  cases hderived : view.derivedFacts range with
  | error e =>
    rw [hderived] at h
    cases h
  | ok derived =>
    rw [hderived] at h
    obtain ⟨hmem,hnodup⟩ := answer_spec h
    refine ⟨⟨derived,rfl,hmem⟩,hnodup,answer_length h ?_⟩
    intro seen _ f _ hok hfull
    rw [admitFact,if_pos hfull] at hok
    cases hok

end PgKronika
