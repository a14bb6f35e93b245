import PgKronika.CoverageUnion
import PgKronika.EventCounts
import PgKronika.EventQuery

/-! Bounded queries over retained observations. The answer depends only on which observations
there are, and it is the answer of the canonical oracle over them. -/
namespace PgKronika

open SmallestKept CheckedArith SparseCounts

section Capped

variable {α σ ε : Type} [DecidableEq α] {id : α → Digest}
  {accept : OrderedMap Digest α → σ → α → Except ε σ} {clash full : ε} {most : ℕ}
  {l l' : List α} {seen found : OrderedMap Digest α} {s : σ}

/-- Elements under one identity are equal. -/
def Consistent (id : α → Digest) (l : List α) : Prop := ∀ a ∈ l, ∀ b ∈ l, id a = id b → a = b

def heldKeys (seen : OrderedMap Digest α) : Finset Digest := (seen.entries.map Prod.fst).toFinset

def identities (id : α → Digest) (l : List α) : Finset Digest := (l.map id).toFinset

omit [DecidableEq α] in
theorem card_heldKeys : (heldKeys seen).card = seen.entries.length := by
  rw [heldKeys,List.toFinset_card_of_nodup seen.nodup_keys,List.length_map]

omit [DecidableEq α] in
theorem mem_heldKeys {k : Digest} : k ∈ heldKeys seen ↔ ∃ a, seen.lookup k = some a := by
  simp [heldKeys,OrderedMap.mem_entries_iff]

omit [DecidableEq α] in
theorem heldKeys_insert {k : Digest} {a : α} :
    heldKeys (seen.insert k a) = insert k (heldKeys seen) := by
  ext k'
  rw [Finset.mem_insert,mem_heldKeys,mem_heldKeys,OrderedMap.lookup_insert]
  by_cases hk : k' = k <;> simp [hk]

omit [DecidableEq α] in
theorem Consistent.of_mem (h : Consistent id l) (hsub : ∀ a ∈ l', a ∈ l) : Consistent id l' :=
  fun a ha b hb hab => h a (hsub a ha) b (hsub b hb) hab

/-- A collection that succeeds had no conflict. -/
theorem collect_consistent (h : collect id accept clash l .empty s = .ok found) :
    Consistent id l := by
  intro a ha b hb hab
  have hfa := (collect_lookup h (id a) a).mpr (.inr ⟨ha,rfl⟩)
  have hfb := (collect_lookup h (id a) b).mpr (.inr ⟨hb,hab.symm⟩)
  rw [hfa] at hfb
  exact Option.some.inj hfb

/-- Without a conflict, only the number of identities decides. -/
theorem collect_capped
    (haccept : ∀ seen s a, accept seen s a =
      if seen.entries.length = most then .error full else .ok s)
    (hl : Consistent id l) (hseen : ∀ a ∈ l, ∀ b, seen.lookup (id a) = some b → b = a)
    (hlen : seen.entries.length ≤ most) :
    if (heldKeys seen ∪ identities id l).card ≤ most then
      ∃ found, collect id accept clash l seen s = .ok found
    else collect id accept clash l seen s = .error full := by
  induction l generalizing seen with
  | nil =>
    have hcard : (heldKeys seen ∪ identities id ([] : List α)).card ≤ most := by
      simpa [identities,card_heldKeys] using hlen
    rw [if_pos hcard]
    exact ⟨seen,rfl⟩
  | cons a rest ih =>
    have hrest : Consistent id rest := hl.of_mem fun b hb => List.mem_cons_of_mem a hb
    have hids : identities id (a::rest) = insert (id a) (identities id rest) := by
      simp [identities]
    rw [collect]
    cases hlook : seen.lookup (id a) with
    | some existing =>
      have hkey : id a ∈ heldKeys seen := mem_heldKeys.mpr ⟨existing,hlook⟩
      have hsame : heldKeys seen ∪ identities id (a::rest) = heldKeys seen ∪ identities id rest := by
        rw [hids,Finset.union_insert,Finset.insert_eq_of_mem (Finset.mem_union_left _ hkey)]
      rw [hsame]
      simp only [hseen a List.mem_cons_self existing hlook,if_true]
      exact ih hrest (fun b hb => hseen b (List.mem_cons_of_mem a hb)) hlen
    | none =>
      have hnew : id a ∉ heldKeys seen := by simp [mem_heldKeys,hlook]
      have hinsert : (heldKeys (seen.insert (id a) a)).card = seen.entries.length+1 := by
        rw [heldKeys_insert,Finset.card_insert_of_notMem hnew,card_heldKeys]
      have hsame : heldKeys seen ∪ identities id (a::rest) =
          heldKeys (seen.insert (id a) a) ∪ identities id rest := by
        rw [hids,heldKeys_insert,Finset.union_insert,Finset.insert_union]
      rw [haccept,hsame]
      by_cases hfull : seen.entries.length = most
      · have hmany : ¬(heldKeys (seen.insert (id a) a) ∪ identities id rest).card ≤ most := by
          have hle := Finset.card_le_card
            (@Finset.subset_union_left _ _ (heldKeys (seen.insert (id a) a)) (identities id rest))
          omega
        rw [if_neg hmany,if_pos hfull]
      · rw [if_neg hfull]
        refine ih hrest ?_ (by rw [← card_heldKeys,hinsert]; omega)
        intro b hb c hc
        rw [OrderedMap.lookup_insert] at hc
        split_ifs at hc with hk
        · rw [← Option.some.inj hc]
          exact hl a List.mem_cons_self b (List.mem_cons_of_mem a hb) hk.symm
        · exact hseen b (List.mem_cons_of_mem a hb) c hc

/-- The same elements are collected alike, in any order and with any repeats. -/
theorem collect_congr
    (haccept : ∀ seen s a, accept seen s a =
      if seen.entries.length = most then .error full else .ok s)
    (hl : Consistent id l) (hmem : ∀ a, a ∈ l' ↔ a ∈ l) :
    collect id accept clash l' .empty s = collect id accept clash l .empty s := by
  have hl' : Consistent id l' := hl.of_mem fun a => (hmem a).mp
  have hids : identities id l' = identities id l := by
    ext k
    simp [identities,hmem]
  have hcap := @collect_capped _ _ _ _ id accept clash full most l .empty s haccept hl (by simp)
    (Nat.zero_le _)
  have hcap' := @collect_capped _ _ _ _ id accept clash full most l' .empty s haccept hl' (by simp)
    (Nat.zero_le _)
  rw [hids] at hcap'
  split_ifs at hcap hcap'
  · obtain ⟨found,hfound⟩ := hcap
    obtain ⟨found',hfound'⟩ := hcap'
    have heq : found' = found := OrderedMap.ext_lookup fun k => by
      ext a
      rw [collect_lookup hfound,collect_lookup hfound',hmem]
    rw [hfound,hfound',heq]
  · rw [hcap,hcap']

/-- Keep the first element of each identity, found again by its place. -/
def canonicalize (id : α → Digest) (clash : ε) :
    List α → List α → OrderedMap Digest ℕ → Except ε (List α)
  | [],canonical,_ => .ok canonical
  | a::rest,canonical,seen =>
    match seen.lookup (id a) with
    | some position =>
      if canonical[position]? = some a then canonicalize id clash rest canonical seen
      else .error clash
    | none => canonicalize id clash rest (canonical++[a]) (seen.insert (id a) canonical.length)

/-- The places of the kept elements. -/
def Positions (id : α → Digest) (canonical : List α) (seen : OrderedMap Digest ℕ) : Prop :=
  ∀ k p, seen.lookup k = some p ↔ ∃ a, canonical[p]? = some a ∧ id a = k

omit [DecidableEq α] in
theorem Positions.push {canonical : List α} {seen : OrderedMap Digest ℕ} {a : α}
    (h : Positions id canonical seen) (hnew : seen.lookup (id a) = none) :
    Positions id (canonical++[a]) (seen.insert (id a) canonical.length) := by
  intro k p
  rw [OrderedMap.lookup_insert]
  by_cases hp : p < canonical.length
  · rw [List.getElem?_append_left hp,← h]
    by_cases hk : k = id a
    · subst hk
      simp [hnew,Ne.symm (Nat.ne_of_lt hp)]
    · rw [if_neg hk]
  · have hnone : ∀ k, seen.lookup k ≠ some p := by
      intro k hk
      obtain ⟨b,hb,-⟩ := (h k p).mp hk
      exact hp (List.getElem?_eq_some_iff.mp hb).1
    rw [List.getElem?_append_right (Nat.not_lt.mp hp),List.getElem?_singleton]
    by_cases hlast : p = canonical.length
    · subst hlast
      by_cases hk : k = id a
      · simp [hk]
      · simp [hk,Ne.symm hk,hnone]
    · have hpos : p-canonical.length ≠ 0 := by omega
      by_cases hk : k = id a
      · simp [hk,hpos,Ne.symm hlast]
      · simp [hk,hpos,hnone]

theorem canonicalize_isOk (clash : ε) {canonical : List α} {seen : OrderedMap Digest ℕ}
    (hpos : Positions id canonical seen) (h : Consistent id (canonical++l)) :
    ∃ kept, canonicalize id clash l canonical seen = .ok kept ∧
      ∀ a, a ∈ kept ↔ a ∈ canonical++l := by
  induction l generalizing canonical seen with
  | nil => exact ⟨canonical,rfl,by simp⟩
  | cons a rest ih =>
    rw [canonicalize]
    cases hlook : seen.lookup (id a) with
    | some position =>
      obtain ⟨b,hb,hid⟩ := (hpos _ _).mp hlook
      have hmem : b ∈ canonical := List.mem_of_getElem? hb
      have hba : b = a := h b (by simp [hmem]) a (by simp) hid
      subst hba
      simp only [hb,if_true]
      obtain ⟨kept,hkept,hall⟩ := ih hpos (h.of_mem fun c hc => by
        rw [List.mem_append] at hc ⊢
        exact hc.imp_right (List.mem_cons_of_mem b))
      refine ⟨kept,hkept,fun c => ?_⟩
      rw [hall]
      by_cases hc : c = b <;> simp [hc,hmem]
    | none =>
      obtain ⟨kept,hkept,hall⟩ := ih (hpos.push hlook) (by simpa using h)
      exact ⟨kept,hkept,fun c => by rw [hall]; simp⟩

theorem canonicalize_clash {canonical : List α} {seen : OrderedMap Digest ℕ}
    (hpos : Positions id canonical seen) (hkept : Consistent id canonical)
    (h : ¬Consistent id (canonical++l)) : canonicalize id clash l canonical seen = .error clash := by
  induction l generalizing canonical seen with
  | nil => exact absurd (by simpa using hkept) h
  | cons a rest ih =>
    rw [canonicalize]
    cases hlook : seen.lookup (id a) with
    | some position =>
      obtain ⟨b,hb,hid⟩ := (hpos _ _).mp hlook
      have hmem : b ∈ canonical := List.mem_of_getElem? hb
      by_cases hba : b = a
      · subst hba
        simp only [hb,if_true]
        refine ih hpos hkept fun hrest => h (hrest.of_mem fun c hc => ?_)
        by_cases hcb : c = b
        · simp [hcb,hmem]
        · simpa [hcb] using hc
      · simp [hb,hba]
    | none =>
      have hfresh : ∀ b ∈ canonical, id b ≠ id a := by
        intro b hb hid
        obtain ⟨p,hp⟩ := List.mem_iff_getElem?.mp hb
        have hsome := (hpos (id a) p).mpr ⟨b,hp,hid⟩
        rw [hlook] at hsome
        cases hsome
      refine ih (hpos.push hlook) ?_ (by simpa using h)
      intro b hb c hc hbc
      rcases List.mem_append.mp hb with hb | hb <;> rcases List.mem_append.mp hc with hc | hc
      · exact hkept b hb c hc hbc
      · cases List.mem_singleton.mp hc
        exact absurd hbc (hfresh b hb)
      · cases List.mem_singleton.mp hb
        exact absurd hbc.symm (hfresh c hc)
      · rw [List.mem_singleton.mp hb,List.mem_singleton.mp hc]

end Capped

structure OracleLimits where
  maxObservations : ℕ
  maxCoverageSpans : ℕ
  countLimits : CountLimits

inductive OracleQueryError
  | collect (error : OracleError)
  | counts (error : CountError)
  | coverageSpansExceeded
  deriving DecidableEq

/-- An observation with the rest of its record, which a query only compares. -/
structure RetainedObservation (ρ : Type) extends EventObservation where
  rest : ρ
  deriving DecidableEq

variable {ρ : Type}

namespace RetainedObservation

def identity (o : RetainedObservation ρ) : Digest := o.observationId

def inRange (range : CoverageSpan) (o : RetainedObservation ρ) : Bool :=
  observationInRange o.toEventObservation range

def order (o : RetainedObservation ρ) : ℤ ×ₗ Digest := observationOrder o.toEventObservation

/-- Not only an interval is known of its time. -/
def hasPointTime (o : RetainedObservation ρ) : Bool :=
  !(o.time.intervalOnly && o.time.observedInterval.isSome)

end RetainedObservation

structure CountEntries where
  joint : List (JointErrorKey × UInt64)
  crashes : UInt64
  shutdowns : UInt64
  ready : UInt64
  signals : List (SignalNumber × UInt64)

def countCrash (limits : CountLimits) (s : CountEntries) (payload : LifecyclePayload)
    (count : UInt64) : Except CountError CountEntries := do
  let crashes ← (checkedSum s.crashes count).mapError .ofOverflow
  match payload.signal with
  | none => return {s with crashes := crashes}
  | some signal =>
    if s.signals.length = limits.maxInputEntries then .error (.limitExceeded .inputEntries)
    else return {s with crashes := crashes, signals := s.signals++[(⟨signal⟩,count)]}

def countObservation (limits : CountLimits) (s : CountEntries) (o : RetainedObservation ρ) :
    Except CountError CountEntries :=
  match o.payload with
  | .errorGroup group =>
    if s.joint.length = limits.maxInputEntries then .error (.limitExceeded .inputEntries)
    else .ok {s with joint :=
      s.joint++[(⟨group.severity,group.category,group.sqlstate⟩,o.occurrenceCount)]}
  | .childSignalTermination retained => countCrash limits s retained o.occurrenceCount
  | .childProcessCrash retained => countCrash limits s retained o.occurrenceCount
  | .shutdownRequested _ =>
    ((checkedSum s.shutdowns o.occurrenceCount).mapError .ofOverflow).map fun shutdowns =>
      {s with shutdowns := shutdowns}
  | .readyObserved _ =>
    ((checkedSum s.ready o.occurrenceCount).mapError .ofOverflow).map fun ready =>
      {s with ready := ready}
  | _ => .ok s

def foldCounts (observations : List (RetainedObservation ρ)) (limits : CountLimits) :
    Except CountError EventCounts := do
  let s ← observations.foldlM (countObservation limits) ⟨[],0,0,0,[]⟩
  let lifecycle ← LifecycleCounts.new s.crashes s.shutdowns s.ready s.signals limits
  EventCounts.fromJoint s.joint lifecycle limits

def clipSpans (range : CoverageSpan) (most : ℕ) :
    List CoverageSpan → List CoverageSpan → Except OracleQueryError (List CoverageSpan)
  | [],clipped => .ok clipped
  | span::rest,clipped =>
    match CoverageSpan.new (max span.fromUs range.fromUs) (min span.toUs range.toUs) with
    | none => clipSpans range most rest clipped
    | some span =>
      if clipped.length = most then .error .coverageSpansExceeded
      else clipSpans range most rest (clipped++[span])

structure OracleResult (ρ : Type) where
  observations : List (RetainedObservation ρ)
  counts : EventCounts
  coverage : Coverage

/-- One more observation, within the count and, where they are bounded, the bytes. -/
def admitRetained (charge : RetainedObservation ρ → Option ℕ) (limits : OracleLimits)
    (maxBytes : Option ℕ) (seen : OrderedMap Digest (RetainedObservation ρ)) (bytes : ℕ)
    (o : RetainedObservation ρ) : Except OracleError ℕ :=
  if seen.entries.length = limits.maxObservations then .error (.limitExceeded .observations)
  else
    match maxBytes with
    | none => .ok bytes
    | some most =>
      match charge o with
      | none => .error (.limitExceeded .materializedBytes)
      | some charge =>
        if most < bytes+charge then .error (.limitExceeded .materializedBytes)
        else .ok (bytes+charge)

variable [DecidableEq ρ]

def queryBoundedInner (charge : RetainedObservation ρ → Option ℕ)
    (observations : List (RetainedObservation ρ)) (spans : List CoverageSpan)
    (range : CoverageSpan) (limits : OracleLimits) (maxBytes : Option ℕ) :
    Except OracleQueryError (OracleResult ρ) := do
  let seen ← (collect RetainedObservation.identity (admitRetained charge limits maxBytes)
    .observationIdCollision (observations.filter (RetainedObservation.inRange range))
    .empty 0).mapError .collect
  let selected := sortByKey RetainedObservation.order (seen.entries.map Prod.snd)
  let counts ← (foldCounts selected limits.countLimits).mapError .counts
  let clipped ← clipSpans range limits.maxCoverageSpans spans []
  return ⟨selected,counts,.fromSpans clipped⟩

def queryBounded (charge : RetainedObservation ρ → Option ℕ)
    (observations : List (RetainedObservation ρ)) (spans : List CoverageSpan)
    (range : CoverageSpan) (limits : OracleLimits) : Except OracleQueryError (OracleResult ρ) :=
  queryBoundedInner charge observations spans range limits none

structure MemoryOracle (ρ : Type) where
  observations : List (RetainedObservation ρ)
  coverage : Coverage

namespace MemoryOracle

def new (observations : List (RetainedObservation ρ)) (coverage : Coverage) :
    Except OracleQueryError (MemoryOracle ρ) :=
  (canonicalize RetainedObservation.identity (.collect .observationIdCollision)
    (sortByKey RetainedObservation.order observations) [] .empty).map fun kept => ⟨kept,coverage⟩

def query (charge : RetainedObservation ρ → Option ℕ) (oracle : MemoryOracle ρ)
    (range : CoverageSpan) (limits : OracleLimits) : Except OracleQueryError (OracleResult ρ) :=
  queryBounded charge oracle.observations oracle.coverage.spans range limits

end MemoryOracle

section Counted

omit [DecidableEq ρ]

variable {limits : CountLimits} {o : RetainedObservation ρ} {observations : List (RetainedObservation ρ)}
  {s s' : CountEntries}

def jointEntry (o : RetainedObservation ρ) : Option (JointErrorKey × UInt64) :=
  match o.payload with
  | .errorGroup group => some (⟨group.severity,group.category,group.sqlstate⟩,o.occurrenceCount)
  | _ => none

def crashPayload (o : RetainedObservation ρ) : Option LifecyclePayload :=
  match o.payload with
  | .childSignalTermination retained => some retained
  | .childProcessCrash retained => some retained
  | _ => none

def signalEntry (o : RetainedObservation ρ) : Option (SignalNumber × UInt64) :=
  (crashPayload o).bind fun payload => payload.signal.map fun signal => (⟨signal⟩,o.occurrenceCount)

def isShutdown (o : RetainedObservation ρ) : Bool :=
  match o.payload with
  | .shutdownRequested _ => true
  | _ => false

def isReady (o : RetainedObservation ρ) : Bool :=
  match o.payload with
  | .readyObserved _ => true
  | _ => false

/-- The occurrences of the observations with a property. -/
def occurrences (q : RetainedObservation ρ → Bool) (observations : List (RetainedObservation ρ)) : ℕ :=
  ((observations.filter q).map fun o => o.occurrenceCount.toNat).sum

theorem occurrences_cons (q : RetainedObservation ρ → Bool) :
    occurrences q (o::observations) =
      (if q o then o.occurrenceCount.toNat else 0) + occurrences q observations := by
  by_cases h : q o <;> simp [occurrences,h]

/-- What the entries hold after some observations. -/
structure Entered (observations : List (RetainedObservation ρ)) (s s' : CountEntries) : Prop where
  joint : s'.joint = s.joint ++ observations.filterMap jointEntry
  signals : s'.signals = s.signals ++ observations.filterMap signalEntry
  crashes : s'.crashes.toNat = s.crashes.toNat +
    occurrences (fun o => (crashPayload o).isSome) observations
  shutdowns : s'.shutdowns.toNat = s.shutdowns.toNat + occurrences isShutdown observations
  ready : s'.ready.toNat = s.ready.toNat + occurrences isReady observations

theorem countCrash_ok {payload : LifecyclePayload} {count : UInt64}
    (h : countCrash limits s payload count = .ok s') :
    s'.joint = s.joint ∧
      s'.signals = s.signals ++ (payload.signal.map fun signal => (⟨signal⟩,count)).toList ∧
      s'.crashes.toNat = s.crashes.toNat+count.toNat ∧ s'.shutdowns = s.shutdowns ∧
      s'.ready = s.ready := by
  obtain ⟨crashes,hcrashes,h⟩ := bind_ok h
  have hsum := checkedSum_ok (mapError_ok.mp hcrashes)
  cases hsignal : payload.signal with
  | none =>
    rw [hsignal] at h
    cases h
    simp [hsum]
  | some signal =>
    rw [hsignal] at h
    dsimp only at h
    split_ifs at h
    cases h
    simp [hsum]

theorem Entered.crash {payload : LifecyclePayload} (hcrash : crashPayload o = some payload)
    (hjoint : jointEntry o = none) (hshutdown : isShutdown o = false) (hready : isReady o = false)
    (h : countCrash limits s payload o.occurrenceCount = .ok s') : Entered [o] s s' := by
  obtain ⟨hj,hs,hc,hd,hr⟩ := countCrash_ok h
  have hentry : [o].filterMap signalEntry =
      (payload.signal.map fun signal => (⟨signal⟩,o.occurrenceCount)).toList := by
    cases hsignal : payload.signal <;> simp [signalEntry,hcrash,hsignal]
  constructor
  · simp [hj,hjoint]
  · rw [hs,hentry]
  · simp [hc,hcrash,occurrences]
  · simp [hd,hshutdown,occurrences]
  · simp [hr,hready,occurrences]

theorem countObservation_ok (h : countObservation limits s o = .ok s') : Entered [o] s s' := by
  rw [countObservation] at h
  cases hpayload : o.payload with
  | errorGroup group =>
    rw [hpayload] at h
    dsimp only at h
    split_ifs at h
    cases h
    constructor <;>
      simp [jointEntry,signalEntry,crashPayload,isShutdown,isReady,occurrences,hpayload]
  | childSignalTermination retained =>
    rw [hpayload] at h
    apply Entered.crash _ _ _ _ h <;>
      simp [jointEntry,crashPayload,isShutdown,isReady,hpayload]
  | childProcessCrash retained =>
    rw [hpayload] at h
    apply Entered.crash _ _ _ _ h <;>
      simp [jointEntry,crashPayload,isShutdown,isReady,hpayload]
  | shutdownRequested retained =>
    rw [hpayload] at h
    obtain ⟨shutdowns,hsum,rfl⟩ := map_ok h
    have hsum := checkedSum_ok (mapError_ok.mp hsum)
    constructor <;>
      simp [jointEntry,signalEntry,crashPayload,isShutdown,isReady,occurrences,hpayload,hsum]
  | readyObserved retained =>
    rw [hpayload] at h
    obtain ⟨ready,hsum,rfl⟩ := map_ok h
    have hsum := checkedSum_ok (mapError_ok.mp hsum)
    constructor <;>
      simp [jointEntry,signalEntry,crashPayload,isShutdown,isReady,occurrences,hpayload,hsum]
  | _ =>
    rw [hpayload] at h
    cases h
    constructor <;>
      simp [jointEntry,signalEntry,crashPayload,isShutdown,isReady,occurrences,hpayload]

theorem countObservations_ok (h : observations.foldlM (countObservation limits) s = .ok s') :
    Entered observations s s' := by
  induction observations generalizing s with
  | nil =>
    cases h
    constructor <;> simp [occurrences]
  | cons o rest ih =>
    rw [List.foldlM_cons] at h
    obtain ⟨next,hnext,hrest⟩ := bind_ok h
    have hfirst := countObservation_ok hnext
    have hlater := ih hrest
    constructor
    · rw [hlater.joint,hfirst.joint,List.append_assoc,← List.filterMap_append]
      rfl
    · rw [hlater.signals,hfirst.signals,List.append_assoc,← List.filterMap_append]
      rfl
    · rw [hlater.crashes,hfirst.crashes,Nat.add_assoc]
      by_cases hq : (crashPayload o).isSome <;> simp [occurrences,hq]
    · rw [hlater.shutdowns,hfirst.shutdowns,Nat.add_assoc]
      by_cases hq : isShutdown o <;> simp [occurrences,hq]
    · rw [hlater.ready,hfirst.ready,Nat.add_assoc]
      by_cases hq : isReady o <;> simp [occurrences,hq]

/-- The counts of exactly these observations. -/
structure CountsOf (observations : List (RetainedObservation ρ)) (c : EventCounts) : Prop where
  joint : ∀ key, c.joint.count key = total (observations.filterMap jointEntry) key
  signals : ∀ signal, c.lifecycle.signals.count signal =
    total (observations.filterMap signalEntry) signal
  crashes : c.lifecycle.crashes.toNat =
    occurrences (fun o => (crashPayload o).isSome) observations
  shutdowns : c.lifecycle.shutdowns.toNat = occurrences isShutdown observations
  ready : c.lifecycle.ready.toNat = occurrences isReady observations

theorem foldCounts_ok {c : EventCounts} (h : foldCounts observations limits = .ok c) :
    CountsOf observations c := by
  obtain ⟨s,hs,h⟩ := bind_ok h
  obtain ⟨lifecycle,hlifecycle,h⟩ := bind_ok h
  have hentered := countObservations_ok hs
  obtain ⟨signals,hsignals,rfl⟩ := map_ok hlifecycle
  rw [EventCounts.fromJoint] at h
  split_ifs at h
  obtain ⟨joint,hjoint,rfl⟩ := map_ok h
  constructor
  · intro key
    rw [(Counts.collect_ok hjoint).2,hentered.joint,List.nil_append]
  · intro signal
    rw [(Counts.collect_ok hsignals).2,hentered.signals,List.nil_append]
  · exact hentered.crashes.trans (Nat.zero_add _)
  · exact hentered.shutdowns.trans (Nat.zero_add _)
  · exact hentered.ready.trans (Nat.zero_add _)

end Counted

section Queries

variable {charge : RetainedObservation ρ → Option ℕ} {limits : OracleLimits}
  {observations observations' : List (RetainedObservation ρ)} {spans : List CoverageSpan}
  {range left right whole : CoverageSpan} {coverage : Coverage} {r : OracleResult ρ}

/-- The answer of a query, from the observations it selects. -/
structure Answers (observations : List (RetainedObservation ρ)) (range : CoverageSpan)
    (limits : OracleLimits) (r : OracleResult ρ) : Prop where
  selected : ∀ o, o ∈ r.observations ↔ o ∈ observations ∧ o.inRange range = true
  once : (r.observations.map RetainedObservation.identity).Nodup
  canonical : r.observations.Pairwise fun a b => a.order < b.order
  folded : foldCounts r.observations limits.countLimits = .ok r.counts
  counted : CountsOf r.observations r.counts

theorem queryBounded_ok (h : queryBounded charge observations spans range limits = .ok r) :
    Answers observations range limits r := by
  obtain ⟨seen,hseen,h⟩ := bind_ok h
  obtain ⟨counts,hcounts,h⟩ := bind_ok h
  obtain ⟨clipped,hclipped,h⟩ := bind_ok h
  cases h
  have hanswer : (collect RetainedObservation.identity (admitRetained charge limits none)
      .observationIdCollision (observations.filter (RetainedObservation.inRange range))
      .empty 0).map (fun seen => sortByKey RetainedObservation.order (seen.entries.map Prod.snd)) =
        .ok (sortByKey RetainedObservation.order (seen.entries.map Prod.snd)) := by
    rw [mapError_ok.mp hseen]
    rfl
  obtain ⟨hmem,hnodup⟩ := answer_spec hanswer
  have horder : ∀ l : List (RetainedObservation ρ), (l.map RetainedObservation.identity).Nodup →
      (l.map RetainedObservation.order).Nodup := by
    intro l hl
    rw [show RetainedObservation.identity (ρ := ρ) =
      (fun key : ℤ ×ₗ Digest => (ofLex key).2) ∘ RetainedObservation.order from rfl,
      ← List.map_map] at hl
    exact hl.of_map _
  constructor
  · intro o
    rw [hmem,List.mem_filter]
  · exact hnodup
  · apply sortByKey_strict
    apply horder
    exact (((sortByKey_perm _).map _).nodup_iff).mp hnodup
  · exact mapError_ok.mp hcounts
  · exact foldCounts_ok (mapError_ok.mp hcounts)

theorem inRange_consistent (h : queryBounded charge observations spans range limits = .ok r) :
    Consistent RetainedObservation.identity
      (observations.filter (RetainedObservation.inRange range)) := by
  obtain ⟨seen,hseen,-⟩ := bind_ok h
  exact collect_consistent (mapError_ok.mp hseen)

/-- The same observations are answered alike. -/
theorem queryBounded_congr (h : Consistent RetainedObservation.identity observations)
    (hmem : ∀ o, o ∈ observations' ↔ o ∈ observations) :
    queryBounded charge observations' spans range limits =
      queryBounded charge observations spans range limits := by
  have hfilter : ∀ o, o ∈ observations'.filter (RetainedObservation.inRange range) ↔
      o ∈ observations.filter (RetainedObservation.inRange range) := by
    intro o
    simp [hmem]
  have hadmission : ∀ (seen : OrderedMap Digest (RetainedObservation ρ)) (bytes : ℕ)
      (o : RetainedObservation ρ), admitRetained charge limits none seen bytes o =
        if seen.entries.length = limits.maxObservations then
          .error (.limitExceeded .observations) else .ok bytes := fun _ _ _ => rfl
  have hconsistent := h.of_mem fun o (ho : o ∈ observations.filter
    (RetainedObservation.inRange range)) => (List.mem_filter.mp ho).1
  rw [queryBounded,queryBounded,queryBoundedInner,queryBoundedInner,
    collect_congr hadmission hconsistent hfilter]

omit [DecidableEq ρ] in
theorem positions_empty {id : RetainedObservation ρ → Digest} : Positions id [] .empty := by
  simp [Positions]

theorem MemoryOracle.new_isOk (h : Consistent RetainedObservation.identity observations)
    (coverage : Coverage) : ∃ oracle, MemoryOracle.new observations coverage = .ok oracle ∧
      oracle.coverage = coverage ∧ ∀ o, o ∈ oracle.observations ↔ o ∈ observations := by
  have hmem : ∀ o, o ∈ sortByKey RetainedObservation.order observations ↔ o ∈ observations :=
    fun o => (sortByKey_perm observations).mem_iff
  have hsorted : Consistent RetainedObservation.identity
      ([]++sortByKey RetainedObservation.order observations) := h.of_mem fun o ho => (hmem o).mp ho
  obtain ⟨kept,hkept,hall⟩ := canonicalize_isOk (OracleQueryError.collect .observationIdCollision)
    positions_empty hsorted
  refine ⟨⟨kept,coverage⟩,?_,rfl,fun o => (hall o).trans (hmem o)⟩
  rw [MemoryOracle.new,hkept]
  rfl

theorem MemoryOracle.new_clash (h : ¬Consistent RetainedObservation.identity observations)
    (coverage : Coverage) :
    MemoryOracle.new observations coverage = .error (.collect .observationIdCollision) := by
  have hsorted : ¬Consistent RetainedObservation.identity
      ([]++sortByKey RetainedObservation.order observations) :=
    fun hc => h (hc.of_mem fun o ho => (sortByKey_perm observations).mem_iff.mpr ho)
  rw [MemoryOracle.new,canonicalize_clash positions_empty (by simp [Consistent]) hsorted]
  rfl

omit [DecidableEq ρ] in
theorem inRange_of_pointTime {o : RetainedObservation ρ} (h : o.hasPointTime = true) :
    o.inRange range = true ↔ range.lo ≤ o.time.sortTsUs.toInt ∧ o.time.sortTsUs.toInt < range.hi := by
  rw [RetainedObservation.inRange,observationInRange]
  cases honly : o.time.intervalOnly <;> cases hinterval : o.time.observedInterval <;>
    simp_all [RetainedObservation.hasPointTime,Int64.le_iff_toInt_le,Int64.lt_iff_toInt_lt,
      CoverageSpan.lo,CoverageSpan.hi]

omit [DecidableEq ρ] in
theorem inRange_whole (hmeet : left.toUs = right.fromUs) (hfrom : whole.fromUs = left.fromUs)
    (hto : whole.toUs = right.toUs) {o : RetainedObservation ρ} (h : o.hasPointTime = true) :
    (o.inRange whole = true ↔ o.inRange left = true ∨ o.inRange right = true) ∧
      ¬(o.inRange left = true ∧ o.inRange right = true) := by
  rw [inRange_of_pointTime h,inRange_of_pointTime h,inRange_of_pointTime h]
  have hmeet' : left.hi = right.lo := congrArg Int64.toInt hmeet
  have hfrom' : whole.lo = left.lo := congrArg Int64.toInt hfrom
  have hto' : whole.hi = right.hi := congrArg Int64.toInt hto
  have hleft := left.lo_lt_hi
  have hright := right.lo_lt_hi
  constructor
  · omega
  · omega

omit [DecidableEq ρ] in
/-- The observations with a point time of a range are those of its two parts, in order. -/
theorem split_points {l w : OracleResult ρ} (hl : Answers observations left limits l)
    (hr : Answers observations right limits r) (hw : Answers observations whole limits w)
    (hmeet : left.toUs = right.fromUs) (hfrom : whole.fromUs = left.fromUs)
    (hto : whole.toUs = right.toUs) :
    w.observations.filter RetainedObservation.hasPointTime =
      l.observations.filter RetainedObservation.hasPointTime ++
        r.observations.filter RetainedObservation.hasPointTime := by
  have hparts : (l.observations.filter RetainedObservation.hasPointTime ++
      r.observations.filter RetainedObservation.hasPointTime).Pairwise fun a b =>
        a.order < b.order := by
    refine List.pairwise_append.mpr ⟨hl.canonical.filter _,hr.canonical.filter _,?_⟩
    intro a ha b hb
    obtain ⟨ha,hapoint⟩ := List.mem_filter.mp ha
    obtain ⟨hb,hbpoint⟩ := List.mem_filter.mp hb
    have hale := (inRange_of_pointTime hapoint).mp ((hl.selected a).mp ha).2
    have hbge := (inRange_of_pointTime hbpoint).mp ((hr.selected b).mp hb).2
    have hmeet' : left.hi = right.lo := congrArg Int64.toInt hmeet
    refine Prod.Lex.toLex_lt_toLex.mpr (.inl ?_)
    show a.time.sortTsUs.toInt < b.time.sortTsUs.toInt
    omega
  have hnodup : ∀ l : List (RetainedObservation ρ), (l.Pairwise fun a b => a.order < b.order) →
      l.Nodup := fun l h => h.imp fun hab he => absurd (congrArg _ he) (ne_of_lt hab)
  refine List.Perm.eq_of_pairwise (fun a b _ _ hab hba => absurd hba (lt_asymm hab))
    (hw.canonical.filter _) hparts ?_
  refine (List.perm_ext_iff_of_nodup (hnodup _ (hw.canonical.filter _)) (hnodup _ hparts)).mpr ?_
  intro o
  rw [List.mem_append,List.mem_filter,List.mem_filter,List.mem_filter,hl.selected,hr.selected,
    hw.selected]
  constructor
  · rintro ⟨⟨ho,hin⟩,hpoint⟩
    exact (((inRange_whole hmeet hfrom hto hpoint).1.mp hin)).imp (fun h => ⟨⟨ho,h⟩,hpoint⟩)
      fun h => ⟨⟨ho,h⟩,hpoint⟩
  · rintro (⟨⟨ho,hin⟩,hpoint⟩ | ⟨⟨ho,hin⟩,hpoint⟩)
    · exact ⟨⟨ho,(inRange_whole hmeet hfrom hto hpoint).1.mpr (.inl hin)⟩,hpoint⟩
    · exact ⟨⟨ho,(inRange_whole hmeet hfrom hto hpoint).1.mpr (.inr hin)⟩,hpoint⟩

end Queries

/-- Queries do not depend on how the observations arrive, and they refuse every conflict
inside their range. -/
theorem bounded_queries (charge : RetainedObservation ρ → Option ℕ)
    (observations : List (RetainedObservation ρ)) (coverage : Coverage) (limits : OracleLimits) :
    (Consistent RetainedObservation.identity observations →
      ∃ oracle, MemoryOracle.new observations coverage = .ok oracle ∧
        ∀ (chunks : List (List (RetainedObservation ρ))) (range : CoverageSpan),
          chunks.flatten.Perm observations →
          queryBounded charge chunks.flatten coverage.spans range limits =
            oracle.query charge range limits) ∧
    (∀ range r, queryBounded charge observations coverage.spans range limits = .ok r →
      Answers observations range limits r) ∧
    (∀ (left right whole : CoverageSpan) (l r : OracleResult ρ), left.toUs = right.fromUs →
      whole.fromUs = left.fromUs → whole.toUs = right.toUs →
      queryBounded charge observations coverage.spans left limits = .ok l →
      queryBounded charge observations coverage.spans right limits = .ok r →
      (∀ o ∈ observations, o.hasPointTime = true → o.inRange whole = true →
        Xor (o ∈ l.observations) (o ∈ r.observations)) ∧
      ∀ w, queryBounded charge observations coverage.spans whole limits = .ok w →
        w.observations.filter RetainedObservation.hasPointTime =
          l.observations.filter RetainedObservation.hasPointTime ++
            r.observations.filter RetainedObservation.hasPointTime) ∧
    ∀ a ∈ observations, ∀ b ∈ observations, a.identity = b.identity → a ≠ b →
      MemoryOracle.new observations coverage = .error (.collect .observationIdCollision) ∧
      ∀ range, a.inRange range = true → b.inRange range = true →
        ∀ arranged : List (RetainedObservation ρ), arranged.Perm observations →
          ∃ e, queryBounded charge arranged coverage.spans range limits = .error e := by
  refine ⟨fun h => ?_,fun range r => queryBounded_ok,?_,?_⟩
  · obtain ⟨oracle,hnew,hcoverage,hmem⟩ := MemoryOracle.new_isOk h coverage
    refine ⟨oracle,hnew,fun chunks range hperm => ?_⟩
    rw [MemoryOracle.query,hcoverage,queryBounded_congr h hmem,
      queryBounded_congr h fun o => hperm.mem_iff]
  · intro left right whole l r hmeet hfrom hto hl hr
    have hleft := queryBounded_ok hl
    have hright := queryBounded_ok hr
    refine ⟨fun o ho hpoint hin => ?_,fun w hw =>
      split_points hleft hright (queryBounded_ok hw) hmeet hfrom hto⟩
    obtain ⟨heither,hnot⟩ := inRange_whole hmeet hfrom hto hpoint
    rw [xor_iff_or_and_not_and,hleft.selected,hright.selected]
    have hone := heither.mp hin
    tauto
  · intro a ha b hb hid hne
    refine ⟨MemoryOracle.new_clash (fun h => hne (h a ha b hb hid)) coverage,?_⟩
    intro range hain hbin arranged hperm
    cases hquery : queryBounded charge arranged coverage.spans range limits with
    | error e => exact ⟨e,rfl⟩
    | ok r =>
      have hin : ∀ o ∈ observations, o.inRange range = true →
          o ∈ arranged.filter (RetainedObservation.inRange range) := fun o ho hrange =>
        List.mem_filter.mpr ⟨hperm.mem_iff.mpr ho,hrange⟩
      exact absurd (inRange_consistent hquery a (hin a ha hain) b (hin b hb hbin) hid) hne

section Sample

def sampleQueryLimits : OracleLimits := ⟨8,8,⟨8,8,8⟩⟩

def sampleQueryRange : CoverageSpan := ⟨0,10,by decide⟩

def sampleDigest : Digest := ⟨.replicate 32 0⟩

/-- A retained ready message at a time. -/
def readyAt (ts : Int64) : RetainedObservation Unit where
  observationId := sampleDigest
  sectionTypeId := 0
  time := ⟨ts,none,none,false⟩
  occurrenceCount := 1
  payload := .readyObserved ⟨none,none,0⟩
  provenance := ⟨sampleDigest,0,0,sampleDigest⟩
  rest := ()

/-- A conflicting record outside the range goes unnoticed there, and the oracle refuses it. -/
theorem conflict_outside_range :
    (readyAt 5).identity = (readyAt 20).identity ∧ readyAt 5 ≠ readyAt 20 ∧
      (readyAt 5).inRange sampleQueryRange = true ∧
      (∃ r, queryBounded (fun _ => none) [readyAt 5,readyAt 20] [] sampleQueryRange
        sampleQueryLimits = .ok r ∧ r.observations = [readyAt 5]) ∧
      (∃ r, queryBounded (fun _ => none) [readyAt 20,readyAt 5] [] sampleQueryRange
        sampleQueryLimits = .ok r ∧ r.observations = [readyAt 5]) ∧
      MemoryOracle.new [readyAt 5,readyAt 20] .empty = .error (.collect .observationIdCollision) := by
  refine ⟨rfl,by decide,by decide,⟨_,rfl,rfl⟩,⟨_,rfl,rfl⟩,rfl⟩

end Sample

end PgKronika
