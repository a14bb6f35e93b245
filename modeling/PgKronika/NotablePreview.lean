import PgKronika.EventDigest

/-! The notable preview of an overview: the first notable observations in the order of their
positions, kept in a heap, and the number of the others. -/
namespace PgKronika
namespace Overview

open CheckedArith SmallestKept SparseCounts

section Preview

variable (app : EventsApp)

structure NotablePreview where
  observations : List EventFact
  omittedCount : UInt64
  eventsQueryHash : String

/-- The filters of an events request that sets none. -/
def defaultEventsFilters : String :=
  "limit=" ++ toString eventsDefaultLimit ++ ";min_severity=none;kind=none"

/-- Count one observation if it is notable, and offer it to the heap. -/
def previewObservation (responseCap : ℕ) (s : UInt64 × List PageCandidate)
    (observation : EventObservation) : Except ApiError (UInt64 × List PageCandidate) :=
  match classify observation with
  | none => .ok s
  | some c => do
    let total ← addCounts64 s.1 1
    match eventPosition app.sha256 observation c with
    | none => .error .storeReadFailed
    | some position =>
      .ok (total,retain PageCandidate.position responseCap s.2 ⟨position,.observation observation,c⟩)

def previewFact (candidate : PageCandidate) : Except ApiError EventFact :=
  match candidate.source with
  | .canonical _ => .error .storeReadFailed
  | .observation observation =>
    match project app observation candidate.notable with
    | none => .error .storeReadFailed
    | some fact => .ok fact

def notablePreviewDto (responseCap : ℕ) (observations : Vec EventObservation)
    (range : CoverageSpan) : Except ApiError NotablePreview := do
  let (total,selected) ← observations.val.foldlM (previewObservation app responseCap) (0,[])
  let retained ← lengthCount selected.length
  let facts ← selected.mapM (previewFact app)
  let omittedCount ← subCounts64 total retained
  return {
    observations := facts
    omittedCount
    eventsQueryHash :=
      Base64Url.encode (app.sha256 (eventsQueryInput range defaultEventsFilters)).asBytes }

end Preview

section Notable

variable {app : EventsApp} {responseCap : ℕ} {observations : List EventObservation}

/-- The hint is the hash of an events request for the range that sets nothing else. -/
theorem defaultEventsFilters_eq {request : EventsRequest} (hlimit : request.limit = eventsDefaultLimit)
    (hseverity : request.minSeverity = none) (hkind : request.kind = none) :
    request.filters = defaultEventsFilters := by
  rw [EventsRequest.filters,hlimit,hseverity,hkind]
  decide

/-- What a notable observation offers to the heap. -/
def notableCandidate (app : EventsApp) (observation : EventObservation) : Option PageCandidate :=
  (classify observation).bind fun c =>
    (eventPosition app.sha256 observation c).map fun position =>
      ⟨position,.observation observation,c⟩

abbrev notableCandidates (app : EventsApp) (observations : List EventObservation) :
    List PageCandidate := observations.filterMap (notableCandidate app)

theorem notableCandidate_some {observation : EventObservation} {c : NotableClass}
    (h : classify observation = some c) : ∃ position,
      eventPosition app.sha256 observation c = some position ∧
      notableCandidate app observation = some ⟨position,.observation observation,c⟩ := by
  obtain ⟨eventId,hposition⟩ := eventPosition_of_classify app.sha256 h
  refine ⟨_,hposition,?_⟩
  rw [notableCandidate,h,Option.bind_some,hposition]
  rfl

theorem foldlM_preview (app : EventsApp) (responseCap : ℕ) {total : UInt64}
    (heap : List PageCandidate)
    (h : total.toNat + observations.length ≤ u64Max) :
    ∃ c, observations.foldlM (previewObservation app responseCap) (total,heap) =
        .ok (c,(notableCandidates app observations).foldl
          (retain PageCandidate.position responseCap) heap) ∧
      c.toNat = total.toNat + (notableCandidates app observations).length := by
  induction observations generalizing total heap with
  | nil => exact ⟨total,rfl,rfl⟩
  | cons observation observations ih =>
    rw [List.length_cons] at h
    cases hclass : classify observation with
    | none =>
      have hnone : notableCandidate app observation = none := by rw [notableCandidate,hclass]; rfl
      have hstep : previewObservation app responseCap (total,heap) observation = .ok (total,heap) := by
        rw [previewObservation,hclass]
      rw [List.foldlM_cons,hstep,notableCandidates,List.filterMap_cons_none hnone]
      exact ih heap (by omega)
    | some c =>
      obtain ⟨position,hposition,hsome⟩ := @notableCandidate_some app _ _ hclass
      obtain ⟨next,hadd,hnext⟩ := addCounts64_ok (show total.toNat + (1 : UInt64).toNat ≤ u64Max by
        rw [UInt64.toNat_one]
        omega)
      rw [UInt64.toNat_one] at hnext
      have hstep : previewObservation app responseCap (total,heap) observation =
          .ok (next,retain PageCandidate.position responseCap heap
            ⟨position,.observation observation,c⟩) := by
        rw [previewObservation,hclass]
        dsimp only
        rw [hadd,hposition]
        rfl
      obtain ⟨count,hrest,hcount⟩ := ih
        (retain PageCandidate.position responseCap heap ⟨position,.observation observation,c⟩)
        (show next.toNat + observations.length ≤ u64Max by omega)
      rw [List.foldlM_cons,hstep,notableCandidates,List.filterMap_cons_some hsome]
      refine ⟨count,hrest,?_⟩
      change _ = _ + (notableCandidates app observations).length at hcount
      change _ = _ + ((notableCandidates app observations).length+1)
      omega

/-- What is notable has a payload on the wire. -/
theorem eventPayload_of_classify {observation : EventObservation} {c : NotableClass}
    (h : classify observation = some c) :
    ∃ payload, eventPayload observation.payload = some payload := by
  rw [classify] at h
  split at h
  · next he => exact ⟨_,by rw [he]; rfl⟩
  · next he => exact ⟨_,by rw [he]; rfl⟩
  · next he => exact ⟨_,by rw [he]; rfl⟩
  · cases h

theorem previewFact_ok {candidate : PageCandidate}
    (h : candidate ∈ notableCandidates app observations) :
    ∃ fact, previewFact app candidate = .ok fact := by
  obtain ⟨observation,-,hcandidate⟩ := List.mem_filterMap.mp h
  obtain ⟨c,hclass,hrest⟩ := Option.bind_eq_some_iff.mp hcandidate
  obtain ⟨position,hposition,rfl⟩ := Option.map_eq_some_iff.mp hrest
  obtain ⟨payload,hpayload⟩ := eventPayload_of_classify hclass
  rw [previewFact]
  dsimp only
  rw [project,hposition,Option.bind_some,hpayload]
  exact ⟨_,rfl⟩

theorem mapM_previewFact {kept : List PageCandidate}
    (h : ∀ candidate ∈ kept, candidate ∈ notableCandidates app observations) :
    ∃ facts, kept.mapM (previewFact app) = .ok facts := by
  induction kept with
  | nil => exact ⟨[],rfl⟩
  | cons candidate kept ih =>
    obtain ⟨fact,hfact⟩ := previewFact_ok (h candidate List.mem_cons_self)
    obtain ⟨facts,hfacts⟩ := ih fun other hother => h other (List.mem_cons_of_mem _ hother)
    rw [List.mapM_cons,hfact,hfacts]
    exact ⟨_,rfl⟩

/-- The preview of observations with positions of their own, whatever their order. -/
theorem notablePreviewDto_ok {observations : Vec EventObservation}
    (hpositions : ((notableCandidates app observations.val).map PageCandidate.position).Nodup)
    (responseCap : ℕ) (range : CoverageSpan) :
    ∃ preview kept, FirstBy PageCandidate.position responseCap
        (notableCandidates app observations.val) kept ∧
      kept.mapM (previewFact app) = .ok preview.observations ∧
      kept.length + preview.omittedCount.toNat = (notableCandidates app observations.val).length ∧
      ∀ arrival : Vec EventObservation, arrival.val.Perm observations.val →
        notablePreviewDto app responseCap arrival range = .ok preview := by
  have hlen := observations.property
  have hfirst := firstBy_take hpositions responseCap
  obtain ⟨rest,hperm,-⟩ := hfirst.others
  have hcandidates : (notableCandidates app observations.val).length ≤ observations.val.length :=
    List.length_filterMap_le _ _
  have hkept := hfirst.length
  obtain ⟨facts,hfacts⟩ := mapM_previewFact fun candidate hmem =>
    hperm.mem_iff.mpr (List.mem_append_left rest hmem)
  obtain ⟨retained,hretained,hretainedValue⟩ := lengthCount_ok
    (show ((sortByKey PageCandidate.position (notableCandidates app observations.val)).take
      responseCap).length < 2^64 by omega)
  obtain ⟨total,htotal⟩ := exists_count
    (show (notableCandidates app observations.val).length ≤ u64Max by
      rw [u64Max]
      omega)
  obtain ⟨omittedCount,homitted,hrest⟩ := subCounts64_ok
    (show retained.toNat ≤ total.toNat by omega)
  refine ⟨⟨facts,omittedCount,
    Base64Url.encode (app.sha256 (eventsQueryInput range defaultEventsFilters)).asBytes⟩,_,hfirst,
    hfacts,by dsimp only; omega,fun arrival harrival => ?_⟩
  have harrivalLen := arrival.property
  have hnotable : (notableCandidates app arrival.val).Perm
      (notableCandidates app observations.val) := harrival.filterMap _
  have hnotableLen := hnotable.length_eq
  obtain ⟨count,hfold,hcount⟩ := foldlM_preview app responseCap []
    (show (0 : UInt64).toNat + arrival.val.length ≤ u64Max by
      rw [UInt64.toNat_zero,u64Max]
      omega)
  have hsame : count = total := by
    rw [← UInt64.toNat_inj,hcount,UInt64.toNat_zero]
    omega
  rw [foldl_retain,sortByKey_eq_of_perm hpositions hnotable,hsame] at hfold
  simp only [notablePreviewDto,hfold,hretained,hfacts,homitted,bind,Except.bind,pure,Except.pure]

end Notable

section Exact

/-- Counts whose total fits have an exact digest, and observations whose positions are distinct an
exact preview. -/
theorem overview_exact (app : EventsApp) {counts : EventCounts} {total : UInt64}
    (htotal : counts.totalOccurrences = .ok total) {observations : Vec EventObservation}
    (hpositions : ((notableCandidates app observations.val).map PageCandidate.position).Nodup)
    (topN responseCap : ℕ) (range : CoverageSpan) :
    (∃ digest, eventDigest topN counts observations = .ok digest ∧
      Reconciled topN counts total digest ∧ OrderFree topN counts digest) ∧
    ∃ preview kept, FirstBy PageCandidate.position responseCap
        (notableCandidates app observations.val) kept ∧
      kept.mapM (previewFact app) = .ok preview.observations ∧
      kept.length + preview.omittedCount.toNat = (notableCandidates app observations.val).length ∧
      ∀ arrival : Vec EventObservation, arrival.val.Perm observations.val →
        notablePreviewDto app responseCap arrival range = .ok preview :=
  ⟨eventDigest_ok htotal topN observations,notablePreviewDto_ok hpositions responseCap range⟩

def sampleKey (severity : Severity) : JointErrorKey := ⟨severity,.system,none⟩

/-- Three errors and a panic, all without a state. -/
def sampleCounts : EventCounts where
  joint := ⟨(OrderedMap.empty.insert (sampleKey .error) 3).insert (sampleKey .panic) 1,by
    rw [Positive]
    decide⟩
  lifecycle := ⟨0,0,0,⟨.empty,by simp [Positive,OrderedMap.empty]⟩⟩

def sampleSignal (instant : Int64) : EventObservation where
  observationId := ⟨Vector.replicate 32 1⟩
  sectionTypeId := 1027001
  time := ⟨instant,some instant,none,false⟩
  occurrenceCount := 1
  payload := .childSignalTermination ⟨some 42,some 9,0⟩
  provenance := ⟨⟨Vector.replicate 32 1⟩,0,0,⟨Vector.replicate 32 2⟩⟩

def sampleOverviewApp : EventsApp where
  sha256 := fun _ => ⟨Vector.replicate 32 3⟩
  secret := ⟨Vector.replicate 32 5⟩
  config := {}
  residentBytes := fun _ => some 1024
  charge := fun _ => some 256

/-- One of two signals is shown, and one of two joint keys. -/
theorem overview_exact_pair :
    sampleCounts.totalOccurrences = .ok 4 ∧
    ((notableCandidates sampleOverviewApp [sampleSignal 20,sampleSignal 10]).map
      PageCandidate.position).Nodup ∧
    ∃ digest, eventDigest 1 sampleCounts ⟨[sampleSignal 20,sampleSignal 10],by simp⟩ = .ok digest := by
  have htotal : sampleCounts.totalOccurrences = .ok 4 := by decide
  have hpositions : ((notableCandidates sampleOverviewApp [sampleSignal 20,sampleSignal 10]).map
      PageCandidate.position).Nodup := by decide
  obtain ⟨⟨digest,hdigest,-⟩,-⟩ := @overview_exact sampleOverviewApp sampleCounts 4 htotal
    ⟨[sampleSignal 20,sampleSignal 10],by simp⟩ hpositions 1 1 ⟨0,100,by decide⟩
  exact ⟨htotal,hpositions,digest,hdigest⟩

end Exact

end Overview
end PgKronika
