import Mathlib
import PgKronika.CoverageUnion
import PgKronika.Digest
import PgKronika.SmallestKept
import PgKronika.SortedDedup

/-! Health of one cell. A score is known only from strictly eligible evidence of every
required factor, and floors override it. Scores are exact rationals. -/
namespace PgKronika

open ByteCodec SmallestKept CheckedArith

structure FactorId where
  id : UInt32
  deriving DecidableEq

instance : LinearOrder FactorId :=
  LinearOrder.lift' (fun factor => factor.id.toNat) fun a b h => by
    obtain ⟨a⟩ := a
    obtain ⟨b⟩ := b
    exact congrArg FactorId.mk (UInt32.toNat_inj.mp h)

abbrev FactId := Digest

structure HealthLimits where
  maxProfileFactors : ℕ
  maxCellFactors : ℕ
  maxCoverageEntries : ℕ
  maxFloorEvidence : ℕ
  maxDownsamplePoints : ℕ

inductive HealthResource
  | cellFactors | coverageEntries | lossReasons | floorEvidence | downsamplePoints

inductive DomainId
  | databaseErrorPressure | connectionCapacity | contention | cpuPressure | memoryPressure
  | storagePressure | maintenance | replication
  deriving DecidableEq

namespace DomainId

def all : List DomainId :=
  [.databaseErrorPressure,.connectionCapacity,.contention,.cpuPressure,.memoryPressure,
   .storagePressure,.maintenance,.replication]

def index : DomainId → ℕ
  | .databaseErrorPressure => 0
  | .connectionCapacity => 1
  | .contention => 2
  | .cpuPressure => 3
  | .memoryPressure => 4
  | .storagePressure => 5
  | .maintenance => 6
  | .replication => 7

theorem index_injective : Function.Injective index := by
  intro a b h
  cases a <;> cases b <;> first | rfl | cases h

instance : LinearOrder DomainId := LinearOrder.lift' index index_injective

theorem mem_all (d : DomainId) : d ∈ all := by
  cases d <;> simp [all]

end DomainId

inductive HealthState
  | unknown | normal | degraded | critical
  deriving DecidableEq

inductive FloorClass
  | availability | integrity | oomKill | diskFull
  deriving DecidableEq

def FloorClass.index : FloorClass → ℕ
  | .availability => 0
  | .integrity => 1
  | .oomKill => 2
  | .diskFull => 3

theorem FloorClass.index_injective : Function.Injective FloorClass.index := by
  intro a b h
  cases a <;> cases b <;> first | rfl | cases h

structure FloorEvidence where
  floorClass : FloorClass
  supportingFactId : FactId
  deriving DecidableEq

/-- By the supporting fact, then by the class. -/
instance : LinearOrder FloorEvidence :=
  LinearOrder.lift' (fun floor => toLex (floor.supportingFactId,floor.floorClass.index)) fun a b h => by
    obtain ⟨classA,factA⟩ := a
    obtain ⟨classB,factB⟩ := b
    have hpair := Prod.ext_iff.mp (toLex.injective h)
    cases hpair.1
    cases FloorClass.index_injective hpair.2
    rfl

/-- A penalty lies in `[0,1]`. -/
structure FactorPenalty where
  factorId : FactorId
  domain : DomainId
  supportingFactId : FactId
  penalty : ℚ
  nonneg : 0 ≤ penalty
  le_one : penalty ≤ 1
  deriving DecidableEq

def FactorPenalty.new (factorId : FactorId) (domain : DomainId) (penalty : ℚ)
    (supportingFactId : FactId) : Option FactorPenalty :=
  if h : 0 ≤ penalty ∧ penalty ≤ 1 then some ⟨factorId,domain,supportingFactId,penalty,h.1,h.2⟩
  else none

structure DomainPenalty where
  domain : DomainId
  penalty : ℚ
  drivingFactorIds : List FactorId

inductive Applicability
  | applicable | notApplicable | unsupported
  deriving DecidableEq

inductive CoverageState
  | complete | partially | gap | unknown | notCollected
  deriving DecidableEq

inductive PeriodQuality
  | persistedConfigEpoch | observedStable | assumedCurrentConfig | unknown
  deriving DecidableEq

inductive SourceCompleteness
  | full | boundedSubset | unknown
  deriving DecidableEq

inductive RetainedExactness
  | exact | lowerBound | unknown
  deriving DecidableEq

inductive PhysicalCountSemantics
  | exact | lowerBound | unknown | notApplicable
  deriving DecidableEq

inductive PopulationTotalQuality
  | exact | lowerBound | unknown
  deriving DecidableEq

structure SourcePopulation where
  collected : ℕ
  total : Option ℕ
  totalQuality : PopulationTotalQuality
  deriving DecidableEq

inductive LossReason
  | groupCapExceeded | lifecycleCapExceeded | parserBound | tailerBound | dictionaryBound
  | snapshotSourceLimit | permissionDenied | sourceReadFailure | collectorLimit
  | visibilityRestricted | missingResetContext | invalidCounterValue
  deriving DecidableEq

namespace LossReason

def all : List LossReason :=
  [.groupCapExceeded,.lifecycleCapExceeded,.parserBound,.tailerBound,.dictionaryBound,
   .snapshotSourceLimit,.permissionDenied,.sourceReadFailure,.collectorLimit,
   .visibilityRestricted,.missingResetContext,.invalidCounterValue]

def index : LossReason → ℕ
  | .groupCapExceeded => 0
  | .lifecycleCapExceeded => 1
  | .parserBound => 2
  | .tailerBound => 3
  | .dictionaryBound => 4
  | .snapshotSourceLimit => 5
  | .permissionDenied => 6
  | .sourceReadFailure => 7
  | .collectorLimit => 8
  | .visibilityRestricted => 9
  | .missingResetContext => 10
  | .invalidCounterValue => 11

def ofIndex (n : ℕ) : LossReason := all.getD n .groupCapExceeded

theorem ofIndex_index (reason : LossReason) : ofIndex reason.index = reason := by
  cases reason <;> rfl

instance : LinearOrder LossReason :=
  LinearOrder.lift' index (Function.LeftInverse.injective ofIndex_index)

end LossReason

structure FactorCoverage where
  factorId : FactorId
  applicability : Applicability
  state : CoverageState
  interval : CoverageSpan
  expectedPeriodUs : Option ℕ
  periodQuality : PeriodQuality
  cadenceEpochId : Option (Vector UInt8 16)
  crossesCadenceBoundary : Bool
  presentSamples : ℕ
  coveredDurationUs : ℕ
  sourcePopulation : Option SourcePopulation
  lossReasons : List LossReason
  lostCountLowerBound : Option ℕ
  retainedExactness : RetainedExactness
  sourceCompleteness : SourceCompleteness
  physicalCountSemantics : PhysicalCountSemantics
  boundaryQuality : BoundaryQuality

namespace FactorCoverage

def isValidNotApplicable (c : FactorCoverage) (interval : CoverageSpan) : Bool :=
  decide (c.interval = interval) && decide (c.applicability = .notApplicable) &&
    decide (c.state = .notCollected) && c.expectedPeriodUs.isNone &&
    decide (c.periodQuality = .unknown) && c.cadenceEpochId.isNone &&
    !c.crossesCadenceBoundary && decide (c.presentSamples = 0) &&
    decide (c.coveredDurationUs = 0) && c.sourcePopulation.isNone && c.lossReasons.isEmpty &&
    c.lostCountLowerBound.isNone && decide (c.retainedExactness = .unknown) &&
    decide (c.sourceCompleteness = .unknown) &&
    decide (c.physicalCountSemantics = .notApplicable) && decide (c.boundaryQuality = .unknown)

def populationIsConsistent (c : FactorCoverage) : Bool :=
  c.sourcePopulation.all fun population =>
    population.total.all (fun total => decide (population.collected ≤ total)) &&
      (decide (population.totalQuality ≠ .exact) || population.total.isSome)

def lossIsConsistent (c : FactorCoverage) : Bool :=
  c.lostCountLowerBound.all fun count => decide (count = 0) || !c.lossReasons.isEmpty

def stateIsConsistent (c : FactorCoverage) : Bool :=
  match c.applicability with
  | .notApplicable => c.isValidNotApplicable c.interval
  | .unsupported => decide (c.state = .unknown ∨ c.state = .notCollected) &&
      decide (c.presentSamples = 0) && decide (c.coveredDurationUs = 0)
  | .applicable =>
    match c.state with
    | .complete => decide (0 < c.presentSamples) &&
        decide (c.coveredDurationUs = c.interval.durationUs)
    | .partially => decide (0 < c.presentSamples) && decide (0 < c.coveredDurationUs) &&
        decide (c.coveredDurationUs < c.interval.durationUs)
    | .gap => decide (c.coveredDurationUs < c.interval.durationUs)
    | .unknown => decide (c.coveredDurationUs = 0)
    | .notCollected => decide (c.coveredDurationUs = 0)

def isConsistent (c : FactorCoverage) : Bool :=
  c.expectedPeriodUs.all (fun period => decide (0 < period)) &&
    decide (c.coveredDurationUs ≤ c.interval.durationUs) && c.populationIsConsistent &&
    c.lossIsConsistent && c.stateIsConsistent

def populationIsFull (c : FactorCoverage) : Bool :=
  c.sourcePopulation.all fun population =>
    decide (population.total = some population.collected) &&
      decide (population.totalQuality = .exact)

def isStrictlyEligible (c : FactorCoverage) (interval : CoverageSpan) : Bool :=
  decide (c.interval = interval) && decide (c.applicability = .applicable) &&
    decide (c.state = .complete) && decide (c.coveredDurationUs = interval.durationUs) &&
    c.expectedPeriodUs.any (fun period => decide (0 < period)) &&
    decide (c.periodQuality = .persistedConfigEpoch ∨ c.periodQuality = .observedStable) &&
    c.cadenceEpochId.isSome && !c.crossesCadenceBoundary && c.lossReasons.isEmpty &&
    c.lostCountLowerBound.all (fun count => decide (count = 0)) &&
    decide (c.retainedExactness = .exact) && decide (c.sourceCompleteness = .full) &&
    decide (c.physicalCountSemantics = .exact ∨ c.physicalCountSemantics = .notApplicable) &&
    decide (c.boundaryQuality ≠ .unknown) && c.populationIsFull

end FactorCoverage

section Adjacent

variable {α κ : Type}

def adjacentEqual [DecidableEq κ] (key : α → κ) : List α → Bool
  | a::b::l => decide (key a = key b) || adjacentEqual key (b::l)
  | _ => false

/-- A sorted list repeats a key only side by side. -/
theorem adjacentEqual_eq_false [LinearOrder κ] [DecidableEq κ] {key : α → κ} {l : List α}
    (hsorted : l.Pairwise fun a b => key a ≤ key b) :
    adjacentEqual key l = false ↔ (l.map key).Nodup := by
  induction l with
  | nil => simp [adjacentEqual]
  | cons a l ih =>
    obtain ⟨hlow,hrest⟩ := List.pairwise_cons.mp hsorted
    cases l with
    | nil => simp [adjacentEqual]
    | cons b l =>
      have hfirst : key a = key b ↔ key a ∈ (b::l).map key := by
        refine ⟨fun h => h ▸ List.mem_cons_self,fun h => ?_⟩
        obtain ⟨c,hc,hkey⟩ := List.mem_map.mp h
        rcases List.mem_cons.mp hc with rfl | hc
        · exact hkey.symm
        · exact le_antisymm (hlow b (by simp))
            (((List.pairwise_cons.mp hrest).1 c hc).trans hkey.le)
      rw [adjacentEqual,Bool.or_eq_false_iff,ih hrest,decide_eq_false_iff_not,hfirst,
        List.map_cons (l := b::l),List.nodup_cons]

/-- Sorted by keys of their own, the same elements stand alike. -/
theorem sortByKey_congr [LinearOrder κ] {key : α → κ} {l l' : List α}
    (hinj : ∀ a ∈ l, ∀ b ∈ l, key a = key b → a = b) (h : l'.Perm l) :
    sortByKey key l' = sortByKey key l := by
  refine List.Perm.eq_of_pairwise (fun a b ha hb hab hba => ?_) (sortByKey_ascending l')
    (sortByKey_ascending l) ((sortByKey_perm l').trans (h.trans (sortByKey_perm l).symm))
  have ha' := h.mem_iff.mp ((sortByKey_perm l').mem_iff.mp ha)
  have hb' := (sortByKey_perm l).mem_iff.mp hb
  exact hinj a ha' b hb' (le_antisymm hab hba)

theorem isEmpty_congr {l l' : List α} (h : ∀ a, a ∈ l ↔ a ∈ l') : l.isEmpty = l'.isEmpty := by
  rw [Bool.eq_iff_iff,List.isEmpty_iff,List.isEmpty_iff,List.eq_nil_iff_forall_not_mem,
    List.eq_nil_iff_forall_not_mem]
  simp [h]

end Adjacent

section Unique

variable {α : Type} [LinearOrder α]

/-- Sorted, without repeats. -/
def sortedUnique (l : List α) : List α := dedupAdjacent (sortByKey (fun a => a) l)

theorem mem_sortedUnique {a : α} {l : List α} : a ∈ sortedUnique l ↔ a ∈ l := by
  rw [sortedUnique,mem_dedupAdjacent,(sortByKey_perm l).mem_iff]

theorem sortedUnique_ascending (l : List α) : (sortedUnique l).Pairwise (· < ·) :=
  dedupAdjacent_ascending (sortByKey_ascending l)

end Unique

structure ProfileTopologyId where
  bytes : Bytes
  deriving DecidableEq

structure FactorSetId where
  bytes : Bytes
  deriving DecidableEq

def encodeFactorPairs (pairs : List (FactorId × DomainId)) : Bytes :=
  let pairs := sortedUnique (pairs.map toLex)
  leBytes 8 (min pairs.length u64Max) ++
    (pairs.map fun pair => leBytes 4 (ofLex pair).1.id.toNat ++
      leBytes 4 (ofLex pair).2.index).flatten

def profileTopologyDomainTag : Bytes := "pgk-overview-profile-topology-v1".toUTF8.toList

def factorSetDomainTag : Bytes := "pgk-overview-factor-set-v1".toUTF8.toList

def registryContractVersion : UInt32 := 1

def FactorSetId.derive (sha : Bytes → Digest) (healthPolicyVersion reductionSemanticsVersion
    profileId : UInt32) (topologyId : ProfileTopologyId)
    (applicable participating : List (FactorId × DomainId)) : FactorSetId :=
  ⟨(sha (factorSetDomainTag ++ u32Le healthPolicyVersion ++ u32Le reductionSemanticsVersion ++
    u32Le profileId ++ topologyId.bytes ++ u32Le registryContractVersion ++
    encodeFactorPairs applicable ++ encodeFactorPairs participating)).asBytes.take 16⟩

inductive InvalidFactorProfile
  | limitExceeded | noRequiredDomains | emptyRequiredDomain | duplicateEntry
  | conflictingFactorAssignment
  deriving DecidableEq

abbrev RequiredFactors := List (DomainId × List FactorId)

def requiredIds (required : RequiredFactors) : List FactorId := required.flatMap Prod.snd

/-- Required domains, each with factors, and every factor assigned once. -/
structure ValidProfile (required : RequiredFactors) (optional : List (FactorId × DomainId)) :
    Prop where
  required_ne : required ≠ []
  factors_ne : ∀ entry ∈ required, entry.2 ≠ []
  domains : (required.map Prod.fst).Nodup
  factors : (requiredIds required ++ optional.map Prod.fst).Nodup

def assignFactors : List FactorId → List FactorId → Except InvalidFactorProfile (List FactorId)
  | [],assigned => .ok assigned
  | factor::rest,assigned =>
    if factor ∈ assigned then .error .conflictingFactorAssignment
    else assignFactors rest (factor::assigned)

def assignDomains : RequiredFactors → List FactorId →
    Except InvalidFactorProfile (RequiredFactors × List FactorId)
  | [],assigned => .ok ([],assigned)
  | (domain,factors)::rest,assigned => do
    let factors := sortByKey (fun factor => factor) factors
    refuse .duplicateEntry (adjacentEqual (fun factor => factor) factors = true)
    let assigned ← assignFactors factors assigned
    let (rest,assigned) ← assignDomains rest assigned
    return ((domain,factors)::rest,assigned)

def profileFactorCount (required : RequiredFactors) (optional : List (FactorId × DomainId)) : ℕ :=
  (required.map fun entry => entry.2.length).sum + optional.length

def checkProfile (required : RequiredFactors) (optional : List (FactorId × DomainId))
    (limits : HealthLimits) :
    Except InvalidFactorProfile (RequiredFactors × List (FactorId × DomainId)) := do
  refuse .noRequiredDomains (required = [])
  refuse .limitExceeded (DomainId.all.length < required.length ∨
    limits.maxProfileFactors < optional.length)
  refuse .emptyRequiredDomain (∃ entry ∈ required, entry.2 = [])
  refuse .limitExceeded (limits.maxProfileFactors < profileFactorCount required optional)
  let required := sortByKey Prod.fst required
  let optional := sortByKey (fun pair => (toLex pair : FactorId ×ₗ DomainId)) optional
  refuse .duplicateEntry (adjacentEqual Prod.fst required = true ∨
    adjacentEqual (fun pair => pair) optional = true)
  let (required,assigned) ← assignDomains required []
  let _ ← assignFactors (optional.map Prod.fst) assigned
  return (required,optional)

theorem assignFactors_ok {factors assigned result : List FactorId}
    (h : assignFactors factors assigned = .ok result) (hassigned : assigned.Nodup) :
    result = factors.reverse ++ assigned ∧ result.Nodup := by
  induction factors generalizing assigned with
  | nil =>
    cases h
    exact ⟨rfl,hassigned⟩
  | cons factor rest ih =>
    rw [assignFactors] at h
    split_ifs at h with hmem
    obtain ⟨hresult,hnodup⟩ := ih h (List.nodup_cons.mpr ⟨hmem,hassigned⟩)
    exact ⟨by simp [hresult],hnodup⟩

theorem assignDomains_ok {required : RequiredFactors} {assigned : List FactorId}
    {result : RequiredFactors × List FactorId} (h : assignDomains required assigned = .ok result)
    (hassigned : assigned.Nodup) :
    result.1.map Prod.fst = required.map Prod.fst ∧
      (∀ entry ∈ result.1, ∃ entry' ∈ required, entry.2.Perm entry'.2) ∧
      result.2.Perm (requiredIds result.1 ++ assigned) ∧ result.2.Nodup := by
  induction required generalizing assigned result with
  | nil =>
    cases h
    exact ⟨rfl,by simp,by simp [requiredIds],hassigned⟩
  | cons entry rest ih =>
    obtain ⟨domain,factors⟩ := entry
    obtain ⟨_,hdup,h⟩ := bind_ok h
    obtain ⟨next,hnext,h⟩ := bind_ok h
    obtain ⟨later,hlater,h⟩ := bind_ok h
    cases h
    obtain ⟨hresult,hnodup⟩ := assignFactors_ok hnext hassigned
    obtain ⟨hdomains,hfactors,hperm,hall⟩ := ih hlater hnodup
    refine ⟨by simp [hdomains],?_,?_,hall⟩
    · intro entry hentry
      rcases List.mem_cons.mp hentry with rfl | hentry
      · exact ⟨(domain,factors),List.mem_cons_self,sortByKey_perm factors⟩
      · obtain ⟨entry',hmem,hp⟩ := hfactors entry hentry
        exact ⟨entry',List.mem_cons_of_mem _ hmem,hp⟩
    · have hids : requiredIds ((domain,sortByKey (fun factor => factor) factors)::later.1) =
          sortByKey (fun factor => factor) factors ++ requiredIds later.1 := rfl
      rw [hids]
      refine hperm.trans ?_
      rw [hresult,List.append_assoc]
      refine (List.perm_append_comm_assoc _ _ _).trans ?_
      exact (List.reverse_perm _).append_right _

theorem checkProfile_ok {required : RequiredFactors} {optional : List (FactorId × DomainId)}
    {limits : HealthLimits} {result : RequiredFactors × List (FactorId × DomainId)}
    (h : checkProfile required optional limits = .ok result) :
    ValidProfile result.1 result.2 := by
  obtain ⟨_,hempty,h⟩ := bind_ok h
  obtain ⟨_,hlimit,h⟩ := bind_ok h
  obtain ⟨_,hfactors,h⟩ := bind_ok h
  obtain ⟨_,hcount,h⟩ := bind_ok h
  obtain ⟨_,hdup,h⟩ := bind_ok h
  rw [refuse_ok] at hempty hfactors hdup
  obtain ⟨⟨domains,assigned⟩,hassign,h⟩ := bind_ok h
  obtain ⟨all,hall,h⟩ := bind_ok h
  cases h
  obtain ⟨hnames,hsome,hperm,hnodup⟩ := assignDomains_ok hassign List.nodup_nil
  obtain ⟨hresult,hunique⟩ := assignFactors_ok hall hnodup
  simp only [not_or,Bool.not_eq_true] at hdup
  constructor
  · rintro rfl
    have hlen := congrArg List.length hnames
    simp only [List.map_nil,List.length_nil,List.length_map,(sortByKey_perm required).length_eq]
      at hlen
    exact hempty (List.length_eq_zero_iff.mp hlen.symm)
  · intro entry hentry hnil
    obtain ⟨entry',hmem,hp⟩ := hsome entry hentry
    rw [hnil] at hp
    exact hfactors ⟨entry',(sortByKey_perm required).mem_iff.mp hmem,hp.nil_eq.symm⟩
  · rw [hnames]
    exact (adjacentEqual_eq_false (sortByKey_ascending required)).mp hdup.1
  · have hlast : all.Perm (requiredIds domains ++
        (sortByKey (fun pair => (toLex pair : FactorId ×ₗ DomainId)) optional).map Prod.fst) := by
      rw [hresult]
      refine List.perm_append_comm.trans ?_
      exact (by simpa using hperm : assigned.Perm (requiredIds domains)).append
        (List.reverse_perm _)
    exact hlast.nodup_iff.mp hunique

structure RequiredFactorProfile where
  profileId : UInt32
  topologyId : ProfileTopologyId
  requiredFactorsByDomain : RequiredFactors
  optionalFactors : List (FactorId × DomainId)
  valid : ValidProfile requiredFactorsByDomain optionalFactors

namespace RequiredFactorProfile

def topologyOf (sha : Bytes → Digest) (profileId : UInt32) (required : RequiredFactors)
    (optional : List (FactorId × DomainId)) : ProfileTopologyId :=
  ⟨(sha (profileTopologyDomainTag ++ u32Le profileId ++
    encodeFactorPairs (required.flatMap fun entry => entry.2.map fun factor => (factor,entry.1)) ++
    encodeFactorPairs optional)).asBytes.take 16⟩

def new (sha : Bytes → Digest) (profileId : UInt32) (required : RequiredFactors)
    (optional : List (FactorId × DomainId)) (limits : HealthLimits) :
    Except InvalidFactorProfile RequiredFactorProfile :=
  match h : checkProfile required optional limits with
  | .error e => .error e
  | .ok (required,optional) =>
    .ok ⟨profileId,topologyOf sha profileId required optional,required,optional,checkProfile_ok h⟩

def configuredDomain (profile : RequiredFactorProfile) (factor : FactorId) : Option DomainId :=
  (profile.requiredFactorsByDomain.findSome? fun entry =>
    if factor ∈ entry.2 then some entry.1 else none).or
  (profile.optionalFactors.findSome? fun pair => if pair.1 = factor then some pair.2 else none)

def factorCount (profile : RequiredFactorProfile) : ℕ :=
  profileFactorCount profile.requiredFactorsByDomain profile.optionalFactors

def requiredFactors (profile : RequiredFactorProfile) : List FactorId :=
  requiredIds profile.requiredFactorsByDomain

theorem requiredFactors_ne (profile : RequiredFactorProfile) : profile.requiredFactors ≠ [] := by
  obtain ⟨entry,hentry⟩ := List.exists_mem_of_ne_nil _ profile.valid.required_ne
  obtain ⟨factor,hfactor⟩ := List.exists_mem_of_ne_nil _ (profile.valid.factors_ne entry hentry)
  exact List.ne_nil_of_mem (List.mem_flatMap.mpr ⟨entry,hentry,hfactor⟩)

end RequiredFactorProfile

inductive InvalidHealthPolicy
  | zeroVersion | invalidThresholds | incompatibleLimits

structure HealthPolicy where
  version : UInt32
  reductionSemanticsVersion : UInt32
  profile : RequiredFactorProfile
  degradedBelow : ℚ
  criticalBelow : ℚ
  limits : HealthLimits
  versions : version ≠ 0 ∧ reductionSemanticsVersion ≠ 0
  thresholds : 0 ≤ criticalBelow ∧ criticalBelow ≤ degradedBelow ∧ degradedBelow ≤ 1
  fits : profile.factorCount ≤ limits.maxProfileFactors ∧
    profile.factorCount ≤ limits.maxCellFactors ∧ profile.factorCount ≤ limits.maxCoverageEntries

inductive HealthEvaluationError
  | limitExceeded (resource : HealthResource)
  | duplicateCoverage
  | duplicatePenalty
  | coverageIntervalMismatch
  | invalidCoverage
  | unconfiguredFactor
  | factorDomainMismatch
  | penaltyWithoutCoverage
  | penaltyWithIneligibleCoverage
  | conflictingFloorEvidence

structure HealthPoint where
  interval : CoverageSpan
  continuousScore : Option ℚ
  overallScore : Option ℚ
  overallState : HealthState
  healthPolicyVersion : UInt32
  reductionSemanticsVersion : UInt32
  profileTopologyId : ProfileTopologyId
  factorSetId : FactorSetId
  factorPenalties : List FactorPenalty
  domainPenalties : List DomainPenalty
  floorEvidence : List FloorEvidence
  coverage : List FactorCoverage

def conflictingFloors : List FloorEvidence → Bool
  | a::b::l => decide (a.supportingFactId = b.supportingFactId ∧ a.floorClass ≠ b.floorClass) ||
      conflictingFloors (b::l)
  | _ => false

def normalizeFloors (floors : List FloorEvidence) :
    Except HealthEvaluationError (List FloorEvidence) :=
  if conflictingFloors (sortByKey (fun floor => floor) floors) then .error .conflictingFloorEvidence
  else .ok (sortedUnique floors)

def domainPenaltiesOf (factors : List FactorPenalty) : List DomainPenalty :=
  DomainId.all.filterMap fun domain =>
    let inDomain := factors.filter fun factor => decide (factor.domain = domain)
    (inDomain.map FactorPenalty.penalty).max?.map fun maximum =>
      ⟨domain,maximum,sortedUnique ((inDomain.filter fun factor =>
        decide (factor.penalty = maximum)).map FactorPenalty.factorId)⟩

/-- Domain, factor, fact, then penalty. -/
def penaltyOrder (p : FactorPenalty) : DomainId ×ₗ FactorId ×ₗ FactId ×ₗ ℚ :=
  toLex (p.domain,toLex (p.factorId,toLex (p.supportingFactId,p.penalty)))

namespace HealthPolicy

def new (version reductionSemanticsVersion : UInt32) (profile : RequiredFactorProfile)
    (degradedBelow criticalBelow : ℚ) (limits : HealthLimits) :
    Except InvalidHealthPolicy HealthPolicy :=
  if hversions : version ≠ 0 ∧ reductionSemanticsVersion ≠ 0 then
    if hthresholds : 0 ≤ criticalBelow ∧ criticalBelow ≤ degradedBelow ∧ degradedBelow ≤ 1 then
      if hfits : profile.factorCount ≤ limits.maxProfileFactors ∧
          profile.factorCount ≤ limits.maxCellFactors ∧
          profile.factorCount ≤ limits.maxCoverageEntries then
        .ok ⟨version,reductionSemanticsVersion,profile,degradedBelow,criticalBelow,limits,
          hversions,hthresholds,hfits⟩
      else .error .incompatibleLimits
    else .error .invalidThresholds
  else .error .zeroVersion

variable (policy : HealthPolicy)

def stateFromScore (score : ℚ) : HealthState :=
  if score < policy.criticalBelow then .critical
  else if score < policy.degradedBelow then .degraded
  else .normal

def admitCoverage (interval : CoverageSpan) (entry : FactorCoverage) :
    Except HealthEvaluationError FactorCoverage := do
  refuse (.limitExceeded .lossReasons) (LossReason.all.length < entry.lossReasons.length)
  let entry := {entry with lossReasons := sortedUnique entry.lossReasons}
  refuse .coverageIntervalMismatch (entry.interval ≠ interval)
  refuse .invalidCoverage (entry.isConsistent = false)
  refuse .unconfiguredFactor (policy.profile.configuredDomain entry.factorId = none)
  return entry

def admitPenalties (interval : CoverageSpan) (coverage : List FactorCoverage) :
    List FactorPenalty → List FactorId → Except HealthEvaluationError Unit
  | [],_ => .ok ()
  | penalty::rest,seen => do
    refuse .duplicatePenalty (penalty.factorId ∈ seen)
    refuse .factorDomainMismatch
      (policy.profile.configuredDomain penalty.factorId ≠ some penalty.domain)
    match coverage.find? fun entry => decide (entry.factorId = penalty.factorId) with
    | none => .error .penaltyWithoutCoverage
    | some entry =>
      refuse .penaltyWithIneligibleCoverage (entry.isStrictlyEligible interval = false)
      admitPenalties interval coverage rest (penalty.factorId::seen)

def factorKnown (interval : CoverageSpan) (coverage : List FactorCoverage)
    (penalties : List FactorPenalty) (factor : FactorId) : Bool :=
  match coverage.find? fun entry => decide (entry.factorId = factor) with
  | none => false
  | some entry => entry.isValidNotApplicable interval ||
      entry.isStrictlyEligible interval &&
        penalties.any fun penalty => decide (penalty.factorId = factor)

def requiredKnown (interval : CoverageSpan) (coverage : List FactorCoverage)
    (penalties : List FactorPenalty) : Bool :=
  policy.profile.requiredFactorsByDomain.all fun entry =>
    entry.2.all (factorKnown interval coverage penalties)

def evaluateCell (sha : Bytes → Digest) (interval : CoverageSpan) (factors : List FactorPenalty)
    (coverage : List FactorCoverage) (floorEvidence : List FloorEvidence) :
    Except HealthEvaluationError HealthPoint := do
  refuse (.limitExceeded .cellFactors) (policy.limits.maxCellFactors < factors.length)
  refuse (.limitExceeded .coverageEntries) (policy.limits.maxCoverageEntries < coverage.length)
  refuse (.limitExceeded .floorEvidence) (policy.limits.maxFloorEvidence < floorEvidence.length)
  let coverage := sortByKey FactorCoverage.factorId coverage
  refuse .duplicateCoverage (adjacentEqual FactorCoverage.factorId coverage = true)
  let coverage ← coverage.mapM (policy.admitCoverage interval)
  let factorPenalties := sortByKey penaltyOrder factors
  policy.admitPenalties interval coverage factorPenalties []
  let floorEvidence ← normalizeFloors floorEvidence
  let domainPenalties := domainPenaltiesOf factorPenalties
  let continuousScore :=
    if policy.requiredKnown interval coverage factorPenalties then
      some ((domainPenalties.map fun domain => 1 - domain.penalty).prod)
    else none
  let overallScore := continuousScore.map fun score => if floorEvidence.isEmpty then score else 0
  let overallState :=
    if floorEvidence.isEmpty then overallScore.elim .unknown policy.stateFromScore else .critical
  let applicable := (coverage.filter fun entry =>
    decide (entry.applicability = .applicable)).filterMap fun entry =>
      (policy.profile.configuredDomain entry.factorId).map fun domain => (entry.factorId,domain)
  let participating := factorPenalties.map fun penalty => (penalty.factorId,penalty.domain)
  let factorSetId := FactorSetId.derive sha policy.version policy.reductionSemanticsVersion
    policy.profile.profileId policy.profile.topologyId applicable participating
  return ⟨interval,continuousScore,overallScore,overallState,policy.version,
    policy.reductionSemanticsVersion,policy.profile.topologyId,factorSetId,factorPenalties,
    domainPenalties,floorEvidence,coverage⟩

end HealthPolicy

theorem penaltyOrder_injective : Function.Injective penaltyOrder := by
  intro a b h
  obtain ⟨factorA,domainA,factA,penaltyA,_,_⟩ := a
  obtain ⟨factorB,domainB,factB,penaltyB,_,_⟩ := b
  have hdomain := Prod.ext_iff.mp (toLex.injective h)
  have hfactor := Prod.ext_iff.mp (toLex.injective hdomain.2)
  have hfact := Prod.ext_iff.mp (toLex.injective hfactor.2)
  cases hdomain.1
  cases hfactor.1
  cases hfact.1
  cases hfact.2
  rfl

section Floors

variable {floors result : List FloorEvidence}

theorem normalizeFloors_ok (h : normalizeFloors floors = .ok result) :
    result.Pairwise (· < ·) ∧ ∀ floor, floor ∈ result ↔ floor ∈ floors := by
  rw [normalizeFloors] at h
  split_ifs at h
  cases h
  exact ⟨sortedUnique_ascending floors,fun floor => mem_sortedUnique⟩

theorem normalizeFloors_isEmpty (h : normalizeFloors floors = .ok result) :
    result.isEmpty = floors.isEmpty := isEmpty_congr (normalizeFloors_ok h).2

theorem normalizeFloors_congr {floors' : List FloorEvidence} (h : floors'.Perm floors) :
    normalizeFloors floors' = normalizeFloors floors := by
  rw [normalizeFloors,normalizeFloors,sortedUnique,sortedUnique,
    sortByKey_congr (fun a _ b _ hab => hab) h]

end Floors

section Coverage

variable {policy : HealthPolicy} {interval : CoverageSpan} {coverage admitted : List FactorCoverage}
  {penalties : List FactorPenalty} {factor : FactorId}

def FactorCoverage.normalized (entry : FactorCoverage) : FactorCoverage :=
  {entry with lossReasons := sortedUnique entry.lossReasons}

theorem FactorCoverage.normalized_lossReasons (entry : FactorCoverage) :
    entry.normalized.lossReasons.isEmpty = entry.lossReasons.isEmpty :=
  isEmpty_congr fun _ => mem_sortedUnique

@[simp] theorem FactorCoverage.normalized_eligible (entry : FactorCoverage) :
    entry.normalized.isStrictlyEligible interval = entry.isStrictlyEligible interval := by
  rw [isStrictlyEligible,isStrictlyEligible,normalized_lossReasons]
  rfl

@[simp] theorem FactorCoverage.normalized_notApplicable (entry : FactorCoverage) :
    entry.normalized.isValidNotApplicable interval = entry.isValidNotApplicable interval := by
  rw [isValidNotApplicable,isValidNotApplicable,normalized_lossReasons]
  rfl

theorem HealthPolicy.admitCoverage_ok {entry result : FactorCoverage}
    (h : policy.admitCoverage interval entry = .ok result) :
    result = entry.normalized ∧ entry.interval = interval := by
  obtain ⟨_,_,h⟩ := bind_ok h
  obtain ⟨_,hinterval,h⟩ := bind_ok h
  obtain ⟨_,_,h⟩ := bind_ok h
  obtain ⟨_,_,h⟩ := bind_ok h
  cases h
  exact ⟨rfl,not_not.mp (refuse_ok.mp hinterval)⟩

theorem HealthPolicy.admitAll_ok (h : coverage.mapM (policy.admitCoverage interval) = .ok admitted) :
    admitted = coverage.map FactorCoverage.normalized := by
  have hall := mapM_eq_ok.mp h
  clear h
  induction hall with
  | nil => rfl
  | cons hentry _ ih => rw [List.map_cons,(admitCoverage_ok hentry).1,ih]

theorem find_factor (hkeys : (coverage.map FactorCoverage.factorId).Nodup) {entry : FactorCoverage} :
    coverage.find? (fun entry => decide (entry.factorId = factor)) = some entry ↔
      entry ∈ coverage ∧ entry.factorId = factor := by
  constructor
  · intro h
    exact ⟨List.mem_of_find?_eq_some h,by simpa using List.find?_some h⟩
  · rintro ⟨hmem,hid⟩
    cases hfind : coverage.find? fun entry => decide (entry.factorId = factor) with
    | none => simpa [hid] using List.find?_eq_none.mp hfind entry hmem
    | some found =>
      have hfound : found.factorId = factor := by simpa using List.find?_some hfind
      rw [List.inj_on_of_nodup_map hkeys (List.mem_of_find?_eq_some hfind) hmem
        (hfound.trans hid.symm)]

/-- A factor's state is known: it does not apply, or it is strictly covered and penalized. -/
def FactorKnown (interval : CoverageSpan) (coverage : List FactorCoverage)
    (factors : List FactorPenalty) (factor : FactorId) : Prop :=
  ∃ entry ∈ coverage, entry.factorId = factor ∧
    (entry.isValidNotApplicable interval = true ∨
      entry.isStrictlyEligible interval = true ∧ ∃ p ∈ factors, p.factorId = factor)

theorem factorKnown_iff (hkeys : (coverage.map FactorCoverage.factorId).Nodup) :
    HealthPolicy.factorKnown interval coverage penalties factor = true ↔
      FactorKnown interval coverage penalties factor := by
  rw [HealthPolicy.factorKnown,FactorKnown]
  cases hfind : coverage.find? fun entry => decide (entry.factorId = factor) with
  | none =>
    simp only [Bool.false_eq_true,false_iff]
    rintro ⟨entry,hmem,hid,-⟩
    rw [(find_factor hkeys).mpr ⟨hmem,hid⟩] at hfind
    cases hfind
  | some entry =>
    obtain ⟨hmem,hid⟩ := (find_factor hkeys).mp hfind
    simp only [Bool.or_eq_true,Bool.and_eq_true,List.any_eq_true,decide_eq_true_eq]
    constructor
    · intro h
      exact ⟨entry,hmem,hid,h⟩
    · rintro ⟨entry',hmem',hid',h⟩
      have hsame := (find_factor hkeys).mpr ⟨hmem',hid'⟩
      rw [hfind] at hsame
      cases hsame
      exact h

end Coverage

section Penalties

variable {factors raised : List FactorPenalty} {d : DomainId}

/-- The greatest penalty of a domain, zero without any. -/
def worst (factors : List FactorPenalty) (d : DomainId) : ℚ :=
  factors.foldr (fun p m => if p.domain = d then max p.penalty m else m) 0

theorem worst_le_iff {x : ℚ} :
    worst factors d ≤ x ↔ 0 ≤ x ∧ ∀ p ∈ factors, p.domain = d → p.penalty ≤ x := by
  induction factors with
  | nil => simp [worst]
  | cons p rest ih =>
    have hcons : worst (p::rest) d = if p.domain = d then max p.penalty (worst rest d)
      else worst rest d := rfl
    rw [hcons]
    by_cases hp : p.domain = d
    · rw [if_pos hp,max_le_iff,ih,List.forall_mem_cons]
      simp only [hp,forall_true_left]
      exact and_left_comm
    · rw [if_neg hp,ih,List.forall_mem_cons]
      simp only [hp,false_implies,true_and]

theorem worst_nonneg : 0 ≤ worst factors d := (worst_le_iff.1 le_rfl).1

theorem le_worst {p : FactorPenalty} (h : p ∈ factors) : p.penalty ≤ worst factors p.domain :=
  (worst_le_iff.1 le_rfl).2 p h rfl

theorem worst_le_one : worst factors d ≤ 1 :=
  worst_le_iff.2 ⟨zero_le_one,fun p _ _ => p.le_one⟩

theorem worst_congr (h : ∀ p, p ∈ raised ↔ p ∈ factors) : worst raised d = worst factors d := by
  apply le_antisymm
  · exact worst_le_iff.2 ⟨worst_nonneg,fun p hp hd => hd ▸ le_worst ((h p).mp hp)⟩
  · exact worst_le_iff.2 ⟨worst_nonneg,fun p hp hd => hd ▸ le_worst ((h p).mpr hp)⟩

/-- What is left of the health of every domain, multiplied. -/
def remainingHealth (factors : List FactorPenalty) : ℚ :=
  (DomainId.all.map fun d => 1 - worst factors d).prod

theorem worst_of_max {maximum : Option ℚ}
    (h : ((factors.filter fun p => decide (p.domain = d)).map FactorPenalty.penalty).max? = maximum) :
    worst factors d = maximum.getD 0 := by
  cases maximum with
  | none =>
    have hnone : ∀ p ∈ factors, p.domain ≠ d := by
      simpa [List.max?_eq_none_iff,List.filter_eq_nil_iff] using h
    exact le_antisymm (worst_le_iff.2 ⟨le_rfl,fun p hp hd => absurd hd (hnone p hp)⟩) worst_nonneg
  | some maximum =>
    obtain ⟨hmem,hmax⟩ := List.max?_eq_some_iff.mp h
    obtain ⟨p,hp,rfl⟩ := List.mem_map.mp hmem
    obtain ⟨hp,hd⟩ := List.mem_filter.mp hp
    have hd := of_decide_eq_true hd
    apply le_antisymm
    · refine worst_le_iff.2 ⟨p.nonneg,fun q hq hqd => hmax _ (List.mem_map.mpr ⟨q,?_,rfl⟩)⟩
      exact List.mem_filter.mpr ⟨hq,decide_eq_true hqd⟩
    · exact hd ▸ le_worst hp

theorem prod_filterMap {g : DomainId → Option DomainPenalty} {f : DomainId → ℚ}
    (h : ∀ d, f d = (g d).elim 1 fun domain => 1 - domain.penalty) (ds : List DomainId) :
    ((ds.filterMap g).map fun domain => 1 - domain.penalty).prod = (ds.map f).prod := by
  induction ds with
  | nil => rfl
  | cons d rest ih => cases hd : g d <;> simp [hd,ih,h d]

/-- The domain penalties multiply to what remains. -/
theorem domainPenalties_prod :
    ((domainPenaltiesOf factors).map fun domain => 1 - domain.penalty).prod = remainingHealth factors := by
  apply prod_filterMap
  intro d
  cases hmax : ((factors.filter fun p => decide (p.domain = d)).map FactorPenalty.penalty).max? with
  | none => simp [worst_of_max hmax,hmax]
  | some maximum => simp [worst_of_max hmax,hmax]

theorem remainingHealth_nonneg : 0 ≤ remainingHealth factors :=
  List.prod_nonneg fun x hx => by
    obtain ⟨d,-,rfl⟩ := List.mem_map.mp hx
    linarith [(worst_le_one : worst factors d ≤ 1)]

/-- Nothing outweighs one penalty. -/
theorem remainingHealth_le {p : FactorPenalty} (h : p ∈ factors) : remainingHealth factors ≤ 1 - p.penalty := by
  have hle : ∀ ds : List DomainId, p.domain ∈ ds →
      (ds.map fun d => 1 - worst factors d).prod ≤ 1 - worst factors p.domain := by
    intro ds hds
    obtain ⟨front,back,rfl⟩ := List.append_of_mem hds
    have hone : ∀ l : List DomainId, 0 ≤ (l.map fun d => 1 - worst factors d).prod ∧
        (l.map fun d => 1 - worst factors d).prod ≤ 1 := by
      intro l
      induction l with
      | nil => simp
      | cons d l ih =>
        have hlow : 0 ≤ worst factors d := worst_nonneg
        have hhigh : worst factors d ≤ 1 := worst_le_one
        rw [List.map_cons,List.prod_cons]
        exact ⟨mul_nonneg (by linarith) ih.1,mul_le_one₀ (by linarith) ih.1 ih.2⟩
    have hhead : worst factors p.domain ≤ 1 := worst_le_one
    rw [List.map_append,List.prod_append,List.map_cons,List.prod_cons,mul_left_comm]
    refine mul_le_of_le_one_right (by linarith) ?_
    exact mul_le_one₀ (hone front).2 (hone back).1 (hone back).2
  have hworst := le_worst h
  have hall := hle DomainId.all (DomainId.mem_all p.domain)
  rw [remainingHealth]
  linarith

/-- The same evidence with penalties that are no lower. -/
def Raised (factors raised : List FactorPenalty) : Prop :=
  List.Forall₂ (fun p q => q.factorId = p.factorId ∧ q.domain = p.domain ∧ p.penalty ≤ q.penalty)
    factors raised

theorem Raised.exists_left {p : FactorPenalty} (h : Raised factors raised) (hp : p ∈ factors) :
    ∃ q ∈ raised, q.factorId = p.factorId ∧ q.domain = p.domain ∧ p.penalty ≤ q.penalty := by
  induction h with
  | nil => cases hp
  | cons hpq _ ih =>
    rcases List.mem_cons.mp hp with rfl | hp
    · exact ⟨_,List.mem_cons_self,hpq⟩
    · obtain ⟨q,hq,hrest⟩ := ih hp
      exact ⟨q,List.mem_cons_of_mem _ hq,hrest⟩

theorem Raised.exists_right {q : FactorPenalty} (h : Raised factors raised) (hq : q ∈ raised) :
    ∃ p ∈ factors, p.factorId = q.factorId := by
  induction h with
  | nil => cases hq
  | cons hpq _ ih =>
    rcases List.mem_cons.mp hq with rfl | hq
    · exact ⟨_,List.mem_cons_self,hpq.1.symm⟩
    · obtain ⟨p,hp,hid⟩ := ih hq
      exact ⟨p,List.mem_cons_of_mem _ hp,hid⟩

theorem Raised.worst_le (h : Raised factors raised) : worst factors d ≤ worst raised d := by
  refine worst_le_iff.2 ⟨worst_nonneg,fun p hp hd => ?_⟩
  obtain ⟨q,hq,-,hdomain,hle⟩ := h.exists_left hp
  rw [hd] at hdomain
  exact hle.trans (hdomain ▸ le_worst hq)

theorem Raised.remainingHealth_le (h : Raised factors raised) : remainingHealth raised ≤ remainingHealth factors := by
  refine List.prod_map_le_prod_map₀ _ _ (fun d _ => ?_) fun d _ => ?_
  · linarith [(worst_le_one : worst raised d ≤ 1)]
  · linarith [h.worst_le (d := d)]

end Penalties

section Cell

variable {policy : HealthPolicy} {sha : Bytes → Digest} {interval : CoverageSpan}
  {factors factors' : List FactorPenalty} {coverage coverage' : List FactorCoverage}
  {floors floors' : List FloorEvidence} {point : HealthPoint}

/-- The order of the evidence does not matter. -/
theorem evaluateCell_congr (hfactors : factors'.Perm factors) (hcoverage : coverage'.Perm coverage)
    (hfloors : floors'.Perm floors) :
    policy.evaluateCell sha interval factors' coverage' floors' =
      policy.evaluateCell sha interval factors coverage floors := by
  have hdup : adjacentEqual FactorCoverage.factorId
      (sortByKey FactorCoverage.factorId coverage') =
        adjacentEqual FactorCoverage.factorId (sortByKey FactorCoverage.factorId coverage) := by
    rw [Bool.eq_iff_iff,← not_iff_not,Bool.not_eq_true,Bool.not_eq_true,
      adjacentEqual_eq_false (sortByKey_ascending _),adjacentEqual_eq_false (sortByKey_ascending _)]
    exact (((sortByKey_perm coverage').trans
      (hcoverage.trans (sortByKey_perm coverage).symm)).map _).nodup_iff
  rw [HealthPolicy.evaluateCell,HealthPolicy.evaluateCell,hfactors.length_eq,hcoverage.length_eq,
    hfloors.length_eq,normalizeFloors_congr hfloors,
    sortByKey_congr (fun a _ b _ hab => penaltyOrder_injective hab) hfactors]
  simp only [hdup]
  by_cases hkeys : (coverage.map FactorCoverage.factorId).Nodup
  · rw [sortByKey_congr (fun a ha b hb hab => List.inj_on_of_nodup_map hkeys ha hb hab) hcoverage]
  · have htrue : adjacentEqual FactorCoverage.factorId
        (sortByKey FactorCoverage.factorId coverage) = true := by
      rw [← Bool.not_eq_false,adjacentEqual_eq_false (sortByKey_ascending _),
        ((sortByKey_perm coverage).map _).nodup_iff]
      exact hkeys
    simp only [htrue,refuse,if_true]
    rfl

/-- The evidence behind the scores of an evaluated cell. -/
structure Evaluated (policy : HealthPolicy) (interval : CoverageSpan)
    (factors : List FactorPenalty) (coverage : List FactorCoverage) (floors : List FloorEvidence)
    (point : HealthPoint) : Prop where
  span : point.interval = interval
  versions : (point.healthPolicyVersion,point.reductionSemanticsVersion,point.profileTopologyId) =
    (policy.version,policy.reductionSemanticsVersion,policy.profile.topologyId)
  floorsKept : normalizeFloors floors = .ok point.floorEvidence
  unique : (coverage.map FactorCoverage.factorId).Nodup
  known : point.continuousScore.isSome = true ↔
    ∀ factor ∈ policy.profile.requiredFactors, FactorKnown interval coverage factors factor
  score : ∀ score, point.continuousScore = some score → score = remainingHealth factors
  overall : point.overallScore = point.continuousScore.map fun score =>
    if floors.isEmpty then score else 0
  state : point.overallState = if floors.isEmpty then
    point.overallScore.elim .unknown policy.stateFromScore else .critical

theorem evaluateCell_ok (h : policy.evaluateCell sha interval factors coverage floors = .ok point) :
    Evaluated policy interval factors coverage floors point := by
  obtain ⟨_,_,h⟩ := bind_ok h
  obtain ⟨_,_,h⟩ := bind_ok h
  obtain ⟨_,_,h⟩ := bind_ok h
  obtain ⟨_,hdup,h⟩ := bind_ok h
  obtain ⟨admitted,hadmitted,h⟩ := bind_ok h
  obtain ⟨_,_,h⟩ := bind_ok h
  obtain ⟨kept,hkept,h⟩ := bind_ok h
  rw [refuse_ok,Bool.not_eq_true,adjacentEqual_eq_false (sortByKey_ascending _)] at hdup
  have hunique := ((sortByKey_perm coverage).map FactorCoverage.factorId).nodup_iff.mp hdup
  have hadmitted := HealthPolicy.admitAll_ok hadmitted
  have hkeys : (admitted.map FactorCoverage.factorId).Nodup := by
    rw [hadmitted,List.map_map]
    exact hdup
  have hfactor : ∀ factor, HealthPolicy.factorKnown interval admitted
      (sortByKey penaltyOrder factors) factor = true ↔
        FactorKnown interval coverage factors factor := by
    intro factor
    rw [factorKnown_iff hkeys,hadmitted,FactorKnown,FactorKnown]
    simp [(sortByKey_perm coverage).mem_iff,(sortByKey_perm factors).mem_iff,
      FactorCoverage.normalized_eligible,FactorCoverage.normalized_notApplicable,
      show ∀ entry : FactorCoverage, entry.normalized.factorId = entry.factorId from fun _ => rfl]
  have hrequired : policy.requiredKnown interval admitted (sortByKey penaltyOrder factors) = true ↔
      ∀ factor ∈ policy.profile.requiredFactors, FactorKnown interval coverage factors factor := by
    simp only [HealthPolicy.requiredKnown,List.all_eq_true,hfactor,
      RequiredFactorProfile.requiredFactors,requiredIds,List.mem_flatMap]
    exact ⟨fun h factor ⟨entry,hentry,hmem⟩ => h entry hentry factor hmem,
      fun h entry hentry factor hmem => h factor ⟨entry,hentry,hmem⟩⟩
  have hworst : remainingHealth (sortByKey penaltyOrder factors) = remainingHealth factors := by
    rw [remainingHealth,remainingHealth]
    exact congrArg List.prod (List.map_congr_left fun d _ => by
      rw [worst_congr fun p => (sortByKey_perm factors).mem_iff])
  have hempty := normalizeFloors_isEmpty hkept
  cases h
  constructor
  · rfl
  · rfl
  · exact hkept
  · exact hunique
  · rw [← hrequired]
    by_cases hknown : policy.requiredKnown interval admitted (sortByKey penaltyOrder factors) <;>
      simp [hknown]
  · intro score hscore
    dsimp only at hscore
    split_ifs at hscore
    rw [← Option.some.inj hscore,domainPenalties_prod,hworst]
  · simp only [hempty]
  · simp only [hempty]

/-- Evidence that leaves a factor without a value: it is missing in part or as a whole. -/
def Deficient (entry : FactorCoverage) : Prop :=
  entry.applicability ≠ .notApplicable ∧ entry.state ≠ .complete ∨ entry.lossReasons ≠ [] ∨
    ∃ lost, entry.lostCountLowerBound = some lost ∧ 0 < lost

theorem Deficient.not_eligible {entry : FactorCoverage} (h : Deficient entry) :
    entry.isStrictlyEligible interval = false := by
  rw [Bool.eq_false_iff]
  intro heligible
  simp only [FactorCoverage.isStrictlyEligible,Bool.and_eq_true,decide_eq_true_eq,
    List.isEmpty_iff] at heligible
  rcases h with ⟨-,hstate⟩ | hloss | ⟨lost,hlost,hpos⟩
  · exact hstate (by tauto)
  · exact hloss (by tauto)
  · have hcount : entry.lostCountLowerBound.all (fun count => decide (count = 0)) = true := by tauto
    rw [hlost] at hcount
    simp at hcount
    omega

theorem Deficient.not_notApplicable {entry : FactorCoverage} (h : Deficient entry) :
    entry.isValidNotApplicable interval = false := by
  rw [Bool.eq_false_iff]
  intro hnot
  simp only [FactorCoverage.isValidNotApplicable,Bool.and_eq_true,decide_eq_true_eq,
    List.isEmpty_iff] at hnot
  rcases h with ⟨happlicable,-⟩ | hloss | ⟨lost,hlost,-⟩
  · exact happlicable (by tauto)
  · exact hloss (by tauto)
  · have hnone : entry.lostCountLowerBound.isNone = true := by tauto
    rw [hlost] at hnone
    cases hnone

theorem Deficient.not_known {entry : FactorCoverage} (h : Deficient entry)
    (hunique : (coverage.map FactorCoverage.factorId).Nodup) (hmem : entry ∈ coverage) :
    ¬FactorKnown interval coverage factors entry.factorId := by
  rintro ⟨entry',hmem',hid,hcovered⟩
  have hsame := List.inj_on_of_nodup_map hunique hmem' hmem hid
  subst hsame
  rw [h.not_eligible,h.not_notApplicable] at hcovered
  simp at hcovered

def HealthState.severity : HealthState → ℕ
  | .critical => 2
  | .degraded => 1
  | _ => 0

theorem HealthPolicy.state_antitone {low high : ℚ} (h : low ≤ high) :
    (policy.stateFromScore high).severity ≤ (policy.stateFromScore low).severity := by
  have hthresholds := policy.thresholds
  rw [stateFromScore,stateFromScore]
  split_ifs <;> first | linarith | simp [HealthState.severity]

/-- Raised penalties leave the same scores known, none higher. -/
theorem Evaluated.raised {raised : List FactorPenalty} {point' : HealthPoint}
    (h : Evaluated policy interval factors coverage floors point)
    (h' : Evaluated policy interval raised coverage floors point') (hraised : Raised factors raised) :
    (point'.overallScore.isSome = true ↔ point.overallScore.isSome = true) ∧
      (∀ score score', point.overallScore = some score → point'.overallScore = some score' →
        score' ≤ score) ∧
      point.overallState.severity ≤ point'.overallState.severity := by
  have hsame : point'.continuousScore.isSome = point.continuousScore.isSome := by
    rw [Bool.eq_iff_iff,h.known,h'.known]
    refine forall₂_congr fun factor _ => ?_
    have hids : (∃ q ∈ raised, q.factorId = factor) ↔ ∃ p ∈ factors, p.factorId = factor := by
      constructor
      · rintro ⟨q,hq,rfl⟩
        exact hraised.exists_right hq
      · rintro ⟨p,hp,rfl⟩
        obtain ⟨q,hq,hid,-⟩ := hraised.exists_left hp
        exact ⟨q,hq,hid⟩
    rw [FactorKnown,FactorKnown,hids]
  have hstate := h.state
  have hstate' := h'.state
  have hle := hraised.remainingHealth_le
  rw [h.overall] at hstate ⊢
  rw [h'.overall] at hstate' ⊢
  cases hcontinuous : point.continuousScore with
  | none =>
    have hcontinuous' : point'.continuousScore = none := by
      rw [← Option.not_isSome_iff_eq_none,hsame,hcontinuous]
      simp
    rw [hcontinuous] at hstate
    rw [hcontinuous'] at hstate' ⊢
    exact ⟨by simp,by simp,by rw [hstate,hstate']⟩
  | some score =>
    rw [hcontinuous] at hsame hstate
    obtain ⟨score',hcontinuous'⟩ := Option.isSome_iff_exists.mp hsame
    rw [hcontinuous'] at hstate' ⊢
    have hlow : score' ≤ score := by
      rw [h.score score hcontinuous,h'.score score' hcontinuous']
      exact hle
    by_cases hfloors : floors.isEmpty = true
    · simp only [hfloors,if_true,Option.map_some,Option.elim_some] at hstate hstate' ⊢
      refine ⟨by simp,?_,?_⟩
      · rintro _ _ ⟨⟩ ⟨⟩
        exact hlow
      · rw [hstate,hstate']
        exact policy.state_antitone hlow
    · simp only [hfloors,Option.map_some] at hstate hstate' ⊢
      refine ⟨by simp,?_,?_⟩
      · rintro _ _ ⟨⟩ ⟨⟩
        exact le_rfl
      · simp [hstate,hstate']

/-- Health is known only from full evidence, falls with every penalty, and gives way to floors. -/
theorem health_never_falsely_green (policy : HealthPolicy) (sha : Bytes → Digest)
    (interval : CoverageSpan) (factors : List FactorPenalty) (coverage : List FactorCoverage)
    (floors : List FloorEvidence) :
    (∀ factors' coverage' floors', factors'.Perm factors → coverage'.Perm coverage →
      floors'.Perm floors → policy.evaluateCell sha interval factors' coverage' floors' =
        policy.evaluateCell sha interval factors coverage floors) ∧
    ∀ point, policy.evaluateCell sha interval factors coverage floors = .ok point →
      (point.overallScore.isSome = true ↔
        ∀ factor ∈ policy.profile.requiredFactors, FactorKnown interval coverage factors factor) ∧
      (∀ factor ∈ policy.profile.requiredFactors,
        ((∀ entry ∈ coverage, entry.factorId ≠ factor) ∨
          ∃ entry ∈ coverage, entry.factorId = factor ∧ Deficient entry) →
        point.overallScore = none) ∧
      (coverage = [] → point.overallScore = none) ∧
      (∀ score, point.continuousScore = some score → score = remainingHealth factors ∧ 0 ≤ score ∧
        ∀ p ∈ factors, score ≤ 1 - p.penalty) ∧
      (floors = [] → point.overallScore = point.continuousScore ∧
        point.overallState = point.overallScore.elim .unknown policy.stateFromScore) ∧
      (floors ≠ [] → point.overallState = .critical ∧
        point.overallScore = point.continuousScore.map fun _ => 0) ∧
      ∀ raised point', Raised factors raised →
        policy.evaluateCell sha interval raised coverage floors = .ok point' →
        (point'.overallScore.isSome = true ↔ point.overallScore.isSome = true) ∧
        (∀ score score', point.overallScore = some score → point'.overallScore = some score' →
          score' ≤ score) ∧
        point.overallState.severity ≤ point'.overallState.severity := by
  refine ⟨fun _ _ _ hf hc hl => evaluateCell_congr hf hc hl,fun point h => ?_⟩
  have hpoint := evaluateCell_ok h
  have hknown : point.overallScore.isSome = true ↔
      ∀ factor ∈ policy.profile.requiredFactors, FactorKnown interval coverage factors factor := by
    rw [hpoint.overall,Option.isSome_map]
    exact hpoint.known
  have hnone : ∀ factor ∈ policy.profile.requiredFactors,
      ¬FactorKnown interval coverage factors factor → point.overallScore = none := by
    intro factor hfactor hnot
    rw [← Option.not_isSome_iff_eq_none,hknown]
    exact fun hall => hnot (hall factor hfactor)
  refine ⟨hknown,fun factor hfactor hmissing => hnone factor hfactor ?_,?_,?_,?_,?_,?_⟩
  · rcases hmissing with hnot | ⟨entry,hmem,rfl,hdeficient⟩
    · rintro ⟨entry,hmem,hid,-⟩
      exact hnot entry hmem hid
    · exact hdeficient.not_known hpoint.unique hmem
  · rintro rfl
    obtain ⟨factor,hfactor⟩ := List.exists_mem_of_ne_nil _ policy.profile.requiredFactors_ne
    exact hnone factor hfactor (by simp [FactorKnown])
  · intro score hscore
    have hremaining := hpoint.score score hscore
    exact ⟨hremaining,hremaining ▸ remainingHealth_nonneg,fun p hp => hremaining ▸ remainingHealth_le hp⟩
  · rintro rfl
    have hstate := hpoint.state
    refine ⟨?_,by simpa using hstate⟩
    rw [hpoint.overall]
    simp
  · intro hne
    have hempty : floors.isEmpty = false := by simpa using hne
    have hoverall := hpoint.overall
    have hstate := hpoint.state
    simp only [hempty,Bool.false_eq_true,if_false] at hoverall hstate
    exact ⟨hstate,hoverall⟩
  · exact fun raised point' hraised h' => hpoint.raised (evaluateCell_ok h') hraised

end Cell

end PgKronika
