import PgKronika.CounterSums
import PgKronika.IncidentKey
import PgKronika.WindowScore

/-! Findings and their evidence. A lens asks for a role and has a cap on its confidence; both are
lowered to what the evidence bears. -/
namespace PgKronika
namespace Incident

open CheckedArith
open TypedSums (SourceWindow)

structure Text where
  bytes : Vec UInt8
  deriving DecidableEq

def Text.len (text : Text) : ℕ := text.bytes.val.length

instance textOrd : Ord Text := ⟨fun a b => compare a.bytes.val b.bytes.val⟩

instance identityValueOrd : Ord IdentityValue := ⟨fun a b => compare a.rank b.rank⟩

structure FiniteValue where
  value : Float
  finite : value.isFinite = true

instance finiteValueOrd : Ord FiniteValue :=
  ⟨fun a b => compare (Anomaly.totalKey a.value) (Anomaly.totalKey b.value)⟩

inductive GaugeUnit
  | count
  | bytes
  | kibibytes
  | microseconds
  | milliseconds
  | ratio
  | bytesPerSecond
  | microsecondsPerSecond
  | millisecondsPerRead
  | millisecondsPerCall
  | millisecondsPerOperation
  | rowsPerCall
  | blocksPerCall
  deriving DecidableEq, Ord

inductive ThresholdKind
  | atLeast | above | below
  deriving DecidableEq, Ord

inductive Role
  | lead | amplifier | downstream | coincident
  deriving DecidableEq, Ord

structure Confidence where
  level : ℕ
  deriving DecidableEq, Ord

namespace Confidence

def low : Confidence := ⟨0⟩

def medium : Confidence := ⟨1⟩

def high : Confidence := ⟨2⟩

def min (a b : Confidence) : Confidence := if a.level ≤ b.level then a else b

end Confidence

inductive ConfidenceCap
  | low | medium | high
  deriving DecidableEq

def ConfidenceCap.confidence : ConfidenceCap → Confidence
  | .low => Confidence.low
  | .medium => Confidence.medium
  | .high => Confidence.high

inductive LockParticipant
  | blocker | waiter
  deriving DecidableEq, Ord

def LockParticipant.provesRole : LockParticipant → Role → Bool
  | .blocker,.lead | .waiter,.downstream => true
  | _,_ => false

structure SampledLockEdge where
  observedAtUs : Int64
  waiterPid : Int64
  blockerPid : Int64
  participant : LockParticipant
  deriving DecidableEq, Ord

inductive DirectEvidence
  | sampledLockEdge (edge : SampledLockEdge)
  | resourceLimitEvent
  deriving DecidableEq, Ord

def DirectEvidence.provesStructuralDirection (requestedRole : Role) : DirectEvidence → Bool
  | .sampledLockEdge edge => edge.participant.provesRole requestedRole
  | .resourceLimitEvent => false

deriving instance Ord for SourceWindow

structure GaugeEntity where
  sectionName : Text
  identity : List IdentityValue
  deriving DecidableEq, Ord

inductive GaugeMeasurement
  | value (operand : Text) (value : FiniteValue)
  | ratio (numeratorName : Text) (numerator : FiniteValue) (numeratorUnit : GaugeUnit)
      (denominatorName : Text) (denominator : FiniteValue) (denominatorUnit : GaugeUnit)
  | trend (operand : Text) (first last : FiniteValue) (elapsedUs : ℕ) (operandUnit : GaugeUnit)
  deriving Ord

structure GaugeEvidence where
  measurement : GaugeMeasurement
  unit : GaugeUnit
  threshold : FiniteValue
  thresholdKind : ThresholdKind
  observedAtUs : Int64
  samples : ℕ
  sourceWindow : SourceWindow
  entity : GaugeEntity
  deriving Ord

def GaugeEvidence.operandNameBytes (gauge : GaugeEvidence) : ℕ :=
  match gauge.measurement with
  | .value operand _ | .trend operand _ _ _ _ => operand.len
  | .ratio numeratorName _ _ denominatorName _ _ =>
    saturatingAdd numeratorName.len denominatorName.len

inductive CounterMeasurementKind
  | sum | ratio | rate
  deriving DecidableEq, Ord

inductive CounterOperandPurpose
  | formula | qualification | alignedContext
  deriving DecidableEq, Ord

structure CounterOperand where
  name : Text
  value : FiniteValue
  unit : GaugeUnit
  purpose : CounterOperandPurpose
  deriving Ord

structure CounterEvidenceWindow where
  fromUs : Int64
  toUs : Int64
  firstIntervalStartUs : Int64
  firstIntervalEndUs : Int64
  lastIntervalEndUs : Int64
  usableIntervals : ℕ
  candidateIntervals : ℕ
  unmatchedEndpointIntervals : ℕ
  unusableDeltaIntervals : ℕ
  unalignedDurationIntervals : ℕ
  numericLimitIntervals : ℕ
  elapsedUs : ℕ
  observedPeriodUs : Option ℕ
  deriving DecidableEq, Ord

structure CounterEvidence where
  kind : CounterMeasurementKind
  formula : Text
  value : FiniteValue
  unit : GaugeUnit
  threshold : FiniteValue
  thresholdKind : ThresholdKind
  operands : List CounterOperand
  window : CounterEvidenceWindow
  entity : GaugeEntity
  deriving Ord

structure EntityJoinEvidence where
  contract : Text
  fields : List Text
  targetSection : Text
  targetIdentity : List IdentityValue
  deriving DecidableEq, Ord

inductive Evidence
  | direct (direct : DirectEvidence)
  | entityJoin (join : EntityJoinEvidence)
  | ratio
  | gaugeObservation (gauge : GaugeEvidence)
  | counterAggregate (counter : CounterEvidence)
  | gauge
  | counter
  | event
  deriving Ord

namespace Evidence

def justifiesHigh : Evidence → Bool
  | .direct _ => true
  | _ => false

def provesStructuralDirection (requestedRole : Role) : Evidence → Bool
  | .direct edge => edge.provesStructuralDirection requestedRole
  | _ => false

end Evidence

def evidenceCeiling (evidence : List Evidence) : Confidence :=
  if evidence = [] then Confidence.low
  else if evidence.any Evidence.justifiesHigh then Confidence.high
  else Confidence.medium

structure FindingScope where
  logicalSection : Text
  column : Text
  identity : List IdentityValue
  deriving DecidableEq, Ord

structure FindingDraft where
  requestedRole : Role
  scope : FindingScope
  evidence : List Evidence

structure Finding where
  lensId : Text
  role : Role
  confidence : Confidence
  scope : FindingScope
  evidence : List Evidence

def saturatingSum (total : ℕ) (parts : List ℕ) : ℕ := parts.foldl saturatingAdd total

/-- What an identity takes in JSON at most. -/
def identityJsonUpperBound (identity : List IdentityValue) : ℕ :=
  identity.foldl (fun total value => saturatingAdd (saturatingAdd total (valueBytes value)) 1) 2
where
  valueBytes : IdentityValue → ℕ
    | .i64 _ | .u64 _ => 21
    | .bool _ => 5
    | .text text => saturatingAdd (min (text.val.length*6) u64Max) 2

def Evidence.outputBytes : Evidence → ℕ
  | .gaugeObservation reading =>
    saturatingSum 512 [reading.operandNameBytes,reading.entity.sectionName.len,
      identityJsonUpperBound reading.entity.identity]
  | .counterAggregate total =>
    saturatingSum 1024 [total.formula.len,
      saturatingSum 0 (total.operands.map fun operand => operand.name.len),
      total.entity.sectionName.len,identityJsonUpperBound total.entity.identity]
  | .entityJoin join =>
    saturatingSum 256 [join.contract.len,join.targetSection.len,
      identityJsonUpperBound join.targetIdentity]
  | .direct _ => 512
  | .ratio | .gauge | .counter | .event => 32

def FindingDraft.outputBytesUpperBound (draft : FindingDraft) (lensId : Text) : ℕ :=
  saturatingSum 512 [lensId.len,identityJsonUpperBound draft.scope.identity,
    saturatingSum 0 (draft.evidence.map Evidence.outputBytes)]

/-- A lead or downstream role needs evidence of the direction, and confidence its ceiling. -/
def Finding.fromDraft (lensId : Text) (cap : ConfidenceCap) (draft : FindingDraft) : Finding :=
  let structuralDirection :=
    draft.evidence.any (Evidence.provesStructuralDirection draft.requestedRole)
  { lensId
    role :=
      match draft.requestedRole,structuralDirection with
      | .lead,false | .downstream,false => .coincident
      | role,_ => role
    confidence := cap.confidence.min (evidenceCeiling draft.evidence)
    scope := draft.scope
    evidence := draft.evidence }

/-- The confident first, then by role, lens, scope and evidence. -/
def findingOrder (a b : Finding) : Ordering :=
  ((((compare b.confidence a.confidence).then (compare a.role b.role)).then
    (compare a.lensId b.lensId)).then (compare a.scope b.scope)).then (compare a.evidence b.evidence)

def sortFindings (findings : List Finding) : List Finding :=
  findings.mergeSort fun a b => findingOrder a b != .gt

/-- Lead and downstream come with evidence of that direction, and high confidence with direct
evidence. -/
structure Finding.Supported (finding : Finding) : Prop where
  role : finding.role = .lead ∨ finding.role = .downstream →
    ∃ item ∈ finding.evidence, item.provesStructuralDirection finding.role = true
  confidence : finding.confidence = Confidence.high →
    ∃ direct, Evidence.direct direct ∈ finding.evidence

theorem evidenceCeiling_high {evidence : List Evidence}
    (h : evidenceCeiling evidence = Confidence.high) :
    ∃ direct, Evidence.direct direct ∈ evidence := by
  rw [evidenceCeiling] at h
  split_ifs at h with hnil hany
  · cases h
  · obtain ⟨item,hitem,hhigh⟩ := List.any_eq_true.mp hany
    cases item with
    | direct direct => exact ⟨direct,hitem⟩
    | _ => cases hhigh
  · cases h

theorem min_confidence_high {cap : ConfidenceCap} {ceiling : Confidence}
    (h : cap.confidence.min ceiling = Confidence.high) (hceiling : ceiling.level ≤ 2) :
    ceiling = Confidence.high := by
  obtain ⟨level⟩ := ceiling
  rw [Confidence.min] at h
  split_ifs at h with hle
  · have hlevel : cap.confidence.level = 2 := congrArg Confidence.level h
    have heq : level = 2 := le_antisymm hceiling (hlevel ▸ hle)
    rw [heq]
    rfl
  · exact h

theorem evidenceCeiling_level (evidence : List Evidence) : (evidenceCeiling evidence).level ≤ 2 := by
  rw [evidenceCeiling]
  split_ifs <;> decide

theorem fromDraft_supported (lensId : Text) (cap : ConfidenceCap) (draft : FindingDraft) :
    (Finding.fromDraft lensId cap draft).Supported := by
  constructor
  · intro hrole
    cases hdirection : draft.evidence.any (Evidence.provesStructuralDirection draft.requestedRole) with
    | false =>
      have hlowered : (Finding.fromDraft lensId cap draft).role ≠ .lead ∧
          (Finding.fromDraft lensId cap draft).role ≠ .downstream := by
        simp only [Finding.fromDraft,hdirection]
        cases draft.requestedRole <;> decide
      rcases hrole with hlead | hdownstream
      · exact absurd hlead hlowered.1
      · exact absurd hdownstream hlowered.2
    | true =>
      obtain ⟨item,hitem,hproves⟩ := List.any_eq_true.mp hdirection
      have hsame : (Finding.fromDraft lensId cap draft).role = draft.requestedRole := by
        simp only [Finding.fromDraft,hdirection]
        cases draft.requestedRole <;> rfl
      exact ⟨item,hitem,hsame.symm ▸ hproves⟩
  · intro hconfidence
    exact evidenceCeiling_high (min_confidence_high hconfidence (evidenceCeiling_level _))

end Incident

end PgKronika
