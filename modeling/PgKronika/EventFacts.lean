import Mathlib
import PgKronika.Coverage
import PgKronika.Digest
import PgKronika.OrderedMap
import PgKronika.Utf8Text

/-! Retained observations and canonical facts: what makes one notable, and the position
it has on an events page. -/
namespace PgKronika

open ByteCodec Utf8Text CheckedArith

inductive Severity
  | error
  | fatal
  | panic
  | warning
  | log
  deriving DecidableEq

def Severity.wireCode : Severity → String
  | .error => "error"
  | .fatal => "fatal"
  | .panic => "panic"
  | .warning => "warning"
  | .log => "log"

/-- Importance, highest for a panic. -/
def severityRank : Severity → ℕ
  | .panic => 4
  | .fatal => 3
  | .error => 2
  | .warning => 1
  | .log => 0

inductive ErrorCategory
  | lock
  | constraint
  | serialization
  | timeout
  | connection
  | auth
  | syntaxClass
  | resource
  | dataCorruption
  | system
  | other
  deriving DecidableEq

def ErrorCategory.wireCode : ErrorCategory → String
  | .lock => "lock"
  | .constraint => "constraint"
  | .serialization => "serialization"
  | .timeout => "timeout"
  | .connection => "connection"
  | .auth => "auth"
  | .syntaxClass => "syntax"
  | .resource => "resource"
  | .dataCorruption => "data_corruption"
  | .system => "system"
  | .other => "other"

structure SqlState where
  code : Vector UInt8 5
  deriving DecidableEq

structure ErrorGroupPayload where
  severity : Severity
  category : ErrorCategory
  sqlstate : Option SqlState
  droppedFieldCount : UInt32
  deriving DecidableEq

structure LifecyclePayload where
  pid : Option Int32
  signal : Option Int32
  droppedFieldCount : UInt32
  deriving DecidableEq

inductive ObservationPayload
  | errorGroup (payload : ErrorGroupPayload)
  | childSignalTermination (payload : LifecyclePayload)
  | childProcessCrash (payload : LifecyclePayload)
  | shutdownRequested (payload : LifecyclePayload)
  | readyObserved (payload : LifecyclePayload)
  | checkpointStarted
  | checkpointCompleted
  | checkpointTooFrequent
  | autovacuumReported
  | autoanalyzeReported
  | slowQueryGroup
  | lockWaitReported
  | lockAcquiredAfterWait
  | tempFileReported
  | logGap
  deriving DecidableEq

def ObservationPayload.kindCode : ObservationPayload → String
  | .errorGroup _ => "pg.log.error_group_observed"
  | .childSignalTermination _ => "pg.lifecycle.child_signal_termination"
  | .childProcessCrash _ => "pg.lifecycle.child_process_crash"
  | .shutdownRequested _ => "pg.lifecycle.shutdown_requested"
  | .readyObserved _ => "pg.lifecycle.ready_observed"
  | .checkpointStarted => "pg.checkpoint.started"
  | .checkpointCompleted => "pg.checkpoint.completed"
  | .checkpointTooFrequent => "pg.checkpoint.too_frequent_reported"
  | .autovacuumReported => "pg.maintenance.autovacuum_reported"
  | .autoanalyzeReported => "pg.maintenance.autoanalyze_reported"
  | .slowQueryGroup => "pg.query.slow_group_reported"
  | .lockWaitReported => "pg.lock.wait_reported"
  | .lockAcquiredAfterWait => "pg.lock.acquired_after_wait_reported"
  | .tempFileReported => "pg.temp_file.reported"
  | .logGap => "collector.pg_log_gap"

structure ObservationTime where
  sortTsUs : Int64
  occurredAtUs : Option Int64
  observedInterval : Option CoverageSpan
  intervalOnly : Bool
  deriving DecidableEq

structure ObservationProvenance where
  sectionBodyId : Digest
  catalogEntryOrdinal : UInt32
  rowOrdinal : UInt32
  dictionaryContextId : Digest
  deriving DecidableEq

structure EventObservation where
  observationId : Digest
  sectionTypeId : UInt32
  time : ObservationTime
  occurrenceCount : UInt64
  payload : ObservationPayload
  provenance : ObservationProvenance
  deriving DecidableEq

inductive EventKind
  | pgLogErrorGroupObserved
  | pgLifecycleChildSignalTermination
  | pgLifecycleChildProcessCrash
  | pgLifecycleShutdownRequested
  | pgLifecycleReadyObserved
  | pgCheckpointStarted
  | pgCheckpointCompleted
  | pgCheckpointTooFrequentReported
  | pgMaintenanceAutovacuumReported
  | pgMaintenanceAutoanalyzeReported
  | pgQuerySlowGroupReported
  | pgLockWaitReported
  | pgLockAcquiredAfterWaitReported
  | pgTempFileReported
  | pgDatabaseDeadlockDelta
  | pgDatabaseRecoveryConflictDelta
  | pgDatabaseChecksumFailureDelta
  | pgDatabaseSessionsAbandonedDelta
  | pgDatabaseSessionsFatalDelta
  | pgDatabaseSessionsKilledDelta
  | pgStatisticsResetObserved
  | pgPostmasterStartChanged
  | pgRecoveryRoleChanged
  | pgTimelineChanged
  | pgReplicationSenderStateChanged
  | pgReplicationSenderDisappeared
  | pgReplicationSlotStateChanged
  | pgReplicationSlotLost
  | osCgroupMemoryHighDelta
  | osCgroupMemoryMaxDelta
  | osCgroupOomDelta
  | osCgroupOomKillDelta
  | osHostOomKillDelta
  | osFilesystemCapacityObservation
  | osFilesystemCapacityZeroTransition
  | collectorSnapshotGap
  | collectorSourceReadFailure
  | collectorVisibilityRestricted
  deriving DecidableEq

def EventKind.wireCode : EventKind → String
  | .pgLogErrorGroupObserved => "pg.log.error_group_observed"
  | .pgLifecycleChildSignalTermination => "pg.lifecycle.child_signal_termination"
  | .pgLifecycleChildProcessCrash => "pg.lifecycle.child_process_crash"
  | .pgLifecycleShutdownRequested => "pg.lifecycle.shutdown_requested"
  | .pgLifecycleReadyObserved => "pg.lifecycle.ready_observed"
  | .pgCheckpointStarted => "pg.checkpoint.started"
  | .pgCheckpointCompleted => "pg.checkpoint.completed"
  | .pgCheckpointTooFrequentReported => "pg.checkpoint.too_frequent_reported"
  | .pgMaintenanceAutovacuumReported => "pg.maintenance.autovacuum_reported"
  | .pgMaintenanceAutoanalyzeReported => "pg.maintenance.autoanalyze_reported"
  | .pgQuerySlowGroupReported => "pg.query.slow_group_reported"
  | .pgLockWaitReported => "pg.lock.wait_reported"
  | .pgLockAcquiredAfterWaitReported => "pg.lock.acquired_after_wait_reported"
  | .pgTempFileReported => "pg.temp_file.reported"
  | .pgDatabaseDeadlockDelta => "pg.database.deadlock_delta"
  | .pgDatabaseRecoveryConflictDelta => "pg.database.recovery_conflict_delta"
  | .pgDatabaseChecksumFailureDelta => "pg.database.checksum_failure_delta"
  | .pgDatabaseSessionsAbandonedDelta => "pg.database.sessions_abandoned_delta"
  | .pgDatabaseSessionsFatalDelta => "pg.database.sessions_fatal_delta"
  | .pgDatabaseSessionsKilledDelta => "pg.database.sessions_killed_delta"
  | .pgStatisticsResetObserved => "pg.statistics.reset_observed"
  | .pgPostmasterStartChanged => "pg.postmaster.start_changed"
  | .pgRecoveryRoleChanged => "pg.recovery.role_changed"
  | .pgTimelineChanged => "pg.timeline.changed"
  | .pgReplicationSenderStateChanged => "pg.replication.sender_state_changed"
  | .pgReplicationSenderDisappeared => "pg.replication.sender_disappeared"
  | .pgReplicationSlotStateChanged => "pg.replication.slot_state_changed"
  | .pgReplicationSlotLost => "pg.replication.slot_lost"
  | .osCgroupMemoryHighDelta => "os.cgroup.memory_high_delta"
  | .osCgroupMemoryMaxDelta => "os.cgroup.memory_max_delta"
  | .osCgroupOomDelta => "os.cgroup.oom_delta"
  | .osCgroupOomKillDelta => "os.cgroup.oom_kill_delta"
  | .osHostOomKillDelta => "os.host.oom_kill_delta"
  | .osFilesystemCapacityObservation => "os.filesystem.capacity_observation"
  | .osFilesystemCapacityZeroTransition => "os.filesystem.capacity_zero_transition"
  | .collectorSnapshotGap => "collector.snapshot_gap"
  | .collectorSourceReadFailure => "collector.source_read_failure"
  | .collectorVisibilityRestricted => "collector.visibility_restricted"

structure CounterDeltaFactPayload where
  factorId : UInt32
  delta : UInt64
  durationUs : UInt64
  resetEpoch : UInt64
  deriving DecidableEq

structure StateTransitionFactPayload where
  factorId : UInt32
  previousState : UInt32
  currentState : UInt32
  populationTotal : UInt64
  deriving DecidableEq

structure CapacityFactPayload where
  totalBytes : UInt64
  availableBytes : UInt64
  deriving DecidableEq

/-- `observed` stands for the payloads projected from observations, which `/events` reads
from the observations themselves. -/
inductive CanonicalEventPayload
  | observed
  | counterDelta (value : CounterDeltaFactPayload)
  | stateTransition (value : StateTransitionFactPayload)
  | capacity (value : CapacityFactPayload)
  | marker
  deriving DecidableEq

structure CanonicalEventFact where
  factId : Digest
  kind : EventKind
  interval : CoverageSpan
  count : UInt64
  payload : CanonicalEventPayload
  deriving DecidableEq

inductive NotableClass
  | childSigkill
  | childSignalTermination
  | panicObserved
  | diskFull
  | outOfMemory
  | connectionSlotsExhausted
  | deadlock
  | integrityError
  | lockNotAvailable
  | queryCancelled
  | serializationFailure
  | authenticationFailure
  | authorizationFailure
  | permissionDenied
  | oomKill
  | filesystemCapacityZero
  deriving DecidableEq

def NotableClass.wireCode : NotableClass → String
  | .childSigkill => "server_child_sigkill"
  | .childSignalTermination => "server_child_signal_termination"
  | .panicObserved => "panic_severity_observation"
  | .diskFull => "filesystem_space"
  | .outOfMemory => "postgres_out_of_memory_observation"
  | .connectionSlotsExhausted => "connection_saturation"
  | .deadlock => "deadlock_observation"
  | .integrityError => "corruption_sqlstate_observation"
  | .lockNotAvailable => "lock_not_available_observation"
  | .queryCancelled => "query_canceled_observation"
  | .serializationFailure => "serialization_failure_observation"
  | .authenticationFailure => "auth_failure_observation"
  | .authorizationFailure => "authorization_failure_observation"
  | .permissionDenied => "permission_denied_observation"
  | .oomKill => "oom_kill_observation"
  | .filesystemCapacityZero => "filesystem_capacity_zero"

def signalSigkill : Int32 := 9

/-- The classes that an error's state alone decides. -/
def notableSqlStates : List (String × NotableClass) :=
  [("53100",.diskFull),("53200",.outOfMemory),("53300",.connectionSlotsExhausted),
   ("40P01",.deadlock),("40001",.serializationFailure),("57014",.queryCancelled),
   ("55P03",.lockNotAvailable),("XX001",.integrityError),("XX002",.integrityError),
   ("28P01",.authenticationFailure),("28000",.authorizationFailure),
   ("42501",.permissionDenied)]

def classifySqlState (state : SqlState) : Option NotableClass :=
  (notableSqlStates.find? fun p => utf8 p.1 == state.code.toList).map Prod.snd

def classifyErrorGroup (severity : Severity) (category : ErrorCategory)
    (sqlstate : Option SqlState) : Option NotableClass :=
  if severity = .panic then some .panicObserved
  else
    match sqlstate.bind classifySqlState with
    | some c => some c
    | none => if category = .auth then some .authenticationFailure else none

def classifySignal (payload : LifecyclePayload) : Option NotableClass :=
  payload.signal.map fun signal =>
    if signal = signalSigkill then .childSigkill else .childSignalTermination

def classify (observation : EventObservation) : Option NotableClass :=
  match observation.payload with
  | .childSignalTermination payload => classifySignal payload
  | .childProcessCrash payload => classifySignal payload
  | .errorGroup payload => classifyErrorGroup payload.severity payload.category payload.sqlstate
  | _ => none

def classifyFact (fact : CanonicalEventFact) : Option NotableClass :=
  match fact.kind with
  | .pgDatabaseDeadlockDelta => some .deadlock
  | .osCgroupOomKillDelta => some .oomKill
  | .osHostOomKillDelta => some .oomKill
  | .osCgroupOomDelta => some .outOfMemory
  | .osFilesystemCapacityZeroTransition => some .filesystemCapacityZero
  | _ => none

def observationSeverity (observation : EventObservation) : Option Severity :=
  match observation.payload with
  | .errorGroup payload => some payload.severity
  | _ => none

/-- What has no severity passes. -/
def passesMinSeverity (observation : EventObservation) : Option Severity → Bool
  | none => true
  | some least =>
    (observationSeverity observation).all fun severity =>
      decide (severityRank least ≤ severityRank severity)

section Identities

variable (sha256 : Bytes → Digest)

def hashOptionalI64 : Option Int64 → Bytes
  | some v => 1 :: i64Le v
  | none => [0]

def hashOptionalI32 : Option Int32 → Bytes
  | some v => 1 :: u32Le v.toUInt32
  | none => [0]

def lifecycleBytes (payload : LifecyclePayload) : Bytes :=
  hashOptionalI32 payload.pid ++ hashOptionalI32 payload.signal ++
    u32Le payload.droppedFieldCount

/-- Only error groups and lifecycle records have a public payload. -/
def publicPayloadBytes : ObservationPayload → Option Bytes
  | .errorGroup error =>
    some (utf8 error.severity.wireCode ++ utf8 error.category.wireCode ++
      (match error.sqlstate with
        | some state => 1 :: state.code.toList
        | none => [0]) ++ u32Le error.droppedFieldCount)
  | .childSignalTermination payload => some (lifecycleBytes payload)
  | .childProcessCrash payload => some (lifecycleBytes payload)
  | .shutdownRequested payload => some (lifecycleBytes payload)
  | .readyObserved payload => some (lifecycleBytes payload)
  | _ => none

def notableEventId (observation : EventObservation) : Option Digest :=
  let kind := utf8 observation.payload.kindCode
  (publicPayloadBytes observation.payload).map fun payload =>
    sha256 (utf8 "pgk-overview-event-fact-v1" ++ u32Le observation.sectionTypeId ++
      i64Le observation.time.sortTsUs ++ hashOptionalI64 observation.time.occurredAtUs ++
      u64Le observation.occurrenceCount ++ u64Le (UInt64.ofNat kind.length) ++ kind ++ payload)

/-- What distinguishes the rows behind equal public facts. -/
def eventInstanceInput (observation : EventObservation) : Bytes :=
  utf8 "pgk-overview-event-instance-v1" ++ (observation.observationId.asBytes ++
    (observation.provenance.sectionBodyId.asBytes ++
      (u32Le observation.provenance.catalogEntryOrdinal ++
        (u32Le observation.provenance.rowOrdinal ++
          observation.provenance.dictionaryContextId.asBytes))))

def eventInstanceId (observation : EventObservation) : Digest :=
  sha256 (eventInstanceInput observation)

def canonicalInstanceInput (fact : CanonicalEventFact) : Bytes :=
  utf8 "pgk-overview-canonical-event-instance-v1" ++ fact.factId.asBytes

structure EventFactPosition where
  sortTsUs : Int64
  eventId : Digest
  eventInstanceId : Digest
  deriving DecidableEq

/-- By time, then by event, then by instance. -/
instance eventFactPositionOrder : LinearOrder EventFactPosition :=
  LinearOrder.lift' (fun p => toLex (p.sortTsUs.toInt,toLex (p.eventId,p.eventInstanceId)))
    fun a b h => by
      obtain ⟨a,a',a''⟩ := a
      obtain ⟨b,b',b''⟩ := b
      have hpair := toLex_inj.mp h
      obtain rfl := Int64.toInt_inj.mp (congrArg Prod.fst hpair)
      have hids := toLex_inj.mp (congrArg Prod.snd hpair)
      obtain rfl : a' = b' := congrArg Prod.fst hids
      obtain rfl : a'' = b'' := congrArg Prod.snd hids
      rfl

def eventPosition (observation : EventObservation) (c : NotableClass) :
    Option EventFactPosition :=
  if classify observation ≠ some c then none
  else (notableEventId sha256 observation).map fun eventId =>
    ⟨observation.time.sortTsUs,eventId,eventInstanceId sha256 observation⟩

def canonicalPosition (fact : CanonicalEventFact) : EventFactPosition :=
  ⟨fact.interval.fromUs,fact.factId,sha256 (canonicalInstanceInput fact)⟩

end Identities

/-- What is notable has a public payload. -/
theorem publicPayload_of_classify {observation : EventObservation} {c : NotableClass}
    (h : classify observation = some c) :
    ∃ payload, publicPayloadBytes observation.payload = some payload := by
  rw [classify] at h
  split at h
  · next he => exact ⟨_,by rw [he]; rfl⟩
  · next he => exact ⟨_,by rw [he]; rfl⟩
  · next he => exact ⟨_,by rw [he]; rfl⟩
  · cases h

/-- What is notable has a position. -/
theorem eventPosition_of_classify (sha256 : Bytes → Digest) {observation : EventObservation}
    {c : NotableClass} (h : classify observation = some c) :
    ∃ eventId, eventPosition sha256 observation c =
      some ⟨observation.time.sortTsUs,eventId,eventInstanceId sha256 observation⟩ := by
  obtain ⟨payload,hpayload⟩ := publicPayload_of_classify h
  rw [eventPosition,if_neg (not_not.mpr h),notableEventId,hpayload]
  exact ⟨_,rfl⟩

theorem eventInstanceInput_injective {a b : EventObservation}
    (h : eventInstanceInput a = eventInstanceInput b) : a.observationId = b.observationId := by
  have h := List.append_cancel_left h
  exact Digest.asBytes_injective
    (List.append_inj h (by rw [Digest.asBytes_length,Digest.asBytes_length])).1

theorem canonicalInstanceInput_injective {a b : CanonicalEventFact}
    (h : canonicalInstanceInput a = canonicalInstanceInput b) : a.factId = b.factId :=
  Digest.asBytes_injective (List.append_cancel_left h)

/-- The two domains keep observations and canonical facts apart. -/
theorem eventInstanceInput_ne (observation : EventObservation) (fact : CanonicalEventFact) :
    eventInstanceInput observation ≠ canonicalInstanceInput fact := by
  have hdomain : (utf8 "pgk-overview-event-instance-v1").take 14 ≠
      (utf8 "pgk-overview-canonical-event-instance-v1").take 14 := by decide
  have hleft : 14 ≤ (utf8 "pgk-overview-event-instance-v1").length := by decide
  have hright : 14 ≤ (utf8 "pgk-overview-canonical-event-instance-v1").length := by decide
  intro h
  have htake := congrArg (List.take 14) h
  rw [eventInstanceInput,canonicalInstanceInput,List.take_append_of_le_length hleft,
    List.take_append_of_le_length hright] at htake
  exact hdomain htake

end PgKronika
