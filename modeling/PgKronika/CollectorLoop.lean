import PgKronika.LogCollector
import PgKronika.WindowAppend

/-! The collector's loop: a tick plans its sources, closes an expired segment, collects, appends
one window and commits the log position behind it. -/
namespace PgKronika

open ByteCodec

variable {ρ ε : Type}

structure CollectorConfig where
  segment : SegmentConfig
  activityFastIntervalSecs : ℕ
  replicationFastIntervalSecs : ℕ
  deriving DecidableEq

/-- Where a window comes from: the sources it was planned for, and its log batch. -/
structure WindowOrigin (ρ : Type) where
  due : DueSet
  log : Option (LogCollection ρ)
  deriving DecidableEq

/-- The collector between two ticks. `committed` are the batches committed so far; the program
does not keep them. -/
structure LoopState (ρ : Type) where
  sched : Scheduler
  writer : SegmentWriter (WindowOrigin ρ)
  logs : LogCollector
  committed : List (LogCollection ρ)
  running : Bool

/-- The surroundings of one collection cycle. `otherRows` says whether rows come from sources
other than the instance and the log; `encoded` is what the rows are encoded to. -/
structure Cycle (ρ ε : Type) where
  mainReachable : Bool
  mainRead : Bool
  otherRows : Bool
  log : LogReads ρ
  buffered : Bool
  encoded : Option (FlushedPart × List EntrySnapshot)
  ts : Int64
  sealer : Journal → SegmentId → Except ε Unit
  appendedAt : ℕ
  deferred : List SourceKind
  activityHot : Option Bool
  replicationHot : Option Bool

structure Tick (ρ ε : Type) where
  forced : Bool
  plannedAt : ℕ
  checkedAt : ℕ
  plansDue : Bool
  ageSealer : Journal → SegmentId → Except ε Unit
  cycle : Cycle ρ ε

inductive CycleError (ε : Type)
  | read
  | buffering
  | encoding
  | append (error : WindowError ε)
  deriving DecidableEq

/-- One batch of log lines when they are due. -/
def LoopState.collectLogBatch (s : LoopState ρ) (due : DueSet) (cycle : Cycle ρ ε) :
    Option (LogCollection ρ) × LoopState ρ :=
  if due.has .pgLog then
    let (collection,logs) := s.logs.collect cycle.log
    (some collection,{ s with logs })
  else (none,s)

def LoopState.commitLogCollection (s : LoopState ρ) : Option (LogCollection ρ) → LoopState ρ
  | none => s
  | some collection =>
    { s with logs := s.logs.commit collection, committed := s.committed ++ [collection] }

/-- The window of a cycle; rows that are not there make none. -/
def cycleWindow (due : DueSet) (cycle : Cycle ρ ε) (otherRows : Bool)
    (collection : Option (LogCollection ρ)) :
    Except (CycleError ε) (Option (Window (WindowOrigin ρ))) :=
  if ¬cycle.buffered then .error .buffering
  else if ¬otherRows ∧ collection.all fun batch => batch.rows.isEmpty then .ok none
  else
    match cycle.encoded with
    | none => .error .encoding
    | some (flushed,entries) => .ok (some ⟨cycle.ts,due.forced,flushed,entries,⟨due,collection⟩⟩)

/-- Collect the log, append the window and commit the log position. -/
def LoopState.appendCycle (registry : Registry) (config : CollectorConfig) (due : DueSet)
    (cycle : Cycle ρ ε) (otherRows : Bool) (s : LoopState ρ) :
    Except (CycleError ε) (List (SegmentId × SealReason)) × LoopState ρ :=
  let (collection,s) := s.collectLogBatch due cycle
  match cycleWindow due cycle otherRows collection with
  | .error e => (.error e,s)
  | .ok none => (.ok [],s.commitLogCollection collection)
  | .ok (some window) =>
    match appendWindowAndMaybeSeal registry cycle.sealer config.segment cycle.appendedAt window
        s.writer with
    | (.error e,writer) => (.error (.append e),{ s with writer })
    | (.ok sealed,writer) => (.ok sealed,{ s with writer }.commitLogCollection collection)

/-- Only the log is read while the main connection is away. -/
def LoopState.runLogOnlyCycle (registry : Registry) (config : CollectorConfig) (due : DueSet)
    (cycle : Cycle ρ ε) (s : LoopState ρ) :
    Except (CycleError ε) (List (SegmentId × SealReason)) × LoopState ρ :=
  s.appendCycle registry config due cycle false

/-- A due instance always has its row. -/
def LoopState.snapshotAndSeal (registry : Registry) (config : CollectorConfig) (due : DueSet)
    (cycle : Cycle ρ ε) (s : LoopState ρ) :
    Except (CycleError ε) (List (SegmentId × SealReason)) × LoopState ρ :=
  if ¬cycle.mainRead then (.error .read,s)
  else s.appendCycle registry config due cycle (due.has .instanceMetadata || cycle.otherRows)

def applyTriggerPace (sched : Scheduler) (kind : SourceKind) (hot : Option Bool)
    (fastIntervalSecs : ℕ) : Scheduler :=
  match hot with
  | some true => (sched.accelerate kind fastIntervalSecs).2
  | some false => (sched.relax kind).2
  | none => sched

/-- Every sealed segment makes the service sources due again. -/
def LoopState.segmentsOpened (s : LoopState ρ) (sealed : List (SegmentId × SealReason)) :
    LoopState ρ :=
  { s with sched := sealed.foldl (fun sched _ => sched.markSegmentOpened) s.sched }

/-- A failed cycle logs its error and leaves the loop running. -/
def LoopState.runCollectionCycle (registry : Registry) (config : CollectorConfig) (due : DueSet)
    (cycle : Cycle ρ ε) (s : LoopState ρ) : LoopState ρ :=
  if ¬cycle.mainReachable then
    if due.has .pgLog then
      match s.runLogOnlyCycle registry config due cycle with
      | (.ok sealed,s) => s.segmentsOpened sealed
      | (.error _,s) => s
    else s
  else
    match s.snapshotAndSeal registry config due cycle with
    | (.ok sealed,s) =>
      let sched := applyTriggerPace s.sched .activity cycle.activityHot
        config.activityFastIntervalSecs
      let sched := applyTriggerPace sched .replication cycle.replicationHot
        config.replicationFastIntervalSecs
      let sched := cycle.deferred.foldl Scheduler.defer sched
      { s with sched }.segmentsOpened sealed
    | (.error _,s) => s

/-- The loop ends rather than go on without knowing what the journal holds. -/
def LoopState.stopIfPersistenceUnhealthy (s : LoopState ρ) : LoopState ρ :=
  if s.writer.state.publishedPendingReset ∨ s.writer.journal.poisoned then
    { s with running := false }
  else s

/-- The age valve. -/
def LoopState.closeExpired (sealer : Journal → SegmentId → Except ε Unit) (s : LoopState ρ) :
    LoopState ρ :=
  match sealOpenSegment sealer .age s.writer with
  | (.ok _,writer) => { s with writer, sched := s.sched.markSegmentOpened }
  | (.error _,writer) => { s with writer }

/-- A tick up to its collection: sources are planned, then an expired segment is closed. -/
def LoopState.beforeCycle (config : CollectorConfig) (tick : Tick ρ ε) (s : LoopState ρ) :
    LoopState ρ :=
  let s := { s with sched := (s.sched.plan tick.plannedAt tick.forced).2 }
  if s.writer.state.ageExpired tick.checkedAt config.segment.maxAge then
    (s.closeExpired tick.ageSealer).stopIfPersistenceUnhealthy
  else s

/-- The sources of a tick. -/
def LoopState.due (s : LoopState ρ) (tick : Tick ρ ε) : DueSet :=
  (s.sched.plan tick.plannedAt tick.forced).1

/-- One tick of the loop. -/
def LoopState.tick (registry : Registry) (config : CollectorConfig) (tick : Tick ρ ε)
    (s : LoopState ρ) : LoopState ρ :=
  let before := s.beforeCycle config tick
  if ¬before.running ∨ (s.due tick).isEmpty ∧ ¬tick.plansDue then before
  else
    (before.runCollectionCycle registry config (s.due tick) tick.cycle).stopIfPersistenceUnhealthy

/-- The loop as the process starts: nothing is open, and the log position is the saved one. -/
structure LoopState.Starts (s : LoopState ρ) (intervals : Intervals) : Prop where
  sched : s.sched = .new intervals
  state : s.writer.state = .default
  windows : s.writer.windows = []
  history : s.writer.history = []
  published : s.writer.published = []
  logs : s.logs.saved = s.logs.state
  committed : s.committed = []
  running : s.running = true

/-- The states that a process can reach with allowed ticks. -/
inductive LoopRuns (registry : Registry) (config : CollectorConfig)
    (allowed : LoopState ρ → Tick ρ ε → Prop) (start : LoopState ρ) : LoopState ρ → Prop
  | start : LoopRuns registry config allowed start start
  | tick {s : LoopState ρ} (tick : Tick ρ ε) (runs : LoopRuns registry config allowed start s)
      (running : s.running = true) (allows : allowed s tick) :
      LoopRuns registry config allowed start (s.tick registry config tick)

/-- What holds at the start and is kept by every allowed tick holds in every reachable state. -/
theorem LoopRuns.invariant {registry : Registry} {config : CollectorConfig}
    {allowed : LoopState ρ → Tick ρ ε → Prop} {start s : LoopState ρ} {I : LoopState ρ → Prop}
    (hruns : LoopRuns registry config allowed start s) (hstart : I start)
    (hstep : ∀ s tick, I s → s.running = true → allowed s tick → I (s.tick registry config tick)) :
    I s := by
  induction hruns with
  | start => exact hstart
  | tick t _ hrunning hallows ih => exact hstep _ t ih hrunning hallows

/-- Looking for log lines touches neither the journal nor the position. -/
theorem LoopState.collectLogBatch_frame (s : LoopState ρ) (due : DueSet) (cycle : Cycle ρ ε) :
    (s.collectLogBatch due cycle).2.writer = s.writer ∧
      (s.collectLogBatch due cycle).2.sched = s.sched ∧
      (s.collectLogBatch due cycle).2.committed = s.committed ∧
      (s.collectLogBatch due cycle).2.running = s.running ∧
      (s.collectLogBatch due cycle).2.logs.state = s.logs.state ∧
      (s.collectLogBatch due cycle).2.logs.saved = s.logs.saved ∧
      ∀ batch, (s.collectLogBatch due cycle).1 = some batch → batch.fromState = s.logs.state := by
  obtain ⟨hstate,hsaved,hfrom⟩ := s.logs.collect_state cycle.log
  rw [collectLogBatch]
  split_ifs
  · refine ⟨rfl,rfl,rfl,rfl,hstate,hsaved,fun batch hbatch => ?_⟩
    rw [← Option.some.inj hbatch]
    exact hfrom
  · exact ⟨rfl,rfl,rfl,rfl,rfl,rfl,fun _ h => by cases h⟩

theorem LoopState.commitLogCollection_frame (s : LoopState ρ)
    (collection : Option (LogCollection ρ)) :
    (s.commitLogCollection collection).writer = s.writer ∧
      (s.commitLogCollection collection).sched = s.sched ∧
      (s.commitLogCollection collection).running = s.running ∧
      (s.commitLogCollection collection).committed = s.committed ++ collection.toList := by
  cases collection with
  | none => exact ⟨rfl,rfl,rfl,(List.append_nil _).symm⟩
  | some batch => exact ⟨rfl,rfl,rfl,rfl⟩

/-- Everything that a cycle can do. -/
inductive CycleOutcome (registry : Registry) (config : CollectorConfig) (due : DueSet)
    (cycle : Cycle ρ ε) (otherRows : Bool) (s : LoopState ρ) :
    Except (CycleError ε) (List (SegmentId × SealReason)) → LoopState ρ → Prop
  | failed {e} : CycleOutcome registry config due cycle otherRows s (.error e)
      (s.collectLogBatch due cycle).2
  | skipped (noRows : otherRows = false)
      (noLines : ∀ batch, (s.collectLogBatch due cycle).1 = some batch → batch.rows = []) :
      CycleOutcome registry config due cycle otherRows s (.ok [])
        ((s.collectLogBatch due cycle).2.commitLogCollection (s.collectLogBatch due cycle).1)
  | refused {window e writer}
      (collected : cycleWindow due cycle otherRows (s.collectLogBatch due cycle).1 =
        .ok (some window))
      (append : AppendOutcome registry cycle.sealer config.segment cycle.appendedAt window s.writer
        (.error e) writer) :
      CycleOutcome registry config due cycle otherRows s (.error (.append e))
        { (s.collectLogBatch due cycle).2 with writer }
  | appended {window sealed writer}
      (collected : cycleWindow due cycle otherRows (s.collectLogBatch due cycle).1 =
        .ok (some window))
      (append : AppendOutcome registry cycle.sealer config.segment cycle.appendedAt window s.writer
        (.ok sealed) writer) :
      CycleOutcome registry config due cycle otherRows s (.ok sealed)
        ({ (s.collectLogBatch due cycle).2 with writer }.commitLogCollection
          (s.collectLogBatch due cycle).1)

/-- The window of a cycle records the sources and the batch. -/
theorem cycleWindow_some {due : DueSet} {cycle : Cycle ρ ε} {otherRows : Bool}
    {collection : Option (LogCollection ρ)} {window : Window (WindowOrigin ρ)}
    (h : cycleWindow due cycle otherRows collection = .ok (some window)) :
    window.origin = ⟨due,collection⟩ ∧ window.forced = due.forced := by
  rw [cycleWindow] at h
  split_ifs at h
  · cases h
  · split at h
    · cases h
    · rw [← Option.some.inj (Except.ok.inj h)]
      exact ⟨rfl,rfl⟩

theorem cycleWindow_none {due : DueSet} {cycle : Cycle ρ ε} {otherRows : Bool}
    {collection : Option (LogCollection ρ)}
    (h : cycleWindow due cycle otherRows collection = .ok none) :
    otherRows = false ∧ ∀ batch, collection = some batch → batch.rows = [] := by
  rw [cycleWindow] at h
  split_ifs at h with _ hempty
  · refine ⟨by simpa using hempty.1,?_⟩
    rintro batch rfl
    simpa using hempty.2
  · split at h <;> cases h

theorem LoopState.appendCycle_outcome (registry : Registry) (config : CollectorConfig)
    (due : DueSet) (cycle : Cycle ρ ε) (otherRows : Bool) (s : LoopState ρ) :
    CycleOutcome registry config due cycle otherRows s
      (s.appendCycle registry config due cycle otherRows).1
      (s.appendCycle registry config due cycle otherRows).2 := by
  rw [appendCycle]
  dsimp only
  split
  · exact .failed
  · next hnone =>
    obtain ⟨hrows,hlines⟩ := cycleWindow_none hnone
    exact .skipped hrows hlines
  · next window hsome =>
    have houtcome := appendWindowAndMaybeSeal_outcome registry cycle.sealer config.segment
      cycle.appendedAt window s.writer
    rw [← (s.collectLogBatch_frame due cycle).1] at houtcome
    split
    · next e writer happend =>
      rw [happend,(s.collectLogBatch_frame due cycle).1] at houtcome
      exact .refused hsome houtcome
    · next sealed writer happend =>
      rw [happend,(s.collectLogBatch_frame due cycle).1] at houtcome
      exact .appended hsome houtcome

/-- A small loop, with windows that have no sections. -/
def sampleLoop : LoopState ℕ where
  sched := .new .default
  writer :=
    { journal := Journal.opened Generation.fresh.image JournalConfig.default none [] 7
      nextGeneration := 8
      state := .default
      windows := []
      history := []
      published := [] }
  logs := ⟨true,none,none,none,0⟩
  committed := []
  running := true

theorem sampleLoop_starts : sampleLoop.Starts .default := ⟨rfl,rfl,rfl,rfl,rfl,rfl,rfl,rfl⟩

def sampleConfig : CollectorConfig := ⟨⟨900,67108864⟩,1,1⟩

/-- A tick at a full second; the log file has one row in front of every position but its end. -/
def sampleTick (forced : Bool) (secs : ℕ) (sealer : Journal → SegmentId → Except Unit Unit) :
    Tick ℕ Unit where
  forced
  plannedAt := secs*nanosPerSec
  checkedAt := secs*nanosPerSec
  plansDue := false
  ageSealer := sealer
  cycle :=
    { mainReachable := true
      mainRead := true
      otherRows := true
      log := ⟨.found ⟨[112],.stderr⟩,fun source state => some ⟨[],TailGaps.default,
        ⟨source.path,1,1,if state.isSome then 1 else 0,source.parserKind,false⟩,0⟩,
        fun _ batch _ => if batch.nextState.offset = 0 then [7] else [],[]⟩
      buffered := true
      encoded := some (⟨emptyPart 0 0 1,⟨[],0⟩⟩,[])
      ts := 0
      sealer
      appendedAt := secs*nanosPerSec
      deferred := []
      activityHot := none
      replicationHot := none }

end PgKronika
