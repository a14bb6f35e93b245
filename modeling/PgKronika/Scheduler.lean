import Mathlib

/-! Which sources a collection tick reads: every source has an interval of its own, and a fresh
segment makes its service sources due again. -/
namespace PgKronika

inductive SourceKind
  | activity
  | database
  | bgwriter
  | wal
  | io
  | archiver
  | preparedXacts
  | progressVacuum
  | statements
  | userTables
  | userIndexes
  | replication
  | resetMetadata
  | instanceMetadata
  | settings
  | osCore
  | osMountTopo
  | osProcesses
  | osProcessStatus
  | osCgroup
  | osCgroupMapping
  | pgLog
  deriving DecidableEq

/-- All source kinds, in collection order. -/
def allSources : List SourceKind :=
  [.activity,.database,.bgwriter,.wal,.io,.archiver,.preparedXacts,.progressVacuum,.statements,
    .userTables,.userIndexes,.replication,.resetMetadata,.instanceMetadata,.settings,.osCore,
    .osMountTopo,.osProcesses,.osProcessStatus,.osCgroup,.osCgroupMapping,.pgLog]

/-- Per-source intervals, in seconds. -/
structure Intervals where
  activity : ℕ
  database : ℕ
  bgwriter : ℕ
  wal : ℕ
  io : ℕ
  archiver : ℕ
  preparedXacts : ℕ
  progressVacuum : ℕ
  statements : ℕ
  userTables : ℕ
  userIndexes : ℕ
  replication : ℕ
  resetMetadata : ℕ
  instanceMetadata : ℕ
  settings : ℕ
  osCore : ℕ
  osMountTopo : ℕ
  osProcesses : ℕ
  osProcessStatus : ℕ
  osCgroup : ℕ
  osCgroupMapping : ℕ
  pgLog : ℕ
  deriving DecidableEq

def Intervals.default : Intervals where
  activity := 5
  database := 10
  bgwriter := 10
  wal := 10
  io := 10
  archiver := 30
  preparedXacts := 30
  progressVacuum := 10
  statements := 30
  userTables := 30
  userIndexes := 60
  replication := 30
  resetMetadata := 30
  instanceMetadata := 60
  settings := 3600
  osCore := 10
  osMountTopo := 60
  osProcesses := 5
  osProcessStatus := 30
  osCgroup := 10
  osCgroupMapping := 30
  pgLog := 5

def Intervals.of (intervals : Intervals) : SourceKind → ℕ
  | .activity => intervals.activity
  | .database => intervals.database
  | .bgwriter => intervals.bgwriter
  | .wal => intervals.wal
  | .io => intervals.io
  | .archiver => intervals.archiver
  | .preparedXacts => intervals.preparedXacts
  | .progressVacuum => intervals.progressVacuum
  | .statements => intervals.statements
  | .userTables => intervals.userTables
  | .userIndexes => intervals.userIndexes
  | .replication => intervals.replication
  | .resetMetadata => intervals.resetMetadata
  | .instanceMetadata => intervals.instanceMetadata
  | .settings => intervals.settings
  | .osCore => intervals.osCore
  | .osMountTopo => intervals.osMountTopo
  | .osProcesses => intervals.osProcesses
  | .osProcessStatus => intervals.osProcessStatus
  | .osCgroup => intervals.osCgroup
  | .osCgroupMapping => intervals.osCgroupMapping
  | .pgLog => intervals.pgLog

/-- Instants and durations are counted in nanoseconds. -/
def nanosPerSec : ℕ := 1000000000

structure DueSet where
  kinds : List SourceKind
  forced : Bool
  deriving DecidableEq

def DueSet.has (due : DueSet) (kind : SourceKind) : Bool := due.kinds.contains kind

def DueSet.isEmpty (due : DueSet) : Bool := due.kinds.isEmpty

def DueSet.all : DueSet := ⟨allSources,true⟩

/-- The sources that a fresh segment reads again, so that every sealed file carries its own
instance identity, reset context and configuration. -/
def segmentOpenSources : List SourceKind :=
  [.resetMetadata,.instanceMetadata,.settings,.osMountTopo]

/-- One pace and one clock for each source. -/
structure Scheduler where
  intervals : Intervals
  overrides : SourceKind → Option ℕ
  lastRead : SourceKind → Option ℕ

namespace Scheduler

def new (intervals : Intervals) : Scheduler := ⟨intervals,fun _ => none,fun _ => none⟩

/-- Pace a source faster until it is relaxed; the answer says whether the pace changed. -/
def accelerate (s : Scheduler) (kind : SourceKind) (secs : ℕ) : Bool × Scheduler :=
  if s.intervals.of kind ≤ secs then (false,s)
  else if s.overrides kind = some secs then (false,s)
  else (true,{ s with overrides := Function.update s.overrides kind (some secs) })

def relax (s : Scheduler) (kind : SourceKind) : Bool × Scheduler :=
  ((s.overrides kind).isSome,{ s with overrides := Function.update s.overrides kind none })

/-- A segment was just sealed: the next window reads the service sources again. -/
def markSegmentOpened (s : Scheduler) : Scheduler :=
  { s with lastRead := fun kind => if kind ∈ segmentOpenSources then none else s.lastRead kind }

/-- Put a planned source that was not read back: it comes due on the next tick. -/
def defer (s : Scheduler) (kind : SourceKind) : Scheduler :=
  { s with lastRead := Function.update s.lastRead kind none }

/-- Never read, or its interval has elapsed. -/
def isDue (s : Scheduler) (now : ℕ) (kind : SourceKind) : Bool :=
  (s.lastRead kind).all fun last =>
    ((s.overrides kind).getD (s.intervals.of kind))*nanosPerSec ≤ now-last

/-- The due set of a tick. Due sources are marked read at once. Tables and indexes do not share
an unforced tick, except on the first read of the indexes or when they are to be read on every
tick. -/
def plan (s : Scheduler) (now : ℕ) (force : Bool) : DueSet × Scheduler :=
  if force then (.all,{ s with lastRead := fun _ => some now })
  else
    let kinds := allSources.filter (s.isDue now)
    let planned := { s with
      lastRead := fun kind => if kind ∈ kinds then some now else s.lastRead kind }
    if (s.lastRead .userIndexes).isSome ∧ 0 < s.intervals.userIndexes ∧ .userTables ∈ kinds ∧
        .userIndexes ∈ kinds then
      (⟨kinds.filter (· ≠ .userIndexes),false⟩,planned.defer .userIndexes)
    else (⟨kinds,false⟩,planned)

/-- Every service source has been put back. -/
def Armed (s : Scheduler) : Prop := ∀ kind ∈ segmentOpenSources, s.lastRead kind = none

theorem new_armed (intervals : Intervals) : (new intervals).Armed := fun _ _ => rfl

theorem markSegmentOpened_armed (s : Scheduler) : s.markSegmentOpened.Armed :=
  fun _ hkind => if_pos hkind

theorem Armed.defer {s : Scheduler} (h : s.Armed) (kind : SourceKind) : (s.defer kind).Armed := by
  intro k hk
  by_cases he : k = kind
  · subst he
    exact Function.update_self ..
  · exact (Function.update_of_ne he ..).trans (h k hk)

theorem Armed.accelerate {s : Scheduler} (h : s.Armed) (kind : SourceKind) (secs : ℕ) :
    (s.accelerate kind secs).2.Armed := by
  rw [Scheduler.accelerate]
  split_ifs <;> exact h

theorem Armed.relax {s : Scheduler} (h : s.Armed) (kind : SourceKind) : (s.relax kind).2.Armed := h

theorem mem_allSources (kind : SourceKind) : kind ∈ allSources := by cases kind <;> decide

/-- A source is in the due set of its tick exactly when the tick is forced or the source is due,
except for indexes that yield to tables. -/
theorem plan_has {s : Scheduler} {now : ℕ} {force : Bool} {kind : SourceKind}
    (hkind : kind ≠ .userIndexes) :
    (s.plan now force).1.has kind = true ↔ force = true ∨ s.isDue now kind = true := by
  rw [plan]
  by_cases hforce : force = true
  · rw [if_pos hforce]
    exact iff_of_true (List.contains_iff_mem.mpr (mem_allSources kind)) (.inl hforce)
  rw [if_neg hforce,or_iff_right hforce]
  dsimp only
  split_ifs with hshared
  · rw [DueSet.has,List.contains_iff_mem,List.mem_filter,List.mem_filter]
    exact ⟨fun h => h.1.2,fun h => ⟨⟨mem_allSources kind,h⟩,by simpa using hkind⟩⟩
  · rw [DueSet.has,List.contains_iff_mem,List.mem_filter]
    exact ⟨And.right,fun h => ⟨mem_allSources kind,h⟩⟩

theorem segmentOpenSources_ne {kind : SourceKind} (h : kind ∈ segmentOpenSources) :
    kind ≠ .userIndexes := by
  rintro rfl
  revert h
  decide

/-- Sources that have been put back are due. -/
theorem Armed.due {s : Scheduler} (h : s.Armed) (now : ℕ) {kind : SourceKind}
    (hkind : kind ∈ segmentOpenSources) : s.isDue now kind = true := by
  rw [isDue,h kind hkind]
  rfl

end Scheduler

/-- The due set of a tick that opens a self-contained segment. -/
def DueSet.Service (due : DueSet) : Prop := ∀ kind ∈ segmentOpenSources, due.has kind = true

instance (due : DueSet) : Decidable due.Service :=
  inferInstanceAs (Decidable (∀ kind ∈ segmentOpenSources, _))

/-- The tick was forced, or every service source was due. -/
theorem Scheduler.plan_service_iff {s : Scheduler} {now : ℕ} {force : Bool} :
    (s.plan now force).1.Service ↔
      force = true ∨ ∀ kind ∈ segmentOpenSources, s.isDue now kind = true := by
  constructor
  · intro h
    by_cases hforce : force = true
    · exact .inl hforce
    · refine .inr fun kind hkind => ?_
      exact ((plan_has (segmentOpenSources_ne hkind)).mp (h kind hkind)).resolve_left hforce
  · rintro h kind hkind
    exact (plan_has (segmentOpenSources_ne hkind)).mpr (h.imp_right fun h => h kind hkind)

theorem Scheduler.Armed.plan_service {s : Scheduler} (h : s.Armed) (now : ℕ) (force : Bool) :
    (s.plan now force).1.Service :=
  plan_service_iff.mpr (.inr fun _ hkind => h.due now hkind)

end PgKronika
