import Mathlib
import PgKronika.CheckedArith
import PgKronika.LayoutTime

/-! Storage rotation: the tree that a scan reports, the victims in their order and one enforcement
pass over the writer's root. Byte counts are natural numbers, their sums saturate. -/
namespace PgKronika
open CheckedArith

/-- The address of a finished segment; its UTC day is a function of the identity. -/
structure SegmentAddress where
  id : SegmentId
  deriving DecidableEq

inductive TemporaryKind
  | pgm | ovf | overviewProbe
  deriving DecidableEq

structure TemporaryObject where
  address : SegmentAddress
  kind : TemporaryKind
  identity : FileIdentity
  fileName : String
  deriving DecidableEq

inductive EntryFileType
  | regularFile | directory | symlink | other
  deriving DecidableEq

structure QuarantineEntry where
  fileName : String
  fileType : EntryFileType
  file : FileIdentity
  deriving DecidableEq

structure SegmentArtifacts where
  address : SegmentAddress
  pgmBytes : ℕ
  ovfBytes : Option ℕ
  deriving DecidableEq

/-- What the scan reports: finished segments in numeric order of their identities, overviews
without a segment, temporaries. -/
structure LayoutSnapshot where
  segments : List SegmentArtifacts
  orphanOverviews : List SegmentAddress
  temporaries : List TemporaryObject

structure FilesystemUsage where
  totalBytes : ℕ
  usedBytes : ℕ

structure SegmentRemoval where
  pgmBytes : ℕ
  ovfBytes : Option ℕ

def SegmentRemoval.totalBytes (removal : SegmentRemoval) : ℕ :=
  match removal.ovfBytes with
  | some ovf => saturatingAdd removal.pgmBytes ovf
  | none => removal.pgmBytes

/-- The calls that rotation makes on the writer's root, over the states of the root. `none` is a
call that failed. -/
structure WriterOwner (σ : Type) where
  scan : σ → Option LayoutSnapshot × σ
  scanQuarantine : σ → Option (List QuarantineEntry) × σ
  filesystemUsage : σ → Option FilesystemUsage × σ
  removeTemporary : TemporaryObject → σ → Option Unit × σ
  removeOrphanOverview : SegmentAddress → σ → Option ℕ × σ
  removeQuarantineEntry : QuarantineEntry → σ → Option ℕ × σ
  removeSealedSegment : SegmentAddress → σ → Option SegmentRemoval × σ

/-- A byte budget of the tree, or a percentage of the partition. -/
inductive RetentionConfig
  | fixed (budget : ℕ)
  | auto (percent : ℕ)
  deriving DecidableEq

def RetentionConfig.isFixed : RetentionConfig → Bool
  | .fixed _ => true
  | .auto _ => false

/-- One file that rotation may delete. -/
inductive Victim
  | temporary (temporary : TemporaryObject)
  | orphanOverview (address : SegmentAddress)
  | quarantine (entry : QuarantineEntry)
  | segment (address : SegmentAddress)
  deriving DecidableEq

def Victim.countedInTree : Victim → Bool
  | .temporary _ => true
  | .segment _ => true
  | _ => false

/-- Instants are nanoseconds. -/
def rotationTick : ℕ := 60*10^9

def recountPeriod : ℕ := 3600*10^9

structure Rotation where
  config : RetentionConfig
  nonJournalBytes : ℕ
  lastTick : ℕ
  lastRecount : ℕ
  lastDegradation : Option ℕ
  pendingReclaim : ℕ
  lastObservedUsed : Option ℕ

def saturatingSum (sizes : List ℕ) : ℕ := sizes.foldl saturatingAdd 0

theorem saturatingSum_eq (sizes : List ℕ) : saturatingSum sizes = min sizes.sum u64Max := by
  suffices hfold : ∀ start, start ≤ u64Max →
      sizes.foldl saturatingAdd start = min (start + sizes.sum) u64Max by
    rw [saturatingSum,hfold 0 (Nat.zero_le _),Nat.zero_add]
  induction sizes with
  | nil => exact fun start hstart => (min_eq_left hstart).symm
  | cons x sizes ih =>
    intro start hstart
    rw [List.foldl_cons,ih (saturatingAdd start x) (min_le_right _ _),List.sum_cons,saturatingAdd]
    omega

def countableBytes (snapshot : LayoutSnapshot) : ℕ :=
  saturatingAdd
    (saturatingSum (snapshot.segments.map fun segment =>
      saturatingAdd segment.pgmBytes (segment.ovfBytes.getD 0)))
    (saturatingSum (snapshot.temporaries.map fun temporary => temporary.identity.len))

/-- Evidence ages by its modification time, then by its name. -/
def QuarantineEntry.age (entry : QuarantineEntry) : ℤ ×ₗ ℤ ×ₗ String :=
  toLex (entry.file.mtimeSeconds.toInt,toLex (entry.file.mtimeNanoseconds.toInt,entry.fileName))

def sortQuarantineOldestFirst (entries : List QuarantineEntry) : List QuarantineEntry :=
  entries.insertionSort fun first second => first.age ≤ second.age

theorem sortQuarantine_sorted (entries : List QuarantineEntry) :
    (sortQuarantineOldestFirst entries).Pairwise fun first second => first.age ≤ second.age :=
  @List.pairwise_insertionSort _ (fun first second => first.age ≤ second.age) _
    ⟨fun first second => le_total first.age second.age⟩ ⟨fun _ _ _ => le_trans⟩ entries

theorem sortQuarantine_perm (entries : List QuarantineEntry) :
    (sortQuarantineOldestFirst entries).Perm entries :=
  List.perm_insertionSort (fun first second : QuarantineEntry => first.age ≤ second.age) entries

/-- The candidates: writer temporaries, orphan overviews, the evidence, then the sealed segments but
the newest. -/
def planVictims (snapshot : LayoutSnapshot) (quarantine : List QuarantineEntry) : List Victim :=
  (snapshot.temporaries.filter fun temporary => temporary.kind = .pgm).map .temporary ++
    snapshot.orphanOverviews.map .orphanOverview ++
    quarantine.map .quarantine ++
    (snapshot.segments.take (snapshot.segments.length - 1)).map fun segment =>
      .segment segment.address

def reconcilePendingReclaim (pending : ℕ) (lastObservedUsed : Option ℕ) (usedNow : ℕ) : ℕ :=
  pending - lastObservedUsed.elim 0 fun last => last - usedNow

def usedThresholdBytes (total percent : ℕ) : ℕ := min (total*percent / 100) u64Max

section Owner

variable {σ : Type} (owner : WriterOwner σ)

/-- Deletes one victim and gives the bytes it freed. -/
def removeVictim (victim : Victim) (root : σ) : Option ℕ × σ :=
  match victim with
  | .temporary temporary =>
    let (removal,root) := owner.removeTemporary temporary root
    (removal.map fun _ => temporary.identity.len,root)
  | .orphanOverview address => owner.removeOrphanOverview address root
  | .quarantine entry => owner.removeQuarantineEntry entry root
  | .segment address =>
    let (removal,root) := owner.removeSealedSegment address root
    (removal.map SegmentRemoval.totalBytes,root)

namespace Rotation

/-- The rotation after the seeding scan. -/
def new (config : RetentionConfig) (snapshot : LayoutSnapshot) (now : ℕ) : Rotation :=
  ⟨config,countableBytes snapshot,now,now,none,0,none⟩

variable (r : Rotation)

def timeUntilTick (now : ℕ) : ℕ := rotationTick - (now - r.lastTick)

def recordPublication (bytes : ℕ) : Rotation :=
  {r with nonJournalBytes := saturatingAdd r.nonJournalBytes bytes}

def treeBytes (journalBytes quarantineBytes : ℕ) : ℕ :=
  saturatingAdd (saturatingAdd r.nonJournalBytes journalBytes) quarantineBytes

/-- A reading of the partition credits its drop since the last one to the pending reclaim. -/
def observe (usedNow : ℕ) : Rotation :=
  {r with
    pendingReclaim := reconcilePendingReclaim r.pendingReclaim r.lastObservedUsed usedNow
    lastObservedUsed := some usedNow}

/-- The size figure and its threshold after a reading of the partition. -/
def usageFigures (usage : FilesystemUsage) (percent : ℕ) : ℕ × ℕ :=
  (usage.usedBytes - (r.observe usage.usedBytes).pendingReclaim,
    usedThresholdBytes usage.totalBytes percent)

/-- The current size figure and its threshold. -/
def target (journalBytes quarantineBytes : ℕ) (root : σ) : Option (ℕ × ℕ) × Rotation × σ :=
  match r.config with
  | .fixed budget => (some (r.treeBytes journalBytes quarantineBytes,budget),r,root)
  | .auto percent =>
    match owner.filesystemUsage root with
    | (none,root) => (none,r,root)
    | (some usage,root) => (some (r.usageFigures usage percent),r.observe usage.usedBytes,root)

theorem target_fixed {budget : ℕ} (h : r.config = .fixed budget)
    (journalBytes quarantineBytes : ℕ) (root : σ) :
    r.target owner journalBytes quarantineBytes root =
      (some (r.treeBytes journalBytes quarantineBytes,budget),r,root) := by
  rw [target,h]

theorem target_auto {percent : ℕ} (h : r.config = .auto percent)
    (journalBytes quarantineBytes : ℕ) (root : σ) :
    r.target owner journalBytes quarantineBytes root =
      match owner.filesystemUsage root with
      | (none,root) => (none,r,root)
      | (some usage,root) =>
        (some (r.usageFigures usage percent),r.observe usage.usedBytes,root) := by
  rw [target,h]

/-- The counters after a confirmed removal. -/
def confirmRemoval (victim : Victim) (freed : ℕ) : Rotation :=
  {r with
    nonJournalBytes := if victim.countedInTree then r.nonJournalBytes - freed else r.nonJournalBytes
    pendingReclaim :=
      if r.config.isFixed then r.pendingReclaim else saturatingAdd r.pendingReclaim freed}

theorem confirmRemoval_nonJournalBytes (victim : Victim) (freed : ℕ) :
    (r.confirmRemoval victim freed).nonJournalBytes =
      r.nonJournalBytes - if victim.countedInTree then freed else 0 := by
  rw [confirmRemoval]
  split_ifs <;> rfl

end Rotation

/-- What the deletion loop leaves. -/
structure Deletion (σ : Type) where
  rotation : Rotation
  root : σ
  deficit : ℕ
  freedTotal : ℕ
  removed : List (Victim × ℕ)
  failed : Option Victim

/-- Victims go in their order until the deficit is gone or a removal fails. -/
def Rotation.deleteVictims (r : Rotation) (root : σ) (deficit freedTotal : ℕ) :
    List Victim → Deletion σ
  | [] => ⟨r,root,deficit,freedTotal,[],none⟩
  | victim::victims =>
    if deficit = 0 then ⟨r,root,deficit,freedTotal,[],none⟩
    else
      match removeVictim owner victim root with
      | (none,root) => ⟨r,root,deficit,freedTotal,[],some victim⟩
      | (some freed,root) =>
        let rest := deleteVictims (r.confirmRemoval victim freed) root (deficit - freed)
          (saturatingAdd freedTotal freed) victims
        {rest with removed := (victim,freed)::rest.removed}

inductive RotationError
  | scanQuarantine | readUsage | scanTree
  deriving DecidableEq

/-- What one pass leaves: the rotation, the root, the confirmed removals with what they freed, the
victim whose removal ended the pass, the degradation it reported and its error. -/
structure Pass (σ : Type) where
  rotation : Rotation
  root : σ
  scanned : Bool
  removed : List (Victim × ℕ)
  failed : Option Victim
  degraded : Option (ℕ × ℕ)
  error : Option RotationError

/-- The degradation event, at most one a tick. -/
def Rotation.logDegradation (r : Rotation) (now : ℕ) : Bool × Rotation :=
  if r.lastDegradation.any fun last => now - last < rotationTick then (false,r)
  else (true,{r with lastDegradation := some now})

theorem Rotation.logDegradation_nonJournalBytes (r : Rotation) (now : ℕ) :
    (r.logDegradation now).2.nonJournalBytes = r.nonJournalBytes := by
  rw [logDegradation]
  split_ifs <;> rfl

/-- The part of a pass behind its scan. -/
def Rotation.deleteOldest (r : Rotation) (current threshold : ℕ) (victims : List Victim) (now : ℕ)
    (root : σ) : Pass σ :=
  if current - threshold = 0 then ⟨r,root,true,[],none,none,none⟩
  else
    let done := r.deleteVictims owner root (current - threshold) 0 victims
    if 0 < done.deficit ∧ done.failed = none then
      let (reported,r) := done.rotation.logDegradation now
      ⟨r,done.root,true,done.removed,done.failed,
        if reported then some (current - done.freedTotal,threshold) else none,none⟩
    else ⟨done.rotation,done.root,true,done.removed,done.failed,none,none⟩

/-- One enforcement pass. -/
def Rotation.enforce (r : Rotation) (journalBytes now : ℕ) (root : σ) : Pass σ :=
  match owner.scanQuarantine root with
  | (none,root) => ⟨r,root,false,[],none,none,some .scanQuarantine⟩
  | (some listed,root) =>
    let quarantine := sortQuarantineOldestFirst
      (listed.filter fun entry => entry.fileType = .regularFile)
    let quarantineBytes := saturatingSum (quarantine.map fun entry => entry.file.len)
    let recountDue := r.config.isFixed && decide (recountPeriod ≤ now - r.lastRecount)
    match r.target owner journalBytes quarantineBytes root with
    | (none,r,root) => ⟨r,root,false,[],none,none,some .readUsage⟩
    | (some (current,threshold),r,root) =>
      if current ≤ threshold ∧ recountDue = false then ⟨r,root,false,[],none,none,none⟩
      else
        match owner.scan root with
        | (none,root) => ⟨r,root,false,[],none,none,some .scanTree⟩
        | (some snapshot,root) =>
          let r := {r with nonJournalBytes := countableBytes snapshot,lastRecount := now}
          match r.target owner journalBytes quarantineBytes root with
          | (none,r,root) => ⟨r,root,true,[],none,none,some .readUsage⟩
          | (some (current,threshold),r,root) =>
            r.deleteOldest owner current threshold (planVictims snapshot quarantine) now root

/-- A pass runs after a publication or when the tick is due. -/
def Rotation.maybeEnforce (r : Rotation) (journalBytes : ℕ) (published : Bool) (now : ℕ)
    (root : σ) : Rotation × σ :=
  let tickDue := r.timeUntilTick now = 0
  if published = false ∧ ¬tickDue then (r,root)
  else
    let pass := (if tickDue then {r with lastTick := now} else r).enforce owner journalBytes now root
    (pass.rotation,pass.root)

end Owner

end PgKronika
