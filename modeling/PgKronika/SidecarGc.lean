import PgKronika.FactReading
import PgKronika.Rotation

/-! Retention of the overview sidecars: one bounded inventory of the data directory, the grace of
absent keys, the sweep and the accounting of derived files. Times are in nanoseconds. -/
namespace PgKronika
namespace SidecarGc

open ByteCodec CheckedArith FactContainer

def maxGcEntries : ℕ := 1000000

inductive GcConfigError
  | entryLimit | generationGrace | quota
  deriving DecidableEq

structure GcConfig where
  maxEntries : ℕ
  graceGenerations : ℕ
  wallGrace : ℕ
  artifactGrace : ℕ
  maxLogicalBytes : Option ℕ
  maxFiles : Option ℕ
  entryLimit : maxEntries ≠ 0 ∧ maxEntries ≤ maxGcEntries
  generationGrace : 2 ≤ graceGenerations
  quota : maxLogicalBytes ≠ some 0 ∧ maxFiles ≠ some 0

def GcConfig.new (maxEntries graceGenerations wallGrace artifactGrace : ℕ)
    (maxLogicalBytes maxFiles : Option ℕ) : Except GcConfigError GcConfig :=
  if entryLimit : maxEntries ≠ 0 ∧ maxEntries ≤ maxGcEntries then
    if generationGrace : 2 ≤ graceGenerations then
      if quota : maxLogicalBytes ≠ some 0 ∧ maxFiles ≠ some 0 then
        .ok ⟨maxEntries,graceGenerations,wallGrace,artifactGrace,maxLogicalBytes,maxFiles,
          entryLimit,generationGrace,quota⟩
      else .error .quota
    else .error .generationGrace
  else .error .entryLimit

/-- Which keys one source view has live. -/
structure GcMark where
  generation : UInt64
  isAuthoritative : Bool
  live : Finset FactBuildKey
  unavailable : isAuthoritative = false → live = ∅

def GcMark.authoritative (generation : UInt64) (live : Finset FactBuildKey) : GcMark :=
  ⟨generation,true,live,by simp⟩

def GcMark.ofUnavailable (generation : UInt64) : GcMark := ⟨generation,false,∅,by simp⟩

inductive GcSkipReason
  | ownerUnavailable | markUnavailable | liveSetCapped | scanError | scanCapped
  deriving DecidableEq

structure FileUsage where
  logicalBytes : ℕ
  allocatedBytes : ℕ
  deriving DecidableEq

structure GcCategoryUsage where
  files : ℕ := 0
  logicalBytes : ℕ := 0
  allocatedBytes : ℕ := 0
  deriving DecidableEq

namespace GcCategoryUsage

def add (usage : GcCategoryUsage) (file : FileUsage) : GcCategoryUsage where
  files := saturatingAdd usage.files 1
  logicalBytes := saturatingAdd usage.logicalBytes file.logicalBytes
  allocatedBytes := saturatingAdd usage.allocatedBytes file.allocatedBytes

-- Subtraction of natural numbers stops at zero, as the saturating one does.
def remove (usage : GcCategoryUsage) (file : FileUsage) : GcCategoryUsage where
  files := usage.files-1
  logicalBytes := usage.logicalBytes-file.logicalBytes
  allocatedBytes := usage.allocatedBytes-file.allocatedBytes

end GcCategoryUsage

structure GcUsage where
  sidecars : GcCategoryUsage := {}
  temporary : GcCategoryUsage := {}
  locks : GcCategoryUsage := {}
  deriving DecidableEq

structure GcOutcome where
  scanned : ℕ := 0
  live : ℕ := 0
  pending : ℕ := 0
  deleted : ℕ := 0
  deletedSidecars : ℕ := 0
  deletedArtifacts : ℕ := 0
  unlinkedLogicalBytes : ℕ := 0
  unlinkedAllocatedBytes : ℕ := 0
  scanComplete : Bool := false
  sweepAuthorized : Bool := false
  skipReason : Option GcSkipReason := none
  quotaExceeded : Bool := false
  usage : GcUsage := {}
  deriving DecidableEq

structure PendingEntry where
  firstAbsentAt : ℤ
  observedGenerations : ℕ
  lastGeneration : UInt64
  deriving DecidableEq

structure QuotaState where
  usage : GcUsage
  sidecars : SegmentAddress → Option FileUsage
  invalidOverviews : SegmentAddress → Option FileUsage

structure GcState where
  pending : FactBuildKey → Option PendingEntry := fun _ => none
  recentlyPublished : FactBuildKey → Option ℤ := fun _ => none
  lastAuthoritativeMark : Option GcMark := none
  quota : Option QuotaState := none

/-- `none` when the clock stepped back. -/
def elapsedSince (earlier now : ℤ) : Option ℕ :=
  if earlier ≤ now then some (now-earlier).toNat else none

def oldEnough (earlier now : ℤ) (grace : ℕ) : Bool :=
  match elapsedSince earlier now with
  | some age => grace ≤ age
  | none => false

theorem oldEnough_iff {earlier now : ℤ} {grace : ℕ} :
    oldEnough earlier now grace = true ↔ earlier+grace ≤ now := by
  unfold oldEnough elapsedSince
  by_cases h : earlier ≤ now
  · simp only [if_pos h,decide_eq_true_eq]
    omega
  · simp only [if_neg h,Bool.false_eq_true,false_iff]
    omega

/-! What the tree answers while one call works on it. -/

structure Metadata where
  device : ℕ
  inode : ℕ
  len : ℕ
  blocks : ℕ
  modified : Option ℤ
  deriving DecidableEq

def fileUsage (metadata : Metadata) : FileUsage := ⟨metadata.len,min (metadata.blocks*512) u64Max⟩

inductive ArtifactLocation
  | overview (address : SegmentAddress)
  | temporary (temporary : TemporaryObject)
  deriving DecidableEq

/-- The names of the files that the inventory may open. -/
def ovfLocations (snapshot : LayoutSnapshot) : List ArtifactLocation :=
  snapshot.segments.map (fun segment => ArtifactLocation.overview segment.address) ++
    snapshot.orphanOverviews.map ArtifactLocation.overview ++
    snapshot.temporaries.map ArtifactLocation.temporary

/-- A complete scan; the names in a directory are distinct. -/
structure TreeScan extends LayoutSnapshot where
  visitedEntries : ℕ
  distinct : (ovfLocations toLayoutSnapshot).Nodup

inductive LayoutFailure
  | invalidLimits | traversalLimitExceeded | other
  deriving DecidableEq

structure OpenedFile (φ : Type) where
  metadata : Option Metadata
  reader : φ

/-- The steps of a removal: the device and inode of the file that has the name now, then whether
the name is unlinked and its directory synchronized. -/
structure Removal where
  opened : Except Unit (Option (ℕ × ℕ))
  unlinks : Bool
  syncs : Bool

/-- One answer for each call; a call on a file is made at most once. `none` is a call that failed
or found nothing. -/
structure Disk (φ : Type) where
  scan : ℕ → Except LayoutFailure TreeScan
  openOvf : SegmentAddress → Option (OpenedFile φ)
  openInvalidOvf : SegmentAddress → Option (OpenedFile φ)
  openTemporary : TemporaryObject → Option (OpenedFile φ)
  reopenOvf : SegmentAddress → Option (OpenedFile φ)
  removal : ArtifactLocation → Removal

/-- Whether the name was unlinked, and what the caller gets to know. -/
def Removal.ifIdentity (removal : Removal) (device inode : ℕ) : Bool × Except Unit Bool :=
  match removal.opened with
  | .error _ => (false,.error ())
  | .ok none => (false,.ok false)
  | .ok (some identity) =>
    if identity ≠ (device,inode) then (false,.ok false)
    else if removal.unlinks = false then (false,.error ())
    else (true,if removal.syncs then .ok true else .error ())

/-- A removal tells the caller of every name that it unlinked. -/
theorem Removal.ifIdentity_synced {removal : Removal} (device inode : ℕ)
    (h : removal.unlinks = true → removal.syncs = true) :
    (removal.ifIdentity device inode).1 = true ↔
      (removal.ifIdentity device inode).2 = .ok true := by
  unfold Removal.ifIdentity
  split
  · simp
  · simp
  · split_ifs <;> simp_all

/-! The inventory. -/

structure SidecarCandidate where
  address : SegmentAddress
  key : FactBuildKey
  device : ℕ
  inode : ℕ
  usage : FileUsage
  deriving DecidableEq

structure ArtifactCandidate where
  location : ArtifactLocation
  device : ℕ
  inode : ℕ
  usage : FileUsage
  modified : ℤ
  deriving DecidableEq

structure Inventory where
  scanned : ℕ
  usage : GcUsage := {}
  sidecars : List SidecarCandidate := []
  artifacts : List ArtifactCandidate := []
  deriving DecidableEq

inductive ScanError
  | capped | io
  deriving DecidableEq

def scanError : LayoutFailure → ScanError
  | .invalidLimits | .traversalLimitExceeded => .capped
  | .other => .io

section Files

variable {φ : Type} [ReadAt φ]

/-- The file must be admitted for the identity that its own header carries. -/
def validateSidecar (file : OpenedFile φ) (address : SegmentAddress) : Option SidecarCandidate := do
  let metadata ← file.metadata
  let (header,reader) ← (ReadAt.readExactAt 0 headerLen file.reader).toOption
  let opened ← (openFile reader (decodeIdentity header) Bounds.limit).toOption
  let admitted := opened.header.identity
  return ⟨address,⟨admitted.factKey,admitted.segmentLineageId⟩,metadata.device,metadata.inode,
    fileUsage metadata⟩

def validateArtifact (file : OpenedFile φ) (location : ArtifactLocation) :
    Option ArtifactCandidate := do
  let metadata ← file.metadata
  let modified ← metadata.modified
  return ⟨location,metadata.device,metadata.inode,fileUsage metadata,modified⟩

namespace Inventory

def addSidecar (inventory : Inventory) (candidate : SidecarCandidate) : Inventory :=
  {inventory with
    usage := {inventory.usage with sidecars := inventory.usage.sidecars.add candidate.usage}
    sidecars := inventory.sidecars++[candidate]}

def addArtifact (inventory : Inventory) (file : Option (OpenedFile φ))
    (location : ArtifactLocation) : Except (ScanError × ℕ) Inventory :=
  match file.bind fun file => validateArtifact file location with
  | none => .error (.io,inventory.scanned)
  | some candidate => .ok {inventory with
      usage := {inventory.usage with temporary := inventory.usage.temporary.add candidate.usage}
      artifacts := inventory.artifacts++[candidate]}

end Inventory

variable (disk : Disk φ)

def scanSegment (inventory : Inventory) (segment : SegmentArtifacts) :
    Except (ScanError × ℕ) Inventory :=
  if segment.ovfBytes.isNone then .ok inventory
  else match disk.openOvf segment.address with
    | none => .error (.io,inventory.scanned)
    | some file => match validateSidecar file segment.address with
      | some candidate => .ok (inventory.addSidecar candidate)
      | none => inventory.addArtifact (disk.openInvalidOvf segment.address)
          (.overview segment.address)

def scanOrphan (inventory : Inventory) (address : SegmentAddress) :
    Except (ScanError × ℕ) Inventory :=
  inventory.addArtifact (disk.openOvf address) (.overview address)

def scanTemporary (inventory : Inventory) (temporary : TemporaryObject) :
    Except (ScanError × ℕ) Inventory :=
  if temporary.kind = .pgm then .ok inventory
  else inventory.addArtifact (disk.openTemporary temporary) (.temporary temporary)

def scanDirectory (maxEntries : ℕ) : Except (ScanError × ℕ) Inventory := do
  let snapshot ← (disk.scan maxEntries).mapError fun error => (scanError error,0)
  let inventory ← snapshot.segments.foldlM (scanSegment disk) {scanned := snapshot.visitedEntries}
  let inventory ← snapshot.orphanOverviews.foldlM (scanOrphan disk) inventory
  snapshot.temporaries.foldlM (scanTemporary disk) inventory

end Files

/-- The map that a sequence of insertions leaves. -/
def collected {α β : Type} [DecidableEq α] (pairs : List (α × β)) : α → Option β :=
  pairs.foldl (fun map pair => Function.update map pair.1 (some pair.2)) fun _ => none

def invalidOverview (candidate : ArtifactCandidate) : Option (SegmentAddress × FileUsage) :=
  match candidate.location with
  | .overview address => some (address,candidate.usage)
  | .temporary _ => none

def Inventory.quotaState (inventory : Inventory) : QuotaState where
  usage := inventory.usage
  sidecars := collected (inventory.sidecars.map fun candidate => (candidate.address,candidate.usage))
  invalidOverviews := collected (inventory.artifacts.filterMap invalidOverview)

def exceeds (limit total : Option ℕ) : Bool :=
  limit.any fun limit => total.all fun total => limit < total

def exceedsQuota (usage : GcUsage) (config : GcConfig) (additionalLogicalBytes additionalFiles : ℕ) :
    Bool :=
  exceeds config.maxLogicalBytes (checkedAdd
      (saturatingAdd usage.sidecars.logicalBytes usage.temporary.logicalBytes) additionalLogicalBytes) ||
    exceeds config.maxFiles (checkedAdd
      (saturatingAdd usage.sidecars.files usage.temporary.files) additionalFiles)

/-! The sweep. -/

/-- An outcome after one more unlinked file. -/
def GcOutcome.unlinked (outcome : GcOutcome) (usage : FileUsage) : GcOutcome :=
  {outcome with
    deleted := saturatingAdd outcome.deleted 1
    unlinkedLogicalBytes := saturatingAdd outcome.unlinkedLogicalBytes usage.logicalBytes
    unlinkedAllocatedBytes := saturatingAdd outcome.unlinkedAllocatedBytes usage.allocatedBytes}

namespace GcUsage

def removeSidecar (usage : GcUsage) (file : FileUsage) : GcUsage :=
  {usage with sidecars := usage.sidecars.remove file}

def removeTemporary (usage : GcUsage) (file : FileUsage) : GcUsage :=
  {usage with temporary := usage.temporary.remove file}

end GcUsage

namespace QuotaState

def removeSidecar (quota : QuotaState) (address : SegmentAddress) (file : FileUsage) : QuotaState :=
  {quota with
    usage := quota.usage.removeSidecar file
    sidecars := Function.update quota.sidecars address none}

def removeArtifact (quota : QuotaState) (location : ArtifactLocation) (file : FileUsage) :
    QuotaState :=
  {quota with
    usage := quota.usage.removeTemporary file
    invalidOverviews := match location with
      | .overview address => Function.update quota.invalidOverviews address none
      | .temporary _ => quota.invalidOverviews}

end QuotaState

/-- The artifacts loop; `unlinked` lists the files whose names are gone. -/
structure ArtifactSweep where
  outcome : GcOutcome
  quota : QuotaState
  unlinked : List ArtifactCandidate

structure SidecarSweep where
  outcome : GcOutcome
  state : GcState
  quota : QuotaState
  unlinked : List SidecarCandidate

namespace GcState

def setPending (state : GcState) (key : FactBuildKey) (entry : Option PendingEntry) : GcState :=
  {state with pending := Function.update state.pending key entry}

/-- Keys without a sidecar and publications past the grace are forgotten. -/
def retainSeen (state : GcState) (keys : List FactBuildKey) (wallGrace : ℕ) (now : ℤ) : GcState :=
  {state with
    pending := fun key => if key ∈ keys then state.pending key else none
    recentlyPublished := fun key => (state.recentlyPublished key).filter fun publishedAt =>
      decide (key ∈ keys) && (elapsedSince publishedAt now).any fun age => age < wallGrace}

def recordCacheHit (state : GcState) (key : FactBuildKey) (now : ℤ) : GcState :=
  {state.setPending key none with
    recentlyPublished := Function.update state.recentlyPublished key (some now)}

end GcState

namespace QuotaState

def dropSidecar (quota : QuotaState) (address : SegmentAddress) : QuotaState :=
  match quota.sidecars address with
  | some previous => quota.removeSidecar address previous
  | none => quota

def dropInvalid (quota : QuotaState) (address : SegmentAddress) : QuotaState :=
  match quota.invalidOverviews address with
  | some previous => quota.removeArtifact (.overview address) previous
  | none => quota

def insertSidecar (quota : QuotaState) (address : SegmentAddress) (usage : FileUsage) : QuotaState :=
  {quota with
    usage := {quota.usage with sidecars := quota.usage.sidecars.add usage}
    sidecars := Function.update quota.sidecars address (some usage)}

end QuotaState

def GcState.recordPublication (state : GcState) (address : SegmentAddress) (key : FactBuildKey)
    (usage : FileUsage) (now : ℤ) : GcState :=
  let state := state.recordCacheHit key now
  {state with quota := state.quota.map fun quota =>
    ((quota.dropSidecar address).dropInvalid address).insertSidecar address usage}

/-- One more look at an absent key, under the generation of the mark. -/
def PendingEntry.observe (pending : Option PendingEntry) (generation : UInt64) (now : ℤ) :
    PendingEntry :=
  let entry := pending.getD ⟨now,0,generation⟩
  if entry.observedGenerations = 0 ∨ entry.lastGeneration ≠ generation then
    {entry with
      observedGenerations := min (entry.observedGenerations+1) (2^32-1)
      lastGeneration := generation}
  else entry

def PendingEntry.due (entry : PendingEntry) (config : GcConfig) (now : ℤ) : Bool :=
  config.graceGenerations ≤ entry.observedGenerations &&
    oldEnough entry.firstAbsentAt now config.wallGrace

section Collect

variable {φ : Type} [ReadAt φ] (disk : Disk φ) (mark : GcMark) (config : GcConfig) (now : ℤ)

def ArtifactSweep.note (sweep : ArtifactSweep) (artifact : ArtifactCandidate) (unlinked : Bool) :
    ArtifactSweep :=
  {sweep with unlinked := sweep.unlinked++if unlinked then [artifact] else []}

def deleteStaleArtifact (sweep : ArtifactSweep) (artifact : ArtifactCandidate) : ArtifactSweep :=
  if oldEnough artifact.modified now config.artifactGrace then
    let removed := (disk.removal artifact.location).ifIdentity artifact.device artifact.inode
    let sweep := sweep.note artifact removed.1
    if removed.2 = .ok true then
      let outcome := sweep.outcome.unlinked artifact.usage
      {sweep with
        outcome := {outcome with
          deletedArtifacts := saturatingAdd outcome.deletedArtifacts 1
          usage := outcome.usage.removeTemporary artifact.usage}
        quota := sweep.quota.removeArtifact artifact.location artifact.usage}
    else sweep
  else sweep

def deleteStaleArtifacts (inventory : Inventory) (outcome : GcOutcome) (quota : QuotaState) :
    ArtifactSweep :=
  inventory.artifacts.foldl (deleteStaleArtifact disk config now) ⟨outcome,quota,[]⟩

/-- Whether the name was unlinked, and the usage to account for. -/
def deleteSidecar (candidate : SidecarCandidate) : Bool × Except Unit (Option FileUsage) :=
  match (disk.reopenOvf candidate.address).bind fun file =>
      validateSidecar file candidate.address with
  | none => (false,.error ())
  | some reopened =>
    if reopened.key ≠ candidate.key ∨ reopened.device ≠ candidate.device ∨
        reopened.inode ≠ candidate.inode then (false,.ok none)
    else
      let removed := (disk.removal (.overview candidate.address)).ifIdentity candidate.device
        candidate.inode
      (removed.1,removed.2.map fun deleted => if deleted then some candidate.usage else none)

namespace SidecarSweep

def note (sweep : SidecarSweep) (candidate : SidecarCandidate) (unlinked : Bool) : SidecarSweep :=
  {sweep with unlinked := sweep.unlinked++if unlinked then [candidate] else []}

def keepLive (sweep : SidecarSweep) (candidate : SidecarCandidate) : SidecarSweep :=
  {sweep with
    outcome := {sweep.outcome with live := saturatingAdd sweep.outcome.live 1}
    state := sweep.state.setPending candidate.key none}

def keepPending (sweep : SidecarSweep) (candidate : SidecarCandidate) (entry : PendingEntry) :
    SidecarSweep :=
  {sweep with
    outcome := {sweep.outcome with pending := saturatingAdd sweep.outcome.pending 1}
    state := sweep.state.setPending candidate.key (some entry)}

def countDeleted (sweep : SidecarSweep) (candidate : SidecarCandidate) (usage : FileUsage) :
    SidecarSweep :=
  let outcome := sweep.outcome.unlinked usage
  {sweep with
    outcome := {outcome with
      deletedSidecars := saturatingAdd outcome.deletedSidecars 1
      usage := outcome.usage.removeSidecar usage}
    state := sweep.state.setPending candidate.key none
    quota := sweep.quota.removeSidecar candidate.address usage}

/-- A key is protected by the mark or by a recent publication. -/
def protects (sweep : SidecarSweep) (key : FactBuildKey) : Bool :=
  decide (key ∈ mark.live) || (sweep.state.recentlyPublished key).isSome

end SidecarSweep

def sweepSidecar (sweep : SidecarSweep) (candidate : SidecarCandidate) : SidecarSweep :=
  if sweep.protects mark candidate.key then sweep.keepLive candidate
  else
    let entry := PendingEntry.observe (sweep.state.pending candidate.key) mark.generation now
    if entry.due config now then
      let deleted := deleteSidecar disk candidate
      match deleted.2 with
      | .ok (some usage) => (sweep.note candidate deleted.1).countDeleted candidate usage
      | _ => (sweep.note candidate deleted.1).keepPending candidate entry
    else sweep.keepPending candidate entry

/-- What one call answers, the state after it and the files whose names it unlinked. -/
structure Collection where
  outcome : GcOutcome
  state : GcState
  unlinkedSidecars : List SidecarCandidate
  unlinkedArtifacts : List ArtifactCandidate

def Collection.skipped (state : GcState) (reason : GcSkipReason) (scanned : ℕ) : Collection :=
  ⟨{scanned,skipReason := some reason},state,[],[]⟩

/-- The outcome of a complete scan before its sweep. -/
def Inventory.outcome (inventory : Inventory) : GcOutcome where
  scanned := inventory.scanned
  scanComplete := true
  sweepAuthorized := true
  usage := inventory.usage

def collectInventory (inventory : Inventory) (state : GcState) : Collection :=
  let stale := deleteStaleArtifacts disk config now inventory inventory.outcome inventory.quotaState
  let seen := inventory.sidecars.map SidecarCandidate.key
  let state := ({state with lastAuthoritativeMark := some mark} : GcState).retainSeen seen
    config.wallGrace now
  let swept := inventory.sidecars.foldl (sweepSidecar disk mark config now)
    ⟨stale.outcome,state,stale.quota,[]⟩
  let outcome := {swept.outcome with quotaExceeded := exceedsQuota swept.outcome.usage config 0 0}
  ⟨outcome,{swept.state with quota := some {swept.quota with usage := outcome.usage}},
    swept.unlinked,stale.unlinked⟩

def collect (state : GcState) : Collection :=
  if mark.isAuthoritative = false then .skipped state .markUnavailable 0
  else if config.maxEntries < mark.live.card then .skipped state .liveSetCapped 0
  else match scanDirectory disk config.maxEntries with
    | .error (.capped,scanned) => .skipped state .scanCapped scanned
    | .error (.io,scanned) => .skipped state .scanError scanned
    | .ok inventory => collectInventory disk mark config now inventory state

end Collect

inductive GcAdmissionError
  | capped | incomplete
  deriving DecidableEq

/-- The first admission of an owner takes the inventory. -/
def admitPublication {φ : Type} [ReadAt φ] (disk : Disk φ) (config : GcConfig)
    (incomingLogicalBytes : ℕ) (state : GcState) : Except GcAdmissionError Unit × GcState :=
  let admits (usage : GcUsage) : Except GcAdmissionError Unit :=
    refuse .capped (exceedsQuota usage config incomingLogicalBytes 1 = true)
  match state.quota with
  | some quota => (admits quota.usage,state)
  | none => match scanDirectory disk config.maxEntries with
    | .error (.capped,_) => (.error .capped,state)
    | .error (.io,_) => (.error .incomplete,state)
    | .ok inventory => (admits inventory.usage,{state with quota := some inventory.quotaState})

end SidecarGc
end PgKronika
