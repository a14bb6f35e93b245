import PgKronika.JournalReader
import PgKronika.LiveBuilder

/-! The snapshot of a data directory and its refresh: which continuity the file identity, the
prefix digest and a committed reset prove, and the delta that a refresh reports. -/
namespace PgKronika

open ByteCodec CheckedArith

/-- Observable filesystem identity of the journal file at one scan. -/
structure JournalIdentity where
  device : ℕ
  inode : ℕ
  len : ℕ
  mtimeNs : ℤ
  ctimeNs : ℤ
  deriving DecidableEq

/-- Classify the journal tail from filesystem identity alone. -/
def classifyTransition (previous current : Option JournalIdentity) (previousValidLen : ℕ) :
    PartTransition :=
  match previous, current with
  | none, _ => .append
  | some _, none => .reset
  | some previous, some current =>
    if previous.device ≠ current.device ∨ previous.inode ≠ current.inode then .replaced
    else if current.len < previousValidLen then .reset
    else if previous.len < current.len then .append
    else if current.len < previous.len then .uncertain
    else if previous.mtimeNs = current.mtimeNs ∧ previous.ctimeNs = current.ctimeNs then .append
    else .uncertain

inductive JournalPhase
  | empty | active | committedReset
  deriving DecidableEq

/-- Apply the boundary of a committed reset to a verified transition. -/
def applyCommittedResetTransition (base : PartTransition) (sameFile : Bool)
    (previous current : JournalPhase) (sameCommittedReset : Bool) : PartTransition :=
  if base = .replaced ∨ ¬sameFile then base
  else if current = .committedReset then
    if previous = .committedReset ∧ sameCommittedReset then .append else .reset
  else if previous = .committedReset then .append
  else base

def sameJournalFile : Option JournalIdentity → Option JournalIdentity → Bool
  | some previous, some current =>
    previous.device = current.device ∧ previous.inode = current.inode
  | _, _ => false

def sameInodeGrowth : Option JournalIdentity → Option JournalIdentity → Bool
  | some previous, some current => previous.device = current.device ∧
      previous.inode = current.inode ∧ previous.len < current.len
  | _, _ => false

def tailPending (identity : Option JournalIdentity) (validLen : ℕ) : Option ByteRange :=
  identity.bind fun identity =>
    if validLen < identity.len then some ⟨validLen,identity.len⟩ else none

inductive StoreObject
  | segment (id : SegmentId)
  | activeJournal
  | foreign (path : Bytes)
  deriving DecidableEq

/-- A diagnostic of the scan with whatever else it says. -/
structure StoreWarning (ω : Type) where
  affected : StoreObject
  detail : ω
  deriving DecidableEq

structure CatalogSummary where
  minTs : Int64
  maxTs : Int64
  entryCount : UInt32
  formatVersion : UInt32
  windowCount : UInt32
  catalogLen : UInt32
  logicalDigest : Digest
  layoutDigest : Digest
  nonemptyTypeBloom : Vector UInt64 8
  deriving DecidableEq

structure SealedUnit where
  id : SegmentId
  identity : FileIdentity
  summary : CatalogSummary
  deriving DecidableEq

def descriptorForSealed (unit : SealedUnit) : SealedDescriptor where
  locator := ⟨unit.id⟩
  minTs := unit.summary.minTs
  maxTs := unit.summary.maxTs
  catalogDigest := unit.summary.logicalDigest
  catalogLayoutDigest := unit.summary.layoutDigest
  sourceFormatVersion := unit.summary.formatVersion
  fileIdentity := unit.identity

structure SealedDeltaState where
  added : List SealedDescriptor
  removed : List SealedDescriptor
  deriving DecidableEq

/-- Both lists are walked in the order of their segment identities. -/
def sealedDelta : List SealedUnit → List SealedUnit → SealedDeltaState
  | [], previous => ⟨[],previous.map descriptorForSealed⟩
  | current, [] => ⟨current.map descriptorForSealed,[]⟩
  | c::current, p::previous =>
    if c.id.get < p.id.get then
      let rest := sealedDelta current (p::previous)
      { rest with added := descriptorForSealed c::rest.added }
    else if c.id.get = p.id.get then
      let rest := sealedDelta current previous
      if descriptorForSealed c ≠ descriptorForSealed p then
        ⟨descriptorForSealed c::rest.added,descriptorForSealed p::rest.removed⟩
      else rest
    else
      let rest := sealedDelta (c::current) previous
      { rest with removed := descriptorForSealed p::rest.removed }
termination_by current previous => current.length + previous.length

/-- The result of one scan of the directory. -/
structure LocalScan (ω : Type) where
  sealed : List SealedUnit
  active : ActiveVec
  damages : List DamageRegion
  warnings : List (StoreWarning ω)
  validLen : ℕ
  committedReset : Bool

def phaseOf (committedReset : Bool) (active : ActiveVec) : JournalPhase :=
  if committedReset then .committedReset
  else if active.parts = [] then .empty
  else .active

def journalPhase {ω : Type} (scan : LocalScan ω) : JournalPhase :=
  phaseOf scan.committedReset scan.active

def journalScanPhase (scan : JournalScan) : JournalPhase :=
  phaseOf scan.committedReset scan.active

/-- Whether no warning concerns the journal. -/
def LocalScan.journalDescriptorsComplete {ω : Type} (scan : LocalScan ω) : Bool :=
  !scan.warnings.any fun warning => warning.affected = .activeJournal

def mergeIncrementalDamages (previous current : List DamageRegion) (previousValidLen : ℕ) :
    List DamageRegion :=
  (current.foldl (fun merged damage => if damage ∈ merged then merged else merged ++ [damage])
    (previous.filter fun damage => damage.fromOffset < previousValidLen)).mergeSort
      fun a b => a.fromOffset ≤ b.fromOffset

/-- The hash of file prefixes and the digest of catalogs, with the growth of vectors. -/
structure SnapshotApp where
  sha256 : Bytes → Digest
  catalogDigest : Catalog → Digest
  growth : VecGrowth

/-- "pgk-overview-journal-prefix-v1\0". -/
def journalPrefixDomain : Bytes :=
  [0x70,0x67,0x6b,0x2d,0x6f,0x76,0x65,0x72,0x76,0x69,0x65,0x77,0x2d,0x6a,0x6f,0x75,0x72,0x6e,
   0x61,0x6c,0x2d,0x70,0x72,0x65,0x66,0x69,0x78,0x2d,0x76,0x31,0x00]

/-- A resumable digest of the journal prefix: the bytes that have gone into it. -/
structure JournalDigestState where
  identity : Option JournalIdentity
  segmentId : Option Int64
  hashedLen : ℕ
  hashed : Bytes
  deriving DecidableEq

def JournalDigestState.input (state : JournalDigestState) : Bytes :=
  state.hashed ++ u64Le (UInt64.ofNat state.hashedLen)

def JournalDigestState.digest (app : SnapshotApp) (state : JournalDigestState) : Digest :=
  app.sha256 state.input

inductive RefreshError
  | journal (error : JournalReadError)
  | journalAbsent
  | prefixInsideHeader
  /-- `active.parts` changed during every attempt. -/
  | unstable
  | store
  | generationProof
  | counterOverflow
  deriving DecidableEq

/-- Errors that a change of the journal between two reads explains. -/
def RefreshError.isTransition : RefreshError → Bool
  | .journal (.io error) => error.kind = .invalidData ∨ error.kind = .unexpectedEof
  | .journal _ => true
  | .journalAbsent => true
  | .prefixInsideHeader => true
  | _ => false

def endOfFile : RefreshError := .journal (.io unexpectedEof)

def readHeader (file : Bytes) : Except RefreshError Bytes :=
  if file.length < journalHeaderLen then .error endOfFile else .ok (slice file 0 journalHeaderLen)

def decodeHeader (bytes : Bytes) : Except RefreshError JournalHeader :=
  (JournalHeader.decode bytes).mapError fun error => .journal (.header error)

/-- Whether the journal still carries the segment that the state was built from. -/
def JournalDigestState.matchesCurrentSegment (state : JournalDigestState) (file : Option Bytes) :
    Except RefreshError Bool :=
  match state.segmentId with
  | none => .ok true
  | some expected =>
    match file with
    | none => .ok false
    | some file =>
      readHeader file >>= fun bytes =>
      decodeHeader bytes >>= fun header =>
      .ok (header.state = .active expected)

/-- Feed the tail that has been appended. -/
def JournalDigestState.extend (state : JournalDigestState) (file : Option Bytes)
    (newValidLen : ℕ) : Except RefreshError JournalDigestState :=
  match file with
  | none => .error .journalAbsent
  | some file =>
    if state.hashedLen < newValidLen ∧ file.length < newValidLen then .error endOfFile
    else .ok
      { state with
        hashedLen := newValidLen
        hashed := state.hashed ++ slice file state.hashedLen (newValidLen - state.hashedLen) }

def isCommittedResetState (file : Bytes) (validLen : ℕ) (headerBytes : Bytes) :
    Except RefreshError Bool :=
  match checkedSub validLen resetMarkerLen with
  | none => .ok false
  | some markerAt =>
    if markerAt ≤ journalHeaderLen then .ok false
    else if file.length < markerAt+resetMarkerLen then .error endOfFile
    else
      match ResetMarker.decode (slice file markerAt resetMarkerLen) with
      | none => .ok false
      | some marker =>
        .ok (marker.previousLen.toNat = markerAt ∧
          (SegmentId.new marker.previousSegmentId).toOption.isSome ∧
          marker.expectedPreviousHeader.isSome ∧
          (marker.classifyHeaderTransition headerBytes).isSome)

/-- The digest state of the journal prefix, from its bytes. -/
def journalPrefixState (identity : Option JournalIdentity) (file : Option Bytes)
    (validLen : ℕ) : Except RefreshError JournalDigestState :=
  if validLen = 0 then .ok ⟨identity,none,0,journalPrefixDomain⟩
  else if validLen < journalHeaderLen then .error .prefixInsideHeader
  else
    match file with
    | none => .error .journalAbsent
    | some file =>
      readHeader file >>= fun headerBytes =>
      isCommittedResetState file validLen headerBytes >>= fun committed =>
      (if committed then .ok none
      else
        decodeHeader headerBytes >>= fun header =>
        match header.state with
        | .empty => .ok none
        | .active segmentId => .ok (some segmentId)) >>= fun (segmentId : Option Int64) =>
      if file.length < validLen then .error endOfFile
      else .ok
        { identity
          segmentId
          hashedLen := validLen
          hashed := journalPrefixDomain ++
            (segmentId.elim [0] fun segmentId => 1::i64Le segmentId) ++
            slice file journalHeaderLen (validLen - journalHeaderLen) }

def emptyJournalScan : JournalScan := ⟨.new,[],0,false,activeArcAllocationBytes⟩

/-- A full scan of the journal, when there is one. -/
def LocalDir.scanJournal (growth : VecGrowth) (file : Option Bytes) :
    Except JournalReadError JournalScan :=
  file.elim (.ok emptyJournalScan) (scanJournalReader growth)

/-- A scan behind an offset, of a vector that the snapshot holds as well. -/
def LocalDir.scanJournalFrom (growth : VecGrowth) (file : Option Bytes) (lastValidLen : ℕ)
    (previous : ActiveVec) : Except JournalReadError JournalScan :=
  file.elim (.ok emptyJournalScan) fun file =>
    scanJournalReaderBoundedFrom growth maxMetadataBytes file (UInt64.ofNat lastValidLen) previous
      true maxJournalParts

structure LocalDirSnapshot (ω : Type) where
  scan : LocalScan ω
  lastValidLen : ℕ
  viewGeneration : ℕ
  journalGeneration : ℕ
  journalIdentity : Option JournalIdentity
  journalPrefixDigest : Digest
  prefixDigestState : Option JournalDigestState
  journalDescriptorsComplete : Bool
  deltaInitialized : Bool
  tailPending : Option ByteRange
  sealedActiveGenerationMatch : Bool

/-- What one attempt sees: the identity before and after, and the bytes it reads. -/
structure JournalLook where
  before : Option JournalIdentity
  file : Option Bytes
  after : Option JournalIdentity
  deriving DecidableEq

def maxConsistentScanAttempts : ℕ := 2

/-- An attempt counts only when the identity is the same before and after it. -/
def withStableJournalIdentity {α : Type} (operation : JournalLook → Except RefreshError α) :
    List JournalLook → Except RefreshError (α × Option JournalIdentity)
  | [] => .error .unstable
  | look::looks =>
    match operation look with
    | .error error =>
      if ¬error.isTransition ∨ look.before = look.after then .error error
      else withStableJournalIdentity operation looks
    | .ok value =>
      if look.before = look.after then .ok (value,look.after)
      else withStableJournalIdentity operation looks

/-- What the directory shows to one refresh: the attempts at the journal, the traversal of the
sealed tree, and the proof that a sealed segment holds what the journal holds. -/
structure DirectoryLook (ω : Type) where
  journal : List JournalLook
  sealedTree : Except RefreshError (List SealedUnit × List (StoreWarning ω))
  generationProof : Except RefreshError Bool

/-- The attempt that counts: the first one during which the identity has not changed. -/
def DirectoryLook.counted {ω : Type} (look : DirectoryLook ω) : Option JournalLook :=
  (look.journal.take maxConsistentScanAttempts).find? fun attempt => attempt.before = attempt.after

section Refresh

variable {ω : Type}

def completeScanCached (look : DirectoryLook ω) (journal : JournalScan) :
    Except RefreshError (LocalScan ω) :=
  look.sealedTree >>= fun (sealed,warnings) =>
  .ok ⟨sealed,journal.active,journal.damages,warnings,journal.validLen,journal.committedReset⟩

def proveSealedGenerationMatchesActive (look : DirectoryLook ω) (scan : LocalScan ω) :
    Except RefreshError Bool :=
  if scan.active.parts = [] then .ok false else look.generationProof

def partDescriptor (app : SnapshotApp) (generation : ℕ) (active : ActivePart) :
    PartDescriptor where
  partId :=
    ⟨generation,active.part.offset,active.part.len,app.catalogDigest active.catalog⟩
  minTs := active.catalog.minTs
  maxTs := active.catalog.maxTs

def partDescriptors (app : SnapshotApp) (scan : LocalScan ω) (generation : ℕ) :
    List PartDescriptor :=
  scan.active.parts.map (partDescriptor app generation)

def bump (value : ℕ) : Except RefreshError ℕ :=
  match checkedAdd value 1 with
  | none => .error .counterOverflow
  | some next => .ok next

def LocalDirSnapshot.openDir (app : SnapshotApp) (look : DirectoryLook ω) :
    Except RefreshError (LocalDirSnapshot ω) :=
  withStableJournalIdentity (fun attempt =>
      (LocalDir.scanJournal app.growth attempt.file).mapError RefreshError.journal >>= fun journal =>
      journalPrefixState attempt.before attempt.file journal.validLen >>= fun prefixState =>
      .ok (journal,prefixState)) (look.journal.take maxConsistentScanAttempts) >>=
    fun ((journal,prefixState),identity) =>
  completeScanCached look journal >>= fun scan =>
  proveSealedGenerationMatchesActive look scan >>= fun matched =>
  .ok
    { scan
      lastValidLen := scan.validLen
      viewGeneration := 0
      journalGeneration := 0
      journalIdentity := identity
      journalPrefixDigest := prefixState.digest app
      prefixDigestState := some prefixState
      journalDescriptorsComplete := scan.journalDescriptorsComplete
      deltaInitialized := false
      tailPending := PgKronika.tailPending identity scan.validLen
      sealedActiveGenerationMatch := matched }

/-- Whether the kept digest vouches for the prefix of a grown file without reading it. -/
def LocalDirSnapshot.prefixProven (s : LocalDirSnapshot ω) (current : Option JournalIdentity)
    (file : Option Bytes) : Except RefreshError Bool :=
  match s.prefixDigestState with
  | some state =>
    if state.hashedLen = s.lastValidLen ∧ sameJournalFile state.identity current then
      state.matchesCurrentSegment file
    else .ok false
  | none => .ok false

/-- The transition that the identity, and for a grown file the prefix, prove. -/
def LocalDirSnapshot.verifiedTransition (app : SnapshotApp) (s : LocalDirSnapshot ω)
    (current : Option JournalIdentity) (file : Option Bytes) : Except RefreshError PartTransition :=
  if ¬s.journalDescriptorsComplete then .ok .uncertain
  else
    let transition := classifyTransition s.journalIdentity current s.lastValidLen
    if transition = .append ∧ sameInodeGrowth s.journalIdentity current ∧ 0 < s.lastValidLen ∧
        ¬s.scan.committedReset ∧ s.scan.active.parts ≠ [] then
      s.prefixProven current file >>= fun prefixProven =>
      if prefixProven then .ok transition
      else
        journalPrefixState current file s.lastValidLen >>= fun observed =>
        if observed.digest app ≠ s.journalPrefixDigest then .ok .uncertain else .ok transition
    else .ok transition

/-- Resume the kept digest over a proven append, or rebuild it. -/
def LocalDirSnapshot.prefixStateFor (s : LocalDirSnapshot ω) (journal : JournalScan)
    (identity : Option JournalIdentity) (file : Option Bytes) (transition : PartTransition) :
    Except RefreshError JournalDigestState :=
  match s.prefixDigestState.filter fun state =>
      transition.preservesGeneration && !s.scan.committedReset && !journal.committedReset &&
        decide (state.hashedLen ≤ journal.validLen) && sameJournalFile state.identity identity with
  | some state => state.extend file journal.validLen
  | none => journalPrefixState identity file journal.validLen

/-- One attempt at the journal, from the last offset when that is admitted. -/
def LocalDirSnapshot.scanAttempt (app : SnapshotApp) (s : LocalDirSnapshot ω)
    (attempt : JournalLook) :
    Except RefreshError (JournalScan × PartTransition × JournalDigestState) :=
  s.verifiedTransition app attempt.before attempt.file >>= fun transition =>
  (if transition.preservesGeneration && !s.scan.committedReset then
    LocalDir.scanJournalFrom app.growth attempt.file s.lastValidLen s.scan.active
  else LocalDir.scanJournal app.growth attempt.file).mapError RefreshError.journal >>= fun journal =>
  s.prefixStateFor journal attempt.before attempt.file transition >>= fun prefixState =>
  .ok (journal,transition,prefixState)

def LocalDirSnapshot.resetTransition (app : SnapshotApp) (s : LocalDirSnapshot ω)
    (identity : Option JournalIdentity) (journal : JournalScan) (prefixState : JournalDigestState)
    (base : PartTransition) : PartTransition :=
  let sameFile := sameJournalFile s.journalIdentity identity
  applyCommittedResetTransition base sameFile (journalPhase s.scan) (journalScanPhase journal)
    (sameFile && s.scan.committedReset && journal.committedReset &&
      decide (s.journalPrefixDigest = prefixState.digest app))

/-- A scan with the transition that leads to it. -/
structure VerifiedScan (ω : Type) where
  scan : LocalScan ω
  identity : Option JournalIdentity
  transition : PartTransition
  prefixState : JournalDigestState

def LocalDirSnapshot.scanIncrementalConsistent (app : SnapshotApp) (s : LocalDirSnapshot ω)
    (look : DirectoryLook ω) : Except RefreshError (VerifiedScan ω) :=
  withStableJournalIdentity (s.scanAttempt app) (look.journal.take maxConsistentScanAttempts) >>=
    fun ((journal,base,prefixState),identity) =>
  completeScanCached look journal >>= fun scan =>
  .ok
    { scan
      identity
      transition :=
        if scan.journalDescriptorsComplete then
          s.resetTransition app identity journal prefixState base
        else .uncertain
      prefixState }

/-- A first append behind a committed reset lists the journal from its start. -/
def LocalDirSnapshot.rebasesAfterCommittedReset (s : LocalDirSnapshot ω)
    (verified : VerifiedScan ω) : Bool :=
  s.scan.committedReset && !verified.scan.committedReset &&
    !verified.scan.active.parts.isEmpty && verified.transition.preservesGeneration

/-- Where the parts begin that count as completed since the last scan. -/
def LocalDirSnapshot.completedFloor (s : LocalDirSnapshot ω) (verified : VerifiedScan ω) : ℕ :=
  if s.deltaInitialized && verified.transition = .append &&
      !s.rebasesAfterCommittedReset verified then s.lastValidLen
  else 0

def completedBehind (floor : ℕ) (currentParts : List PartDescriptor) : List PartDescriptor :=
  if floor = 0 then currentParts
  else currentParts.filter fun descriptor => floor ≤ descriptor.partId.frameOffset

/-- The new scan, with the damages that the old one has found in the prefix. -/
def LocalDirSnapshot.mergedScan (s : LocalDirSnapshot ω) (verified : VerifiedScan ω) :
    LocalScan ω :=
  if verified.transition.preservesGeneration && !s.rebasesAfterCommittedReset verified then
    { verified.scan with
      damages := mergeIncrementalDamages s.scan.damages verified.scan.damages s.lastValidLen }
  else verified.scan

variable [DecidableEq ω]

/-- Any raw change of state at this boundary. -/
def LocalDirSnapshot.changes (s : LocalDirSnapshot ω) (journal : JournalDelta)
    (delta : SealedDeltaState) (scan : LocalScan ω) (matched : Bool) : Bool :=
  journal.completedParts ≠ [] ∨ delta.added ≠ [] ∨ delta.removed ≠ [] ∨
    s.scan.sealed ≠ scan.sealed ∨ s.scan.warnings ≠ scan.warnings ∨
    ¬journal.transition.preservesGeneration ∨ journal.tailPending ≠ s.tailPending ∨
    scan.damages ≠ s.scan.damages ∨
    journal.currentPartsComplete ≠ s.journalDescriptorsComplete ∨
    matched ≠ s.sealedActiveGenerationMatch ∨
    journal.bootstrap ∧ (journal.tailPending.isSome ∨ scan.damages ≠ [] ∨
      scan.active.parts ≠ [] ∨ ¬journal.currentPartsComplete)

/-- Re-scan and report the semantic delta. A failed attempt leaves the snapshot as it is. -/
def LocalDirSnapshot.refreshIncrementalDelta (app : SnapshotApp) (s : LocalDirSnapshot ω)
    (look : DirectoryLook ω) : Except RefreshError (RefreshDelta × LocalDirSnapshot ω) :=
  s.scanIncrementalConsistent app look >>= fun verified =>
  (if verified.transition.preservesGeneration then .ok s.journalGeneration
    else bump s.journalGeneration) >>= fun generationId =>
  let currentParts := partDescriptors app verified.scan generationId
  let scan := s.mergedScan verified
  let delta := sealedDelta scan.sealed s.scan.sealed
  let journal : JournalDelta :=
    { bootstrap := !s.deltaInitialized
      generationId
      previousValidLen := s.lastValidLen
      newValidLen := verified.scan.validLen
      completedParts := completedBehind (s.completedFloor verified) currentParts
      currentParts
      currentPartsComplete := scan.journalDescriptorsComplete
      transition := verified.transition
      tailPending := PgKronika.tailPending verified.identity verified.scan.validLen
      damages := scan.damages }
  proveSealedGenerationMatchesActive look scan >>= fun matched =>
  let changed := s.changes journal delta scan matched
  (if changed then bump s.viewGeneration else .ok s.viewGeneration) >>= fun newViewGeneration =>
  .ok
    ({ previousViewGeneration := s.viewGeneration
       newViewGeneration
       viewChanged := changed
       sealedAdded := delta.added
       sealedRemoved := delta.removed
       journal },
     { scan
       lastValidLen := journal.newValidLen
       viewGeneration := newViewGeneration
       journalGeneration := generationId
       journalIdentity := verified.identity
       journalPrefixDigest := verified.prefixState.digest app
       prefixDigestState := some verified.prefixState
       journalDescriptorsComplete := journal.currentPartsComplete
       deltaInitialized := true
       tailPending := journal.tailPending
       sealedActiveGenerationMatch := matched })

end Refresh

end PgKronika
