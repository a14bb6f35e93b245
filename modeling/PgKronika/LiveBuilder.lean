import Mathlib
import PgKronika.DescriptorSelection
import PgKronika.Digest
import PgKronika.FrameScan
import PgKronika.LayoutTime

/-! The live builder folds the completed parts of the journal, refresh by refresh. Its view is
available only between a completed refresh and the next call that begins or refuses one. -/
namespace PgKronika

open ByteCodec CheckedArith

/-- Idempotency key of one completed journal part within a generation. -/
structure PartId where
  generation : ℕ
  frameOffset : ℕ
  bodyLen : ℕ
  catalogDigest : Digest
  deriving DecidableEq

structure PartDescriptor where
  partId : PartId
  minTs : Int64
  maxTs : Int64
  deriving DecidableEq

/-- How the journal tail evolved between two scans. -/
inductive PartTransition
  | append | reset | replaced | uncertain
  deriving DecidableEq

def PartTransition.preservesGeneration : PartTransition → Bool
  | .append => true
  | _ => false

/-- A half-open byte range of the journal tail. -/
structure ByteRange where
  start : ℕ
  stop : ℕ
  deriving DecidableEq

/-- What a scan pins of one sealed segment. -/
structure SealedDescriptor extends SegmentDescriptor where
  catalogDigest : Digest
  catalogLayoutDigest : Digest
  sourceFormatVersion : UInt32
  fileIdentity : FileIdentity
  deriving DecidableEq

structure JournalDelta where
  bootstrap : Bool
  generationId : ℕ
  previousValidLen : ℕ
  newValidLen : ℕ
  completedParts : List PartDescriptor
  currentParts : List PartDescriptor
  currentPartsComplete : Bool
  transition : PartTransition
  tailPending : Option ByteRange
  damages : List DamageRegion
  deriving DecidableEq

structure RefreshDelta where
  previousViewGeneration : ℕ
  newViewGeneration : ℕ
  viewChanged : Bool
  sealedAdded : List SealedDescriptor
  sealedRemoved : List SealedDescriptor
  journal : JournalDelta
  deriving DecidableEq

/-- Admission bounds of the fact codec. -/
structure Bounds where
  factFileLen : ℕ
  directoryEntries : ℕ
  directoryBytes : ℕ
  storedBlockLen : ℕ
  decodedBlockLen : ℕ
  decodedFileBytes : ℕ
  itemsPerBlock : ℕ
  sqlstateKeys : ℕ
  signalKeys : ℕ
  coverageSpans : ℕ
  patternBytes : ℕ
  stringTableBytes : ℕ
  webSummaryViews : ℕ
  webSummaryTimestamps : ℕ
  webMetricsPerView : ℕ
  webSeriesPerMetric : ℕ
  webBuckets : ℕ
  webIdentityBytes : ℕ
  webLabelBytes : ℕ
  webDictionaryEntries : ℕ
  webSummaryDecodedBytes : ℕ
  webSeriesDecodedBytes : ℕ
  webSeriesStoredBytes : ℕ
  deriving DecidableEq

/-- The format admission bounds. -/
def Bounds.limit : Bounds where
  factFileLen := 512*1048576
  directoryEntries := 4096
  directoryBytes := 256*1024
  storedBlockLen := 64*1048576
  decodedBlockLen := 128*1048576
  decodedFileBytes := 1024*1048576
  itemsPerBlock := 1048576
  sqlstateKeys := 65536
  signalKeys := 1024
  coverageSpans := 262144
  patternBytes := 64*1024
  stringTableBytes := 64*1048576
  webSummaryViews := 32
  webSummaryTimestamps := 4096
  webMetricsPerView := 16
  webSeriesPerMetric := 64
  webBuckets := 256
  webIdentityBytes := 256
  webLabelBytes := 160
  webDictionaryEntries := 1024
  webSummaryDecodedBytes := 64*1024
  webSeriesDecodedBytes := 256*1024
  webSeriesStoredBytes := 256*1024

def Bounds.isWithinAbsoluteLimits (b : Bounds) : Bool :=
  b.factFileLen ≤ limit.factFileLen && b.directoryEntries ≤ limit.directoryEntries &&
    b.directoryBytes ≤ limit.directoryBytes && b.storedBlockLen ≤ limit.storedBlockLen &&
    b.decodedBlockLen ≤ limit.decodedBlockLen && b.decodedFileBytes ≤ limit.decodedFileBytes &&
    b.itemsPerBlock ≤ limit.itemsPerBlock && b.sqlstateKeys ≤ limit.sqlstateKeys &&
    b.signalKeys ≤ limit.signalKeys && b.coverageSpans ≤ limit.coverageSpans &&
    b.patternBytes ≤ limit.patternBytes && b.stringTableBytes ≤ limit.stringTableBytes &&
    b.webSummaryViews ≤ limit.webSummaryViews &&
    b.webSummaryTimestamps ≤ limit.webSummaryTimestamps &&
    b.webMetricsPerView ≤ limit.webMetricsPerView &&
    b.webSeriesPerMetric ≤ limit.webSeriesPerMetric && b.webBuckets ≤ limit.webBuckets &&
    b.webIdentityBytes ≤ limit.webIdentityBytes && b.webLabelBytes ≤ limit.webLabelBytes &&
    b.webDictionaryEntries ≤ limit.webDictionaryEntries &&
    b.webSummaryDecodedBytes ≤ limit.webSummaryDecodedBytes &&
    b.webSeriesDecodedBytes ≤ limit.webSeriesDecodedBytes &&
    b.webSeriesStoredBytes ≤ limit.webSeriesStoredBytes

/-- The facts of one folded part: what the builder counts of them, and the rest. -/
structure SegmentFacts (φ : Type) where
  manifestEntries : ℕ
  observations : ℕ
  coverageSpans : ℕ
  knownGapSpans : ℕ
  retainedTextBytes : ℕ
  body : φ
  deriving DecidableEq

/-- A completed part as it is read back. -/
structure PgmUnit (υ : Type) where
  catalog : Catalog
  sourceFileLen : ℕ
  body : υ

/-- The extraction of facts from a part, and the digest of a catalog. -/
structure Folder (υ φ β : Type) where
  catalogDigest : Catalog → Digest
  foldLive : PgmUnit υ → ℕ → Bytes → Bounds → Except β (SegmentFacts φ)

inductive FoldEffect
  | folded | duplicate
  deriving DecidableEq

inductive LiveFoldError (β : Type)
  | generationMismatch
  | build (error : β)
  | descriptorMismatch
  | nonMonotonePart
  | limitExceeded
  | invalidState
  | viewGenerationMismatch
  | refreshMismatch
  | incompleteRefresh
  | overflow
  deriving DecidableEq

structure LiveUsage where
  parts : ℕ
  manifestEntries : ℕ
  observations : ℕ
  coverageSpans : ℕ
  knownGapSpans : ℕ
  retainedTextBytes : ℕ
  deriving DecidableEq

def LiveUsage.default : LiveUsage := ⟨0,0,0,0,0,0⟩

variable {υ φ β : Type}

def LiveUsage.checkedAdd (usage : LiveUsage) (facts : SegmentFacts φ) : Option LiveUsage := do
  let parts ← CheckedArith.checkedAdd usage.parts 1
  let manifestEntries ← CheckedArith.checkedAdd usage.manifestEntries facts.manifestEntries
  let observations ← CheckedArith.checkedAdd usage.observations facts.observations
  let coverageSpans ← CheckedArith.checkedAdd usage.coverageSpans facts.coverageSpans
  let knownGapSpans ← CheckedArith.checkedAdd usage.knownGapSpans facts.knownGapSpans
  let retainedTextBytes ← CheckedArith.checkedAdd usage.retainedTextBytes facts.retainedTextBytes
  return ⟨parts,manifestEntries,observations,coverageSpans,knownGapSpans,retainedTextBytes⟩

def LiveUsage.isWithin (usage : LiveUsage) (bounds : Bounds) : Bool :=
  usage.parts ≤ bounds.directoryEntries && usage.manifestEntries ≤ bounds.directoryEntries &&
    usage.observations ≤ bounds.itemsPerBlock && usage.coverageSpans ≤ bounds.coverageSpans &&
    usage.knownGapSpans ≤ bounds.coverageSpans &&
    usage.retainedTextBytes ≤ bounds.stringTableBytes

structure PendingRefresh where
  newViewGeneration : ℕ
  newValidLen : ℕ
  currentParts : List PartDescriptor
  currentPartsComplete : Bool
  tailPending : Option ByteRange
  damages : List DamageRegion
  deriving DecidableEq

structure LiveBuilder (φ : Type) where
  bounds : Bounds
  state : LiveState
  baselinePinned : Bool
  rebaselinePrepared : Bool
  viewGeneration : ℕ
  generation : ℕ
  foldedPartIds : Finset PartId
  foldedParts : List PartDescriptor
  chunks : List (SegmentFacts φ)
  usage : LiveUsage
  watermarkUs : Option Int64
  foldedThroughOffset : ℕ
  completedTailPending : Option ByteRange
  pendingRefresh : Option PendingRefresh

/-- Bounds above the absolute limits are refused. -/
def LiveBuilder.new (bounds : Bounds) : Option (LiveBuilder φ) :=
  if ¬bounds.isWithinAbsoluteLimits then none
  else some
    { bounds
      state := .warming
      baselinePinned := false
      rebaselinePrepared := false
      viewGeneration := 0
      generation := 0
      foldedPartIds := ∅
      foldedParts := []
      chunks := []
      usage := .default
      watermarkUs := none
      foldedThroughOffset := 0
      completedTailPending := none
      pendingRefresh := none }

def LiveBuilder.clearFolded (b : LiveBuilder φ) (generation : ℕ) : LiveBuilder φ :=
  { b with
    generation
    foldedPartIds := ∅
    foldedParts := []
    chunks := []
    usage := .default
    watermarkUs := none
    foldedThroughOffset := 0
    completedTailPending := none }

/-- Discard the folded state; the next refresh has to deliver the generation in full. -/
def LiveBuilder.resetTo (b : LiveBuilder φ) (generation : ℕ) : LiveBuilder φ :=
  { b.clearFolded generation with
    pendingRefresh := none
    baselinePinned := true
    rebaselinePrepared := true
    state := .warming }

def validateViewGeneration (previous new : ℕ) (changesView : Bool) :
    Except (LiveFoldError β) Unit :=
  if ¬changesView then if new = previous then .ok () else .error .viewGenerationMismatch
  else
    match checkedAdd previous 1 with
    | none => .error .overflow
    | some next => if new = next then .ok () else .error .viewGenerationMismatch

/-- The parts of a journal one behind the other; the answer is where the last one ends. -/
def validateDescriptors (generation : ℕ) :
    ℕ → Finset PartId → ℕ → List PartDescriptor → Except (LiveFoldError β) ℕ
  | _, _, lastEnd, [] => .ok lastEnd
  | expectedBodyOffset, seen, _, part::parts =>
    if part.partId.generation ≠ generation then .error .generationMismatch
    else if part.partId ∈ seen ∨ part.partId.frameOffset ≠ expectedBodyOffset then
      .error .refreshMismatch
    else
      match checkedAdd part.partId.frameOffset part.partId.bodyLen with
      | none => .error .overflow
      | some lastEnd =>
        match checkedAdd lastEnd frameHeaderLen with
        | none => .error .overflow
        | some expected =>
          validateDescriptors generation expected (insert part.partId seen) lastEnd parts

def validateDescriptorSequence (parts : List PartDescriptor) (generation validLen : ℕ) :
    Except (LiveFoldError β) Unit :=
  if parts = [] then
    if validLen = 0 ∨ validLen = journalHeaderLen then .ok () else .error .refreshMismatch
  else
    match validateDescriptors generation (journalHeaderLen+frameHeaderLen) ∅ 0 parts with
    | .error e => .error e
    | .ok lastEnd => if lastEnd ≠ validLen then .error .refreshMismatch else .ok ()

/-- Two offsets of an empty journal count as one. -/
def equivalentEmptyJournalOffsets (currentParts foldedParts : List PartDescriptor)
    (current folded : ℕ) : Bool :=
  if currentParts ≠ [] ∨ foldedParts ≠ [] then current = folded
  else (current = 0 ∨ current = journalHeaderLen) ∧ (folded = 0 ∨ folded = journalHeaderLen)

def completionDamageIsValid (validLen : ℕ) (tailPending : Option ByteRange)
    (damages : List DamageRegion) : Bool :=
  match tailPending, damages with
  | none, [] => true
  | some tail, [damage] =>
    tail.start = validLen ∧ tail.start < tail.stop ∧ damage.fromOffset = validLen ∧
      damage.kind = .tornTail
  | _, _ => false

def LiveBuilder.refreshChangesView (b : LiveBuilder φ) (delta : RefreshDelta) : Bool :=
  delta.sealedAdded ≠ [] ∨ delta.sealedRemoved ≠ [] ∨ delta.journal.completedParts ≠ [] ∨
    ¬delta.journal.transition.preservesGeneration ∨ delta.journal.currentParts ≠ b.foldedParts ∨
    ¬equivalentEmptyJournalOffsets delta.journal.currentParts b.foldedParts
      delta.journal.newValidLen b.foldedThroughOffset ∨
    delta.journal.tailPending ≠ b.completedTailPending

/-- The checks of a refresh against what has been folded; a bootstrap pins its baseline. -/
def LiveBuilder.prepareRefreshBaseline (b : LiveBuilder φ) (delta : RefreshDelta) :
    Except (LiveFoldError β) Bool × LiveBuilder φ :=
  if b.pendingRefresh.isSome then (.error .invalidState,b)
  else
    let bootstrap := delta.journal.bootstrap
    if bootstrap && b.baselinePinned then
      (.error .refreshMismatch,{ b with state := .needsRebuild })
    else if !bootstrap && !b.baselinePinned then
      (.error .refreshMismatch,{ b with state := .needsRebuild })
    else if !bootstrap && decide (delta.previousViewGeneration ≠ b.viewGeneration) then
      (.error .viewGenerationMismatch,{ b with state := .needsRebuild })
    else if !bootstrap && b.refreshChangesView delta && !delta.viewChanged then
      (.error .refreshMismatch,{ b with state := .needsRebuild })
    else
      match (validateViewGeneration delta.previousViewGeneration delta.newViewGeneration
          delta.viewChanged : Except (LiveFoldError β) Unit) with
      | .error .overflow => (.error .overflow,{ b with state := .incomplete })
      | .error e => (.error e,{ b with state := .needsRebuild })
      | .ok () =>
        if bootstrap then
          (.ok bootstrap,{ b.clearFolded delta.journal.generationId with
            viewGeneration := delta.previousViewGeneration
            baselinePinned := true })
        else (.ok bootstrap,b)

/-- The transition of a refresh that has passed its baseline. -/
def LiveBuilder.acceptTransition (b : LiveBuilder φ) (bootstrap : Bool) (journal : JournalDelta) :
    Except (LiveFoldError β) Unit × LiveBuilder φ :=
  if bootstrap then
    if journal.completedParts ≠ journal.currentParts then
      (.error .refreshMismatch,{ b with state := .needsRebuild })
    else (.ok (),b)
  else if b.rebaselinePrepared then
    if journal.generationId ≠ b.generation ∨ journal.completedParts ≠ journal.currentParts then
      (.error .refreshMismatch,{ b with state := .needsRebuild })
    else (.ok (),b)
  else if journal.transition.preservesGeneration then
    if b.state = .needsRebuild ∨ b.state = .incomplete then (.error .invalidState,b)
    else if journal.generationId ≠ b.generation then
      (.error .generationMismatch,{ b with state := .needsRebuild })
    else if journal.currentPartsComplete ∧
        (journal.previousValidLen ≠ b.foldedThroughOffset ∨
          ¬b.foldedParts.isPrefixOf journal.currentParts ∨
          journal.completedParts ≠ journal.currentParts.drop b.foldedParts.length) then
      (.error .refreshMismatch,{ b with state := .needsRebuild })
    else (.ok (),b)
  else
    match checkedAdd b.generation 1 with
    | none => (.error .overflow,{ b with state := .incomplete })
    | some nextGeneration =>
      if journal.generationId ≠ nextGeneration then
        (.error .generationMismatch,{ b with state := .needsRebuild })
      else if journal.currentPartsComplete ∧ journal.completedParts ≠ journal.currentParts then
        (.error .refreshMismatch,{ b with state := .needsRebuild })
      else (.ok (),b.clearFolded journal.generationId)

/-- Start the consumption of one refresh. -/
def LiveBuilder.beginRefresh (b : LiveBuilder φ) (delta : RefreshDelta) :
    Except (LiveFoldError β) Unit × LiveBuilder φ :=
  match (b.prepareRefreshBaseline delta : Except (LiveFoldError β) Bool × LiveBuilder φ) with
  | (.error e,b) => (.error e,b)
  | (.ok bootstrap,b) =>
    let journal := delta.journal
    match (validateDescriptorSequence journal.currentParts journal.generationId
        journal.newValidLen : Except (LiveFoldError β) Unit) with
    | .error e => (.error e,{ b with state := .incomplete })
    | .ok () =>
      match (b.acceptTransition bootstrap journal : Except (LiveFoldError β) Unit × LiveBuilder φ) with
      | (.error e,b) => (.error e,b)
      | (.ok (),b) =>
        (.ok (),{ b with
          foldedThroughOffset :=
            if journal.currentParts = [] then journal.newValidLen else b.foldedThroughOffset
          rebaselinePrepared := false
          pendingRefresh := some
            { newViewGeneration := delta.newViewGeneration
              newValidLen := journal.newValidLen
              currentParts := journal.currentParts
              currentPartsComplete := journal.currentPartsComplete
              tailPending := journal.tailPending
              damages := journal.damages }
          state := .warming })

/-- Complete the pending refresh, as one availability boundary. -/
def LiveBuilder.completeRefresh (b : LiveBuilder φ) :
    Except (LiveFoldError β) Unit × LiveBuilder φ :=
  match b.pendingRefresh with
  | none => (.error .invalidState,b)
  | some pending =>
    let b := { b with pendingRefresh := none, viewGeneration := pending.newViewGeneration }
    if b.state ≠ .warming ∨ ¬pending.currentPartsComplete ∨
        b.foldedParts ≠ pending.currentParts ∨ b.foldedThroughOffset ≠ pending.newValidLen ∨
        pending.currentParts = [] ∧ (pending.tailPending.isSome ∨ pending.damages ≠ []) ∨
        ¬completionDamageIsValid pending.newValidLen pending.tailPending pending.damages then
      (.error .incompleteRefresh,{ b with state := .incomplete })
    else
      (.ok (),{ b with
        state := if b.foldedParts = [] then .empty else .current
        completedTailPending := pending.tailPending })

def LiveBuilder.invalidatePending (b : LiveBuilder φ) (state : LiveState) : LiveBuilder φ :=
  { b with pendingRefresh := none, state }

/-- A part key as a live-lineage discriminator. -/
def partDiscriminator (id : PartId) : Bytes :=
  u64Le (UInt64.ofNat id.generation) ++ u64Le (UInt64.ofNat id.frameOffset) ++
    u64Le (UInt64.ofNat id.bodyLen) ++ id.catalogDigest.asBytes

/-- The descriptor names the part that is delivered with it. -/
def PartDescriptor.describes (part : PartDescriptor) (folder : Folder υ φ β) (unit : PgmUnit υ) :
    Bool :=
  part.minTs = unit.catalog.minTs ∧ part.maxTs = unit.catalog.maxTs ∧
    part.partId.bodyLen = unit.sourceFileLen ∧
    part.partId.catalogDigest = folder.catalogDigest unit.catalog

/-- A new chunk. -/
def LiveBuilder.push (b : LiveBuilder φ) (part : PartDescriptor) (facts : SegmentFacts φ)
    (usage : LiveUsage) (endOffset : ℕ) : LiveBuilder φ :=
  { b with
    chunks := b.chunks ++ [facts]
    foldedPartIds := insert part.partId b.foldedPartIds
    foldedParts := b.foldedParts ++ [part]
    usage
    watermarkUs :=
      if part.minTs ≤ part.maxTs then
        some (b.watermarkUs.elim part.maxTs fun current => maxUs current part.maxTs)
      else b.watermarkUs
    foldedThroughOffset := max b.foldedThroughOffset endOffset }

/-- Fold one completed part, once. -/
def LiveBuilder.foldPart (folder : Folder υ φ β) (b : LiveBuilder φ) (part : PartDescriptor)
    (unit : PgmUnit υ) : Except (LiveFoldError β) FoldEffect × LiveBuilder φ :=
  match b.pendingRefresh with
  | none => (.error .invalidState,b)
  | some pending =>
    if b.state ≠ .warming then (.error .invalidState,b)
    else if part.partId.generation ≠ b.generation then
      (.error .generationMismatch,b.invalidatePending .needsRebuild)
    else
      match (if part.partId ∈ b.foldedPartIds then
          b.foldedParts.find? fun existing => existing.partId = part.partId else none) with
      | some existing =>
        if existing = part then (.ok .duplicate,b)
        else (.error .descriptorMismatch,b.invalidatePending .incomplete)
      | none =>
        if pending.currentParts[b.foldedParts.length]? ≠ some part then
          (.error .descriptorMismatch,b.invalidatePending .incomplete)
        else if ¬part.describes folder unit then
          (.error .descriptorMismatch,b.invalidatePending .incomplete)
        else
          match checkedAdd part.partId.frameOffset part.partId.bodyLen with
          | none => (.error .overflow,b.invalidatePending .incomplete)
          | some endOffset =>
            if b.chunks ≠ [] ∧ part.partId.frameOffset < b.foldedThroughOffset then
              (.error .nonMonotonePart,b.invalidatePending .incomplete)
            else
              match folder.foldLive unit b.generation (partDiscriminator part.partId)
                  b.bounds with
              | .error e => (.error (.build e),b.invalidatePending .incomplete)
              | .ok facts =>
                match b.usage.checkedAdd facts with
                | none => (.error .overflow,b.invalidatePending .incomplete)
                | some usage =>
                  if ¬usage.isWithin b.bounds then
                    (.error .limitExceeded,b.invalidatePending .incomplete)
                  else (.ok .folded,b.push part facts usage endOffset)

end PgKronika
