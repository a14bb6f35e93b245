import PgKronika.FileTrace
import PgKronika.StreamingScan

/-! The file-backed `active.parts` journal: one open handle, its operations as
sequences of file operations, and the startup recovery of a committed reset. -/
namespace PgKronika

open ByteCodec CheckedArith FileTrace

structure JournalConfig where
  limits : JournalLimits
  maxJournalLen : ℕ
  maxParts : ℕ
  deriving DecidableEq

def JournalConfig.default : JournalConfig :=
  ⟨⟨PgKronika.maxPartLen⟩,PgKronika.maxJournalLen,maxJournalParts⟩

inductive JournalError
  | io (error : IoError)
  | layout (error : LayoutError)
  | invalidMaxJournalLen (value minimum maximum : ℕ)
  | invalidMaxParts (value minimum maximum : ℕ)
  | invalidMaxPartLen (value minimum maximum : UInt64)
  | journalTooLarge (len max : ℕ)
  | tooManyParts (max : ℕ)
  | unsupportedJournalFormat
  | tornHeader (len : ℕ)
  | invalidHeader (error : JournalHeaderError)
  | bodyLengthMismatch (recorded actual : ℕ)
  | emptyWithFrames (bodyLen : ℕ)
  | activeWithoutFirstFrame
  | damagedBody (damages : List DamageRegion)
  | invalidSegmentId (error : LayoutError)
  | segmentIdMismatch (expected got : SegmentId)
  | partTooLarge (len : ℕ) (max : UInt64)
  | full (len max : ℕ)
  | invalidPart (error : PartError)
  | stalePartRef (offset len : ℕ)
  | rollbackFailed (operation rollback : IoError)
  | resetIncomplete (error : IoError)
  | poisoned
  deriving DecidableEq

def validateConfig (config : JournalConfig) : Except JournalError Unit :=
  if config.maxJournalLen < journalHeaderLen ∨ maxJournalLen < config.maxJournalLen then
    .error (.invalidMaxJournalLen config.maxJournalLen journalHeaderLen maxJournalLen)
  else if config.maxParts = 0 ∨ maxJournalParts < config.maxParts then
    .error (.invalidMaxParts config.maxParts 1 maxJournalParts)
  else if config.limits.maxPartLen = 0 ∨ maxPartLen < config.limits.maxPartLen then
    .error (.invalidMaxPartLen config.limits.maxPartLen 1 maxPartLen)
  else .ok ()

/-- One part of a specific in-process journal generation. -/
structure JournalPartRef where
  raw : PartRef
  generation : ℕ
  deriving DecidableEq

/-- An open journal. `fileEnd` is the complete file length, header included. -/
structure Journal where
  file : Disk IoError
  fileEnd : ℕ
  config : JournalConfig
  parts : List JournalPartRef
  generation : ℕ
  segmentId : Option SegmentId
  poisoned : Bool
  deriving DecidableEq

def Journal.bytes (j : Journal) : ℕ := j.fileEnd

def Journal.isEmpty (j : Journal) : Bool := j.parts.isEmpty

def Journal.ensureHealthy (j : Journal) : Except JournalError Unit :=
  if j.poisoned then .error .poisoned else .ok ()

def Journal.currentHeader (j : Journal) : JournalHeader where
  state := match j.segmentId with
    | none => .empty
    | some segmentId => .active segmentId.get
  bodyLen := UInt64.ofNat (j.fileEnd - journalHeaderLen)

def writeHeader (header : JournalHeader) : FileOp := .writeAll 0 header.encode

def writeFrame (offset : ℕ) (header part : Bytes) : List FileOp :=
  [.writeAll offset header,.writeAll (offset+header.length) part]

def rollback (fileEnd : ℕ) (header : JournalHeader) : List FileOp :=
  [.setLen fileEnd,writeHeader header,.syncData]

/-- The file length after one more frame, with room for the reset marker. -/
def Journal.admitLen (j : Journal) (partLen : ℕ) : Option ℕ :=
  (checkedAdd frameHeaderLen partLen).bind fun frameLen =>
    (checkedAdd j.fileEnd frameLen).bind fun nextEnd =>
      (checkedAdd nextEnd resetMarkerLen).bind fun resetEnd =>
        if j.config.maxJournalLen < resetEnd then none else some nextEnd

/-- Every check of an append, in its order; the file is untouched so far. -/
def Journal.precheck (j : Journal) (segmentId : SegmentId) (part : Bytes) :
    Except JournalError ℕ :=
  match j.ensureHealthy with
  | .error e => .error e
  | .ok () =>
    match j.segmentId.filter (fun expected => expected ≠ segmentId) with
    | some expected => .error (.segmentIdMismatch expected segmentId)
    | none =>
      if j.config.limits.maxPartLen.toNat < part.length then
        .error (.partTooLarge part.length j.config.limits.maxPartLen)
      else
        -- An invalid part is refused before flow control: a full journal must not
        -- make the caller publish and reset for it.
        match validatePart part with
        | .error e => .error (.invalidPart e)
        | .ok _ =>
          if j.config.maxParts ≤ j.parts.length then .error (.tooManyParts j.config.maxParts)
          else
            match j.admitLen part.length with
            | none => .error (.full j.fileEnd j.config.maxJournalLen)
            | some nextEnd => .ok nextEnd

/-- The writes of an admitted append. The first frame goes behind its header, every
later frame in front of it. -/
def Journal.appendWrites (j : Journal) (newHeader : JournalHeader) (part : Bytes) : List FileOp :=
  let frame := writeFrame j.fileEnd (FrameHeader.encode ⟨UInt64.ofNat part.length⟩) part
  if j.parts.isEmpty then [writeHeader newHeader] ++ frame ++ [.syncData]
  else frame ++ [writeHeader newHeader,.syncData]

def appendedHeader (segmentId : SegmentId) (nextEnd : ℕ) : JournalHeader :=
  ⟨.active segmentId.get,UInt64.ofNat (nextEnd - journalHeaderLen)⟩

/-- A failed write is rolled back; a failed rollback poisons the handle. -/
def Journal.undo (j : Journal) (file : Disk IoError) (error : IoError) :
    JournalError × Journal :=
  match file.performAll (rollback j.fileEnd j.currentHeader) with
  | (.ok (),file) => (.io error,{ j with file })
  | (.error failed,file) => (.rollbackFailed error failed,{ j with file, poisoned := true })

def Journal.append (j : Journal) (segmentId : SegmentId) (part : Bytes) :
    Except JournalError JournalPartRef × Journal :=
  match j.precheck segmentId part with
  | .error e => (.error e,j)
  | .ok nextEnd =>
    match j.file.performAll (j.appendWrites (appendedHeader segmentId nextEnd) part) with
    | (.error e,file) =>
      let (e,j) := j.undo file e
      (.error e,j)
    | (.ok (),file) =>
      let partRef : JournalPartRef := ⟨⟨j.fileEnd+frameHeaderLen,part.length⟩,j.generation⟩
      (.ok partRef,{ j with
        file
        fileEnd := nextEnd
        parts := j.parts ++ [partRef]
        segmentId := some segmentId })

/-- Position of `target` among ascending keys. -/
def binarySearch (keys : List ℕ) (target : ℕ) : ℕ → ℕ → ℕ → Option ℕ
  | 0, _, _ => none
  | fuel+1, lo, hi =>
    if hi ≤ lo then none
    else
      let mid := (lo+hi)/2
      match keys[mid]? with
      | none => none
      | some key =>
        if key = target then some mid
        else if key < target then binarySearch keys target fuel (mid+1) hi
        else binarySearch keys target fuel lo mid

def Journal.isMember (j : Journal) (part : JournalPartRef) : Bool :=
  part.generation == j.generation &&
    match binarySearch (j.parts.map fun candidate => candidate.raw.offset) part.raw.offset
        (j.parts.length+1) 0 j.parts.length with
    | none => false
    | some index => j.parts[index]? == some part

def Journal.checkPartRef (j : Journal) (part : JournalPartRef) : Except JournalError Unit :=
  match j.ensureHealthy with
  | .error e => .error e
  | .ok () =>
    let minimum := journalHeaderLen + frameHeaderLen
    let inBounds := decide (minimum ≤ part.raw.offset) &&
      (checkedAdd part.raw.offset part.raw.len).any fun stop => stop ≤ j.fileEnd
    if j.isMember part && inBounds then .ok ()
    else .error (.stalePartRef part.raw.offset part.raw.len)

/-- The bytes of the file at `offset`, or the read error past its end. -/
def readFile (file : Disk IoError) (offset len : ℕ) : Except IoError Bytes :=
  (ReadAt.readExactAt offset len file.bytes).map Prod.fst

def Journal.readPart (j : Journal) (part : JournalPartRef) : Except JournalError Bytes :=
  match j.checkPartRef part with
  | .error e => .error e
  | .ok () => (readFile j.file part.raw.offset part.raw.len).mapError .io

def Journal.readPartRange (j : Journal) (part : JournalPartRef) (offset len : ℕ) :
    Except JournalError Bytes :=
  match j.checkPartRef part with
  | .error e => .error e
  | .ok () =>
    match checkedAdd offset len with
    | none => .error (.stalePartRef offset len)
    | some relativeEnd =>
      if part.raw.len < relativeEnd then .error (.stalePartRef offset len)
      else
        match checkedAdd part.raw.offset offset with
        | none => .error (.stalePartRef offset len)
        | some absolute => (readFile j.file absolute len).mapError .io

def resetMarkerWrites (fileEnd : ℕ) (marker : ResetMarker) : List FileOp :=
  [.writeAll fileEnd marker.encode,.syncData]

def finishCommittedReset : List FileOp :=
  [writeHeader .EMPTY,.syncData,.setLen journalHeaderLen,.syncData]

/-- The marker of a reset, or the refusal. -/
def Journal.resetMarker (j : Journal) (segmentId : SegmentId) :
    Except JournalError (Option ResetMarker) :=
  if (checkedAdd j.fileEnd resetMarkerLen).all fun markerEnd => j.config.maxJournalLen < markerEnd
  then .error (.full j.fileEnd j.config.maxJournalLen)
  else .ok (ResetMarker.new (UInt64.ofNat j.fileEnd) segmentId.get)

/-- Commit a reset marker, then reduce the file to the empty header. A reset takes
the next process-wide generation number even when it is refused later; the counter
is unbounded here, the program aborts when it is exhausted. -/
def Journal.reset (j : Journal) (nextGeneration : ℕ) :
    Except JournalError Unit × Journal × ℕ :=
  match j.ensureHealthy with
  | .error e => (.error e,j,nextGeneration)
  | .ok () =>
    if j.parts.isEmpty then (.ok (),j,nextGeneration)
    else
      match j.segmentId with
      | none => (.error .poisoned,{ j with poisoned := true },nextGeneration)
      | some segmentId =>
        match j.resetMarker segmentId with
        | .error e => (.error e,j,nextGeneration+1)
        | .ok none => (.error .poisoned,{ j with poisoned := true },nextGeneration+1)
        | .ok (some marker) =>
          match j.file.performAll (resetMarkerWrites j.fileEnd marker) with
          | (.error e,file) =>
            let (e,j) := j.undo file e
            (.error e,j,nextGeneration+1)
          | (.ok (),file) =>
            match file.performAll finishCommittedReset with
            | (.error e,file) =>
              (.error (.resetIncomplete e),{ j with file, poisoned := true },nextGeneration+1)
            | (.ok (),file) =>
              (.ok (),{ j with
                file
                fileEnd := journalHeaderLen
                parts := []
                generation := nextGeneration
                segmentId := none },nextGeneration+1)

def mapScanError : JournalScanError → JournalError
  | .io error => .io error
  | .partLimitExceeded limit => .tooManyParts limit

/-- The marker that ends a file, when it names the generation in front of it. -/
def committedMarker (file : Bytes) (config : JournalConfig) : Option ResetMarker :=
  if file.length < journalHeaderLen + resetMarkerLen then none
  else
    let markerAt := file.length - resetMarkerLen
    match ResetMarker.decode (slice file markerAt resetMarkerLen) with
    | none => none
    | some marker =>
      if marker.previousLen.toNat ≠ markerAt ∨ config.maxJournalLen < marker.previousLen.toNat ∨
          (SegmentId.new marker.previousSegmentId).toOption.isNone then none
      else if marker.expectedPreviousHeader.isNone then none
      else if (marker.classifyHeaderTransition (slice file 0 journalHeaderLen)).isNone then none
      else some marker

/-- Complete a reset whose marker reached the file; `false` leaves it alone. -/
def recoverCommittedReset (file : Disk IoError) (config : JournalConfig) :
    Except JournalError Bool × Disk IoError :=
  match committedMarker file.bytes config with
  | none => (.ok false,file)
  | some marker =>
    let previous : PrefixReader := ⟨file.bytes,marker.previousLen⟩
    match scanJournalStreamingStrictFrom (UInt64.ofNat journalHeaderLen) config.limits
        config.maxParts previous with
    | .error e => (.error (mapScanError e),file)
    | .ok (scan,_) =>
      if scan.parts.isEmpty ∨ ¬ scan.damages.isEmpty ∨
          scan.validLen ≠ marker.previousLen.toNat then (.ok false,file)
      else
        match file.performAll finishCommittedReset with
        | (.error e,file) => (.error (.io e),file)
        | (.ok (),file) => (.ok true,file)

def initializeFile : List FileOp := [writeHeader .EMPTY,.setLen journalHeaderLen,.syncData]

/-- The identity and parts of a complete journal file. -/
def openContents (file : Bytes) (config : JournalConfig) :
    Except JournalError (Option SegmentId × List PartRef) :=
  if file.length < journalHeaderLen then .error (.tornHeader file.length)
  else
    match JournalHeader.decode (slice file 0 journalHeaderLen) with
    | .error (.unsupportedMagic _) => .error .unsupportedJournalFormat
    | .error (.unsupportedVersion _) => .error .unsupportedJournalFormat
    | .error other => .error (.invalidHeader other)
    | .ok header =>
      let actualBodyLen := file.length - journalHeaderLen
      if header.bodyLen.toNat ≠ actualBodyLen then
        .error (.bodyLengthMismatch header.bodyLen.toNat actualBodyLen)
      else
        match header.state with
        | .empty =>
          if actualBodyLen ≠ 0 then .error (.emptyWithFrames actualBodyLen)
          else .ok (none,[])
        | .active segmentId =>
          match SegmentId.new segmentId with
          | .error e => .error (.invalidSegmentId e)
          | .ok segmentId =>
            match scanJournalStreamingStrictFrom (UInt64.ofNat journalHeaderLen) config.limits
                config.maxParts file with
            | .error e => .error (mapScanError e)
            | .ok (scan,_) =>
              if ¬ scan.damages.isEmpty ∨ scan.validLen ≠ file.length then
                .error (.damagedBody scan.damages)
              else if scan.parts.isEmpty then .error .activeWithoutFirstFrame
              else .ok (some segmentId,scan.parts)

/-- Open the root journal. `created` says that the directory entry is new, and
`rootSync` is the outcome of synchronizing it. -/
def Journal.openRoot (config : JournalConfig) (created : Bool) (file : Disk IoError)
    (rootSync : Except JournalError Unit) (nextGeneration : ℕ) :
    Except JournalError Journal × Disk IoError × ℕ :=
  match validateConfig config with
  | .error e => (.error e,file,nextGeneration)
  | .ok () =>
    match file.performAll (if created then initializeFile else []) with
    | (.error e,file) => (.error (.io e),file,nextGeneration)
    | (.ok (),file) =>
      if config.maxJournalLen < file.bytes.length then
        (.error (.journalTooLarge file.bytes.length config.maxJournalLen),file,nextGeneration)
      else
        match recoverCommittedReset file config with
        | (.error e,file) => (.error e,file,nextGeneration)
        | (.ok _,file) =>
          -- No journal state ever truncates below the header, so a zero-length file
          -- never held data.
          match file.performAll (if file.bytes.length = 0 then initializeFile else []) with
          | (.error e,file) => (.error (.io e),file,nextGeneration)
          | (.ok (),file) =>
            match openContents file.bytes config with
            | .error e => (.error e,file,nextGeneration)
            | .ok (segmentId,parts) =>
              match rootSync with
              | .error e => (.error e,file,nextGeneration)
              | .ok () =>
                (.ok {
                  file
                  fileEnd := file.bytes.length
                  config
                  parts := parts.map fun raw => ⟨raw,nextGeneration⟩
                  generation := nextGeneration
                  segmentId
                  poisoned := false },file,nextGeneration+1)

end PgKronika
