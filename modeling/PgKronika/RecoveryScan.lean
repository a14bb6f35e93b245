import PgKronika.StreamingScan
import PgKronika.Tiling

/-! The bounded, resynchronizing recovery scanner and its accounting. Offsets are
64-bit on both sides of every conversion, so no conversion fails. -/
namespace PgKronika

open ByteCodec CheckedArith StateLogic Tiling

def recoveryScanChunkLen : ℕ := 64*1024
def maxRecoveryCandidates : ℕ := 1000000

structure RecoveryScanLimits where
  journal : JournalLimits
  maxScanBytes : UInt64
  maxParts : ℕ
  maxCandidates : ℕ
  maxCandidateBytes : UInt64
  deriving DecidableEq

def RecoveryScanLimits.default : RecoveryScanLimits where
  journal := ⟨PgKronika.maxPartLen⟩
  maxScanBytes := UInt64.ofNat maxJournalLen
  maxParts := maxJournalParts
  maxCandidates := maxRecoveryCandidates
  maxCandidateBytes := UInt64.ofNat maxJournalLen

/-- The discarded range from `fromOffset` up to `toOffset`. -/
structure RecoveryDamageRegion where
  fromOffset : ℕ
  toOffset : ℕ
  reason : RecoveryDamageReason
  deriving DecidableEq

inductive RecoveryScanStop
  | endOfSource
  | scanByteLimit (limit : UInt64)
  | partLimit (limit : ℕ)
  | candidateLimit (limit : ℕ)
  | candidateByteLimit (limit : UInt64)
  deriving DecidableEq

structure RecoveryScanReport where
  parts : List PartRef
  damages : List RecoveryDamageRegion
  physicalLen : ℕ
  recoveredPartBytes : ℕ
  recoveredRows : ℕ
  discardedBytes : ℕ
  discardedSuffixBytes : ℕ
  candidateHeadersExamined : ℕ
  candidateValidationBytes : ℕ
  stop : RecoveryScanStop
  deriving DecidableEq

inductive RecoveryLimitKind
  | partBytes
  | scanBytes
  | parts
  | candidates
  | candidateBytes
  deriving DecidableEq

inductive RecoveryScanError
  | io (error : IoError)
  | sourceLengthChanged (before after : UInt64)
  | accountingOverflow (quantity : String)
  | invalidLimits (kind : RecoveryLimitKind) (value minimum maximum : ℕ)
  deriving DecidableEq

def validateRecoveryLimit (kind : RecoveryLimitKind) (value maximum : ℕ) :
    Except RecoveryScanError Unit :=
  if value = 0 ∨ maximum < value then .error (.invalidLimits kind value 1 maximum) else .ok ()

def validateRecoveryLimits (limits : RecoveryScanLimits) : Except RecoveryScanError Unit := do
  validateRecoveryLimit .partBytes limits.journal.maxPartLen.toNat maxPartLen.toNat
  validateRecoveryLimit .scanBytes limits.maxScanBytes.toNat maxJournalLen
  validateRecoveryLimit .parts limits.maxParts maxJournalParts
  validateRecoveryLimit .candidates limits.maxCandidates maxRecoveryCandidates
  validateRecoveryLimit .candidateBytes limits.maxCandidateBytes.toNat maxJournalLen

/-- Candidate headers examined and bytes validated so far. -/
structure CandidateWork where
  headers : ℕ
  bytes : ℕ
  deriving DecidableEq

inductive CandidateCheck
  | valid
  | invalid
  | limit
  | byteLimit
  deriving DecidableEq

def checkRecoveryCandidate {σ : Type} [ReadAt σ] (candAt scanEnd : ℕ)
    (limits : RecoveryScanLimits) (work : CandidateWork) :
    Reading σ RecoveryScanError (CandidateCheck × CandidateWork) :=
  match checkedAdd candAt frameHeaderLen with
  | none => pure (.invalid,work)
  | some headerEnd =>
    if scanEnd < headerEnd then pure (.invalid,work)
    else if limits.maxCandidates ≤ work.headers then pure (.limit,work)
    else
      match checkedAdd work.bytes frameHeaderLen with
      | none => pure (.byteLimit,⟨work.headers+1,work.bytes⟩)
      | some afterHeader =>
        if limits.maxCandidateBytes.toNat < afterHeader then
          pure (.byteLimit,⟨work.headers+1,work.bytes⟩)
        else do
          let encoded ← mapError .io (ReadAt.readExactAt candAt frameHeaderLen)
          match FrameHeader.decode encoded with
          | .error _ => pure (.invalid,⟨work.headers+1,afterHeader⟩)
          | .ok header =>
            if limits.journal.maxPartLen < header.partLen then
              pure (.invalid,⟨work.headers+1,afterHeader⟩)
            else if scanEnd - headerEnd < header.partLen.toNat then
              pure (.invalid,⟨work.headers+1,afterHeader⟩)
            else
              match checkedAdd afterHeader header.partLen.toNat with
              | none => pure (.byteLimit,⟨work.headers+1,afterHeader⟩)
              | some afterBody =>
                if limits.maxCandidateBytes.toNat < afterBody then
                  pure (.byteLimit,⟨work.headers+1,afterHeader⟩)
                else do
                  let body ← mapError .io
                    (ReadAt.readExactAt (candAt+frameHeaderLen) header.partLen.toNat)
                  pure (if (validatePart body).toOption.isSome then .valid else .invalid,
                    ⟨work.headers+1,afterBody⟩)

inductive StreamingResync
  | found (next : ℕ)
  | noCandidate (searchedTo : ℕ)
  | candidateLimit (searchedTo : ℕ)
  | candidateByteLimit (searchedTo : ℕ)
  deriving DecidableEq

/-- The decision a checked candidate leads to; an invalid one lets the search go on. -/
def CandidateCheck.outcome (candAt : ℕ) : CandidateCheck → Option StreamingResync
  | .valid => some (.found candAt)
  | .invalid => none
  | .limit => some (.candidateLimit candAt)
  | .byteLimit => some (.candidateByteLimit candAt)

/-- Every magic of one chunk from `searchAt` on. -/
def searchChunk {σ : Type} [ReadAt σ] (limits : RecoveryScanLimits) (searchStart scanEnd : ℕ)
    (chunk : Bytes) (absoluteStart : ℕ) : ℕ → ℕ → CandidateWork →
      Reading σ RecoveryScanError (Option StreamingResync × CandidateWork)
  | 0, _, work => pure (none,work)
  | fuel+1, searchAt, work =>
    if searchAt + frameMagic.length ≤ chunk.length then
      match findMagic (chunk.drop searchAt) with
      | none => pure (none,work)
      | some relative =>
        let found := searchAt + relative
        let candAt := absoluteStart + found
        if searchStart ≤ candAt ∧ candAt + frameHeaderLen ≤ scanEnd then do
          let (check,work) ← checkRecoveryCandidate candAt scanEnd limits work
          match check.outcome candAt with
          | some outcome => pure (some outcome,work)
          | none => searchChunk limits searchStart scanEnd chunk absoluteStart fuel (found+1) work
        else searchChunk limits searchStart scanEnd chunk absoluteStart fuel (found+1) work
    else pure (none,work)

/-- The chunked search; the last bytes of a chunk are carried into the next one. -/
def searchChunks {σ : Type} [ReadAt σ] (limits : RecoveryScanLimits) (searchStart scanEnd : ℕ) :
    ℕ → ℕ → Bytes → CandidateWork →
      Reading σ RecoveryScanError (StreamingResync × CandidateWork)
  | 0, _, _, work => pure (.noCandidate scanEnd,work)
  | fuel+1, chunkAt, carry, work =>
    if scanEnd ≤ chunkAt then pure (.noCandidate scanEnd,work)
    else do
      let readLen := min (scanEnd - chunkAt) recoveryScanChunkLen
      let data ← mapError .io (ReadAt.readExactAt chunkAt readLen)
      let chunk := carry ++ data
      let (outcome,work) ← searchChunk limits searchStart scanEnd chunk (chunkAt - carry.length)
        (chunk.length+1) 0 work
      match outcome with
      | some outcome => pure (outcome,work)
      | none =>
        searchChunks limits searchStart scanEnd fuel (chunkAt+readLen)
          (chunk.drop (chunk.length - min chunk.length (frameMagic.length-1))) work

def resyncSearchStart (damagedAt scanEnd : ℕ) (impliedEnd : Option ℕ) : ℕ :=
  match impliedEnd with
  | none => min (saturatingAdd damagedAt 1) scanEnd
  | some boundary => min ((checkedAdd boundary 1).getD scanEnd) scanEnd

def streamingResync {σ : Type} [ReadAt σ] (damagedAt scanEnd : ℕ) (impliedEnd : Option ℕ)
    (limits : RecoveryScanLimits) (work : CandidateWork) (canResync : Bool) :
    Reading σ RecoveryScanError (StreamingResync × CandidateWork) :=
  if canResync = false then pure (.noCandidate scanEnd,work)
  else
    let searchStart := resyncSearchStart damagedAt scanEnd impliedEnd
    let search := searchChunks limits searchStart scanEnd (scanEnd - searchStart + 1) searchStart []
    match impliedEnd.filter fun boundary =>
        (checkedAdd boundary frameHeaderLen).any fun headerEnd => headerEnd ≤ scanEnd with
    | none => search work
    | some boundary => do
      let (check,work) ← checkRecoveryCandidate boundary scanEnd limits work
      match check.outcome boundary with
      | some outcome => pure (outcome,work)
      | none => search work

def pushStoppedDamage (damages : List RecoveryDamageRegion) (fromOffset searchedTo physicalLen : ℕ)
    (reason : RecoveryDamageReason) : List RecoveryDamageRegion :=
  let searchedTo := min searchedTo physicalLen
  damages ++ (if fromOffset < searchedTo then [⟨fromOffset,searchedTo,reason⟩] else []) ++
    (if searchedTo < physicalLen then [⟨searchedTo,physicalLen,.workLimit⟩] else [])

/-- The mutable variables of the scan loop. -/
structure RecoveryState where
  pos : ℕ
  parts : List PartRef
  damages : List RecoveryDamageRegion
  recoveredPartBytes : ℕ
  recoveredRows : ℕ
  work : CandidateWork
  stop : RecoveryScanStop
  deriving DecidableEq

def orOverflow {σ α : Type} (quantity : String) : Option α → Reading σ RecoveryScanError α
  | some a => pure a
  | none => fail (.accountingOverflow quantity)

def RecoveryState.stopDamaged (st : RecoveryState) (searchedTo physicalLen : ℕ)
    (reason : RecoveryDamageReason) (stop : RecoveryScanStop) : RecoveryState :=
  { st with damages := pushStoppedDamage st.damages st.pos searchedTo physicalLen reason, stop }

@[simp] theorem RecoveryState.stopDamaged_pos (st : RecoveryState) (searchedTo physicalLen : ℕ)
    (reason : RecoveryDamageReason) (stop : RecoveryScanStop) :
    (st.stopDamaged searchedTo physicalLen reason stop).pos = st.pos := rfl

def recoverFrom {σ : Type} [ReadAt σ] (limits : RecoveryScanLimits) (scanEnd physicalLen : ℕ) :
    ℕ → RecoveryState → Reading σ RecoveryScanError RecoveryState
  | 0, st => pure st
  | fuel+1, st =>
    if scanEnd ≤ st.pos then pure st
    else do
      match ← mapError .io (streamingFrameAt scanEnd st.pos limits.journal) with
      | .valid bodyLen rows =>
        if limits.maxParts ≤ st.parts.length then
          pure { st with
            stop := .partLimit limits.maxParts
            damages := st.damages ++ [⟨st.pos,physicalLen,.workLimit⟩] }
        else do
          let partBytes ← orOverflow "part byte" (checkedAdd st.recoveredPartBytes bodyLen)
          let rows ← orOverflow "row" (checkedAdd st.recoveredRows rows)
          recoverFrom limits scanEnd physicalLen fuel { st with
            pos := st.pos+frameHeaderLen+bodyLen
            parts := st.parts ++ [⟨st.pos+frameHeaderLen,bodyLen⟩]
            recoveredPartBytes := partBytes
            recoveredRows := rows }
      | .damaged reason impliedEnd canResync =>
        let (outcome,work) ← streamingResync st.pos scanEnd impliedEnd limits st.work canResync
        let st := { st with work }
        match outcome with
        | .found next =>
          recoverFrom limits scanEnd physicalLen fuel { st with
            pos := next
            damages := st.damages ++ [⟨st.pos,next,reason⟩] }
        | .noCandidate searchedTo =>
          pure (st.stopDamaged searchedTo physicalLen reason
            (if scanEnd < physicalLen then .scanByteLimit limits.maxScanBytes else st.stop))
        | .candidateLimit searchedTo =>
          pure (st.stopDamaged searchedTo physicalLen reason (.candidateLimit limits.maxCandidates))
        | .candidateByteLimit searchedTo =>
          pure (st.stopDamaged searchedTo physicalLen reason
            (.candidateByteLimit limits.maxCandidateBytes))

/-- Join a region to the one before it when they touch and share a reason. -/
def coalesceFrom (last : RecoveryDamageRegion) :
    List RecoveryDamageRegion → List RecoveryDamageRegion
  | [] => [last]
  | damage::rest =>
    if last.toOffset = damage.fromOffset ∧ last.reason = damage.reason then
      coalesceFrom { last with toOffset := damage.toOffset } rest
    else last :: coalesceFrom damage rest

def coalesceRecoveryDamages : List RecoveryDamageRegion → List RecoveryDamageRegion
  | [] => []
  | damage::rest => coalesceFrom damage rest

/-- The suffix a scan cap left unexamined. -/
def RecoveryState.closeScan (st : RecoveryState) (limits : RecoveryScanLimits)
    (scanEnd physicalLen : ℕ) : RecoveryState :=
  if st.pos = scanEnd ∧ scanEnd < physicalLen then
    { st with
      damages := st.damages ++ [⟨scanEnd,physicalLen,.workLimit⟩]
      stop := .scanByteLimit limits.maxScanBytes }
  else st

def checkedPartsEnd (startAt : ℕ) (parts : List PartRef) : Option ℕ :=
  match parts.getLast? with
  | none => some startAt
  | some part => checkedAdd part.offset part.len

def recoveryReport {σ : Type} (startAt physicalLen : ℕ) (st : RecoveryState) :
    Reading σ RecoveryScanError RecoveryScanReport := do
  let headerBytes ← orOverflow "frame header" (checkedMul st.parts.length frameHeaderLen)
  let frameBytes ← orOverflow "accepted frame byte" (checkedAdd st.recoveredPartBytes headerBytes)
  let discarded ← orOverflow "discarded byte" (checkedSub (physicalLen - startAt) frameBytes)
  let acceptedEnd ← orOverflow "accepted suffix offset" (checkedPartsEnd startAt st.parts)
  let suffix ← orOverflow "discarded suffix byte" (checkedSub physicalLen acceptedEnd)
  pure {
    parts := st.parts
    damages := coalesceRecoveryDamages st.damages
    physicalLen := physicalLen
    recoveredPartBytes := st.recoveredPartBytes
    recoveredRows := st.recoveredRows
    discardedBytes := discarded
    discardedSuffixBytes := suffix
    candidateHeadersExamined := st.work.headers
    candidateValidationBytes := st.work.bytes
    stop := st.stop }

def scanJournalStreamingRecoveryFrom {σ : Type} [ReadAt σ] (startAt : UInt64)
    (limits : RecoveryScanLimits) : Reading σ RecoveryScanError RecoveryScanReport :=
  match validateRecoveryLimits limits with
  | .error e => fail e
  | .ok () => do
    let physicalLen ← mapError .io ReadAt.byteLen
    if physicalLen < startAt then
      fail (.io ⟨.invalidInput,"start_at is beyond the journal source"⟩)
    else do
      let scanEnd := min (saturatingAdd startAt.toNat limits.maxScanBytes.toNat) physicalLen.toNat
      let st ← recoverFrom limits scanEnd physicalLen.toNat (scanEnd - startAt.toNat + 1)
        ⟨startAt.toNat,[],[],0,0,⟨0,0⟩,.endOfSource⟩
      let report ← recoveryReport startAt.toNat physicalLen.toNat
        (st.closeScan limits scanEnd physicalLen.toNat)
      let after ← mapError .io ReadAt.byteLen
      if after ≠ physicalLen then fail (.sourceLengthChanged physicalLen after)
      else pure report

end PgKronika
