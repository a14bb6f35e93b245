import PgKronika.JournalImage
import PgKronika.RecoveryAccounting

/-! Read-only inspection of a journal that open refuses, and which parts of a file
the recovery scan behind it accepts. -/
namespace PgKronika

open ByteCodec CheckedArith FileTrace StateLogic

inductive JournalRecoveryReason
  | zeroLength
  | tornHeader
  | unsupportedHeader
  | invalidHeader
  | emptyWithTrailingBytes
  | invalidSegmentId
  | bodyLengthMismatch
  | frameDamage
  | activeWithoutFrames
  | admissionLimit
  | clean
  deriving DecidableEq

structure JournalRecoverySummary where
  reason : JournalRecoveryReason
  trustedSegmentId : Option SegmentId
  evidenceBytes : ℕ
  recordedBodyBytes : Option UInt64
  physicalBodyBytes : ℕ
  bodyLengthMismatch : Bool
  verifiedFrames : ℕ
  verifiedRows : ℕ
  verifiedPartBytes : ℕ
  discardedBytes : ℕ
  discardedSuffixBytes : ℕ
  damages : List RecoveryDamageRegion
  scanStop : Option RecoveryScanStop
  deriving DecidableEq

/-- The evidence and the plan to replay it. Nobody else writes the evidence, so its
identity does not change while it is read. -/
structure JournalRecovery where
  source : Bytes
  parts : List PartRef
  summary : JournalRecoverySummary
  deriving DecidableEq

inductive JournalRecoveryError
  | config (error : JournalError)
  | scan (error : RecoveryScanError)
  deriving DecidableEq

def JournalRecovery.withoutScan (source : Bytes) (reason : JournalRecoveryReason)
    (discardedBytes : ℕ) : JournalRecovery where
  source
  parts := []
  summary := {
    reason
    trustedSegmentId := none
    evidenceBytes := source.length
    recordedBodyBytes := none
    physicalBodyBytes := 0
    bodyLengthMismatch := false
    verifiedFrames := 0
    verifiedRows := 0
    verifiedPartBytes := 0
    discardedBytes
    discardedSuffixBytes := discardedBytes
    damages := []
    scanStop := none }

def JournalRecovery.withHeaderWithoutScan (source : Bytes) (reason : JournalRecoveryReason)
    (recordedBodyBytes : UInt64) (physicalBodyBytes : ℕ) : JournalRecovery where
  source
  parts := []
  summary := {
    reason
    trustedSegmentId := none
    evidenceBytes := source.length
    recordedBodyBytes := some recordedBodyBytes
    physicalBodyBytes
    bodyLengthMismatch := decide (recordedBodyBytes.toNat ≠ physicalBodyBytes)
    verifiedFrames := 0
    verifiedRows := 0
    verifiedPartBytes := 0
    discardedBytes := physicalBodyBytes
    discardedSuffixBytes := physicalBodyBytes
    damages := []
    scanStop := none }

def recoveryScanLimits (config : JournalConfig) : RecoveryScanLimits where
  journal := config.limits
  maxScanBytes := UInt64.ofNat (max (config.maxJournalLen - journalHeaderLen) 1)
  maxParts := config.maxParts
  maxCandidates := maxRecoveryCandidates
  maxCandidateBytes := UInt64.ofNat (max config.maxJournalLen 1)

def recoveryReason (scan : RecoveryScanReport) (bodyLengthMismatch : Bool) :
    JournalRecoveryReason :=
  if scan.stop ≠ .endOfSource then .admissionLimit
  else if bodyLengthMismatch then .bodyLengthMismatch
  else if ¬ scan.damages.isEmpty then .frameDamage
  else if scan.parts.isEmpty then .activeWithoutFrames
  else .clean

/-- Only a complete valid active header supplies an identity; the bytes behind it are
then examined whatever body length it declares. -/
def JournalRecovery.inspect (source : Bytes) (config : JournalConfig) :
    Except JournalRecoveryError JournalRecovery :=
  match validateConfig config with
  | .error e => .error (.config e)
  | .ok () =>
    if source.length = 0 then .ok (withoutScan source .zeroLength 0)
    else if source.length < journalHeaderLen then
      .ok (withoutScan source .tornHeader source.length)
    else
      match JournalHeader.decode (slice source 0 journalHeaderLen) with
      | .error (.unsupportedMagic _) => .ok (withoutScan source .unsupportedHeader source.length)
      | .error (.unsupportedVersion _) => .ok (withoutScan source .unsupportedHeader source.length)
      | .error _ => .ok (withoutScan source .invalidHeader source.length)
      | .ok header =>
        let physicalBodyBytes := source.length - journalHeaderLen
        match header.state with
        | .empty =>
          let reason : JournalRecoveryReason :=
            if header.bodyLen.toNat ≠ physicalBodyBytes then .bodyLengthMismatch
            else if physicalBodyBytes = 0 then .clean
            else .emptyWithTrailingBytes
          .ok (withHeaderWithoutScan source reason header.bodyLen physicalBodyBytes)
        | .active segmentId =>
          match SegmentId.new segmentId with
          | .error _ =>
            .ok (withHeaderWithoutScan source .invalidSegmentId header.bodyLen physicalBodyBytes)
          | .ok segmentId =>
            match scanJournalStreamingRecoveryFrom (UInt64.ofNat journalHeaderLen)
                (recoveryScanLimits config) source with
            | .error e => .error (.scan e)
            | .ok (scan,_) =>
              let bodyLengthMismatch := decide (header.bodyLen.toNat ≠ physicalBodyBytes)
              .ok {
                source
                parts := scan.parts
                summary := {
                  reason := recoveryReason scan bodyLengthMismatch
                  trustedSegmentId := some segmentId
                  evidenceBytes := source.length
                  recordedBodyBytes := some header.bodyLen
                  physicalBodyBytes
                  bodyLengthMismatch
                  verifiedFrames := scan.parts.length
                  verifiedRows := scan.recoveredRows
                  verifiedPartBytes := scan.recoveredPartBytes
                  discardedBytes := scan.discardedBytes
                  discardedSuffixBytes := scan.discardedSuffixBytes
                  damages := scan.damages
                  scanStop := some scan.stop } }

/-- A valid configuration puts the recovery scan inside its hard caps. -/
theorem recoveryScanLimits_withinCaps {config : JournalConfig}
    (h : validateConfig config = .ok ()) : (recoveryScanLimits config).WithinCaps := by
  obtain ⟨hmin,hmax,hparts,hparts',hlen,hlen'⟩ := validateConfig_ok h
  have hh : journalHeaderLen = 36 := rfl
  have hj : maxJournalLen = 1073741824 := rfl
  have hcand : 0 < maxRecoveryCandidates := by decide
  refine ⟨⟨hlen,hlen'⟩,?_,⟨hparts,hparts'⟩,⟨hcand,le_refl _⟩,?_⟩
  · rw [recoveryScanLimits,toNat_ofNat_of_le (by omega)]
    omega
  · rw [recoveryScanLimits,toNat_ofNat_of_le (by omega)]
    omega

/-- Where the recovery scan accepts no further frame: a torn frame stops it, and
otherwise no offset from `stop` on starts a valid one. -/
def NoFurtherFrame (b : Bytes) (limits : JournalLimits) (stop : ℕ) : Prop :=
  (∃ reason impliedEnd, streamingFrame b stop limits = .damaged reason impliedEnd false) ∨
    ∀ pos n, stop ≤ pos → ¬ ValidFrame b limits pos n

section ScanParts

variable {σ : Type} [ReadAt σ] {s : σ} {b : Bytes} {limits : RecoveryScanLimits}

omit [ReadAt σ] in
theorem orOverflow_meets {α : Type} (quantity : String) (o : Option α) :
    Meets (· = s) (fun _ => True) (orOverflow quantity o) (fun _ => True) := by
  cases o with
  | none => exact .fail trivial
  | some a => exact .pure trivial

theorem streamingFrameAt_reads (hr : ReadsAs s b) (pos : ℕ) (limits : JournalLimits) :
    Meets (· = s) (fun _ => True) (mapError RecoveryScanError.io
      (streamingFrameAt b.length pos limits)) (· = streamingFrame b pos limits) := by
  rintro _ rfl
  rw [mapError_apply_ok (streamingFrameAt_readsPrefix hr.read pos limits)]
  exact ⟨rfl,rfl⟩

/-- Past the last valid frame the loop adds no part, wherever it resumes. -/
theorem recoverFrom_no_frame (hr : ReadsAs s b) (hb : b.length ≤ u64Max) {fuel : ℕ}
    {st : RecoveryState} (hno : ∀ pos n, st.pos ≤ pos → ¬ ValidFrame b limits.journal pos n) :
    Meets (· = s) (fun _ => True) (recoverFrom limits b.length b.length fuel st)
      (fun st' => st'.parts = st.parts) := by
  have hu : u64Max = 18446744073709551615 := rfl
  have hlen : (UInt64.ofNat b.length).toNat = b.length :=
    UInt64.toNat_ofNat_of_lt' (by simpa [UInt64.size] using by omega)
  have hs := hr.stable (by omega)
  induction fuel generalizing st with
  | zero => exact .pure rfl
  | succ fuel ih =>
    unfold recoverFrom
    split
    · exact .pure rfl
    · rename_i hpos
      have hout := (streamingFrameAt_meets hs hlen.ge limits.journal).ok rfl
        (streamingFrameAt_readsPrefix hr.read st.pos limits.journal)
      refine (streamingFrameAt_reads hr st.pos limits.journal).bind fun frame hframe => ?_
      rw [← hframe] at hout
      cases frame with
      | valid n rows =>
        exact absurd ((streamingFrame_valid_iff hb).mp ⟨rows,hframe.symm⟩) (hno st.pos n (le_refl _))
      | damaged reason impliedEnd canResync =>
        refine ((streamingResync_meets hs hlen.ge (by omega) hout.2 limits st.work).mono
          (fun _ _ => trivial) fun _ h => h).bind fun r hfound => ?_
        obtain ⟨outcome,work⟩ := r
        cases outcome with
        | found next => exact ih fun pos n hle => hno pos n (le_trans hfound.1.le hle)
        | noCandidate searchedTo => exact .pure rfl
        | candidateLimit searchedTo => exact .pure rfl
        | candidateByteLimit searchedTo => exact .pure rfl

theorem recoverFrom_no_further (hr : ReadsAs s b) (hb : b.length ≤ u64Max) {fuel : ℕ}
    {st : RecoveryState} (hno : NoFurtherFrame b limits.journal st.pos) :
    Meets (· = s) (fun _ => True) (recoverFrom limits b.length b.length fuel st)
      (fun st' => st'.parts = st.parts) := by
  rcases hno with ⟨reason,impliedEnd,htorn⟩ | hno
  · cases fuel with
    | zero => exact .pure rfl
    | succ fuel =>
      unfold recoverFrom
      split
      · exact .pure rfl
      · refine (streamingFrameAt_reads hr st.pos limits.journal).bind fun frame hframe => ?_
        rw [htorn] at hframe
        subst hframe
        exact (Meets.pure rfl).bind fun r hresync => hresync ▸ .pure rfl
  · exact recoverFrom_no_frame hr hb hno

/-- The loop accepts every frame of a run and none behind it. -/
theorem recoverFrom_run (hr : ReadsAs s b) (hb : b.length ≤ u64Max) {fuel pos stop : ℕ}
    {parts : List PartRef} (h : FrameRun b limits.journal pos parts stop)
    (hno : NoFurtherFrame b limits.journal stop) {st : RecoveryState} (hpos : st.pos = pos)
    (hcount : st.parts.length + parts.length ≤ limits.maxParts) (hfuel : b.length < pos + fuel) :
    Meets (· = s) (fun _ => True) (recoverFrom limits b.length b.length fuel st)
      (fun st' => st'.parts = st.parts ++ parts) := by
  have hfh : frameHeaderLen = 16 := rfl
  induction h generalizing fuel st with
  | nil pos =>
    subst hpos
    rw [List.append_nil]
    exact recoverFrom_no_further hr hb hno
  | cons frame rest ih =>
    rename_i pos n stop parts
    subst hpos
    have hfit := frame.fits
    obtain ⟨fuel,rfl⟩ : ∃ k, fuel = k+1 := ⟨fuel-1,by omega⟩
    obtain ⟨rows,hvalid⟩ := (streamingFrame_valid_iff hb).mpr frame
    rw [List.length_cons] at hcount
    unfold recoverFrom
    rw [if_neg (by omega)]
    refine (streamingFrameAt_reads hr st.pos limits.journal).bind fun _ hframe => ?_
    rw [hvalid] at hframe
    subst hframe
    dsimp only
    rw [if_neg (by omega)]
    refine (orOverflow_meets _ _).bind fun partBytes _ => ?_
    refine (orOverflow_meets _ _).bind fun total _ => ?_
    refine (ih hno rfl (by simp; omega) (by omega)).mono (fun _ _ => trivial) fun st' hst' => ?_
    rw [hst',List.append_assoc]
    rfl

omit [ReadAt σ] in
theorem recoveryReport_parts (startAt physicalLen : ℕ) (st : RecoveryState) :
    Meets (· = s) (fun _ => True) (recoveryReport startAt physicalLen st)
      (fun report => report.parts = st.parts) := by
  unfold recoveryReport
  refine (orOverflow_meets _ _).bind fun headerBytes _ => ?_
  refine (orOverflow_meets _ _).bind fun frameBytes _ => ?_
  refine (orOverflow_meets _ _).bind fun discarded _ => ?_
  refine (orOverflow_meets _ _).bind fun acceptedEnd _ => ?_
  exact (orOverflow_meets _ _).bind fun suffix _ => .pure rfl

theorem RecoveryState.closeScan_parts (st : RecoveryState) (limits : RecoveryScanLimits)
    (scanEnd physicalLen : ℕ) : (st.closeScan limits scanEnd physicalLen).parts = st.parts := by
  unfold closeScan
  split <;> rfl

/-- A scan that reaches the end of the source accepts exactly the run of valid frames
it starts with, when no frame follows. -/
theorem recoveryScan_run (hr : ReadsAs s b) (hlimits : limits.WithinCaps) (startAt : UInt64)
    (hstart : startAt.toNat ≤ b.length)
    (hscan : b.length ≤ startAt.toNat + limits.maxScanBytes.toNat) (hb : b.length ≤ u64Max)
    {stop : ℕ} {parts : List PartRef}
    (hrun : FrameRun b limits.journal startAt.toNat parts stop)
    (hno : NoFurtherFrame b limits.journal stop) (hcount : parts.length ≤ limits.maxParts) :
    ∃ report, scanJournalStreamingRecoveryFrom startAt limits s = .ok (report,s) ∧
      report.parts = parts := by
  have hu : u64Max = 18446744073709551615 := rfl
  have hlen : (UInt64.ofNat b.length).toNat = b.length :=
    UInt64.toNat_ofNat_of_lt' (by simpa [UInt64.size] using by omega)
  have hle : startAt ≤ UInt64.ofNat b.length := UInt64.le_iff_toNat_le.mpr (by rwa [hlen])
  have hparts : Meets (· = s) (fun _ => True) (scanJournalStreamingRecoveryFrom startAt limits)
      (fun report => report.parts = parts) := by
    have hbyteLen : Meets (· = s) (fun _ => True) (mapError RecoveryScanError.io ReadAt.byteLen)
        (· = UInt64.ofNat b.length) := by
      rintro _ rfl
      rw [mapError_apply_ok hr.byteLen]
      exact ⟨rfl,rfl⟩
    unfold scanJournalStreamingRecoveryFrom
    rw [hlimits.validate]
    refine hbyteLen.bind fun physicalLen hp => ?_
    subst hp
    rw [if_neg (UInt64.not_lt.mpr hle),hlen]
    have hend : min (saturatingAdd startAt.toNat limits.maxScanBytes.toNat) b.length = b.length := by
      rw [saturatingAdd]; omega
    dsimp only
    rw [hend]
    refine (recoverFrom_run hr hb hrun hno rfl (by simpa using hcount) (by omega)).bind
      fun st hst => ?_
    refine (recoveryReport_parts _ _ _).bind fun report hreport => ?_
    refine hbyteLen.bind fun after ha => ?_
    subst ha
    rw [if_neg (by simp)]
    refine .pure ?_
    rw [hreport,RecoveryState.closeScan_parts,hst,List.nil_append]
  have hall := recovery_scan_accounts (hr.stable (by omega)) hlimits hle s rfl
  cases hscan : scanJournalStreamingRecoveryFrom startAt limits s with
  | error e =>
    rw [hscan] at hall
    obtain ⟨_,_,hfalse⟩ := hall
    exact hfalse.elim
  | ok r =>
    rw [hscan] at hall
    obtain ⟨report,next⟩ := r
    obtain ⟨hnext,_⟩ := hall
    subst hnext
    exact ⟨report,rfl,hparts.ok rfl hscan⟩

end ScanParts

def partBodies (file : Bytes) (parts : List PartRef) : List Bytes :=
  parts.map fun p => slice file p.offset p.len

/-- The part bodies that startup gets out of a journal file: those of the opened
journal, or those that an inspection verifies when open refuses the file. -/
def startupBodies (config : JournalConfig) (file : Bytes) (nextGeneration : ℕ) :
    Except JournalRecoveryError (List Bytes) :=
  match Journal.openRoot config false ⟨file,[]⟩ (.ok ()) nextGeneration with
  | (.ok j,_,_) => .ok (partBodies j.file.bytes (j.parts.map JournalPartRef.raw))
  | (.error _,disk,_) =>
    (JournalRecovery.inspect disk.bytes config).map fun r => partBodies r.source r.parts

/-- Behind a valid active header an inspection accepts the run of valid frames. -/
theorem inspect_active {config : JournalConfig} (hc : validateConfig config = .ok ())
    {file : Bytes} (hmin : journalHeaderLen ≤ file.length)
    (hlen : file.length ≤ config.maxJournalLen) {segmentId : SegmentId} {bodyLen : UInt64}
    (hheader : slice file 0 journalHeaderLen =
      JournalHeader.encode ⟨.active segmentId.get,bodyLen⟩) {stop : ℕ} {parts : List PartRef}
    (hrun : FrameRun file config.limits journalHeaderLen parts stop)
    (hno : NoFurtherFrame file config.limits stop) (hcount : parts.length ≤ config.maxParts) :
    ∃ r, JournalRecovery.inspect file config = .ok r ∧ r.source = file ∧ r.parts = parts := by
  have hh : journalHeaderLen = 36 := rfl
  have hu : u64Max = 18446744073709551615 := rfl
  have hj : maxJournalLen = 1073741824 := rfl
  have hmax := (validateConfig_ok hc).2.1
  have hstart : (UInt64.ofNat journalHeaderLen).toNat = journalHeaderLen := rfl
  have hscan : (recoveryScanLimits config).maxScanBytes.toNat =
      max (config.maxJournalLen - journalHeaderLen) 1 := toNat_ofNat_of_le (by omega)
  obtain ⟨report,hreport,hparts⟩ := recoveryScan_run (readsAs_bytes file)
    (recoveryScanLimits_withinCaps hc) (UInt64.ofNat journalHeaderLen)
    (by rwa [hstart]) (by rw [hstart,hscan]; omega) (by omega) hrun hno hcount
  unfold JournalRecovery.inspect
  rw [hc]
  dsimp only
  rw [if_neg (by omega),if_neg (by omega),hheader,JournalHeader.decode_encode]
  dsimp only
  rw [SegmentId.new_get]
  dsimp only
  rw [hreport]
  exact ⟨_,rfl,rfl,hparts⟩

/-- Without a decodable header an inspection accepts nothing. -/
theorem inspect_undecodable {config : JournalConfig} (hc : validateConfig config = .ok ())
    {file : Bytes} {e : JournalHeaderError}
    (hheader : JournalHeader.decode (slice file 0 journalHeaderLen) = .error e) :
    ∃ r, JournalRecovery.inspect file config = .ok r ∧ r.source = file ∧ r.parts = [] := by
  unfold JournalRecovery.inspect
  rw [hc]
  dsimp only
  split
  · exact ⟨_,rfl,rfl,rfl⟩
  · split
    · exact ⟨_,rfl,rfl,rfl⟩
    · rw [hheader]
      cases e <;> exact ⟨_,rfl,rfl,rfl⟩

end PgKronika
