import PgKronika.FrameScan
import PgKronika.ReadAt

/-! The strict streaming scanner: frames are checked in order and the first damage
stops the scan. -/
namespace PgKronika

open ByteCodec CheckedArith StateLogic

inductive RecoveryDamageReason
  | tornFrameHeader
  | tornFrameBody
  | invalidFrameHeader
  | partTooLarge
  | invalidPart
  | workLimit
  deriving DecidableEq

inductive StreamingFrame
  | valid (bodyLen rows : ℕ)
  | damaged (reason : RecoveryDamageReason) (impliedEnd : Option ℕ) (canResync : Bool)
  deriving DecidableEq

/-- What 16 header bytes at `pos` decide: a damage, or the body length to read. -/
def streamingHeader (totalLen pos : ℕ) (limits : JournalLimits) (encoded : Bytes) :
    Except StreamingFrame ℕ :=
  match FrameHeader.decode encoded with
  | .error _ => .error (.damaged .invalidFrameHeader none true)
  | .ok header =>
    if limits.maxPartLen < header.partLen then
      let impliedEnd := ((checkedAdd pos frameHeaderLen).bind fun bodyAt =>
        checkedAdd bodyAt header.partLen.toNat).filter fun stop => stop ≤ totalLen
      .error (.damaged .partTooLarge impliedEnd impliedEnd.isSome)
    else if totalLen - pos - frameHeaderLen < header.partLen.toNat then
      .error (.damaged .tornFrameBody none false)
    else .ok header.partLen.toNat

def streamingBody (pos : ℕ) (body : Bytes) : StreamingFrame :=
  match validatePart body with
  | .error _ => .damaged .invalidPart (some (pos+frameHeaderLen+body.length)) true
  | .ok catalog =>
    match catalog.checkedRows with
    | none => .damaged .invalidPart (some (pos+frameHeaderLen+body.length)) true
    | some rows => .valid body.length rows

def streamingFrameAt {σ : Type} [ReadAt σ] (totalLen pos : ℕ) (limits : JournalLimits) :
    Reading σ IoError StreamingFrame :=
  if totalLen - pos < frameHeaderLen then pure (.damaged .tornFrameHeader none false)
  else do
    let encoded ← ReadAt.readExactAt pos frameHeaderLen
    match streamingHeader totalLen pos limits encoded with
    | .error frame => pure frame
    | .ok bodyLen =>
      let body ← ReadAt.readExactAt (pos+frameHeaderLen) bodyLen
      pure (streamingBody pos body)

/-- The frame decision on fixed bytes. -/
def streamingFrame (b : Bytes) (pos : ℕ) (limits : JournalLimits) : StreamingFrame :=
  if b.length - pos < frameHeaderLen then .damaged .tornFrameHeader none false
  else
    match streamingHeader b.length pos limits (slice b pos frameHeaderLen) with
    | .error frame => frame
    | .ok bodyLen => streamingBody pos (slice b (pos+frameHeaderLen) bodyLen)

/-- A header that lets the body be read has checked that it fits. -/
theorem streamingHeader_ok {totalLen pos n : ℕ} {limits : JournalLimits} {encoded : Bytes}
    (h : streamingHeader totalLen pos limits encoded = .ok n) :
    ∃ header, FrameHeader.decode encoded = .ok header ∧ header.partLen.toNat = n ∧
      header.partLen ≤ limits.maxPartLen ∧ n ≤ totalLen - pos - frameHeaderLen := by
  unfold streamingHeader at h
  split at h
  · cases h
  · rename_i header hd
    split at h
    · cases h
    · rename_i hmax
      split at h
      · cases h
      · rename_i hfit
        cases h
        exact ⟨header,hd,rfl,UInt64.not_lt.mp hmax,by omega⟩

theorem streamingFrameAt_readsPrefix {σ : Type} [ReadAt σ] {s : σ} {b : Bytes}
    (h : ReadsPrefix s b) (pos : ℕ) (limits : JournalLimits) :
    streamingFrameAt b.length pos limits s = .ok (streamingFrame b pos limits,s) := by
  have hfh : frameHeaderLen = 16 := rfl
  unfold streamingFrameAt streamingFrame
  split_ifs with hrem
  · rfl
  · rw [bind_apply_ok (h (by omega))]
    split
    · rename_i frame hf
      rw [hf]; rfl
    · rename_i n hn
      rw [hn]
      obtain ⟨_,_,_,_,hfit⟩ := streamingHeader_ok hn
      exact bind_apply_ok (h (by omega))

/-- The streaming decision in the terms of the in-memory one. -/
def StreamingFrame.toCheck : StreamingFrame → FrameCheck
  | .valid n _ => .valid n
  | .damaged .tornFrameHeader _ _ => .torn
  | .damaged .tornFrameBody _ _ => .torn
  | .damaged _ impliedEnd _ => .damaged impliedEnd

/-- A complete, well-formed header that claims a part above the limit, whose end is
still inside the source. -/
structure OversizedFrame (b : Bytes) (limits : JournalLimits) (pos stop : ℕ) : Prop where
  header : ∃ h, FrameHeader.decode (slice b pos frameHeaderLen) = .ok h ∧
    limits.maxPartLen < h.partLen ∧ pos+frameHeaderLen+h.partLen.toNat = stop
  fits : stop ≤ b.length

/-- Both frame checks land in the same class, but for the end they attach to an
oversized frame. -/
theorem toCheck_streamingFrame {b : Bytes} (hb : b.length ≤ u64Max) (pos : ℕ)
    (limits : JournalLimits) :
    (∃ stop, OversizedFrame b limits pos stop ∧ frameAt b pos limits = .damaged none ∧
      (streamingFrame b pos limits).toCheck = .damaged (some stop)) ∨
    ((∀ stop, ¬ OversizedFrame b limits pos stop) ∧
      (streamingFrame b pos limits).toCheck = frameAt b pos limits) := by
  have hfh : frameHeaderLen = 16 := rfl
  unfold streamingFrame frameAt
  dsimp only
  split_ifs with hrem
  · refine .inr ⟨?_,rfl⟩
    rintro stop ⟨⟨header,_,_,he⟩,hfit⟩
    omega
  · unfold streamingHeader
    cases hd : FrameHeader.decode (slice b pos frameHeaderLen) with
    | error e =>
      refine .inr ⟨?_,rfl⟩
      rintro stop ⟨⟨header,hd',_⟩,_⟩
      rw [hd] at hd'; cases hd'
    | ok header =>
      dsimp only
      by_cases hmax : limits.maxPartLen < header.partLen
      · rw [if_pos hmax,if_pos hmax]
        by_cases hfit : pos+frameHeaderLen+header.partLen.toNat ≤ b.length
        · refine .inl ⟨_,⟨⟨header,hd,hmax,rfl⟩,hfit⟩,rfl,?_⟩
          rw [checkedAdd_of_le (by omega),Option.bind_some,checkedAdd_of_le (by omega)]
          simp [StreamingFrame.toCheck,hfit]
        · refine .inr ⟨?_,?_⟩
          · rintro stop ⟨⟨header',hd',_,he⟩,hle⟩
            rw [hd] at hd'; cases hd'
            omega
          · rw [checkedAdd_of_le (by omega),Option.bind_some,checkedAdd]
            split_ifs with ho
            · simpa [StreamingFrame.toCheck] using hfit
            · rfl
      · rw [if_neg hmax,if_neg hmax]
        refine .inr ⟨?_,?_⟩
        · rintro stop ⟨⟨header',hd',hmax',_⟩,_⟩
          rw [hd] at hd'; cases hd'
          exact hmax hmax'
        · by_cases hbody : b.length - pos - frameHeaderLen < header.partLen.toNat
          · rw [if_pos hbody,if_pos hbody]; rfl
          · rw [if_neg hbody,if_neg hbody]
            have hlen : (slice b (pos+frameHeaderLen) header.partLen.toNat).length =
                header.partLen.toNat := slice_length_of_le (by omega)
            dsimp only
            unfold streamingBody
            cases hv : validatePart (slice b (pos+frameHeaderLen) header.partLen.toNat) with
            | error e => simp [StreamingFrame.toCheck,hlen]
            | ok catalog =>
              simp [validatePart_checkedRows hv,StreamingFrame.toCheck,hlen]

theorem OversizedFrame.not_valid {b : Bytes} {limits : JournalLimits} {pos stop n : ℕ}
    (h : OversizedFrame b limits pos stop) : ¬ ValidFrame b limits pos n := by
  rintro ⟨_,⟨header,hd,_,hle⟩,_⟩
  obtain ⟨header',hd',hlt,_⟩ := h.header
  rw [hd] at hd'; cases hd'
  exact UInt64.not_lt.mpr hle hlt

theorem streamingFrame_valid_iff {b : Bytes} (hb : b.length ≤ u64Max) {pos n : ℕ}
    {limits : JournalLimits} :
    (∃ rows, streamingFrame b pos limits = .valid n rows) ↔ ValidFrame b limits pos n := by
  have hcheck : (∃ rows, streamingFrame b pos limits = .valid n rows) ↔
      (streamingFrame b pos limits).toCheck = .valid n := by
    cases streamingFrame b pos limits with
    | valid m rows => simp [StreamingFrame.toCheck]
    | damaged reason impliedEnd canResync => cases reason <;> simp [StreamingFrame.toCheck]
  rw [hcheck]
  rcases toCheck_streamingFrame hb pos limits with ⟨stop,hover,_,he⟩ | ⟨_,he⟩
  · rw [he]
    exact iff_of_false (by simp) hover.not_valid
  · rw [he,frameAt_valid_iff]

inductive JournalScanError
  | io (error : IoError)
  | partLimitExceeded (limit : ℕ)
  deriving DecidableEq

/-- The strict scan from `pos`; it stops at the first damage. -/
def strictFrom {σ : Type} [ReadAt σ] (totalLen : ℕ) (limits : JournalLimits) (maxParts : ℕ) :
    ℕ → ℕ → ScanReport → Reading σ JournalScanError ScanReport
  | 0, _, report => pure report
  | fuel+1, pos, report =>
    if totalLen ≤ pos then pure report
    else do
      match ← mapError .io (streamingFrameAt totalLen pos limits) with
      | .valid bodyLen _ =>
        if maxParts ≤ report.parts.length then fail (.partLimitExceeded maxParts)
        else
          strictFrom totalLen limits maxParts fuel (pos+frameHeaderLen+bodyLen)
            (report.accept ⟨pos+frameHeaderLen,bodyLen⟩)
      | .damaged .tornFrameHeader _ _ => pure (report.damage pos .tornTail)
      | .damaged .tornFrameBody _ _ => pure (report.damage pos .tornTail)
      | .damaged _ impliedEnd _ =>
        pure (report.damage pos
          (if impliedEnd = some totalLen then .tornTail else .quarantinedTail))

def scanJournalStreamingStrictFrom {σ : Type} [ReadAt σ] (startAt : UInt64)
    (limits : JournalLimits) (maxParts : ℕ) : Reading σ JournalScanError ScanReport := do
  let totalLen ← mapError .io ReadAt.byteLen
  if totalLen < startAt then
    fail (.io ⟨.invalidInput,"start_at is beyond the journal source"⟩)
  else
    strictFrom totalLen.toNat limits maxParts (totalLen.toNat - startAt.toNat + 1) startAt.toNat
      ⟨[],[],startAt.toNat⟩

/-- How the strict scan classifies a frame that is not valid. -/
def strictKind (totalLen : ℕ) : FrameCheck → DamageKind
  | .torn => .tornTail
  | .damaged impliedEnd => if impliedEnd = some totalLen then .tornTail else .quarantinedTail
  | .valid _ => .quarantinedTail

section StrictOnBytes

variable {σ : Type} [ReadAt σ] {s : σ} {b : Bytes} {limits : JournalLimits}

/-- The strict scan follows a run of valid frames. -/
theorem strictFrom_run (hr : ReadsPrefix s b) (hb : b.length ≤ u64Max) {pos stop fuel maxParts : ℕ}
    {parts : List PartRef} (h : FrameRun b limits pos parts stop) (report : ScanReport)
    (hmax : report.parts.length + parts.length ≤ maxParts) (hfuel : b.length < pos + fuel) :
    ∃ fuel', b.length < stop + fuel' ∧
      strictFrom b.length limits maxParts fuel pos report s =
        strictFrom b.length limits maxParts fuel' stop (parts.foldl ScanReport.accept report) s := by
  have hfh : frameHeaderLen = 16 := rfl
  induction h generalizing fuel report with
  | nil pos => exact ⟨fuel,hfuel,rfl⟩
  | cons frame rest ih =>
    rename_i pos n stop parts
    have hfit := frame.fits
    obtain ⟨fuel,rfl⟩ : ∃ k, fuel = k+1 := ⟨fuel-1,by omega⟩
    rw [List.length_cons] at hmax
    obtain ⟨fuel',hf,he⟩ := ih (report.accept ⟨pos+frameHeaderLen,n⟩)
      (by simp [ScanReport.accept]; omega)
      (show b.length < pos+frameHeaderLen+n + fuel by omega)
    obtain ⟨rows,hvalid⟩ := (streamingFrame_valid_iff hb).mpr frame
    refine ⟨fuel',hf,?_⟩
    have hstep := streamingFrameAt_readsPrefix hr pos limits
    rw [hvalid] at hstep
    rw [strictFrom,if_neg (by omega),bind_apply_ok (mapError_apply_ok hstep)]
    dsimp only
    rw [if_neg (by omega)]
    exact he

theorem strictFrom_end {totalLen stop fuel maxParts : ℕ} (hle : totalLen ≤ stop)
    (report : ScanReport) :
    strictFrom totalLen limits maxParts fuel stop report s = .ok (report,s) := by
  cases fuel with
  | zero => rfl
  | succ fuel => rw [strictFrom,if_pos hle]; rfl

theorem strictFrom_damaged (hr : ReadsPrefix s b) (hb : b.length ≤ u64Max) {stop fuel maxParts : ℕ}
    (hlt : stop < b.length) (hnot : ∀ n, ¬ ValidFrame b limits stop n) (hfuel : 0 < fuel)
    (report : ScanReport) :
    strictFrom b.length limits maxParts fuel stop report s =
      .ok (report.damage stop (strictKind b.length (streamingFrame b stop limits).toCheck),s) := by
  obtain ⟨fuel,rfl⟩ : ∃ k, fuel = k+1 := ⟨fuel-1,by omega⟩
  have hstep := streamingFrameAt_readsPrefix hr stop limits
  rw [strictFrom,if_neg (by omega),bind_apply_ok (mapError_apply_ok hstep)]
  cases hf : streamingFrame b stop limits with
  | valid n rows => exact absurd ((streamingFrame_valid_iff hb).mp ⟨rows,hf⟩) (hnot n)
  | damaged reason impliedEnd canResync => cases reason <;> rfl

/-- The whole strict scan, from the maximal run of valid frames. -/
theorem scanStrict_of_maximal (hr : ReadsAs s b) (hb : b.length ≤ u64Max) {startAt : UInt64}
    {stop maxParts : ℕ} {parts : List PartRef} (hstart : startAt.toNat ≤ b.length)
    (hrun : FrameRun b limits startAt.toNat parts stop)
    (hnot : ∀ n, ¬ ValidFrame b limits stop n) (hmax : parts.length ≤ maxParts) :
    scanJournalStreamingStrictFrom startAt limits maxParts s =
      .ok (⟨parts,if b.length ≤ stop then [] else
        [⟨stop,strictKind b.length (streamingFrame b stop limits).toCheck⟩],stop⟩,s) := by
  have hlen : (UInt64.ofNat b.length).toNat = b.length :=
    UInt64.toNat_ofNat_of_lt' (by rw [u64Max] at hb; simpa [UInt64.size] using by omega)
  have hfold := foldl_accept ⟨[],[],startAt.toNat⟩ parts
  rw [hrun.partsEnd_eq] at hfold
  simp only [List.nil_append] at hfold
  unfold scanJournalStreamingStrictFrom
  rw [bind_apply_ok (mapError_apply_ok hr.byteLen),
    if_neg (by rw [UInt64.not_lt,UInt64.le_iff_toNat_le,hlen]; exact hstart),hlen]
  obtain ⟨fuel',hfuel,he⟩ := strictFrom_run hr.read hb hrun ⟨[],[],startAt.toNat⟩
    (show _ ≤ maxParts by simpa using hmax)
    (show b.length < startAt.toNat + (b.length - startAt.toNat + 1) by omega)
  rw [he,hfold]
  split_ifs with hle
  · exact strictFrom_end hle _
  · exact strictFrom_damaged hr.read hb (by omega) hnot (by omega) _

theorem ValidFrame.not_at_end {stop n : ℕ} (hle : b.length ≤ stop) :
    ¬ ValidFrame b limits stop n := by
  intro hv
  have hfit := hv.fits
  have hfh : frameHeaderLen = 16 := rfl
  omega

/-- Frames up to the last byte scan without damage. -/
theorem scanStrict_clean (hr : ReadsAs s b) (hb : b.length ≤ u64Max) (startAt : UInt64)
    (maxParts : ℕ) {parts : List PartRef} (hstart : startAt.toNat ≤ b.length)
    (hrun : FrameRun b limits startAt.toNat parts b.length) (hmax : parts.length ≤ maxParts) :
    scanJournalStreamingStrictFrom startAt limits maxParts s =
      .ok (⟨parts,[],b.length⟩,s) := by
  rw [scanStrict_of_maximal hr hb hstart hrun (fun _ => ValidFrame.not_at_end (le_refl _)) hmax,
    if_pos (le_refl _)]

/-- A strict scan without damage has followed a run of valid frames. -/
theorem strictFrom_frameRun {next : σ} (hr : ReadsPrefix s b) (hb : b.length ≤ u64Max)
    {fuel pos maxParts : ℕ} {report result : ScanReport}
    (h : strictFrom b.length limits maxParts fuel pos report s = .ok (result,next))
    (hpos : report.validLen = pos) (hclean : result.damages = []) :
    ∃ more, result.parts = report.parts ++ more ∧ FrameRun b limits pos more result.validLen := by
  induction fuel generalizing pos report with
  | zero =>
    cases h
    exact ⟨[],by simp,hpos ▸ .nil _⟩
  | succ fuel ih =>
    have hstep := streamingFrameAt_readsPrefix hr pos limits
    rw [strictFrom] at h
    by_cases hend : b.length ≤ pos
    · rw [if_pos hend] at h
      cases h
      exact ⟨[],by simp,hpos ▸ .nil _⟩
    · rw [if_neg hend,bind_apply_ok (mapError_apply_ok hstep)] at h
      cases hf : streamingFrame b pos limits with
      | valid n rows =>
        rw [hf] at h
        dsimp only at h
        split_ifs at h with hmax
        · cases h
        · obtain ⟨more,hparts,hrun⟩ := ih h rfl
          refine ⟨_::more,?_,.cons ((streamingFrame_valid_iff hb).mp ⟨rows,hf⟩) hrun⟩
          rw [hparts,ScanReport.accept,List.append_assoc]
          rfl
      | damaged reason impliedEnd canResync =>
        rw [hf] at h
        cases reason <;> (cases h; simp [ScanReport.damage] at hclean)

theorem scanStrict_frameRun {next : σ} (hr : ReadsAs s b) (hb : b.length ≤ u64Max) {startAt : UInt64}
    {maxParts : ℕ} {report : ScanReport}
    (h : scanJournalStreamingStrictFrom startAt limits maxParts s = .ok (report,next))
    (hclean : report.damages = []) :
    FrameRun b limits startAt.toNat report.parts report.validLen := by
  have hlen : (UInt64.ofNat b.length).toNat = b.length :=
    UInt64.toNat_ofNat_of_lt' (by rw [u64Max] at hb; simpa [UInt64.size] using by omega)
  unfold scanJournalStreamingStrictFrom at h
  rw [bind_apply_ok (mapError_apply_ok hr.byteLen)] at h
  split_ifs at h with hlt
  · cases h
  · rw [hlen] at h
    obtain ⟨more,hparts,hrun⟩ := strictFrom_frameRun hr.read hb h rfl hclean
    rw [hparts]
    exact hrun

/-- The scan depends on the bytes alone, not on the source that answers them. -/
theorem strictFrom_congr {τ : Type} [ReadAt τ] {t : τ} (hs : ReadsPrefix s b)
    (ht : ReadsPrefix t b) (maxParts fuel pos : ℕ) (report : ScanReport) :
    (strictFrom b.length limits maxParts fuel pos report s).map Prod.fst =
      (strictFrom b.length limits maxParts fuel pos report t).map Prod.fst := by
  induction fuel generalizing pos report with
  | zero => rfl
  | succ fuel ih =>
    have hstep := streamingFrameAt_readsPrefix hs pos limits
    have hstep' := streamingFrameAt_readsPrefix ht pos limits
    rw [strictFrom,strictFrom]
    by_cases hend : b.length ≤ pos
    · rw [if_pos hend,if_pos hend]
      rfl
    · rw [if_neg hend,if_neg hend,bind_apply_ok (mapError_apply_ok hstep),
        bind_apply_ok (mapError_apply_ok hstep')]
      cases streamingFrame b pos limits with
      | valid n rows =>
        dsimp only
        by_cases hmax : maxParts ≤ report.parts.length
        · rw [if_pos hmax,if_pos hmax]
          rfl
        · rw [if_neg hmax,if_neg hmax]
          exact ih _ _
      | damaged reason impliedEnd canResync => cases reason <;> rfl

theorem scanStrict_congr {τ : Type} [ReadAt τ] {t : τ} (hs : ReadsAs s b) (ht : ReadsAs t b)
    (startAt : UInt64) (maxParts : ℕ) (hb : b.length ≤ u64Max) :
    (scanJournalStreamingStrictFrom startAt limits maxParts s).map Prod.fst =
      (scanJournalStreamingStrictFrom startAt limits maxParts t).map Prod.fst := by
  have hlen : (UInt64.ofNat b.length).toNat = b.length :=
    UInt64.toNat_ofNat_of_lt' (by rw [u64Max] at hb; simpa [UInt64.size] using by omega)
  unfold scanJournalStreamingStrictFrom
  rw [bind_apply_ok (mapError_apply_ok hs.byteLen),bind_apply_ok (mapError_apply_ok ht.byteLen)]
  split_ifs with hlt
  · rfl
  · rw [hlen]
    exact strictFrom_congr hs.read ht.read _ _ _ _

end StrictOnBytes

end PgKronika
