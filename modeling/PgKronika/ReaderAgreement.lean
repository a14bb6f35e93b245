import PgKronika.JournalReader

/-! Reader and writer on one journal file: both sides accept the same files, with the
same parts, and see the same committed resets. -/
namespace PgKronika

open ByteCodec CheckedArith StateLogic FileTrace

/-- What a side makes of a journal file it accepts. -/
inductive JournalView
  | holds (segmentId : Option SegmentId) (parts : List PartRef)
  | reset
  deriving DecidableEq

/-- The plan of a file and its frames, before any metadata is retained. -/
def readFrames (file : Bytes) : Except JournalReadError (JournalReadPlan × List PartRef) :=
  readJournalPlan file >>= fun plan =>
  match plan.segmentId with
  | none => .ok (plan,[])
  | some _ =>
    scanJournalFrames ⟨file,plan.scanLen⟩ (UInt64.ofNat journalHeaderLen) maxJournalParts
      maxJournalParts >>= fun report =>
    if ¬ report.damages.isEmpty ∨ report.validLen ≠ plan.scanLen.toNat then .error .damagedFrames
    else .ok (plan,report.parts)

def JournalReadPlan.view (plan : JournalReadPlan) (parts : List PartRef) : JournalView :=
  if plan.committedReset then .reset else .holds plan.segmentId parts

def readerView (file : Bytes) : Option JournalView :=
  (readFrames file).toOption.map fun (plan,parts) => plan.view parts

/-- Whether opening the file completes a committed reset. -/
def completesReset (file : Bytes) (config : JournalConfig) : Bool :=
  (recoverCommittedReset ⟨file,[]⟩ config).1 = .ok true

def writerView (file : Bytes) (nextGeneration : ℕ) : Option JournalView :=
  (Journal.openRoot .default false ⟨file,[]⟩ (.ok ()) nextGeneration).1.toOption.map fun j =>
    if completesReset file .default then .reset
    else .holds j.segmentId (j.parts.map JournalPartRef.raw)

theorem scanJournalFrames_ok {reader : PrefixReader} {startAt : UInt64} {remaining total : ℕ}
    {report : ScanReport} (h : scanJournalFrames reader startAt remaining total = .ok report) :
    ∃ next, scanJournalStreamingStrictFrom startAt JournalConfig.default.limits remaining reader =
      .ok (report,next) := by
  unfold scanJournalFrames at h
  split at h
  · rename_i r next hscan
    cases h
    exact ⟨next,hscan⟩
  · split_ifs at h
  · cases h

theorem committedResetPlan_some {file headerBytes : Bytes} {plan : JournalReadPlan}
    (h : committedResetPlan file headerBytes = some plan) :
    ∃ marker segmentId, journalHeaderLen + resetMarkerLen < file.length ∧
      ResetMarker.decode (slice file (file.length-resetMarkerLen) resetMarkerLen) = some marker ∧
      marker.previousLen.toNat = file.length-resetMarkerLen ∧
      marker.expectedPreviousHeader.isSome ∧
      (marker.classifyHeaderTransition headerBytes).isSome ∧
      SegmentId.new marker.previousSegmentId = .ok segmentId ∧
      plan = ⟨some segmentId,marker.previousLen,file.length,true⟩ := by
  unfold committedResetPlan at h
  split at h
  · cases h
  · rename_i markerAt hat
    obtain ⟨hle,rfl⟩ := checkedSub_eq_some.mp hat
    split_ifs at h with hmin
    split at h
    · cases h
    · rename_i marker hmarker
      split_ifs at h with hcheck
      push Not at hcheck
      split at h
      · cases h
      · rename_i segmentId hid
        refine ⟨marker,segmentId,by omega,hmarker,hcheck.1,?_,?_,hid,(Option.some.inj h).symm⟩
        · simpa [Option.isSome_iff_ne_none] using hcheck.2.1
        · simpa [Option.isSome_iff_ne_none] using hcheck.2.2

/-- Both sides find the same committed marker. -/
theorem committedMarker_of_plan {file : Bytes} (hlen : file.length ≤ maxJournalLen)
    {plan : JournalReadPlan} (h : committedResetPlan file (slice file 0 journalHeaderLen) = some plan) :
    ∃ marker segmentId, committedMarker file .default = some marker ∧
      journalHeaderLen < marker.previousLen.toNat ∧
      marker.previousLen.toNat + resetMarkerLen = file.length ∧
      plan = ⟨some segmentId,marker.previousLen,file.length,true⟩ := by
  obtain ⟨marker,segmentId,hmin,hdecode,hprev,hexpected,hclass,hid,rfl⟩ := committedResetPlan_some h
  refine ⟨marker,segmentId,?_,by omega,by omega,rfl⟩
  unfold committedMarker
  rw [if_neg (by omega)]
  dsimp only
  rw [hdecode]
  dsimp only
  rw [if_neg ?_,if_neg (by simpa [Option.isSome_iff_ne_none] using hexpected),
    if_neg (by simpa [Option.isSome_iff_ne_none] using hclass)]
  have hmax : JournalConfig.default.maxJournalLen = maxJournalLen := rfl
  rw [hprev,hid,hmax]
  simp [Except.toOption]
  omega

theorem committedMarker_of_no_plan {file : Bytes}
    (h : committedResetPlan file (slice file 0 journalHeaderLen) = none) :
    committedMarker file .default = none := by
  by_contra hne
  obtain ⟨marker,hmarker⟩ := Option.ne_none_iff_exists'.mp hne
  obtain ⟨hmin,hdecode,hprev,hclass⟩ := committedMarker_some hmarker
  have hexpected : marker.expectedPreviousHeader.isSome := by
    rw [ResetMarker.classifyHeaderTransition] at hclass
    cases he : marker.expectedPreviousHeader with
    | none => rw [he] at hclass; simp at hclass
    | some header => rfl
  have hlong : journalHeaderLen < marker.previousLen.toNat := by
    by_contra hshort
    rw [ResetMarker.expectedPreviousHeader,ResetMarker.new,if_pos (by omega)] at hexpected
    cases hexpected
  have hid : ∃ segmentId, SegmentId.new marker.previousSegmentId = .ok segmentId := by
    unfold committedMarker at hmarker
    rw [if_neg (by omega)] at hmarker
    dsimp only at hmarker
    rw [hdecode] at hmarker
    dsimp only at hmarker
    split_ifs at hmarker with hcheck
    cases hnew : SegmentId.new marker.previousSegmentId with
    | error e => rw [hnew] at hcheck; simp [Except.toOption] at hcheck
    | ok segmentId => exact ⟨segmentId,rfl⟩
  obtain ⟨segmentId,hid⟩ := hid
  have hplan : committedResetPlan file (slice file 0 journalHeaderLen) =
      some ⟨some segmentId,marker.previousLen,file.length,true⟩ := by
    unfold committedResetPlan
    rw [checkedSub_of_le (by omega)]
    dsimp only
    rw [if_neg (by omega),hdecode]
    dsimp only
    rw [if_neg ?_,hid]
    have hexp := Option.isSome_iff_ne_none.mp hexpected
    have hcl := Option.isSome_iff_ne_none.mp hclass
    simp [hprev,hexp,hcl]
  rw [hplan] at h
  cases h

theorem JournalHeader.decode_active_state {bytes : Bytes} {segmentId : Int64} {bodyLen : UInt64}
    (h : decode bytes = .ok ⟨.active segmentId,bodyLen⟩) : u8At bytes 12 = 1 := by
  unfold decode at h
  dsimp only at h
  split_ifs at h with _ _ _ _ _ _ hactive
  · cases h
  · exact hactive.1

/-- Behind a committed marker the file is no journal of its own: every header that the
marker recognizes counts other bytes. -/
theorem openContents_marked {file : Bytes} {config : JournalConfig} {marker : ResetMarker}
    (h : committedMarker file config = some marker) : ∃ e, openContents file config = .error e := by
  obtain ⟨hmin,_,hprev,hclass⟩ := committedMarker_some h
  have hm : resetMarkerLen = 32 := rfl
  unfold openContents
  rw [if_neg (by omega)]
  cases hd : JournalHeader.decode (slice file 0 journalHeaderLen) with
  | error e => cases e <;> exact ⟨_,rfl⟩
  | ok header =>
    obtain ⟨state,bodyLen⟩ := header
    dsimp only
    by_cases hbody : bodyLen.toNat ≠ file.length - journalHeaderLen
    · exact ⟨_,if_pos hbody⟩
    · rw [if_neg hbody]
      cases state with
      | empty => exact ⟨_,if_pos (by omega)⟩
      | active segmentId =>
        have hstate := JournalHeader.decode_active_state hd
        have hsame := ResetMarker.classify_nonempty (by rw [hstate]; decide) hclass
        rw [hsame,JournalHeader.decode_encode] at hd
        have hcount := congrArg JournalHeader.bodyLen (Except.ok.inj hd)
        have hfits := @activeHeader_bodyLen marker.previousLen marker.previousSegmentId (by omega)
        rw [hcount] at hfits
        dsimp only at hfits
        omega

/-- The scan that decides whether a marker commits its reset, with its outcome. -/
theorem recover_marked {file : Bytes} {config : JournalConfig} {marker : ResetMarker}
    (h : committedMarker file config = some marker) :
    recoverCommittedReset ⟨file,[]⟩ config =
      match scanJournalStreamingStrictFrom (UInt64.ofNat journalHeaderLen) config.limits
          config.maxParts (PrefixReader.mk file marker.previousLen) with
      | .error e => (.error (mapScanError e),⟨file,[]⟩)
      | .ok (scan,_) =>
        if scan.parts.isEmpty ∨ ¬ scan.damages.isEmpty ∨
            scan.validLen ≠ marker.previousLen.toNat then (.ok false,⟨file,[]⟩)
        else (.ok true,⟨Generation.fresh.image,[]⟩) := by
  unfold recoverCommittedReset
  dsimp only
  rw [h]
  dsimp only
  rewrite [performAll_of_no_faults,applyAll_finishCommittedReset]
  rfl

section Open

variable {file : Bytes} (nextGeneration : ℕ)

/-- What an open of an existing file comes to after its recovery step. -/
theorem openRoot_of_recover (hlen : file.length ≤ maxJournalLen) (left : Bytes)
    (recovered : Except JournalError Bool) :
    recoverCommittedReset ⟨file,[]⟩ .default = (recovered,⟨left,[]⟩) →
    Journal.openRoot .default false ⟨file,[]⟩ (.ok ()) nextGeneration =
      match recovered with
      | .error e => (.error e,⟨left,[]⟩,nextGeneration)
      | .ok _ =>
        let bytes := if left.length = 0 then Generation.fresh.image else left
        match openContents bytes .default with
        | .error e => (.error e,⟨bytes,[]⟩,nextGeneration)
        | .ok (segmentId,parts) =>
          (.ok (Journal.opened bytes .default segmentId parts nextGeneration),⟨bytes,[]⟩,
            nextGeneration+1) := by
  intro h
  have hmax : JournalConfig.default.maxJournalLen = maxJournalLen := rfl
  unfold Journal.openRoot
  rw [validateConfig_default]
  dsimp only
  rw [if_neg (by decide),Disk.performAll]
  dsimp only
  rw [hmax,if_neg (not_lt.mpr hlen),h]
  cases recovered with
  | error e => rfl
  | ok b =>
    dsimp only
    split_ifs with hzero
    · rw [performAll_of_no_faults,applyAll_initializeFile]
      dsimp only
      cases openContents Generation.fresh.image .default <;> rfl
    · rw [performAll_of_no_faults,applyAll_nil]
      dsimp only
      cases openContents left .default <;> rfl

/-- A completed reset opens as the empty journal. -/
theorem openRoot_completed (hlen : file.length ≤ maxJournalLen)
    (h : recoverCommittedReset ⟨file,[]⟩ .default = (.ok true,⟨Generation.fresh.image,[]⟩)) :
    Journal.openRoot .default false ⟨file,[]⟩ (.ok ()) nextGeneration =
      (.ok (Journal.opened Generation.fresh.image .default none [] nextGeneration),
        ⟨Generation.fresh.image,[]⟩,nextGeneration+1) := by
  have hfresh := Generation.openContents_image (Generation.fresh_fits validateConfig_default)
    validateConfig_default
  rw [openRoot_of_recover nextGeneration hlen _ _ h]
  dsimp only
  rw [ite_self,hfresh]
  rfl

theorem writerView_of_recover (hlen : file.length ≤ maxJournalLen) (hpos : file.length ≠ 0)
    {completed : Bool}
    (h : recoverCommittedReset ⟨file,[]⟩ .default = (.ok completed,⟨file,[]⟩)) :
    writerView file nextGeneration = (openContents file .default).toOption.map fun r =>
      if completed then .reset else .holds r.1 r.2 := by
  have hreset : completesReset file .default = completed := by
    rw [completesReset,h]
    cases completed <;> simp
  rw [writerView,openRoot_of_recover nextGeneration hlen _ _ h,hreset]
  dsimp only
  rw [if_neg hpos]
  cases openContents file .default with
  | error e => rfl
  | ok r => cases completed <;> simp [Except.toOption,Journal.opened,Function.comp_def]

end Open

theorem scanJournalFrames_eq (reader : PrefixReader) (startAt : UInt64) (remaining total : ℕ) :
    (scanJournalFrames reader startAt remaining total).toOption =
      ((scanJournalStreamingStrictFrom startAt JournalConfig.default.limits remaining reader).map
        Prod.fst).toOption := by
  unfold scanJournalFrames
  cases scanJournalStreamingStrictFrom startAt JournalConfig.default.limits remaining reader with
  | ok r => rfl
  | error e =>
    cases e with
    | io error => dsimp only; split_ifs <;> rfl
    | partLimitExceeded limit => rfl

/-- Without a committed marker both sides read the header and the frames alike. -/
theorem readerView_unmarked {file : Bytes} (hmin : journalHeaderLen ≤ file.length)
    (hlen : file.length ≤ maxJournalLen)
    (hplan : committedResetPlan file (slice file 0 journalHeaderLen) = none) :
    readerView file = (openContents file .default).toOption.map fun r => .holds r.1 r.2 := by
  have hh : journalHeaderLen = 36 := rfl
  have hmax : maxJournalLen = 2^30 := rfl
  have hto : (UInt64.ofNat file.length).toNat = file.length := toNat_ofNat_of_le (by omega)
  have hreads := readsAs_upTo file (UInt64.ofNat file.length) (by rw [hto])
  rw [hto,List.take_of_length_le (le_refl _)] at hreads
  have hscans := @scanStrict_congr _ _ _ _ JournalConfig.default.limits _ _ _ hreads
    (readsAs_bytes file) (UInt64.ofNat journalHeaderLen) maxJournalParts (by rw [u64Max]; omega)
  unfold readerView readFrames readJournalPlan openContents
  rw [if_neg (by omega),if_neg (by omega),if_neg (by omega),if_neg (by omega),hplan]
  dsimp only
  cases hd : JournalHeader.decode (slice file 0 journalHeaderLen) with
  | error e => cases e <;> rfl
  | ok header =>
    obtain ⟨state,bodyLen⟩ := header
    dsimp only
    by_cases hbody : bodyLen.toNat ≠ file.length - journalHeaderLen
    · rw [if_pos hbody,if_pos hbody]
      rfl
    · rw [if_neg hbody,if_neg hbody]
      cases state with
      | empty =>
        dsimp only
        by_cases hactual : file.length - journalHeaderLen = 0
        · rw [if_pos hactual,if_neg (by simp [hactual])]
          rfl
        · rw [if_neg hactual,if_pos hactual]
          rfl
      | active raw =>
        dsimp only
        cases hid : SegmentId.new raw with
        | error e => split_ifs <;> rfl
        | ok segmentId =>
          dsimp only
          have hframes := scanJournalFrames_eq ⟨file,UInt64.ofNat file.length⟩
            (UInt64.ofNat journalHeaderLen) maxJournalParts maxJournalParts
          rw [hscans] at hframes
          have hparts : JournalConfig.default.maxParts = maxJournalParts := rfl
          rw [hparts]
          cases hscan : scanJournalStreamingStrictFrom (UInt64.ofNat journalHeaderLen)
              JournalConfig.default.limits maxJournalParts file with
          | error e =>
            rw [hscan] at hframes
            split_ifs with hactual
            · rfl
            · dsimp only [Bind.bind,Except.bind]
              cases hf : scanJournalFrames ⟨file,UInt64.ofNat file.length⟩
                  (UInt64.ofNat journalHeaderLen) maxJournalParts maxJournalParts with
              | error e' => rfl
              | ok report => rw [hf] at hframes; cases hframes
          | ok r =>
            obtain ⟨report,next⟩ := r
            rw [hscan] at hframes
            have hf : scanJournalFrames ⟨file,UInt64.ofNat file.length⟩
                (UInt64.ofNat journalHeaderLen) maxJournalParts maxJournalParts = .ok report := by
              cases hf : scanJournalFrames ⟨file,UInt64.ofNat file.length⟩
                  (UInt64.ofNat journalHeaderLen) maxJournalParts maxJournalParts with
              | error e' => rw [hf] at hframes; cases hframes
              | ok report' => rw [hf] at hframes; cases hframes; rfl
            dsimp only
            have hrun := scanStrict_frameRun (readsAs_bytes file) (by rw [u64Max]; omega) hscan
            by_cases hbad : ¬ report.damages.isEmpty ∨ report.validLen ≠ file.length
            · rw [if_pos hbad]
              split_ifs with hactual
              · rfl
              · dsimp only [Bind.bind,Except.bind]
                rw [hf]
                dsimp only
                rw [if_pos (by rwa [hto])]
                rfl
            · rw [if_neg hbad]
              push Not at hbad
              obtain ⟨hclean,hend⟩ := hbad
              have hrun := hrun (List.isEmpty_iff.mp hclean)
              rw [hend] at hrun
              split_ifs with hactual hempty hempty
              · rfl
              · exact absurd (List.isEmpty_iff.mpr (hrun.nil_iff.mpr (show _ = journalHeaderLen by
                  omega))) hempty
              · exact absurd (hrun.nil_iff.mp (List.isEmpty_iff.mp hempty))
                  (show ¬ _ = journalHeaderLen by omega)
              · dsimp only [Bind.bind,Except.bind]
                rw [hf]
                dsimp only
                rw [if_neg (by rw [hto]; simp [hclean,hend])]
                rfl

/-- Behind a committed marker the scan of the old frames decides for both sides. -/
theorem readerView_marked {file : Bytes} (hlen : file.length ≤ maxJournalLen)
    {plan : JournalReadPlan}
    (hplan : committedResetPlan file (slice file 0 journalHeaderLen) = some plan)
    (nextGeneration : ℕ) : readerView file = writerView file nextGeneration := by
  have hh : journalHeaderLen = 36 := rfl
  have hm : resetMarkerLen = 32 := rfl
  have hmax : maxJournalLen = 2^30 := rfl
  obtain ⟨marker,segmentId,hmarker,hprev,htotal,rfl⟩ := committedMarker_of_plan hlen hplan
  have hrecover := recover_marked hmarker
  have hframes := scanJournalFrames_eq ⟨file,marker.previousLen⟩
    (UInt64.ofNat journalHeaderLen) maxJournalParts maxJournalParts
  have hparts : JournalConfig.default.maxParts = maxJournalParts := rfl
  rw [hparts] at hrecover
  have hreader : readerView file =
      (scanJournalFrames ⟨file,marker.previousLen⟩ (UInt64.ofNat journalHeaderLen) maxJournalParts
        maxJournalParts).toOption.bind fun report =>
          if ¬ report.damages.isEmpty ∨ report.validLen ≠ marker.previousLen.toNat then none
          else some .reset := by
    unfold readerView readFrames readJournalPlan
    rw [if_neg (by omega),if_neg (by omega),if_neg (by omega),hplan]
    dsimp only [Bind.bind,Except.bind]
    cases scanJournalFrames ⟨file,marker.previousLen⟩ (UInt64.ofNat journalHeaderLen)
        maxJournalParts maxJournalParts with
    | error e => rfl
    | ok report =>
      dsimp only [Except.toOption,Option.bind]
      split_ifs <;> rfl
  have hnone : ∀ completed, recoverCommittedReset ⟨file,[]⟩ .default =
      (.ok completed,⟨file,[]⟩) → writerView file nextGeneration = none := by
    intro completed h
    obtain ⟨e,he⟩ := openContents_marked hmarker
    rw [writerView_of_recover nextGeneration hlen (by omega) h,he]
    rfl
  rw [hreader,hframes]
  cases hscan : scanJournalStreamingStrictFrom (UInt64.ofNat journalHeaderLen)
      JournalConfig.default.limits maxJournalParts
      (PrefixReader.mk file marker.previousLen) with
  | error e =>
    rw [hscan] at hrecover
    rw [writerView,openRoot_of_recover nextGeneration hlen _ _ hrecover]
    rfl
  | ok r =>
    obtain ⟨report,next⟩ := r
    rw [hscan] at hrecover
    dsimp only at hrecover
    dsimp only [Except.map,Except.toOption,Option.bind]
    by_cases hbad : ¬ report.damages.isEmpty ∨ report.validLen ≠ marker.previousLen.toNat
    · rw [if_pos (.inr hbad)] at hrecover
      rw [if_pos hbad,hnone false hrecover]
    · have hbad' := hbad
      push Not at hbad
      obtain ⟨hclean,hend⟩ := hbad
      have hrun := scanStrict_frameRun (readsAs_upTo file marker.previousLen (by omega))
        (by rw [List.length_take,u64Max]; omega) hscan (List.isEmpty_iff.mp hclean)
      rw [hend] at hrun
      have hne : ¬ report.parts.isEmpty := fun he =>
        absurd (hrun.nil_iff.mp (List.isEmpty_iff.mp he)) (show ¬ _ = journalHeaderLen by omega)
      rw [if_neg (not_or.mpr ⟨hne,hbad'⟩)] at hrecover
      have hreset : completesReset file .default := by rw [completesReset,hrecover]; simp
      rw [if_neg hbad',writerView,openRoot_completed nextGeneration hlen hrecover,hreset]
      rfl

theorem writerView_too_long {file : Bytes} (h : maxJournalLen < file.length)
    (nextGeneration : ℕ) : writerView file nextGeneration = none := by
  have hmax : JournalConfig.default.maxJournalLen = maxJournalLen := rfl
  unfold writerView Journal.openRoot
  rw [validateConfig_default]
  dsimp only
  rw [if_neg (by decide),Disk.performAll]
  dsimp only
  rw [hmax,if_pos h]
  rfl

/-- The writer's reset leaves it with the empty journal. -/
theorem openRoot_reset {file : Bytes} (nextGeneration : ℕ)
    (h : writerView file nextGeneration = some .reset) :
    Journal.openRoot .default false ⟨file,[]⟩ (.ok ()) nextGeneration =
      (.ok (Journal.opened Generation.fresh.image .default none [] nextGeneration),
        ⟨Generation.fresh.image,[]⟩,nextGeneration+1) := by
  by_cases hlong : maxJournalLen < file.length
  · rw [writerView_too_long hlong] at h
    cases h
  · have hreset : completesReset file .default = true := by
      unfold writerView at h
      obtain ⟨j,_,hj⟩ := Option.map_eq_some_iff.mp h
      split_ifs at hj with hreset
      exact hreset
    have hok := of_decide_eq_true hreset
    refine openRoot_completed nextGeneration (not_lt.mp hlong) (Prod.ext hok ?_)
    cases hmarker : committedMarker file .default with
    | none =>
      rw [@recoverCommittedReset_of_none ⟨file,[]⟩ _ hmarker] at hok
      cases hok
    | some marker =>
      have hrecover := recover_marked hmarker
      split at hrecover
      · rw [hrecover] at hok
        cases hok
      · split_ifs at hrecover with hbad
        · rw [hrecover] at hok
          cases hok
        · rw [hrecover]

/-- Both sides accept the same journal files, with the same contents. -/
theorem readerView_eq_writerView (file : Bytes) (nextGeneration : ℕ) :
    readerView file = writerView file nextGeneration := by
  have hh : journalHeaderLen = 36 := rfl
  have hm : resetMarkerLen = 32 := rfl
  by_cases hlong : maxJournalLen < file.length
  · unfold readerView readFrames readJournalPlan
    rw [writerView_too_long hlong,if_pos hlong]
    rfl
  · have hlen : file.length ≤ maxJournalLen := not_lt.mp hlong
    cases hplan : committedResetPlan file (slice file 0 journalHeaderLen) with
    | some plan => exact readerView_marked hlen hplan nextGeneration
    | none =>
      have hrecover := @recoverCommittedReset_of_none ⟨file,[]⟩ _
        (committedMarker_of_no_plan hplan)
      by_cases hzero : file.length = 0
      · have hfresh := Generation.openContents_image (Generation.fresh_fits validateConfig_default)
          validateConfig_default
        have hreset : completesReset file .default = false := by
          rw [completesReset,hrecover]
          simp
        rw [writerView,openRoot_of_recover nextGeneration hlen _ _ hrecover,hreset]
        dsimp only
        rw [if_pos hzero,hfresh]
        unfold readerView readFrames readJournalPlan
        rw [if_neg hlong,if_pos hzero]
        rfl
      · rw [writerView_of_recover nextGeneration hlen hzero hrecover]
        by_cases hmin : journalHeaderLen ≤ file.length
        · exact readerView_unmarked hmin hlen hplan
        · unfold readerView readFrames readJournalPlan openContents
          rw [if_neg hlong,if_neg hzero,if_pos (not_le.mp hmin),if_pos (not_le.mp hmin)]
          rfl

end PgKronika
