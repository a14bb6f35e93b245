import PgKronika.JournalCrash

/-! Which files a reset may touch. A consistent active journal is left alone at startup, and
a handle can be reset exactly when the opened file left room for the marker. -/
namespace PgKronika

open ByteCodec CheckedArith FileTrace

/-- The root header is an active one that covers the whole file. -/
def FillsFile (file : Bytes) : Prop :=
  ∃ segmentId bodyLen,
    JournalHeader.decode (slice file 0 journalHeaderLen) = .ok ⟨.active segmentId,bodyLen⟩ ∧
      bodyLen.toNat+journalHeaderLen = file.length

/-- An active header has its state byte set. -/
theorem JournalHeader.decode_ok_active {bytes : Bytes} {segmentId : Int64} {bodyLen : UInt64}
    (h : decode bytes = .ok ⟨.active segmentId,bodyLen⟩) : u8At bytes 12 ≠ 0 := by
  rw [decode] at h
  dsimp only at h
  split_ifs at h with hmagic hversion hcrc hreserved hempty hid hactive hmissing hunexpected
  · cases h
  · rw [hactive.1]
    decide

/-- A marker commits over an active header only when the header names the bytes in front
of it. -/
theorem committedMarker_decoded {file : Bytes} {config : JournalConfig} {marker : ResetMarker}
    {segmentId : Int64} {bodyLen : UInt64}
    (hh : JournalHeader.decode (slice file 0 journalHeaderLen) = .ok ⟨.active segmentId,bodyLen⟩)
    (h : committedMarker file config = some marker) :
    bodyLen.toNat+journalHeaderLen+resetMarkerLen = file.length := by
  obtain ⟨_,_,_,hclass⟩ := committedMarker_some h
  have hsame := ResetMarker.classify_nonempty (JournalHeader.decode_ok_active hh) hclass
  rw [hsame,JournalHeader.decode_encode] at hh
  obtain ⟨hstate,hbody⟩ := JournalHeader.mk.inj (Except.ok.inj hh)
  obtain rfl := JournalState.active.inj hstate
  rw [← hbody]
  exact committedMarker_active hsame h

theorem committedMarker_fills {file : Bytes} {config : JournalConfig} (h : FillsFile file) :
    committedMarker file config = none := by
  obtain ⟨segmentId,bodyLen,hdecode,hlen⟩ := h
  cases hm : committedMarker file config with
  | none => rfl
  | some marker =>
    have hcommitted := committedMarker_decoded hdecode hm
    have hmarker : resetMarkerLen = 32 := rfl
    omega

/-- A consistent active journal is never taken for a committed reset, whatever its last part
holds. -/
theorem active_journal_not_reset {file : Disk IoError} {config : JournalConfig}
    {segmentId : Int64} {bodyLen : UInt64}
    (hdecode : JournalHeader.decode (slice file.bytes 0 journalHeaderLen) =
      .ok ⟨.active segmentId,bodyLen⟩)
    (hlen : bodyLen.toNat = file.bytes.length-journalHeaderLen)
    (hfile : journalHeaderLen ≤ file.bytes.length) :
    recoverCommittedReset file config = (.ok false,file) :=
  recoverCommittedReset_of_none
    (committedMarker_fills ⟨segmentId,bodyLen,hdecode,by rw [hlen]; omega⟩)

/-- A journal whose last bytes are a marker for the bytes in front of them. -/
def markedBody : Bytes :=
  [0,0,0,0] ++ (ResetMarker.mk 40 0 (Crc32c.crc32c (activeHeader 40 0).encode)).encode

theorem active_journal_not_reset_sample :
    recoverCommittedReset ⟨JournalHeader.encode ⟨.active 0,36⟩ ++ markedBody,[]⟩ .default =
      (.ok false,⟨JournalHeader.encode ⟨.active 0,36⟩ ++ markedBody,[]⟩) := by
  refine @active_journal_not_reset ⟨JournalHeader.encode ⟨.active 0,36⟩ ++ markedBody,[]⟩
    .default 0 36 ?_ (by decide) (by decide)
  have hslice : slice (JournalHeader.encode ⟨.active 0,36⟩ ++ markedBody) 0 journalHeaderLen =
      JournalHeader.encode ⟨.active 0,36⟩ :=
    @slice_of_append _ [] (JournalHeader.encode ⟨.active 0,36⟩) markedBody 0 journalHeaderLen rfl
      rfl (JournalHeader.encode_length _)
  rw [hslice,JournalHeader.decode_encode]

section Resettable

/-- The marker of a reset fits behind the file, or there is nothing to reset. -/
def Journal.Resettable (j : Journal) : Prop :=
  j.parts = [] ∨ j.fileEnd+resetMarkerLen ≤ j.config.maxJournalLen

/-- A handle after some appends, successful or refused. -/
def Journal.afterAppends (j : Journal) (appends : List (SegmentId × Bytes)) : Journal :=
  appends.foldl (fun j a => (j.append a.1 a.2).2) j

/-- Undoing a failed write changes the file and the health of the handle only, and is never
reported as a full journal. -/
theorem Journal.undo_frame {j next : Journal} {file : Disk IoError} {error : IoError}
    {e : JournalError} (h : j.undo file error = (e,next)) :
    next.fileEnd = j.fileEnd ∧ next.parts = j.parts ∧ next.config = j.config ∧
      ∀ len max, e ≠ .full len max := by
  rw [undo] at h
  split at h
  · obtain ⟨rfl,rfl⟩ := Prod.mk.inj h
    exact ⟨rfl,rfl,rfl,by simp⟩
  · obtain ⟨rfl,rfl⟩ := Prod.mk.inj h
    exact ⟨rfl,rfl,rfl,by simp⟩

/-- What one append does to the room behind the file: nothing, or the marker still fits. -/
theorem Journal.append_cases (j : Journal) (segmentId : SegmentId) (part : Bytes) :
    (j.append segmentId part).2.config = j.config ∧
    (((j.append segmentId part).2.fileEnd = j.fileEnd ∧
      (j.append segmentId part).2.parts = j.parts) ∨
    (j.append segmentId part).2.fileEnd+resetMarkerLen ≤ j.config.maxJournalLen) := by
  rw [append]
  cases hpre : j.precheck segmentId part with
  | error e => exact ⟨rfl,.inl ⟨rfl,rfl⟩⟩
  | ok nextEnd =>
    dsimp only
    split
    · next error file _ =>
      rcases hundo : j.undo file error with ⟨e,next⟩
      obtain ⟨hend,hparts,hconfig,-⟩ := undo_frame hundo
      exact ⟨hconfig,.inl ⟨hend,hparts⟩⟩
    · exact ⟨rfl,.inr (precheck_ok hpre).2.2.2.2.2⟩

theorem Journal.Resettable.append {j : Journal} (h : j.Resettable) (segmentId : SegmentId)
    (part : Bytes) : (j.append segmentId part).2.Resettable := by
  obtain ⟨hconfig,⟨hend,hparts⟩ | hroom⟩ := j.append_cases segmentId part
  · rw [Resettable,hconfig,hend,hparts]
    exact h
  · rw [Resettable,hconfig]
    exact .inr hroom

theorem Journal.Resettable.afterAppends {j : Journal} (h : j.Resettable)
    (appends : List (SegmentId × Bytes)) :
    (j.afterAppends appends).Resettable ∧ (j.afterAppends appends).config = j.config := by
  induction appends generalizing j with
  | nil => exact ⟨h,rfl⟩
  | cons a appends ih =>
    obtain ⟨hrest,hconfig⟩ := ih (h.append a.1 a.2)
    exact ⟨hrest,hconfig.trans (j.append_cases a.1 a.2).1⟩

/-- A reset is refused as full exactly when a healthy handle with parts has no room for the
marker. -/
theorem Journal.reset_full_iff {j : Journal} (hc : validateConfig j.config = .ok ())
    (nextGeneration : ℕ) :
    (∃ len max, (j.reset nextGeneration).1 = .error (.full len max)) ↔
      j.poisoned = false ∧ j.segmentId ≠ none ∧ ¬j.Resettable := by
  have hmax : j.config.maxJournalLen ≤ u64Max := by
    have h := (validateConfig_ok hc).2.1
    have hcap : maxJournalLen ≤ u64Max := by decide
    omega
  rw [reset,ensureHealthy,Resettable]
  cases hpoisoned : j.poisoned with
  | true => simp
  | false =>
    rw [if_neg Bool.false_ne_true]
    dsimp only
    cases hparts : j.parts with
    | nil => simp
    | cons p ps =>
      rw [List.isEmpty_cons,if_neg Bool.false_ne_true]
      cases hid : j.segmentId with
      | none => simp
      | some segmentId =>
        dsimp only
        by_cases hroom : j.fileEnd+resetMarkerLen ≤ j.config.maxJournalLen
        · have hmarker : j.resetMarker segmentId =
              .ok (ResetMarker.new (UInt64.ofNat j.fileEnd) segmentId.get) := by
            rw [resetMarker,checkedAdd_of_le (by omega),Option.all_some,if_neg]
            simpa using hroom
          refine iff_of_false ?_ (by simp [hroom])
          rw [hmarker]
          rintro ⟨len,max,h⟩
          split at h
          · next heq => cases heq
          · cases h
          · split at h
            · next error file _ =>
              rcases hundo : j.undo file error with ⟨e,next⟩
              rw [hundo] at h
              exact (undo_frame hundo).2.2.2 len max (Except.error.inj h)
            · split at h <;> cases h
        · have hmarker : j.resetMarker segmentId =
              .error (.full j.fileEnd j.config.maxJournalLen) := by
            rw [resetMarker,if_pos]
            cases hadd : checkedAdd j.fileEnd resetMarkerLen with
            | none => rfl
            | some markerEnd =>
              obtain ⟨rfl,_⟩ := checkedAdd_eq_some.mp hadd
              simpa using hroom
          rw [hmarker]
          exact iff_of_true ⟨_,_,rfl⟩ ⟨rfl,by simp,by simpa using hroom⟩

/-- What the contents of an accepted file tell: only a journal that fills its file has parts. -/
theorem openContents_ok {file : Bytes} {config : JournalConfig} {segmentId : Option SegmentId}
    {parts : List PartRef} (h : openContents file config = .ok (segmentId,parts)) :
    (¬FillsFile file ∧ parts = []) ∨ (FillsFile file ∧ segmentId ≠ none ∧ parts ≠ []) := by
  rw [openContents] at h
  by_cases hshort : file.length < journalHeaderLen
  · rw [if_pos hshort] at h
    cases h
  rw [if_neg hshort] at h
  split at h
  · cases h
  · cases h
  · cases h
  · next header hdecode =>
    dsimp only at h
    by_cases hlen : header.bodyLen.toNat ≠ file.length-journalHeaderLen
    · rw [if_pos hlen] at h
      cases h
    rw [if_neg hlen] at h
    obtain ⟨state,bodyLen⟩ := header
    cases state with
    | empty =>
      dsimp only at h
      split_ifs at h
      obtain ⟨rfl,rfl⟩ := Prod.mk.inj (Except.ok.inj h)
      left
      refine ⟨?_,rfl⟩
      rintro ⟨segmentId,bodyLen',hactive,_⟩
      cases hdecode.symm.trans hactive
    | active id =>
      dsimp only at h
      right
      have hfills : FillsFile file := ⟨id,bodyLen,hdecode,by
        have hbody := not_not.mp hlen
        dsimp only at hbody
        omega⟩
      split at h
      · cases h
      · split at h
        · cases h
        · next scan _ _ =>
          split_ifs at h with hdamage hparts
          obtain ⟨rfl,rfl⟩ := Prod.mk.inj (Except.ok.inj h)
          exact ⟨hfills,by simp,by simpa using hparts⟩

theorem fresh_not_fills : ¬FillsFile Generation.fresh.image := by
  rintro ⟨segmentId,bodyLen,hdecode,_⟩
  have hslice := Generation.fresh.slice_header []
  rw [List.append_nil] at hslice
  rw [hslice,JournalHeader.decode_encode] at hdecode
  cases hdecode

theorem performAll_none {disk next : Disk IoError} {result : Except IoError Unit}
    (h : disk.performAll [] = (result,next)) : next = disk := (Prod.mk.inj h).2.symm

/-- The bytes that an open works on: the ones it was given, or the empty journal, which takes
the place of a file that nothing fills. -/
def OpenedAs (created : Bool) (file bytes : Bytes) : Prop :=
  bytes = Generation.fresh.image ∧ (created = true ∨ ¬FillsFile file) ∨
    created = false ∧ bytes = file

theorem OpenedAs.emptied {created : Bool} {file bytes : Bytes} (h : OpenedAs created file bytes)
    (hbytes : ¬FillsFile bytes) : OpenedAs created file Generation.fresh.image := by
  rcases h with ⟨_,hwhy⟩ | ⟨_,rfl⟩
  · exact .inl ⟨rfl,hwhy⟩
  · exact .inl ⟨rfl,.inr hbytes⟩

/-- The file that an accepted open reads its contents from. -/
theorem openRoot_ok {config : JournalConfig} {created : Bool} {file last : Disk IoError}
    {rootSync : Except JournalError Unit} {nextGeneration next : ℕ} {j : Journal}
    (h : Journal.openRoot config created file rootSync nextGeneration = (.ok j,last,next)) :
    validateConfig config = .ok () ∧ j.config = config ∧ j.poisoned = false ∧
      ∃ parts : List PartRef, openContents last.bytes config = .ok (j.segmentId,parts) ∧
        j.fileEnd = last.bytes.length ∧
        j.parts = parts.map (fun raw => ⟨raw,nextGeneration⟩) ∧
        OpenedAs created file.bytes last.bytes := by
  rw [Journal.openRoot] at h
  split at h
  · cases h
  next hconfig =>
  refine ⟨hconfig,?_⟩
  split at h
  · cases h
  next made hmade =>
  have hstart : OpenedAs created file.bytes made.bytes := by
    cases created with
    | true => exact .inl ⟨(performAll_ok_bytes hmade).trans (applyAll_initializeFile _),.inl rfl⟩
    | false => exact .inr ⟨rfl,congrArg Disk.bytes (performAll_none hmade)⟩
  split at h
  · cases h
  split at h
  · cases h
  next recovered found hrecover =>
  have hfound : OpenedAs created file.bytes found.bytes := by
    rw [recoverCommittedReset] at hrecover
    split at hrecover
    · rw [← (Prod.mk.inj hrecover).2]
      exact hstart
    · next marker hmarker =>
      have hpending : ¬FillsFile made.bytes := fun hfills => by
        rw [committedMarker_fills hfills] at hmarker
        cases hmarker
      dsimp only at hrecover
      split at hrecover
      · cases hrecover
      · split_ifs at hrecover
        · rw [← (Prod.mk.inj hrecover).2]
          exact hstart
        · split at hrecover
          · cases hrecover
          · next hfinish =>
            rw [← (Prod.mk.inj hrecover).2,
              (performAll_ok_bytes hfinish).trans (applyAll_finishCommittedReset _)]
            exact hstart.emptied hpending
  split at h
  · cases h
  next ready hready =>
  have hlast : OpenedAs created file.bytes ready.bytes := by
    by_cases hzero : found.bytes.length = 0
    · rw [if_pos hzero] at hready
      rw [(performAll_ok_bytes hready).trans (applyAll_initializeFile _)]
      refine hfound.emptied ?_
      rintro ⟨_,bodyLen,_,hlen⟩
      rw [hzero,journalHeaderLen] at hlen
      omega
    · rw [if_neg hzero] at hready
      rw [performAll_none hready]
      exact hfound
  split at h
  · cases h
  next segmentId parts hcontents =>
  split at h
  · cases h
  · obtain ⟨hj,hdisk⟩ := Prod.mk.inj h
    obtain ⟨rfl,-⟩ := Prod.mk.inj hdisk
    obtain rfl := Except.ok.inj hj
    exact ⟨rfl,rfl,parts,hcontents,rfl,rfl,hlast⟩

/-- A handle can be reset after any appends exactly when the file that was opened is not an
active journal that fills it without room for the marker. -/
theorem opened_reset_never_full_iff {config : JournalConfig} {created : Bool}
    {file last : Disk IoError} {rootSync : Except JournalError Unit} {nextGeneration next : ℕ}
    {j : Journal}
    (hopen : Journal.openRoot config created file rootSync nextGeneration = (.ok j,last,next)) :
    (∀ (appends : List (SegmentId × Bytes)) (resetGeneration len max : ℕ),
        ((j.afterAppends appends).reset resetGeneration).1 ≠ .error (.full len max)) ↔
      created = true ∨ ¬FillsFile file.bytes ∨
        file.bytes.length+resetMarkerLen ≤ config.maxJournalLen := by
  obtain ⟨hconfig,rfl,hhealthy,parts,hcontents,hend,hparts,hfile⟩ := openRoot_ok hopen
  constructor
  · intro hreset
    by_contra hno
    push Not at hno
    obtain ⟨hcreated,hfills,hroom⟩ := hno
    rcases hfile with ⟨_,hcreated' | hempty⟩ | ⟨_,hsame⟩
    · exact hcreated hcreated'
    · exact hempty hfills
    · rw [← hsame] at hfills hroom
      rcases openContents_ok hcontents with ⟨hempty,_⟩ | ⟨_,hid,hsome⟩
      · exact hempty hfills
      · have hunready : ¬j.Resettable := by
          rintro (hnil | hfits)
          · rw [hparts,List.map_eq_nil_iff] at hnil
            exact hsome hnil
          · omega
        obtain ⟨len,max,hfull⟩ :=
          (Journal.reset_full_iff hconfig nextGeneration).mpr ⟨hhealthy,hid,hunready⟩
        exact hreset [] nextGeneration len max hfull
  · intro hcondition
    have hnil (h : ¬FillsFile last.bytes) : j.parts = [] := by
      rcases openContents_ok hcontents with ⟨_,hnil⟩ | ⟨hfills,_⟩
      · rw [hparts,hnil]
        rfl
      · exact absurd hfills h
    have hresettable : j.Resettable := by
      rcases hfile with ⟨hfresh,_⟩ | ⟨hcreated,hsame⟩
      · exact .inl (hnil (hfresh ▸ fresh_not_fills))
      · rcases hcondition with hcreated' | hfills | hroom
        · rw [hcreated] at hcreated'
          cases hcreated'
        · exact .inl (hnil (hsame ▸ hfills))
        · right
          rw [hend,hsame]
          exact hroom
    intro appends resetGeneration len max hfull
    obtain ⟨hafter,hsame⟩ := hresettable.afterAppends appends
    exact ((Journal.reset_full_iff (hsame ▸ hconfig) resetGeneration).mp
      ⟨len,max,hfull⟩).2.2 hafter

/-- A bound that the sample journal meets exactly. -/
def tightConfig : JournalConfig := { JournalConfig.default with maxJournalLen := 96 }

theorem tightConfig_fits : sampleGeneration.Fits tightConfig :=
  ⟨by decide,by decide,by decide⟩

theorem tightConfig_opens :
    Journal.openRoot tightConfig false ⟨sampleGeneration.image,[]⟩ (.ok ()) 7 =
      (.ok (Journal.opened sampleGeneration.image tightConfig sampleGeneration.segmentId
        (framesFrom journalHeaderLen sampleGeneration.bodies) 7),⟨sampleGeneration.image,[]⟩,7+1) :=
  Generation.openRoot_image tightConfig_fits (by decide) 7

theorem opened_reset_never_full_iff_sample :
    (∀ (appends : List (SegmentId × Bytes)) (resetGeneration len max : ℕ),
        (((Journal.opened sampleGeneration.image tightConfig sampleGeneration.segmentId
          (framesFrom journalHeaderLen sampleGeneration.bodies) 7).afterAppends appends).reset
            resetGeneration).1 ≠ .error (.full len max)) ↔
      false = true ∨ ¬FillsFile sampleGeneration.image ∨
        sampleGeneration.image.length+resetMarkerLen ≤ tightConfig.maxJournalLen :=
  opened_reset_never_full_iff tightConfig_opens

/-- Written under a larger bound, the journal is accepted at its exact length and can never be
emptied. -/
theorem tight_journal_reset_full :
    ∃ j last next, validateConfig tightConfig = .ok () ∧
      Journal.openRoot tightConfig false ⟨sampleGeneration.image,[]⟩ (.ok ()) 7 =
        (.ok j,last,next) ∧ (j.reset 8).1 = .error (.full 96 96) :=
  ⟨_,_,_,by decide,tightConfig_opens,by decide⟩

end Resettable

end PgKronika
