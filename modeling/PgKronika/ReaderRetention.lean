import PgKronika.ReaderAgreement

/-! The reader's complete scan against its frames: what it keeps of them, and when only
its budget for retained metadata refuses a file that the writer opens. -/
namespace PgKronika

open ByteCodec CheckedArith StateLogic

def JournalScan.view (scan : JournalScan) : JournalView :=
  if scan.committedReset then .reset
  else .holds (scan.active.parts.head?.map ActivePart.segmentId)
    (scan.active.parts.map ActivePart.part)

theorem readJournalPlan_ok {file : Bytes} {plan : JournalReadPlan}
    (h : readJournalPlan file = .ok plan) : file.length ≤ maxJournalLen ∧
      match plan.segmentId with
      | none => plan.committedReset = false
      | some _ => journalHeaderLen < plan.scanLen.toNat ∧ plan.scanLen.toNat ≤ file.length := by
  have hmax : maxJournalLen = 2^30 := rfl
  unfold readJournalPlan at h
  by_cases hlong : maxJournalLen < file.length
  · rw [if_pos hlong] at h
    cases h
  · refine ⟨not_lt.mp hlong,?_⟩
    have hto : (UInt64.ofNat file.length).toNat = file.length := toNat_ofNat_of_le (by omega)
    rw [if_neg hlong] at h
    by_cases hzero : file.length = 0
    · rw [if_pos hzero] at h
      cases h
      rfl
    · rw [if_neg hzero] at h
      by_cases hmin : file.length < journalHeaderLen
      · rw [if_pos hmin] at h
        cases h
      · rw [if_neg hmin] at h
        cases hplan : committedResetPlan file (slice file 0 journalHeaderLen) with
        | some committed =>
          rw [hplan] at h
          cases h
          obtain ⟨marker,segmentId,_,hprev,htotal,rfl⟩ :=
            committedMarker_of_plan (not_lt.mp hlong) hplan
          exact ⟨hprev,by dsimp only; omega⟩
        | none =>
          rw [hplan] at h
          dsimp only at h
          cases hd : JournalHeader.decode (slice file 0 journalHeaderLen) with
          | error e =>
            rw [hd] at h
            cases h
          | ok header =>
            rw [hd] at h
            obtain ⟨state,bodyLen⟩ := header
            dsimp only at h
            by_cases hbody : bodyLen.toNat ≠ file.length - journalHeaderLen
            · rw [if_pos hbody] at h
              cases h
            · rw [if_neg hbody] at h
              cases state with
              | empty =>
                dsimp only at h
                split_ifs at h with hactual
                cases h
                rfl
              | active raw =>
                dsimp only at h
                split_ifs at h with hactual
                cases hid : SegmentId.new raw with
                | error e =>
                  rw [hid] at h
                  cases h
                | ok segmentId =>
                  rw [hid] at h
                  cases h
                  dsimp only
                  rw [hto]
                  omega

/-- What a full scan comes to: nothing is resumed and nothing is shared. -/
theorem scanJournalReader_eq (growth : VecGrowth) (file : Bytes) :
    scanJournalReader growth file = readJournalPlan file >>= fun plan =>
      match plan.segmentId with
      | none => .ok ⟨.new,[],plan.validLen,false,activeArcAllocationBytes⟩
      | some segmentId =>
        scanJournalFrames ⟨file,plan.scanLen⟩ (UInt64.ofNat journalHeaderLen) maxJournalParts
          maxJournalParts >>= fun report =>
        retainReport growth maxMetadataBytes file plan segmentId .new false report := by
  have hroom : ¬ maxMetadataBytes < activeArcAllocationBytes := by decide
  have hsub : checkedSub maxJournalParts ActiveVec.new.parts.length = some maxJournalParts := by
    decide
  unfold scanJournalReader scanJournalReaderBoundedFrom
  congr 1
  funext plan
  cases plan.segmentId with
  | none => exact if_neg hroom
  | some segmentId =>
    dsimp only
    rw [ite_self,ite_self,hsub,Bool.and_false]

theorem retainReport_ok {growth : VecGrowth} {limit : ℕ} {file : Bytes} {plan : JournalReadPlan}
    {segmentId : SegmentId} {active : ActiveVec} {shared : Bool} {report : ScanReport}
    {scan : JournalScan}
    (h : retainReport growth limit file plan segmentId active shared report = .ok scan) :
    (report.damages.isEmpty = true ∧ report.validLen = plan.scanLen.toNat) ∧
      (scan.committedReset = plan.committedReset ∧ scan.damages = [] ∧
        scan.validLen = plan.validLen) ∧
      if plan.committedReset then scan.active.parts = active.parts
      else (∃ more, scan.active.parts = active.parts ++ more ∧
          List.Forall₂ (Keeps (file.take plan.scanLen.toNat) segmentId) report.parts more) ∧
        scan.active.parts.length*activePartSize +
          (scan.active.parts.map fun p => p.catalog.entries.length*entrySize).sum ≤ limit := by
  unfold retainReport at h
  obtain ⟨_,_,h⟩ := bind_ok h
  obtain ⟨_,_,h⟩ := bind_ok h
  obtain ⟨_,_,h⟩ := bind_ok h
  by_cases hbad : ¬ report.damages.isEmpty ∨ report.validLen ≠ plan.scanLen.toNat
  · rw [if_pos hbad] at h
    cases h
  · rw [if_neg hbad] at h
    push Not at hbad
    obtain ⟨state,hstate,h⟩ := bind_ok h
    obtain ⟨final,hfinal,h⟩ := bind_ok h
    obtain ⟨_,_,h⟩ := bind_ok h
    cases h
    refine ⟨hbad,⟨rfl,rfl,rfl⟩,?_⟩
    dsimp only
    cases hreset : plan.committedReset with
    | true =>
      rw [hreset] at hstate hfinal
      cases hstate
      rw [admitParts_none hfinal]
      rfl
    | false =>
      rw [hreset] at hstate hfinal
      obtain ⟨active,hactive,hstate⟩ := bind_ok hstate
      obtain ⟨bytes,hbytes,hstate⟩ := bind_ok hstate
      cases hstate
      obtain ⟨hparts,bytes',hbytes',hle⟩ := reserveActiveSlots_ok hactive
      rw [hbytes'] at hbytes
      cases hbytes
      obtain ⟨hmore,haccounted⟩ := admitParts_ok hfinal ⟨hbytes',hle⟩
      rw [hparts] at hmore
      exact ⟨hmore,haccounted.ge⟩

/-- The frames of an admitted file, as the reader's scan of them. -/
theorem readFrames_some {file : Bytes} {plan : JournalReadPlan} {segmentId : SegmentId}
    (hplan : readJournalPlan file = .ok plan) (hid : plan.segmentId = some segmentId) :
    readFrames file =
      scanJournalFrames ⟨file,plan.scanLen⟩ (UInt64.ofNat journalHeaderLen) maxJournalParts
        maxJournalParts >>= fun report =>
      if ¬ report.damages.isEmpty ∨ report.validLen ≠ plan.scanLen.toNat then
        .error .damagedFrames
      else .ok (plan,report.parts) := by
  rw [readFrames,hplan]
  change (match plan.segmentId with | none => _ | some _ => _) = _
  rw [hid]

/-- A complete frame scan is a run of valid frames through the whole prefix. -/
theorem scanJournalFrames_run {file : Bytes} {plan : JournalReadPlan} {segmentId : SegmentId}
    (hplan : readJournalPlan file = .ok plan) (hid : plan.segmentId = some segmentId)
    {report : ScanReport}
    (hscan : scanJournalFrames ⟨file,plan.scanLen⟩ (UInt64.ofNat journalHeaderLen)
      maxJournalParts maxJournalParts = .ok report)
    (hclean : report.damages.isEmpty = true) (hend : report.validLen = plan.scanLen.toNat) :
    FrameRun (file.take plan.scanLen.toNat) JournalConfig.default.limits journalHeaderLen
        report.parts plan.scanLen.toNat ∧ report.parts ≠ [] := by
  have hmax : maxJournalLen = 2^30 := rfl
  obtain ⟨hlen,hbounds⟩ := readJournalPlan_ok hplan
  rw [hid] at hbounds
  obtain ⟨next,hscan⟩ := scanJournalFrames_ok hscan
  have hrun := scanStrict_frameRun (readsAs_upTo file plan.scanLen hbounds.2)
    (by rw [List.length_take,u64Max]; omega) hscan (List.isEmpty_iff.mp hclean)
  rw [hend] at hrun
  refine ⟨hrun,fun he => ?_⟩
  have hstop : plan.scanLen.toNat = journalHeaderLen := hrun.nil_iff.mp he
  exact absurd hbounds.1 (by omega)

theorem Keeps.map_part {body : Bytes} {segmentId : SegmentId} {parts : List PartRef}
    {active : List ActivePart} (h : List.Forall₂ (Keeps body segmentId) parts active) :
    active.map ActivePart.part = parts ∧
      ∀ part ∈ active, Keeps body segmentId part.part part := by
  induction h with
  | nil => simp
  | cons hkeep _ ih =>
    refine ⟨by rw [List.map_cons,hkeep.2.1,ih.1],?_⟩
    intro part hp
    rcases List.mem_cons.mp hp with rfl | hp
    · rw [hkeep.2.1]
      exact hkeep
    · exact ih.2 part hp

/-- A successful scan shows the view of the plan and its frames, with the catalogs of the
parts, within the budget. -/
theorem scanJournalReader_ok {growth : VecGrowth} {file : Bytes} {scan : JournalScan}
    (h : scanJournalReader growth file = .ok scan) : readerView file = some scan.view ∧
      (∀ p ∈ scan.active.parts,
        decodeAndBound (slice file p.part.offset p.part.len) = .ok p.catalog) ∧
      scan.active.parts.length*activePartSize +
        (scan.active.parts.map fun p => p.catalog.entries.length*entrySize).sum ≤
          maxMetadataBytes := by
  rw [scanJournalReader_eq] at h
  obtain ⟨plan,hplan,h⟩ := bind_ok h
  cases hid : plan.segmentId with
  | none =>
    have hreset := (readJournalPlan_ok hplan).2
    rw [hid] at hreset h
    cases h
    refine ⟨?_,by simp [ActiveVec.new],by simp [ActiveVec.new]⟩
    rw [readerView,readFrames,hplan]
    change (Except.toOption (match plan.segmentId with | none => _ | some _ => _)).map _ = _
    rw [hid]
    simp [Except.toOption,JournalReadPlan.view,JournalScan.view,ActiveVec.new,hreset,hid]
  | some segmentId =>
    rw [hid] at h
    dsimp only at h
    obtain ⟨report,hscan,h⟩ := bind_ok h
    obtain ⟨⟨hclean,hend⟩,⟨hreset,_,_⟩,hkept⟩ := retainReport_ok h
    have hframes := readFrames_some hplan hid
    rw [hscan] at hframes
    dsimp only [Bind.bind,Except.bind] at hframes
    rw [if_neg (by simp [hclean,hend])] at hframes
    have hrun := scanJournalFrames_run hplan hid hscan hclean hend
    rw [readerView,hframes]
    simp only [Except.toOption,Option.map_some,JournalReadPlan.view,JournalScan.view,hreset]
    cases hcommitted : plan.committedReset with
    | true =>
      rw [hcommitted] at hkept
      rw [if_pos rfl] at hkept
      rw [hkept]
      exact ⟨rfl,by simp [ActiveVec.new],by simp [ActiveVec.new]⟩
    | false =>
      rw [hcommitted] at hkept
      rw [if_neg (by simp)] at hkept
      obtain ⟨⟨more,hmore,hkeeps⟩,hbudget⟩ := hkept
      obtain rfl : scan.active.parts = more := hmore
      obtain ⟨hparts,hids⟩ := Keeps.map_part hkeeps
      refine ⟨?_,fun p hp => ?_,hbudget⟩
      swap
      · obtain ⟨_,_,hcatalog⟩ := hids p hp
        have hle := (hrun.1.part_le (hparts ▸ List.mem_map_of_mem hp)).2
        rwa [slice_take hle] at hcatalog
      rw [hparts,hid]
      cases hactive : scan.active.parts with
      | nil =>
        rw [hactive] at hparts
        exact absurd hparts.symm hrun.2
      | cons part rest =>
        have hfirst := (hids part (by rw [hactive]; simp)).1
        simp [hfirst]

/-- Parts that validate are refused only for the metadata they take. -/
theorem retainReport_only {growth : VecGrowth} {limit : ℕ} {file : Bytes} {plan : JournalReadPlan}
    {segmentId : SegmentId} {active : ActiveVec} {shared : Bool} {report : ScanReport}
    (hclean : report.damages.isEmpty = true) (hend : report.validLen = plan.scanLen.toNat)
    (hparts : ∀ p ∈ report.parts, p.offset+p.len ≤ (file.take plan.scanLen.toNat).length ∧
      p.len ≤ maxPartLen.toNat ∧ ValidPart (slice (file.take plan.scanLen.toNat) p.offset p.len)) :
    OnlyMetadata (retainReport growth limit file plan segmentId active shared report) := by
  unfold retainReport
  refine (activeMetadataBytes_only _).bind fun _ _ => ?_
  refine (orSizeOverflow_only _).bind fun _ _ => ?_
  refine (admitPeak_only _ _).bind fun _ _ => ?_
  rw [if_neg (by simp [hclean,hend])]
  refine OnlyMetadata.bind (.ite (fun _ => .ok _) fun _ => ?_) fun _ _ => ?_
  · refine (reserveActiveSlots_only _ _ _ _ _ _ _).bind fun _ _ => ?_
    exact (activeMetadataBytes_only _).bind fun _ _ => .ok _
  · refine (admitParts_only hparts _ _).bind fun _ _ => ?_
    exact (orMetadataLimit_only _ _).bind fun _ _ => .ok _

/-- A file whose frames are sound is refused only for its metadata. -/
theorem scanJournalReader_only (growth : VecGrowth) {file : Bytes} {plan : JournalReadPlan}
    {parts : List PartRef} (h : readFrames file = .ok (plan,parts)) :
    OnlyMetadata (scanJournalReader growth file) := by
  rw [scanJournalReader_eq]
  obtain ⟨plan',hplan,hrest⟩ := bind_ok h
  rw [hplan]
  cases hid : plan'.segmentId with
  | none =>
    change OnlyMetadata (match plan'.segmentId with | none => _ | some _ => _)
    rw [hid]
    exact .ok _
  | some segmentId =>
    have hframes := readFrames_some hplan hid
    rw [h] at hframes
    obtain ⟨report,hscan,hclean⟩ := bind_ok hframes.symm
    split_ifs at hclean with hbad
    push Not at hbad
    have hrun := (scanJournalFrames_run hplan hid hscan hbad.1 hbad.2).1
    change OnlyMetadata (match plan'.segmentId with | none => _ | some _ => _)
    rw [hid]
    dsimp only
    rw [hscan]
    have hmax : JournalConfig.default.limits.maxPartLen = maxPartLen := rfl
    change OnlyMetadata (retainReport growth maxMetadataBytes file plan' segmentId .new false report)
    refine retainReport_only hbad.1 hbad.2 fun p hp => ?_
    have hvalid := hrun.part_valid hp
    rwa [hmax] at hvalid

/-- What the two sides make of any journal file. Whether it is accepted, its segment, its
parts and a committed reset are the same on both; only the reader's budget for retained
metadata can refuse a file that the writer opens. -/
theorem reader_agrees_with_writer (growth : VecGrowth) (file : Bytes) (nextGeneration : ℕ) :
    readerView file = writerView file nextGeneration ∧
      (writerView file nextGeneration = some .reset →
        Journal.openRoot .default false ⟨file,[]⟩ (.ok ()) nextGeneration =
          (.ok (Journal.opened Generation.fresh.image .default none [] nextGeneration),
            ⟨Generation.fresh.image,[]⟩,nextGeneration+1)) ∧
      match scanJournalReader growth file with
      | .ok scan => writerView file nextGeneration = some scan.view
      | .error e => writerView file nextGeneration = none ∨ e.isMetadata = true := by
  have hview := readerView_eq_writerView file nextGeneration
  refine ⟨hview,openRoot_reset nextGeneration,?_⟩
  · cases hscan : scanJournalReader growth file with
    | ok scan => exact hview ▸ (scanJournalReader_ok hscan).1
    | error e =>
      cases hframes : readFrames file with
      | error e' =>
        left
        rw [← hview,readerView,hframes]
        rfl
      | ok r => exact .inr (scanJournalReader_only growth hframes e hscan)

-- Journals of many small parts take more metadata than the reader may retain.
section ManyParts

def sectionCatalog : Catalog :=
  ⟨[⟨1,0,4,1,1,Crc32c.crc32c [0]⟩],0,0,formatVersion,1⟩

def sectionPart : Bytes := magic ++ [0] ++ sectionCatalog.encode

theorem sectionPart_valid : validatePart sectionPart = .ok sectionCatalog := by decide +kernel

/-- A generation of `n+1` equal parts with one section each. -/
def repeatedPart (n : ℕ) : Generation where
  segmentId := some ⟨0,segmentIdInRange_zero⟩
  bodies := List.replicate (n+1) sectionPart
  identified := by simp
  valid := by
    intro b hb
    rw [List.eq_of_mem_replicate hb]
    exact ⟨_,sectionPart_valid⟩

theorem repeatedPart_framesLen (n : ℕ) : framesLen (repeatedPart n).bodies = (n+1)*93 := by
  have hlen : frameHeaderLen + sectionPart.length = 93 := by decide
  simp [repeatedPart,framesLen,hlen]

theorem repeatedPart_fits {n : ℕ} (hn : n+1 ≤ maxJournalParts) :
    (repeatedPart n).Fits .default := by
  have hmax : maxJournalParts = 1000000 := rfl
  have hcap : JournalConfig.default.maxJournalLen = 1073741824 := rfl
  have hh : journalHeaderLen = 36 := rfl
  refine ⟨?_,by simpa [repeatedPart,JournalConfig.default] using hn,?_⟩
  · intro b hb
    rw [List.eq_of_mem_replicate hb]
    decide
  · rw [repeatedPart_framesLen]
    omega

theorem repeatedPart_writerView {n : ℕ} (hn : n+1 ≤ maxJournalParts) (nextGeneration : ℕ) :
    writerView (repeatedPart n).image nextGeneration = some (.holds (repeatedPart n).segmentId
      (framesFrom journalHeaderLen (repeatedPart n).bodies)) := by
  have hfits := repeatedPart_fits hn
  have hreset : completesReset (repeatedPart n).image .default = false := by
    rw [completesReset,@recoverCommittedReset_of_none ⟨(repeatedPart n).image,[]⟩ _
      ((repeatedPart n).committedMarker_image hfits validateConfig_default)]
    simp
  rw [writerView,(repeatedPart n).openRoot_image hfits validateConfig_default,hreset]
  simp [Except.toOption,Journal.opened,Function.comp_def]

/-- Each part takes 104 bytes and its one catalog entry 32. -/
theorem repeatedPart_refused {n : ℕ} (hn : n+1 ≤ maxJournalParts)
    (hbudget : maxMetadataBytes < (n+1)*136) (growth : VecGrowth) :
    ∃ e, scanJournalReader growth (repeatedPart n).image = .error e := by
  cases hscan : scanJournalReader growth (repeatedPart n).image with
  | error e => exact ⟨e,rfl⟩
  | ok scan =>
    exfalso
    obtain ⟨hview,hcatalogs,hwithin⟩ := scanJournalReader_ok hscan
    rw [readerView_eq_writerView _ 0,repeatedPart_writerView hn,JournalScan.view] at hview
    split_ifs at hview with hreset
    · cases hview
    · have hparts := (JournalView.holds.inj (Option.some.inj hview)).2
      have hcount : scan.active.parts.length = n+1 := by
        have hlen := congrArg List.length hparts
        simpa [repeatedPart] using hlen.symm
      have hentries : ∀ p ∈ scan.active.parts, p.catalog.entries.length*entrySize = 32 := by
        intro p hp
        have hmem : p.part ∈ framesFrom journalHeaderLen (repeatedPart n).bodies :=
          hparts ▸ List.mem_map_of_mem hp
        have hslices := slice_framesFrom (repeatedPart n).header.encode [] (repeatedPart n).bodies
        rw [List.append_nil,← Generation.image,JournalHeader.encode_length] at hslices
        have hbody : slice (repeatedPart n).image p.part.offset p.part.len = sectionPart :=
          List.eq_of_mem_replicate (hslices ▸ List.mem_map_of_mem hmem)
        have hcatalog := hcatalogs p hp
        rw [hbody,(validatePart_ok sectionPart_valid).1] at hcatalog
        rw [← Except.ok.inj hcatalog]
        rfl
      have hsum : (scan.active.parts.map fun p => p.catalog.entries.length*entrySize).sum =
          (n+1)*32 := by
        rw [List.map_congr_left hentries,List.map_const',List.sum_replicate,hcount,Nat.nsmul_eq_mul]
      have hsize : activePartSize = 104 := rfl
      rw [hsum,hcount,hsize] at hwithin
      omega

def exactGrowth : VecGrowth := ⟨id,id,id,le_refl,le_refl,le_refl⟩

/-- A million parts, the most a journal may hold: 93 MB that the writer opens. -/
theorem reader_refuses_million_parts :
    (repeatedPart 999999).image.length ≤ maxJournalLen ∧
      (∃ e, scanJournalReader exactGrowth (repeatedPart 999999).image = .error e) ∧
      (writerView (repeatedPart 999999).image 0).isSome := by
  have hn : 999999+1 ≤ maxJournalParts := by decide
  refine ⟨?_,repeatedPart_refused hn (by decide) exactGrowth,?_⟩
  · exact (repeatedPart 999999).image_length ▸ (repeatedPart_fits hn).len
  · rw [repeatedPart_writerView hn 0]
    rfl

end ManyParts

end PgKronika
