import PgKronika.SnapshotSound

/-! What the delta of one refresh says of the snapshot before it and of the snapshot after it. -/
namespace PgKronika

open ByteCodec CheckedArith

theorem withStableJournalIdentity_ok {α : Type} {operation : JournalLook → Except RefreshError α}
    {looks : List JournalLook} {value : α} {identity : Option JournalIdentity}
    (h : withStableJournalIdentity operation looks = .ok (value,identity)) :
    ∃ attempt, looks.find? (fun attempt => attempt.before = attempt.after) = some attempt ∧
      operation attempt = .ok value ∧ identity = attempt.before ∧ attempt.before = attempt.after := by
  induction looks with
  | nil => cases h
  | cons look looks ih =>
    rw [withStableJournalIdentity] at h
    by_cases hstable : look.before = look.after
    · rw [List.find?_cons_of_pos (by simpa using hstable)]
      split at h
      · rw [if_pos (.inr hstable)] at h
        cases h
      · next found hfound =>
        rw [if_pos hstable] at h
        cases h
        exact ⟨look,rfl,hfound,hstable.symm,hstable⟩
    · rw [List.find?_cons_of_neg (by simpa using hstable)]
      refine ih ?_
      split at h
      · split at h
        · cases h
        · exact h
      · rwa [if_neg hstable] at h

theorem tailPending_none {identity : Option JournalIdentity} {file : Option Bytes}
    (h : identity.map JournalIdentity.len = file.map List.length) :
    tailPending identity ((file.map List.length).getD 0) = none := by
  cases identity with
  | none => rfl
  | some identity =>
    rw [← h]
    simp [tailPending]

theorem mergeIncrementalDamages_nil (previousValidLen : ℕ) :
    mergeIncrementalDamages [] [] previousValidLen = [] := by
  simp [mergeIncrementalDamages]

theorem bump_ok {value next : ℕ} (h : bump value = .ok next) :
    checkedAdd value 1 = some next := by
  rw [bump] at h
  split at h
  · cases h
  · next hnext =>
    cases h
    exact hnext

section Report

variable {ω : Type} {app : SnapshotApp} {s s' : LocalDirSnapshot ω} {kept : JournalDigestState}
  {seen : Option Bytes} {look : DirectoryLook ω} {delta : RefreshDelta}

/-- An opened directory has read its journal in full. -/
theorem LocalDirSnapshot.openDir_sound
    (hlen : ∀ attempt ∈ look.counted,
      attempt.before.map JournalIdentity.len = attempt.file.map List.length)
    (h : openDir app look = .ok s) :
    (∃ kept, s.Sound app kept (look.counted.bind JournalLook.file)) ∧
      s.deltaInitialized = false ∧ s.journalGeneration = 0 := by
  rw [openDir] at h
  obtain ⟨⟨⟨journal,prefixState⟩,identity⟩,hattempt,h⟩ := bind_ok h
  obtain ⟨attempt,hcounted,hread,rfl,-⟩ := withStableJournalIdentity_ok hattempt
  obtain ⟨journal',hscan,hread⟩ := bind_ok hread
  obtain ⟨prefixState',hstate,hread⟩ := bind_ok hread
  cases hread
  obtain ⟨hsound,hdamages⟩ := LocalDir.scanJournal_sound (mapError_eq_ok hscan) hstate
  obtain ⟨scan,htree,h⟩ := bind_ok h
  obtain ⟨tree,-,htree⟩ := bind_ok htree
  cases htree
  obtain ⟨matched,-,h⟩ := bind_ok h
  cases h
  have hsame := hlen attempt hcounted
  rw [DirectoryLook.counted,hcounted]
  refine ⟨⟨prefixState,hsound,rfl,rfl,hsame,hdamages,?_,rfl⟩,rfl,rfl⟩
  dsimp only
  rw [hsound.length]
  exact tailPending_none hsame

/-- The delta of a refresh, between two snapshots. -/
structure RefreshDelta.Reports (delta : RefreshDelta) (app : SnapshotApp)
    (s s' : LocalDirSnapshot ω) : Prop where
  bootstrap : delta.journal.bootstrap = !s.deltaInitialized
  previousView : delta.previousViewGeneration = s.viewGeneration
  newView : delta.newViewGeneration = s'.viewGeneration
  viewStep : if delta.viewChanged then checkedAdd s.viewGeneration 1 = some s'.viewGeneration
    else s'.viewGeneration = s.viewGeneration
  generation : delta.journal.generationId = s'.journalGeneration
  generationStep : if delta.journal.transition.preservesGeneration then
      s'.journalGeneration = s.journalGeneration
    else checkedAdd s.journalGeneration 1 = some s'.journalGeneration
  previousValidLen : delta.journal.previousValidLen = s.lastValidLen
  newValidLen : delta.journal.newValidLen = s'.lastValidLen
  currentParts : delta.journal.currentParts = partDescriptors app s'.scan s'.journalGeneration
  complete : delta.journal.currentPartsComplete = s'.journalDescriptorsComplete
  tailPending : delta.journal.tailPending = none
  damages : delta.journal.damages = []
  quiet : delta.viewChanged = false → delta.sealedAdded = [] ∧ delta.sealedRemoved = [] ∧
    delta.journal.completedParts = [] ∧ delta.journal.transition.preservesGeneration = true
  relists : delta.journal.bootstrap = true ∨ delta.journal.transition.preservesGeneration = false →
    delta.journal.completedParts = delta.journal.currentParts
  initialized : s'.deltaInitialized = true

theorem resetTransition_base {identity : Option JournalIdentity} {journal : JournalScan}
    {state : JournalDigestState} {base : PartTransition} (hs : s.scan.committedReset = false)
    (hjournal : journal.committedReset = false) :
    s.resetTransition app identity journal state base = base := by
  have hphase : journalPhase s.scan ≠ .committedReset := by
    rw [journalPhase,phaseOf,hs,if_neg Bool.false_ne_true]
    split <;> rintro ⟨⟩
  have hphase' : journalScanPhase journal ≠ .committedReset := by
    rw [journalScanPhase,phaseOf,hjournal,if_neg Bool.false_ne_true]
    split <;> rintro ⟨⟩
  rw [LocalDirSnapshot.resetTransition,applyCommittedResetTransition]
  split <;> rfl

/-- A verified scan: the attempt that counts, and the transition it proves. -/
theorem LocalDirSnapshot.Sound.scanIncremental (h : s.Sound app kept seen)
    (hallows : ∀ attempt ∈ look.counted, s.Admits app seen attempt) {verified : VerifiedScan ω}
    (hv : s.scanIncrementalConsistent app look = .ok verified) :
    ∃ attempt, look.counted = some attempt ∧
      SoundScan verified.scan.active.parts verified.scan.committedReset verified.scan.validLen
        verified.prefixState attempt.file ∧
      verified.scan.damages = [] ∧
      verified.identity.map JournalIdentity.len = attempt.file.map List.length ∧
      (verified.transition.preservesGeneration = true →
        verified.scan.journalDescriptorsComplete = true) ∧
      (s.scan.committedReset = false → verified.scan.committedReset = false →
        verified.transition.preservesGeneration = true →
        s.journalDescriptorsComplete = true ∧ (¬s.MissesRewrite attempt →
          ∃ more, verified.scan.active.parts = s.scan.active.parts ++ more ∧
            ∀ part ∈ more, s.lastValidLen ≤ part.part.offset)) := by
  rw [scanIncrementalConsistent] at hv
  obtain ⟨⟨⟨journal,base,state⟩,identity⟩,hstable,hv⟩ := bind_ok hv
  obtain ⟨attempt,hcounted,hattempt,rfl,hsame⟩ := withStableJournalIdentity_ok hstable
  obtain ⟨scan,hscan,hv⟩ := bind_ok hv
  rw [completeScanCached] at hscan
  obtain ⟨⟨sealed,warnings⟩,_,hscan⟩ := bind_ok hscan
  cases hscan
  cases hv
  have hallow := hallows attempt hcounted
  obtain ⟨hsound,hdamages,hcontinues⟩ := h.scanAttempt hallow hattempt
  refine ⟨attempt,hcounted,hsound,hdamages,hallow.length,fun hpreserves => ?_,
    fun hs hjournal hpreserves => ?_⟩
  · dsimp only at hpreserves
    split at hpreserves
    · assumption
    · cases hpreserves
  · dsimp only at hpreserves hjournal ⊢
    split at hpreserves
    swap
    · cases hpreserves
    rw [resetTransition_base hs hjournal] at hpreserves
    have hbase : base = .append := by cases base <;> first | rfl | cases hpreserves
    refine ⟨?_,hcontinues hbase hs hjournal⟩
    rw [LocalDirSnapshot.scanAttempt] at hattempt
    obtain ⟨transition,ht,hattempt⟩ := bind_ok hattempt
    obtain ⟨_,_,hattempt⟩ := bind_ok hattempt
    obtain ⟨_,_,hattempt⟩ := bind_ok hattempt
    cases hattempt
    rw [hbase,verifiedTransition] at ht
    split at ht
    · cases ht
    · next hcomplete => exact not_not.mp hcomplete

theorem mergedScan_eq {verified : VerifiedScan ω} (hs : s.scan.damages = [])
    (hverified : verified.scan.damages = []) : s.mergedScan verified = verified.scan := by
  rw [LocalDirSnapshot.mergedScan,hs,hverified,mergeIncrementalDamages_nil]
  split
  · rw [← hverified]
  · rfl

/-- Behind the offset of the last scan, only the parts count that it has not listed. -/
theorem completedBehind_more {parts previous more : List ActivePart} {floor lastValidLen : ℕ}
    {generation : ℕ} (hwhole : WholeJournal (previous.map ActivePart.part) lastValidLen)
    (hfloor : floor = lastValidLen) (hparts : parts = previous ++ more)
    (hbehind : ∀ part ∈ more, lastValidLen ≤ part.part.offset) :
    completedBehind floor (parts.map (partDescriptor app generation)) =
      more.map (partDescriptor app generation) := by
  rw [hparts,hfloor,completedBehind]
  split
  · next hzero =>
    rw [hzero] at hwhole
    rw [hwhole.nil_of_zero,List.nil_append]
  · rw [List.map_append,List.filter_append]
    have hold : (previous.map (partDescriptor app generation)).filter
        (fun descriptor => decide (lastValidLen ≤ descriptor.partId.frameOffset)) = [] := by
      rw [List.filter_eq_nil_iff]
      intro descriptor hdescriptor
      obtain ⟨part,hpart,rfl⟩ := List.mem_map.mp hdescriptor
      rcases hwhole with ⟨hnil,-⟩ | ⟨-,hchain⟩
      · rw [List.map_eq_nil_iff.mp hnil] at hpart
        cases hpart
      · obtain ⟨-,hpos,hstop⟩ := hchain.mem (List.mem_map_of_mem hpart)
        rw [decide_eq_true_eq,not_le]
        change part.part.offset < lastValidLen
        omega
    have hnew : (more.map (partDescriptor app generation)).filter
        (fun descriptor => decide (lastValidLen ≤ descriptor.partId.frameOffset)) =
        more.map (partDescriptor app generation) := by
      rw [List.filter_eq_self]
      intro descriptor hdescriptor
      obtain ⟨part,hpart,rfl⟩ := List.mem_map.mp hdescriptor
      exact decide_eq_true (hbehind part hpart)
    rw [hold,hnew,List.nil_append]

variable [DecidableEq ω]

/-- One refresh: the snapshot stays sound, and its delta says what has changed. -/
theorem LocalDirSnapshot.Sound.refresh (h : s.Sound app kept seen)
    (hallows : ∀ attempt ∈ look.counted, s.Admits app seen attempt)
    (hr : s.refreshIncrementalDelta app look = .ok (delta,s')) :
    ∃ attempt kept', look.counted = some attempt ∧ s'.Sound app kept' attempt.file ∧
      delta.Reports app s s' ∧
      (delta.journal.transition.preservesGeneration = true →
        s'.journalDescriptorsComplete = true) ∧
      (s.scan.committedReset = false → s'.scan.committedReset = false →
        delta.journal.transition.preservesGeneration = true →
        s.journalDescriptorsComplete = true ∧ (s.deltaInitialized = true →
          ¬s.MissesRewrite attempt → ∃ more,
            s'.scan.active.parts = s.scan.active.parts ++ more ∧
            delta.journal.completedParts = more.map (partDescriptor app s'.journalGeneration))) := by
  rw [refreshIncrementalDelta] at hr
  obtain ⟨verified,hv,hr⟩ := bind_ok hr
  obtain ⟨attempt,hcounted,hscan,hdamages,hlen,hcomplete,hcontinues⟩ := h.scanIncremental hallows hv
  dsimp only at hr
  rw [mergedScan_eq h.damages hdamages] at hr
  obtain ⟨generationId,hgeneration,hr⟩ := bind_ok hr
  obtain ⟨matched,_,hr⟩ := bind_ok hr
  obtain ⟨newViewGeneration,hview,hr⟩ := bind_ok hr
  have htail : PgKronika.tailPending verified.identity verified.scan.validLen = none := by
    rw [hscan.length]
    exact tailPending_none hlen
  cases hr
  refine ⟨attempt,verified.prefixState,hcounted,⟨hscan,rfl,rfl,hlen,hdamages,htail,rfl⟩,?_,
    hcomplete,fun hs hs' hpreserves => ?_⟩
  · constructor
    case viewStep =>
      dsimp only
      split at hview
      · next hchanged =>
        rw [hchanged,if_pos rfl]
        exact bump_ok hview
      · next hchanged =>
        rw [Bool.not_eq_true] at hchanged
        rw [hchanged,if_neg Bool.false_ne_true]
        exact (Except.ok.inj hview).symm
    case generationStep =>
      dsimp only
      split at hgeneration
      · next hpreserves =>
        rw [if_pos hpreserves]
        exact (Except.ok.inj hgeneration).symm
      · next hpreserves =>
        rw [if_neg hpreserves]
        exact bump_ok hgeneration
    case quiet =>
      intro hquiet
      have hquiet := of_decide_eq_false hquiet
      simp only [not_or,not_not] at hquiet
      obtain ⟨hcompleted,hadded,hremoved,-,-,hpreserves,-⟩ := hquiet
      exact ⟨hadded,hremoved,hcompleted,hpreserves⟩
    case relists =>
      intro hrelists
      have hfloor : s.completedFloor verified = 0 := by
        rw [completedFloor,if_neg]
        intro hfloor
        simp only [Bool.and_eq_true,decide_eq_true_eq] at hfloor
        obtain ⟨⟨hinitialized,happend⟩,-⟩ := hfloor
        rcases hrelists with hboot | hbroken
        · rw [hinitialized] at hboot
          cases hboot
        · rw [happend] at hbroken
          cases hbroken
      exact if_pos hfloor
    all_goals first | rfl | exact hdamages | exact htail
  · obtain ⟨hwas,hmore⟩ := hcontinues hs hs' hpreserves
    refine ⟨hwas,fun hinitialized hmiss => ?_⟩
    obtain ⟨more,hparts,hbehind⟩ := hmore hmiss
    refine ⟨more,hparts,?_⟩
    have happend : verified.transition = .append := by
      revert hpreserves
      cases verified.transition <;> intro hpreserves <;> first | rfl | cases hpreserves
    have hfloor : s.completedFloor verified = s.lastValidLen := by
      rw [completedFloor,if_pos]
      rw [hinitialized,happend,rebasesAfterCommittedReset,hs]
      rfl
    exact completedBehind_more (h.scan.whole hs) hfloor hparts hbehind

end Report

end PgKronika
