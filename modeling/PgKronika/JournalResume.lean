import PgKronika.ReaderRetention
import PgKronika.SnapshotRefresh

/-! A scan of the journal that resumes behind the parts of an earlier one, or starts again. -/
namespace PgKronika

open ByteCodec CheckedArith

/-- Parts one behind the other, a frame header in front of each. -/
def PartChain : ℕ → List PartRef → ℕ → Prop
  | pos, [], stop => pos = stop
  | pos, p::parts, stop =>
    p.offset = pos+frameHeaderLen ∧ 0 < p.len ∧ PartChain (p.offset+p.len) parts stop

theorem FrameRun.partChain {bytes : Bytes} {limits : JournalLimits} {pos stop : ℕ}
    {parts : List PartRef} (h : FrameRun bytes limits pos parts stop) :
    PartChain pos parts stop := by
  induction h with
  | nil pos => rfl
  | cons frame rest ih =>
    rename_i pos n stop parts
    obtain ⟨c,hc⟩ := frame.part
    have hmin := (decodeAndBound_ok (validatePart_ok hc).1).1
    rw [slice_length_of_le frame.fits] at hmin
    have hlen : minPartLen = magic.length + metaLen + tailIndexLen := rfl
    have hmagic : 0 < magic.length := by decide
    exact ⟨rfl,by dsimp only; omega,ih⟩

theorem PartChain.append {pos mid stop : ℕ} {parts more : List PartRef}
    (h : PartChain pos parts mid) (h' : PartChain mid more stop) :
    PartChain pos (parts ++ more) stop := by
  induction parts generalizing pos with
  | nil =>
    obtain rfl : pos = mid := h
    exact h'
  | cons p parts ih => exact ⟨h.1,h.2.1,ih h.2.2⟩

theorem PartChain.le {pos stop : ℕ} {parts : List PartRef} (h : PartChain pos parts stop) :
    pos ≤ stop := by
  induction parts generalizing pos with
  | nil => exact le_of_eq h
  | cons p parts ih =>
    have hoffset := h.1
    have hrest := ih h.2.2
    omega

theorem PartChain.mem {pos stop : ℕ} {parts : List PartRef} (h : PartChain pos parts stop)
    {p : PartRef} (hp : p ∈ parts) :
    pos+frameHeaderLen ≤ p.offset ∧ 0 < p.len ∧ p.offset+p.len ≤ stop := by
  induction parts generalizing pos with
  | nil => cases hp
  | cons q parts ih =>
    have hoffset := h.1
    have hrest := h.2.2.le
    rcases List.mem_cons.mp hp with rfl | hp
    · exact ⟨hoffset.ge,h.2.1,hrest⟩
    · obtain ⟨hlow,hpos,hhigh⟩ := ih h.2.2 hp
      exact ⟨by omega,hpos,hhigh⟩

theorem PartChain.pairwise {pos stop : ℕ} {parts : List PartRef} (h : PartChain pos parts stop) :
    parts.Pairwise fun p q => p.offset < q.offset := by
  induction parts generalizing pos with
  | nil => exact .nil
  | cons p parts ih =>
    refine List.pairwise_cons.mpr ⟨fun q hq => ?_,ih h.2.2⟩
    have hlow := (h.2.2.mem hq).1
    have hpos := h.2.1
    omega

theorem PartChain.unique {pos stop stop' : ℕ} {parts : List PartRef}
    (h : PartChain pos parts stop) (h' : PartChain pos parts stop') : stop = stop' := by
  induction parts generalizing pos with
  | nil => exact h.symm.trans h'
  | cons p parts ih => exact ih h.2.2 h'.2.2

theorem PartChain.split {pos stop : ℕ} {parts more : List PartRef}
    (h : PartChain pos (parts ++ more) stop) :
    ∃ mid, PartChain pos parts mid ∧ PartChain mid more stop := by
  induction parts generalizing pos with
  | nil => exact ⟨pos,rfl,h⟩
  | cons p parts ih =>
    obtain ⟨hoffset,hpos,hrest⟩ := h
    obtain ⟨mid,hparts,hmore⟩ := ih hrest
    exact ⟨mid,⟨hoffset,hpos,hparts⟩,hmore⟩

/-- The parts of a whole journal: none in a file of no more than a header. -/
def WholeJournal (parts : List PartRef) (validLen : ℕ) : Prop :=
  parts = [] ∧ (validLen = 0 ∨ validLen = journalHeaderLen) ∨
    parts ≠ [] ∧ PartChain journalHeaderLen parts validLen

/-- The end of the file is a committed reset marker. -/
def showsCommittedReset (file : Bytes) : Bool :=
  (committedResetPlan file (slice file 0 journalHeaderLen)).isSome

theorem showsCommittedReset_long {file : Bytes} (h : showsCommittedReset file = true) :
    journalHeaderLen < file.length := by
  obtain ⟨plan,hplan⟩ := Option.isSome_iff_exists.mp h
  obtain ⟨_,_,hmin,-⟩ := committedResetPlan_some hplan
  omega

/-- No bytes, or the header of an empty journal. -/
def EmptyJournal (file : Bytes) : Prop :=
  file.length = 0 ∨ file.length = journalHeaderLen ∧
    ∃ bodyLen, JournalHeader.decode (slice file 0 journalHeaderLen) = .ok ⟨.empty,bodyLen⟩

/-- A header that names a segment, with frames behind it. -/
def ActiveJournal (file : Bytes) (segmentId : SegmentId) : Prop :=
  journalHeaderLen < file.length ∧
    ∃ bodyLen, JournalHeader.decode (slice file 0 journalHeaderLen) =
      .ok ⟨.active segmentId.get,bodyLen⟩

theorem readJournalPlan_shape {file : Bytes} {plan : JournalReadPlan}
    (h : readJournalPlan file = .ok plan) :
    plan.validLen = file.length ∧ plan.committedReset = showsCommittedReset file ∧
      (showsCommittedReset file = true → journalHeaderLen+resetMarkerLen < file.length ∧
        plan.segmentId.isSome = true) ∧
      (showsCommittedReset file = false →
        plan.segmentId = none ∧ EmptyJournal file ∨
        ∃ segmentId, plan.segmentId = some segmentId ∧ ActiveJournal file segmentId ∧
          plan.scanLen.toNat = file.length) := by
  have hh : journalHeaderLen = 36 := rfl
  have hmax : maxJournalLen = 2^30 := rfl
  rw [readJournalPlan] at h
  split at h
  · cases h
  next hlong =>
  split at h
  · next hzero =>
    cases h
    have hnone : showsCommittedReset file = false := by
      rw [List.length_eq_zero_iff.mp hzero]
      rfl
    exact ⟨hzero.symm,hnone.symm,fun hshow => absurd (hnone.symm.trans hshow) Bool.false_ne_true,
      fun _ => .inl ⟨rfl,.inl hzero⟩⟩
  split at h
  · cases h
  next hmin =>
  split at h
  · next committed hplan =>
    cases h
    obtain ⟨marker,segmentId,_,hprev,htotal,rfl⟩ := committedMarker_of_plan (not_lt.mp hlong) hplan
    have hshow : showsCommittedReset file = true := by rw [showsCommittedReset,hplan]; rfl
    exact ⟨rfl,hshow.symm,fun _ => ⟨by omega,rfl⟩,fun hno => absurd (hno.symm.trans hshow) Bool.false_ne_true⟩
  · next hplan =>
    have hshow : showsCommittedReset file = false := by rw [showsCommittedReset,hplan]; rfl
    split at h
    · cases h
    next header hd =>
    obtain ⟨state,bodyLen⟩ := header
    dsimp only at h
    split at h
    · cases h
    next hbody =>
    cases state with
    | empty =>
      dsimp only at h
      split at h
      · next hactual =>
        cases h
        exact ⟨rfl,hshow.symm,fun hyes => absurd (hshow.symm.trans hyes) Bool.false_ne_true,
          fun _ => .inl ⟨rfl,.inr ⟨by omega,bodyLen,hd⟩⟩⟩
      · cases h
    | active raw =>
      dsimp only at h
      split at h
      · cases h
      next hactual =>
      split at h
      · cases h
      next segmentId hid =>
      cases h
      refine ⟨rfl,hshow.symm,fun hyes => absurd (hshow.symm.trans hyes) Bool.false_ne_true,
        fun _ => .inr ⟨segmentId,rfl,⟨by omega,bodyLen,?_⟩,toNat_ofNat_of_le (by omega)⟩⟩
      rw [hd,SegmentId.get_of_new hid]

/-- The frames of a scan that names no damage and ends where the plan ends. -/
theorem scanJournalFrames_frameRun {file : Bytes} {plan : JournalReadPlan} {segmentId : SegmentId}
    (hplan : readJournalPlan file = .ok plan) (hid : plan.segmentId = some segmentId)
    {startAt : UInt64} {remaining total : ℕ} {report : ScanReport}
    (hscan : scanJournalFrames ⟨file,plan.scanLen⟩ startAt remaining total = .ok report)
    (hclean : report.damages.isEmpty = true) (hend : report.validLen = plan.scanLen.toNat) :
    FrameRun (file.take plan.scanLen.toNat) JournalConfig.default.limits startAt.toNat report.parts
      plan.scanLen.toNat := by
  have hmax : maxJournalLen = 2^30 := rfl
  obtain ⟨hlen,hbounds⟩ := readJournalPlan_ok hplan
  rw [hid] at hbounds
  obtain ⟨next,hscan⟩ := scanJournalFrames_ok hscan
  have hrun := scanStrict_frameRun (readsAs_upTo file plan.scanLen hbounds.2)
    (by rw [List.length_take,u64Max]; omega) hscan (List.isEmpty_iff.mp hclean)
  rw [hend] at hrun
  exact hrun

/-- What a scan says of a file, whatever it resumes behind. -/
structure ScanOf (file : Bytes) (startAt : ℕ) (previous : List ActivePart) (scan : JournalScan) :
    Prop where
  damages : scan.damages = []
  validLen : scan.validLen = file.length
  bounded : file.length ≤ maxJournalLen
  committed : scan.committedReset = showsCommittedReset file
  reset : showsCommittedReset file = true → scan.active.parts = []
  parts : showsCommittedReset file = false →
    scan.active.parts = [] ∧ EmptyJournal file ∨
    ∃ segmentId kept more, ActiveJournal file segmentId ∧
      scan.active.parts = kept ++ more ∧ (∀ part ∈ more, part.segmentId = segmentId) ∧
      ((journalHeaderLen ≤ startAt ∧ startAt ≤ file.length ∧
          (∀ first ∈ previous.head?, first.segmentId = segmentId) ∧ kept = previous ∧
          PartChain startAt (more.map ActivePart.part) file.length) ∨
        (¬(journalHeaderLen ≤ startAt ∧ startAt ≤ file.length ∧
          ∀ first ∈ previous.head?, first.segmentId = segmentId) ∧ kept = [] ∧
          PartChain journalHeaderLen (more.map ActivePart.part) file.length ∧ more ≠ []))

theorem scanJournalReaderBoundedFrom_ok {growth : VecGrowth} {limit : ℕ} {file : Bytes}
    {startAt : UInt64} {previous : ActiveVec} {shared : Bool} {maxParts : ℕ} {scan : JournalScan}
    (h : scanJournalReaderBoundedFrom growth limit file startAt previous shared maxParts =
      .ok scan) : ScanOf file startAt.toNat previous.parts scan := by
  have hh : journalHeaderLen = 36 := rfl
  have hstart : (UInt64.ofNat journalHeaderLen).toNat = journalHeaderLen := rfl
  rw [scanJournalReaderBoundedFrom] at h
  obtain ⟨plan,hplan,h⟩ := bind_ok h
  obtain ⟨hvalid,hcommitted,hshows,hunmarked⟩ := readJournalPlan_shape hplan
  have hbounded := (readJournalPlan_ok hplan).1
  split at h
  · next hnone =>
    split at h
    · cases h
    cases h
    have hno : showsCommittedReset file = false := by
      by_contra hyes
      have hsome := (hshows (by simpa using hyes)).2
      rw [hnone] at hsome
      cases hsome
    refine ⟨rfl,hvalid,hbounded,hno.symm,fun _ => rfl,fun _ => ?_⟩
    rcases hunmarked hno with ⟨-,hlen⟩ | ⟨segmentId,hsome,-⟩
    · exact .inl ⟨rfl,hlen⟩
    · cases hnone.symm.trans hsome
  · next segmentId hid =>
    dsimp only at h
    generalize hresume : (!plan.committedReset &&
      (previous.parts.head?.all fun part => decide (part.segmentId = segmentId)) &&
      decide (journalHeaderLen ≤ startAt.toNat) && decide (startAt ≤ plan.scanLen)) = canResume at h
    split at h
    · cases h
    next remaining _ =>
    obtain ⟨report,hscan,h⟩ := bind_ok h
    obtain ⟨⟨hclean,hend⟩,⟨hreset,hdamages,hlen⟩,hkept⟩ := retainReport_ok h
    have hrun := scanJournalFrames_frameRun hplan hid hscan hclean hend
    refine ⟨hdamages,hlen.trans hvalid,hbounded,hreset.trans hcommitted,fun hyes => ?_,
      fun hno => ?_⟩
    · rw [hcommitted,hyes,if_pos rfl] at hkept
      rw [hcommitted,hyes] at hresume
      obtain rfl : false = canResume := hresume
      rw [hkept]
      rfl
    · rcases hunmarked hno with ⟨hnone,-⟩ | ⟨segment,hsome,hd,hscanLen⟩
      · cases hnone.symm.trans hid
      obtain rfl := Option.some.inj (hid.symm.trans hsome)
      have hbounds := (readJournalPlan_ok hplan).2
      rw [hid] at hbounds
      have hcond : canResume = true ↔ journalHeaderLen ≤ startAt.toNat ∧
          startAt.toNat ≤ file.length ∧
            ∀ first ∈ previous.parts.head?, first.segmentId = segmentId := by
        rw [← hresume,hcommitted,hno]
        simp only [Bool.not_false,Bool.true_and,Bool.and_eq_true,decide_eq_true_eq,
          UInt64.le_iff_toNat_le,hscanLen,Option.all_eq_true]
        constructor
        · rintro ⟨⟨hfirst,hlow⟩,hhigh⟩
          exact ⟨hlow,hhigh,hfirst⟩
        · rintro ⟨hlow,hhigh,hfirst⟩
          exact ⟨⟨hfirst,hlow⟩,hhigh⟩
      rw [hcommitted,hno,if_neg Bool.false_ne_true] at hkept
      obtain ⟨⟨more,hmore,hkeeps⟩,-⟩ := hkept
      obtain ⟨hrefs,hids⟩ := Keeps.map_part hkeeps
      have hchain := hrun.partChain
      rw [← hrefs,hscanLen] at hchain
      refine .inr ⟨segmentId,_,more,hd,hmore,fun part hp => (hids part hp).1,?_⟩
      cases canResume with
      | true =>
        obtain ⟨hlow,hhigh,hfirst⟩ := hcond.mp rfl
        exact .inl ⟨hlow,hhigh,hfirst,rfl,hchain⟩
      | false =>
        refine .inr ⟨fun hyes => Bool.false_ne_true (hcond.mpr hyes),rfl,hchain,fun hnil => ?_⟩
        rw [hnil] at hchain
        have hsame : journalHeaderLen = file.length := hchain
        have hlow := hbounds.1
        omega

end PgKronika
