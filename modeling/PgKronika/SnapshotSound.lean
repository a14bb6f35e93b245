import PgKronika.JournalResume

/-! What a snapshot keeps of the journal it has looked at, and what a later look that continues it
adds: parts behind the ones it keeps. -/
namespace PgKronika

open ByteCodec CheckedArith

/-- The digest of a prefix that knows its segment. -/
def JournalDigestState.Anchored (state : JournalDigestState) (segmentId : Int64) : Prop :=
  state.segmentId = some segmentId ∧
    ∃ rest, state.hashed = journalPrefixDomain ++ [1] ++ i64Le segmentId ++ rest

/-- The digest of a prefix that knows no segment: of no bytes, or of an empty journal. -/
def JournalDigestState.Unanchored (state : JournalDigestState) : Prop :=
  state.segmentId = none ∧
    (state.hashedLen = 0 ∨ ∃ rest, state.hashed = journalPrefixDomain ++ [0] ++ rest)

theorem journalPrefixState_ok {identity : Option JournalIdentity} {file : Option Bytes}
    {validLen : ℕ} {state : JournalDigestState}
    (h : journalPrefixState identity file validLen = .ok state) :
    state.identity = identity ∧ state.hashedLen = validLen ∧
      (state.Unanchored ∨ ∃ bytes segmentId bodyLen, file = some bytes ∧
        JournalHeader.decode (slice bytes 0 journalHeaderLen) = .ok ⟨.active segmentId,bodyLen⟩ ∧
        state.Anchored segmentId) := by
  unfold journalPrefixState at h
  split at h
  · next hzero =>
    cases h
    exact ⟨rfl,hzero.symm,.inl ⟨rfl,.inl rfl⟩⟩
  split at h
  · cases h
  cases file with
  | none => cases h
  | some bytes =>
    obtain ⟨headerBytes,hheader,h⟩ := bind_ok h
    obtain ⟨committed,_,h⟩ := bind_ok h
    obtain ⟨segmentId,hsegment,h⟩ := bind_ok h
    split at h
    · cases h
    cases h
    refine ⟨rfl,rfl,?_⟩
    cases committed with
    | true =>
      cases hsegment
      exact .inl ⟨rfl,.inr ⟨_,rfl⟩⟩
    | false =>
      obtain ⟨header,hd,hsegment⟩ := bind_ok hsegment
      rw [readHeader] at hheader
      split at hheader
      · cases hheader
      cases hheader
      rw [decodeHeader] at hd
      cases hdecode : JournalHeader.decode (slice bytes 0 journalHeaderLen) with
      | error e =>
        rw [hdecode] at hd
        cases hd
      | ok header' =>
        rw [hdecode] at hd
        obtain rfl : header' = header := Except.ok.inj hd
        obtain ⟨state,bodyLen⟩ := header'
        cases state with
        | empty =>
          cases hsegment
          exact .inl ⟨rfl,.inr ⟨_,rfl⟩⟩
        | active raw =>
          cases hsegment
          refine .inr ⟨bytes,raw,bodyLen,rfl,hdecode,rfl,
            slice bytes journalHeaderLen (validLen-journalHeaderLen),?_⟩
          simp

theorem JournalDigestState.extend_ok {state next : JournalDigestState} {file : Option Bytes}
    {newValidLen : ℕ} (h : state.extend file newValidLen = .ok next) :
    next.identity = state.identity ∧ next.hashedLen = newValidLen ∧
      next.segmentId = state.segmentId ∧
      ∀ segmentId, state.Anchored segmentId → next.Anchored segmentId := by
  cases file with
  | none => cases h
  | some bytes =>
    rw [extend] at h
    split at h
    · cases h
    cases h
    refine ⟨rfl,rfl,rfl,fun segmentId hanchored => ?_⟩
    obtain ⟨hsegment,rest,hhashed⟩ := hanchored
    refine ⟨hsegment,rest ++ slice bytes state.hashedLen (newValidLen-state.hashedLen),?_⟩
    dsimp only
    rw [hhashed,List.append_assoc]

/-- Two prefixes that were hashed from the same bytes belong to the same segment. -/
theorem JournalDigestState.Anchored.same_input {kept observed : JournalDigestState}
    {segmentId : Int64} (h : kept.Anchored segmentId) (hinput : observed.input = kept.input)
    (hlen : observed.hashedLen ≠ 0) :
    ¬observed.Unanchored ∧ ∀ other, observed.Anchored other → other = segmentId := by
  obtain ⟨_,rest,hkept⟩ := h
  rw [input,input,hkept] at hinput
  constructor
  · rintro ⟨_,hzero | ⟨rest',hobserved⟩⟩
    · exact hlen hzero
    · rw [hobserved] at hinput
      simp only [List.append_assoc,List.append_cancel_left_eq] at hinput
      cases hinput
  · rintro other ⟨_,rest',hobserved⟩
    rw [hobserved] at hinput
    simp only [List.append_assoc,List.append_cancel_left_eq] at hinput
    exact i64Le_injective (List.append_inj hinput (by simp)).1

theorem mapError_eq_ok {ε ε' α : Type} {x : Except ε α} {f : ε → ε'} {a : α}
    (h : x.mapError f = .ok a) : x = .ok a := by
  cases x with
  | error e => cases h
  | ok b => exact congrArg Except.ok (Except.ok.inj h)

/-- The scan of a journal together with the digest of its prefix. -/
structure SoundScan (parts : List ActivePart) (committedReset : Bool) (validLen : ℕ)
    (kept : JournalDigestState) (seen : Option Bytes) : Prop where
  length : validLen = (seen.map List.length).getD 0
  bounded : validLen ≤ maxJournalLen
  committed : committedReset = seen.any showsCommittedReset
  reset : committedReset = true → parts = []
  whole : committedReset = false → WholeJournal (parts.map ActivePart.part) validLen
  header : committedReset = false → ∀ first ∈ parts.head?,
    ∃ file ∈ seen, ActiveJournal file first.segmentId
  hashedLen : kept.hashedLen = validLen
  anchored : committedReset = false → kept.segmentId = none ∨
    ∃ first ∈ parts.head?, kept.Anchored first.segmentId.get

section Scan

variable {file : Bytes} {startAt : ℕ} {previous : List ActivePart} {scan : JournalScan}

/-- A scan that resumes behind a whole journal shows a whole journal. -/
theorem ScanOf.whole (h : ScanOf file startAt previous scan)
    (hprevious : WholeJournal (previous.map ActivePart.part) startAt)
    (hno : showsCommittedReset file = false) :
    scan.active.parts = [] ∧ EmptyJournal file ∨
      WholeJournal (scan.active.parts.map ActivePart.part) file.length ∧
        ∃ first ∈ scan.active.parts.head?, ActiveJournal file first.segmentId := by
  have hh : journalHeaderLen = 36 := rfl
  rcases h.parts hno with hempty | ⟨segmentId,kept,more,hactive,hparts,hids,hkept⟩
  · exact .inl hempty
  refine .inr ?_
  rcases hkept with ⟨hlow,hhigh,hfirst,hsame,hchain⟩ | ⟨-,rfl,hchain,hmore⟩
  · rw [hsame] at hparts
    cases previous with
    | nil =>
      obtain rfl : startAt = journalHeaderLen := by
        rcases hprevious with ⟨-,hlen⟩ | ⟨hne,-⟩
        · omega
        · exact absurd rfl hne
      cases more with
      | nil =>
        have hsame : journalHeaderLen = file.length := hchain
        have hlong := hactive.1
        omega
      | cons part more =>
        rw [hparts]
        refine ⟨.inr ⟨by simp,hchain⟩,part,rfl,?_⟩
        rw [hids part (by simp)]
        exact hactive
    | cons part rest =>
      rw [hparts]
      refine ⟨.inr ⟨by simp,?_⟩,part,rfl,?_⟩
      · rw [List.map_append]
        rcases hprevious with ⟨hnil,-⟩ | ⟨-,hbefore⟩
        · cases hnil
        · exact hbefore.append hchain
      · rw [hfirst part rfl]
        exact hactive
  · rw [hparts,List.nil_append]
    cases more with
    | nil => exact absurd rfl hmore
    | cons part more =>
      refine ⟨.inr ⟨by simp,hchain⟩,part,rfl,?_⟩
      rw [hids part (by simp)]
      exact hactive

/-- The journal still carries the segment of the parts that are kept, and has not shrunk. -/
def CarriesOn (previous : List ActivePart) (lastValidLen : ℕ) (file : Bytes) : Prop :=
  ∀ first ∈ previous.head?, lastValidLen ≤ file.length ∧ ActiveJournal file first.segmentId

theorem ActiveJournal.unique {segmentId other : SegmentId} (h : ActiveJournal file segmentId)
    (h' : ActiveJournal file other) : segmentId = other := by
  obtain ⟨-,bodyLen,hd⟩ := h
  obtain ⟨-,bodyLen',hd'⟩ := h'
  have hheader := Except.ok.inj (hd.symm.trans hd')
  have hid : segmentId.get = other.get :=
    JournalState.active.inj (congrArg JournalHeader.state hheader)
  have hnew := SegmentId.new_get segmentId
  rw [hid,SegmentId.new_get] at hnew
  exact (Except.ok.inj hnew).symm

theorem ActiveJournal.not_empty {segmentId : SegmentId} (h : ActiveJournal file segmentId) :
    ¬EmptyJournal file := by
  rintro (hlen | ⟨hlen,-⟩)
  · have hlong := h.1
    omega
  · have hlong := h.1
    omega

/-- A scan of a journal that carries on adds parts behind the offset that it resumes at. -/
theorem ScanOf.continues (h : ScanOf file startAt previous scan)
    (hprevious : WholeJournal (previous.map ActivePart.part) startAt)
    (hcarries : CarriesOn previous startAt file) (hno : showsCommittedReset file = false) :
    ∃ more, scan.active.parts = previous ++ more ∧ ∀ part ∈ more, startAt ≤ part.part.offset := by
  have hh : journalHeaderLen = 36 := rfl
  have hbehind : ∀ {pos stop : ℕ} {more : List ActivePart}, startAt ≤ pos →
      PartChain pos (more.map ActivePart.part) stop → ∀ part ∈ more, startAt ≤ part.part.offset := by
    intro pos stop more hpos hchain part hpart
    have hlow := (hchain.mem (List.mem_map_of_mem hpart)).1
    omega
  cases previous with
  | nil =>
    have hstart : startAt ≤ journalHeaderLen := by
      rcases hprevious with ⟨-,hlen⟩ | ⟨hne,-⟩
      · omega
      · exact absurd rfl hne
    refine ⟨scan.active.parts,rfl,?_⟩
    rcases h.parts hno with ⟨hnil,-⟩ | ⟨segmentId,kept,more,-,hparts,-,hkept⟩
    · rw [hnil]
      simp
    · rcases hkept with ⟨-,-,-,hsame,hchain⟩ | ⟨-,rfl,hchain,-⟩
      · rw [hparts,hsame]
        exact hbehind le_rfl hchain
      · rw [hparts]
        exact hbehind hstart hchain
  | cons first rest =>
    obtain ⟨hhigh,hactive⟩ := hcarries first rfl
    have hlow : journalHeaderLen ≤ startAt := by
      rcases hprevious with ⟨hnil,-⟩ | ⟨-,hchain⟩
      · cases hnil
      · exact hchain.le
    rcases h.parts hno with ⟨-,hempty⟩ | ⟨segmentId,kept,more,hother,hparts,-,hkept⟩
    · exact absurd hempty hactive.not_empty
    · rcases hkept with ⟨-,-,-,hsame,hchain⟩ | ⟨hrefused,-⟩
      · rw [hsame] at hparts
        exact ⟨more,hparts,hbehind le_rfl hchain⟩
      · refine absurd ⟨hlow,hhigh,fun part hpart => ?_⟩ hrefused
        cases hpart
        exact hactive.unique hother

end Scan

theorem EmptyJournal.not_active {file : Bytes} (h : EmptyJournal file) {segmentId : Int64}
    {bodyLen : UInt64} :
    JournalHeader.decode (slice file 0 journalHeaderLen) ≠ .ok ⟨.active segmentId,bodyLen⟩ := by
  intro hactive
  rcases h with hlen | ⟨-,bodyLen',hempty⟩
  · rw [List.length_eq_zero_iff.mp hlen] at hactive
    cases hactive
  · cases hempty.symm.trans hactive

/-- A digest that is rebuilt knows the segment of the parts, if any. -/
theorem journalPrefixState_anchored {identity : Option JournalIdentity} {file : Bytes}
    {validLen : ℕ} {state : JournalDigestState} {parts : List ActivePart}
    (h : journalPrefixState identity (some file) validLen = .ok state)
    (hparts : parts = [] ∧ EmptyJournal file ∨
      ∃ first ∈ parts.head?, ActiveJournal file first.segmentId) :
    state.segmentId = none ∨ ∃ first ∈ parts.head?, state.Anchored first.segmentId.get := by
  obtain ⟨-,-,hunanchored | ⟨bytes,segmentId,bodyLen,hfile,hd,hanchored⟩⟩ := journalPrefixState_ok h
  · exact .inl hunanchored.1
  · cases hfile
    rcases hparts with ⟨-,hempty⟩ | ⟨first,hfirst,-,bodyLen',hd'⟩
    · exact absurd hd hempty.not_active
    · have hheader := Except.ok.inj (hd.symm.trans hd')
      have hid : segmentId = first.segmentId.get :=
        JournalState.active.inj (congrArg JournalHeader.state hheader)
      exact .inr ⟨first,hfirst,hid ▸ hanchored⟩

theorem WholeJournal.of_empty {file : Bytes} (h : EmptyJournal file) :
    WholeJournal [] file.length := .inl ⟨rfl,h.imp id And.left⟩

/-- A scan with a digest that knows its segment. -/
theorem ScanOf.sound {file : Bytes} {startAt : ℕ} {previous : List ActivePart}
    {scan : JournalScan} {kept : JournalDigestState} (h : ScanOf file startAt previous scan)
    (hprevious : WholeJournal (previous.map ActivePart.part) startAt)
    (hlen : kept.hashedLen = scan.validLen)
    (hanchored : showsCommittedReset file = false →
      (scan.active.parts = [] ∧ EmptyJournal file ∨
        ∃ first ∈ scan.active.parts.head?, ActiveJournal file first.segmentId) →
      kept.segmentId = none ∨
        ∃ first ∈ scan.active.parts.head?, kept.Anchored first.segmentId.get) :
    SoundScan scan.active.parts scan.committedReset scan.validLen kept (some file) where
  length := h.validLen
  bounded := h.validLen ▸ h.bounded
  committed := h.committed
  reset hyes := h.reset (h.committed ▸ hyes)
  whole hno := by
    rw [h.validLen]
    rcases h.whole hprevious (h.committed ▸ hno) with ⟨hnil,hempty⟩ | ⟨hwhole,-⟩
    · rw [hnil]
      exact .of_empty hempty
    · exact hwhole
  header hno first hfirst := by
    rcases h.whole hprevious (h.committed ▸ hno) with ⟨hnil,-⟩ | ⟨-,part,hpart,hactive⟩
    · rw [hnil] at hfirst
      cases hfirst
    · obtain rfl : part = first := Option.mem_unique hpart hfirst
      exact ⟨file,rfl,hactive⟩
  hashedLen := hlen
  anchored hno := hanchored (h.committed ▸ hno)
    ((h.whole hprevious (h.committed ▸ hno)).imp id And.right)

theorem SoundScan.absent {state : JournalDigestState} {identity : Option JournalIdentity}
    (h : journalPrefixState identity none 0 = .ok state) : SoundScan [] false 0 state none where
  length := rfl
  bounded := Nat.zero_le _
  committed := rfl
  reset _ := rfl
  whole _ := .inl ⟨rfl,.inl rfl⟩
  header _ _ hfirst := by cases hfirst
  hashedLen := (journalPrefixState_ok h).2.1
  anchored _ := by
    obtain ⟨-,-,hunanchored | ⟨bytes,_,_,hfile,-⟩⟩ := journalPrefixState_ok h
    · exact .inl hunanchored.1
    · cases hfile

/-- A full scan with a rebuilt digest. -/
theorem LocalDir.scanJournal_sound {growth : VecGrowth} {file : Option Bytes} {scan : JournalScan}
    {identity : Option JournalIdentity} {state : JournalDigestState}
    (hscan : LocalDir.scanJournal growth file = .ok scan)
    (hstate : journalPrefixState identity file scan.validLen = .ok state) :
    SoundScan scan.active.parts scan.committedReset scan.validLen state file ∧
      scan.damages = [] := by
  cases file with
  | none =>
    cases hscan
    exact ⟨.absent hstate,rfl⟩
  | some bytes =>
    have hof := scanJournalReaderBoundedFrom_ok hscan
    exact ⟨hof.sound (.inl ⟨rfl,.inr rfl⟩) (journalPrefixState_ok hstate).2.1
      fun _ hparts => journalPrefixState_anchored hstate hparts,hof.damages⟩

theorem classifyTransition_append {previous current : Option JournalIdentity} {validLen : ℕ}
    (h : classifyTransition previous current validLen = .append) :
    previous = none ∨ ∃ p c, previous = some p ∧ current = some c ∧
      p.device = c.device ∧ p.inode = c.inode ∧ validLen ≤ c.len ∧ (p.len < c.len ∨ p = c) := by
  cases previous with
  | none => exact .inl rfl
  | some p =>
    cases current with
    | none => cases h
    | some c =>
      rw [classifyTransition] at h
      split at h
      · cases h
      next hfile =>
      split at h
      · cases h
      next hshort =>
      obtain ⟨hdevice,hinode⟩ := not_or.mp hfile
      refine .inr ⟨p,c,rfl,rfl,not_not.mp hdevice,not_not.mp hinode,not_lt.mp hshort,?_⟩
      split at h
      · next hgrown => exact .inl hgrown
      next hgrown =>
      split at h
      · cases h
      next hshrunk =>
      split at h
      · next htimes =>
        right
        obtain ⟨device,inode,len,mtimeNs,ctimeNs⟩ := p
        obtain ⟨device',inode',len',mtimeNs',ctimeNs'⟩ := c
        dsimp only at hdevice hinode hgrown hshrunk htimes
        obtain rfl := not_not.mp hdevice
        obtain rfl := not_not.mp hinode
        obtain ⟨rfl,rfl⟩ := htimes
        obtain rfl : len = len' := by omega
        rfl
      · cases h

section Snapshot

variable {ω : Type} {app : SnapshotApp} {s : LocalDirSnapshot ω} {kept : JournalDigestState}
  {seen : Option Bytes} {attempt : JournalLook}

/-- A snapshot that has last read the bytes `seen`. -/
structure LocalDirSnapshot.Sound (app : SnapshotApp) (s : LocalDirSnapshot ω)
    (kept : JournalDigestState) (seen : Option Bytes) : Prop where
  scan : SoundScan s.scan.active.parts s.scan.committedReset s.lastValidLen kept seen
  state : s.prefixDigestState = some kept
  digest : s.journalPrefixDigest = kept.digest app
  identity : s.journalIdentity.map JournalIdentity.len = seen.map List.length
  damages : s.scan.damages = []
  tail : s.tailPending = none
  complete : s.journalDescriptorsComplete = s.scan.journalDescriptorsComplete

/-- The digest that is kept comes from an empty journal and knows no segment, so that nothing
tells apart the parts it has grown by from those of another segment. -/
def LocalDirSnapshot.MissesRewrite (s : LocalDirSnapshot ω) (attempt : JournalLook) : Prop :=
  (∃ kept, s.prefixDigestState = some kept ∧ kept.segmentId = none) ∧
    sameInodeGrowth s.journalIdentity attempt.before = true ∧
    ∃ first ∈ s.scan.active.parts.head?, ∃ file ∈ attempt.file, ∃ segmentId,
      ActiveJournal file segmentId ∧ segmentId ≠ first.segmentId

/-- The two prefixes that a look compares by their digest do not collide. -/
def LocalDirSnapshot.NoCollision (app : SnapshotApp) (s : LocalDirSnapshot ω)
    (attempt : JournalLook) : Prop :=
  ∀ kept observed, s.prefixDigestState = some kept →
    journalPrefixState attempt.before attempt.file s.lastValidLen = .ok observed →
    observed.digest app = kept.digest app → observed.input = kept.input

/-- What a look at an unchanged or faithfully reported journal can rely on. -/
structure LocalDirSnapshot.Admits (app : SnapshotApp) (s : LocalDirSnapshot ω)
    (seen : Option Bytes) (attempt : JournalLook) : Prop where
  length : attempt.before.map JournalIdentity.len = attempt.file.map List.length
  unchanged : attempt.before = s.journalIdentity → attempt.file = seen
  noCollision : s.NoCollision app attempt

theorem WholeJournal.nil_of_zero {parts : List ActivePart}
    (h : WholeJournal (parts.map ActivePart.part) 0) : parts = [] := by
  rcases h with ⟨hnil,-⟩ | ⟨-,hchain⟩
  · exact List.map_eq_nil_iff.mp hnil
  · have hle := hchain.le
    have hh : journalHeaderLen = 36 := rfl
    omega

theorem WholeJournal.lt_of_ne {parts : List ActivePart} {validLen : ℕ}
    (h : WholeJournal (parts.map ActivePart.part) validLen) (hne : parts ≠ []) :
    journalHeaderLen < validLen := by
  rcases h with ⟨hnil,-⟩ | ⟨-,hchain⟩
  · exact absurd (List.map_eq_nil_iff.mp hnil) hne
  · cases parts with
    | nil => exact absurd rfl hne
    | cons part rest =>
      obtain ⟨hoffset,hpos,hrest⟩ := hchain
      have hle := hrest.le
      have hfh : frameHeaderLen = 16 := rfl
      omega

theorem JournalDigestState.matchesCurrentSegment_ok {state : JournalDigestState} {file : Bytes}
    {segmentId : Int64} (hanchored : state.segmentId = some segmentId)
    (h : state.matchesCurrentSegment (some file) = .ok true) : ∃ bodyLen,
      JournalHeader.decode (slice file 0 journalHeaderLen) = .ok ⟨.active segmentId,bodyLen⟩ := by
  rw [matchesCurrentSegment,hanchored] at h
  obtain ⟨bytes,hheader,h⟩ := bind_ok h
  obtain ⟨header,hd,h⟩ := bind_ok h
  rw [readHeader] at hheader
  split at hheader
  · cases hheader
  cases hheader
  rw [decodeHeader] at hd
  cases hdecode : JournalHeader.decode (slice file 0 journalHeaderLen) with
  | error e =>
    rw [hdecode] at hd
    cases hd
  | ok header' =>
    rw [hdecode] at hd
    obtain rfl : header' = header := Except.ok.inj hd
    have hstate := of_decide_eq_true (Except.ok.inj h)
    exact ⟨header'.bodyLen,by rw [← hstate]⟩

/-- A transition that is verified as an append: the journal carries on, or what tells it from
another one is missing. -/
theorem LocalDirSnapshot.Sound.verifiedTransition_append (h : s.Sound app kept seen)
    (hallows : s.Admits app seen attempt) (hcommitted : s.scan.committedReset = false)
    (ht : s.verifiedTransition app attempt.before attempt.file = .ok .append) :
    s.scan.active.parts = [] ∨ ∃ file ∈ attempt.file, s.lastValidLen ≤ file.length ∧
      (sameInodeGrowth s.journalIdentity attempt.before = true ∧ kept.segmentId = none ∨
        ∀ first ∈ s.scan.active.parts.head?, ActiveJournal file first.segmentId) := by
  by_cases hparts : s.scan.active.parts = []
  · exact .inl hparts
  have hh : journalHeaderLen = 36 := rfl
  have hlong := (h.scan.whole hcommitted).lt_of_ne hparts
  rw [verifiedTransition] at ht
  split at ht
  · cases ht
  dsimp only at ht
  have happend : classifyTransition s.journalIdentity attempt.before s.lastValidLen = .append := by
    split at ht
    · next hgrown => exact hgrown.1
    · exact Except.ok.inj ht
  rcases classifyTransition_append happend with
    hnone | ⟨p,c,hp,hc,hdevice,hinode,hle,hgrown | rfl⟩
  · have hseen := h.identity
    rw [hnone] at hseen
    have hlen := h.scan.length
    rw [← hseen] at hlen
    exact absurd hlen (by simp; omega)
  · have hlen := hallows.length
    rw [hc] at hlen
    obtain ⟨file,hfile,hfileLen⟩ := Option.map_eq_some_iff.mp hlen.symm
    refine .inr ⟨file,hfile,by omega,?_⟩
    have hgrowth : sameInodeGrowth s.journalIdentity attempt.before = true := by
      rw [hp,hc]
      exact decide_eq_true ⟨hdevice,hinode,hgrown⟩
    rw [if_pos ⟨happend,hgrowth,by omega,by simp [hcommitted],hparts⟩] at ht
    rcases h.scan.anchored hcommitted with hnone | ⟨first,hfirst,hanchored⟩
    · exact .inl ⟨hgrowth,hnone⟩
    refine .inr fun part hpart => ?_
    obtain rfl : first = part := Option.mem_unique hfirst hpart
    have hactive : ∀ {bodyLen : UInt64}, JournalHeader.decode (slice file 0 journalHeaderLen) =
        .ok ⟨.active first.segmentId.get,bodyLen⟩ → ActiveJournal file first.segmentId :=
      fun hd => ⟨by omega,_,hd⟩
    obtain ⟨proven,hproven,ht⟩ := bind_ok ht
    cases proven with
    | true =>
      rw [prefixProven,h.state] at hproven
      dsimp only at hproven
      split at hproven
      · rw [hfile] at hproven
        exact hactive (JournalDigestState.matchesCurrentSegment_ok hanchored.1 hproven).choose_spec
      · cases hproven
    | false =>
      obtain ⟨observed,hobserved,ht⟩ := bind_ok ht
      split at ht
      · cases ht
      next hdigest =>
      rw [not_not,h.digest] at hdigest
      have hinput := hallows.noCollision kept observed h.state hobserved hdigest
      obtain ⟨-,hhashed,hsegment⟩ := journalPrefixState_ok hobserved
      obtain ⟨hnot,hsame⟩ := hanchored.same_input hinput (by omega)
      rcases hsegment with hunanchored | ⟨bytes,segmentId,bodyLen,hbytes,hd,hother⟩
      · exact absurd hunanchored hnot
      · cases hfile.symm.trans hbytes
        rw [hsame segmentId hother] at hd
        exact hactive hd
  · have hsame := hallows.unchanged (hc.trans hp.symm)
    obtain ⟨first,hfirst⟩ : ∃ first, s.scan.active.parts.head? = some first := by
      cases hlist : s.scan.active.parts with
      | nil => exact absurd hlist hparts
      | cons first rest => exact ⟨first,rfl⟩
    obtain ⟨file,hfile,hactive⟩ := h.scan.header hcommitted first hfirst
    refine .inr ⟨file,hsame ▸ hfile,?_,.inr fun part hpart => ?_⟩
    · have hlen := h.scan.length
      rw [hfile] at hlen
      exact le_of_eq hlen
    · obtain rfl : first = part := Option.mem_unique hfirst hpart
      exact hactive

/-- A digest is rebuilt from the file, or the kept one is extended over an append. -/
theorem LocalDirSnapshot.Sound.prefixStateFor_ok (h : s.Sound app kept seen)
    {journal : JournalScan} {transition : PartTransition} {state : JournalDigestState}
    (hstate : s.prefixStateFor journal attempt.before attempt.file transition = .ok state) :
    journalPrefixState attempt.before attempt.file journal.validLen = .ok state ∨
      transition = .append ∧ s.scan.committedReset = false ∧ journal.committedReset = false ∧
        kept.extend attempt.file journal.validLen = .ok state := by
  rw [prefixStateFor,h.state] at hstate
  split at hstate
  · next other hkept =>
    obtain ⟨hsome,hresumable⟩ := Option.filter_eq_some_iff.mp hkept
    cases hsome
    simp only [Bool.and_eq_true,Bool.not_eq_true'] at hresumable
    obtain ⟨⟨⟨⟨hpreserves,hcommitted⟩,hjournal⟩,-⟩,-⟩ := hresumable
    refine .inr ⟨?_,hcommitted,hjournal,hstate⟩
    cases transition <;> first | rfl | cases hpreserves
  · exact .inl hstate

/-- A look that is verified as an append either resumes, or misses that the journal has been
rewritten. -/
theorem LocalDirSnapshot.Sound.carriesOn (h : s.Sound app kept seen)
    (hallows : s.Admits app seen attempt) (hcommitted : s.scan.committedReset = false)
    (ht : s.verifiedTransition app attempt.before attempt.file = .ok .append) {file : Bytes}
    (hfile : attempt.file = some file)
    (hactive : EmptyJournal file ∨ ∃ segmentId, ActiveJournal file segmentId)
    (hmiss : kept.segmentId ≠ none ∨ ¬s.MissesRewrite attempt) :
    CarriesOn s.scan.active.parts s.lastValidLen file := by
  intro first hfirst
  have hh : journalHeaderLen = 36 := rfl
  rcases h.verifiedTransition_append hallows hcommitted ht with
    hnil | ⟨bytes,hbytes,hle,⟨hgrown,hnone⟩ | hsame⟩
  · rw [hnil] at hfirst
    cases hfirst
  · cases hfile.symm.trans hbytes
    rcases hmiss with hsome | hmiss
    · exact absurd hnone hsome
    have hlong := (h.scan.whole hcommitted).lt_of_ne fun hnil => by
      rw [hnil] at hfirst
      cases hfirst
    rcases hactive with hempty | ⟨segmentId,hactive⟩
    · rcases hempty with hlen | ⟨hlen,-⟩ <;> omega
    · have hid : segmentId = first.segmentId := by
        by_contra hne
        exact hmiss ⟨⟨kept,h.state,hnone⟩,hgrown,first,hfirst,file,hfile,segmentId,hactive,hne⟩
      exact ⟨hle,hid ▸ hactive⟩
  · cases hfile.symm.trans hbytes
    exact ⟨hle,hsame first hfirst⟩

theorem SoundScan.start {parts : List ActivePart} {validLen : ℕ}
    (h : SoundScan parts false validLen kept seen) :
    (UInt64.ofNat validLen).toNat = validLen := by
  have hmax : maxJournalLen = 2^30 := rfl
  have hle := h.bounded
  exact toNat_ofNat_of_le (by omega)

/-- One attempt at the journal: what it scans, and that it adds to what has been kept. -/
theorem LocalDirSnapshot.Sound.scanAttempt (h : s.Sound app kept seen)
    (hallows : s.Admits app seen attempt) {journal : JournalScan} {base : PartTransition}
    {state : JournalDigestState} (hscan : s.scanAttempt app attempt = .ok (journal,base,state)) :
    SoundScan journal.active.parts journal.committedReset journal.validLen state attempt.file ∧
      journal.damages = [] ∧
      (base = .append → s.scan.committedReset = false → journal.committedReset = false →
        ¬s.MissesRewrite attempt →
        ∃ more, journal.active.parts = s.scan.active.parts ++ more ∧
          ∀ part ∈ more, s.lastValidLen ≤ part.part.offset) := by
  rw [LocalDirSnapshot.scanAttempt] at hscan
  obtain ⟨transition,ht,hscan⟩ := bind_ok hscan
  obtain ⟨scanned,hjournal,hscan⟩ := bind_ok hscan
  obtain ⟨rebuilt,hstate,hscan⟩ := bind_ok hscan
  cases hscan
  have hscanned := mapError_eq_ok hjournal
  have hdigest := h.prefixStateFor_ok hstate
  by_cases hresume : base = .append ∧ s.scan.committedReset = false
  swap
  · have hfull : LocalDir.scanJournal app.growth attempt.file = .ok journal := by
      split at hscanned
      · next hboth =>
        obtain ⟨hpreserves,hcommitted⟩ := Bool.and_eq_true_iff.mp hboth
        refine absurd ⟨?_,by simpa using hcommitted⟩ hresume
        cases base <;> first | rfl | cases hpreserves
      · exact hscanned
    have hrebuilt := hdigest.resolve_right fun hboth => hresume ⟨hboth.1,hboth.2.1⟩
    obtain ⟨hsound,hdamages⟩ := LocalDir.scanJournal_sound hfull hrebuilt
    exact ⟨hsound,hdamages,fun happend hcommitted => absurd ⟨happend,hcommitted⟩ hresume⟩
  obtain ⟨rfl,hcommitted⟩ := hresume
  have hkept := h.scan
  rw [hcommitted] at hkept
  have hstart := hkept.start
  rw [if_pos (by rw [hcommitted]; rfl)] at hscanned
  cases hfile : attempt.file with
  | none =>
    rw [hfile] at hscanned hdigest
    cases hscanned
    rcases hdigest with hrebuilt | ⟨-,-,-,hextended⟩
    · refine ⟨.absent hrebuilt,rfl,fun _ _ _ _ => ⟨[],?_,by simp⟩⟩
      rcases h.verifiedTransition_append hallows hcommitted ht with hnil | ⟨bytes,hbytes,-⟩
      · rw [hnil]
        rfl
      · cases hfile.symm.trans hbytes
    · cases hextended
  | some file =>
    rw [hfile] at hscanned hdigest
    have hof := scanJournalReaderBoundedFrom_ok hscanned
    rw [hstart] at hof
    have hwhole := hkept.whole rfl
    have hcarries : showsCommittedReset file = false →
        (kept.segmentId ≠ none ∨ ¬s.MissesRewrite attempt) →
        CarriesOn s.scan.active.parts s.lastValidLen file := by
      intro hno
      refine h.carriesOn hallows hcommitted ht hfile ?_
      rcases hof.whole hwhole hno with ⟨-,hempty⟩ | ⟨-,first,-,hactive⟩
      · exact .inl hempty
      · exact .inr ⟨_,hactive⟩
    have hanchored : showsCommittedReset file = false →
        (journal.active.parts = [] ∧ EmptyJournal file ∨
          ∃ first ∈ journal.active.parts.head?, ActiveJournal file first.segmentId) →
        state.segmentId = none ∨
          ∃ first ∈ journal.active.parts.head?, state.Anchored first.segmentId.get := by
      intro hno hparts
      rcases hdigest with hrebuilt | ⟨-,-,-,hextended⟩
      · exact journalPrefixState_anchored hrebuilt hparts
      obtain ⟨-,-,hsegment,hextends⟩ := JournalDigestState.extend_ok hextended
      rcases hkept.anchored rfl with hnone | ⟨first,hfirst,hanchor⟩
      · exact .inl (hsegment.trans hnone)
      have hsome : kept.segmentId ≠ none := by
        rw [hanchor.1]
        exact Option.some_ne_none _
      obtain ⟨more,hmore,-⟩ := hof.continues hwhole (hcarries hno (.inl hsome)) hno
      refine .inr ⟨first,?_,hextends _ hanchor⟩
      rw [hmore,List.head?_append,hfirst]
      rfl
    refine ⟨hof.sound hwhole ?_ hanchored,hof.damages,fun _ _ hno hmiss => ?_⟩
    · rcases hdigest with hrebuilt | ⟨-,-,-,hextended⟩
      · exact (journalPrefixState_ok hrebuilt).2.1
      · exact (JournalDigestState.extend_ok hextended).2.1
    · have hno := hof.committed.symm.trans hno
      exact hof.continues hwhole (hcarries hno (.inr hmiss)) hno

end Snapshot

end PgKronika
