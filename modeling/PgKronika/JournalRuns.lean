import PgKronika.JournalImage

/-! Runs of appends and resets on one handle. A ledger of the answers says which
parts the journal must hold; the file, the handle and a later open agree with it. -/
namespace PgKronika

open ByteCodec CheckedArith FileTrace

/-- What an admitted append has checked. -/
theorem Journal.precheck_ok {j : Journal} {segmentId : SegmentId} {part : Bytes} {nextEnd : ℕ}
    (h : j.precheck segmentId part = .ok nextEnd) :
    (j.segmentId = none ∨ j.segmentId = some segmentId) ∧
      part.length ≤ j.config.limits.maxPartLen.toNat ∧ ValidPart part ∧
      j.parts.length < j.config.maxParts ∧ nextEnd = j.fileEnd + (frameHeaderLen+part.length) ∧
      nextEnd + resetMarkerLen ≤ j.config.maxJournalLen := by
  unfold precheck at h
  split at h
  · cases h
  · split at h
    · cases h
    · rename_i hsame
      split at h
      · cases h
      · rename_i hlen
        split at h
        · cases h
        · rename_i catalog hv
          split at h
          · cases h
          · rename_i hcount
            split at h
            · cases h
            · rename_i stop hstop
              cases h
              obtain ⟨frameLen,hf,hstop⟩ := Option.bind_eq_some_iff.mp hstop
              obtain ⟨next,hn,hstop⟩ := Option.bind_eq_some_iff.mp hstop
              obtain ⟨resetEnd,hr,hstop⟩ := Option.bind_eq_some_iff.mp hstop
              split_ifs at hstop with hmax
              cases hstop
              obtain ⟨rfl,_⟩ := checkedAdd_eq_some.mp hf
              obtain ⟨rfl,_⟩ := checkedAdd_eq_some.mp hn
              obtain ⟨rfl,_⟩ := checkedAdd_eq_some.mp hr
              refine ⟨?_,by omega,⟨catalog,hv⟩,by omega,rfl,by omega⟩
              cases hs : j.segmentId with
              | none => exact .inl rfl
              | some expected =>
                rw [hs,Option.filter_eq_none_iff] at hsame
                exact .inr (by simpa using hsame expected rfl)

theorem applyAll_writeFrame (file part : Bytes) :
    applyAll (writeFrame file.length (FrameHeader.encode ⟨UInt64.ofNat part.length⟩) part) file =
      file ++ encodeFrame part := by
  rw [writeFrame,applyAll_cons,applyAll_cons,applyAll_nil,apply_writeAll,apply_writeAll,
    overwrite_end,← List.length_append,overwrite_end,encodeFrame,List.append_assoc]

/-- Rewriting the root header in place. -/
theorem apply_writeHeader (header old : JournalHeader) (rest : Bytes) :
    (writeHeader header).apply (old.encode ++ rest) = header.encode ++ rest := by
  rw [writeHeader,apply_writeAll,overwrite_start,header.encode_length,← old.encode_length,
    List.drop_left]

/-- All writes of an append, on the canonical file. -/
theorem Journal.Holds.applyAll_appendWrites {j : Journal} {g : Generation} (h : j.Holds g)
    (header : JournalHeader) (part : Bytes) :
    applyAll (j.appendWrites header part) g.image =
      header.encode ++ encodeFrames g.bodies ++ encodeFrame part := by
  have hend : j.fileEnd = g.image.length := by rw [h.fileEnd,g.image_length]
  have hend' : j.fileEnd = (header.encode ++ encodeFrames g.bodies).length := by
    rw [h.fileEnd]; simp
  have himage : g.image = g.header.encode ++ encodeFrames g.bodies := rfl
  unfold appendWrites
  dsimp only
  split_ifs with hempty
  · rw [applyAll_append,applyAll_append]
    simp only [applyAll_cons,applyAll_nil,apply_syncData]
    rw [himage,apply_writeHeader,hend',applyAll_writeFrame]
  · rw [applyAll_append,hend,applyAll_writeFrame]
    simp only [applyAll_cons,applyAll_nil,apply_syncData]
    rw [himage,List.append_assoc,apply_writeHeader,List.append_assoc]

/-- The header of an admitted append is the one of the longer generation. -/
theorem Journal.Holds.appendedHeader_eq {j : Journal} {g : Generation} (h : j.Holds g)
    {segmentId : SegmentId} {part : Bytes} {nextEnd : ℕ}
    (hpre : j.precheck segmentId part = .ok nextEnd) (hv : ValidPart part) :
    appendedHeader segmentId nextEnd = (g.push segmentId part hv).header := by
  obtain ⟨_,_,_,_,hnext,_⟩ := precheck_ok hpre
  have hbody : nextEnd - journalHeaderLen = framesLen (g.bodies ++ [part]) := by
    rw [hnext,h.fileEnd]
    simp
    omega
  rw [appendedHeader,hbody]
  rfl

theorem Journal.Holds.push_fits {j : Journal} {g : Generation} (h : j.Holds g)
    {segmentId : SegmentId} {part : Bytes} {nextEnd : ℕ}
    (hpre : j.precheck segmentId part = .ok nextEnd) (hv : ValidPart part) :
    (g.push segmentId part hv).Fits j.config := by
  obtain ⟨_,hlen,_,hcount,hnext,hfits⟩ := precheck_ok hpre
  have hparts : j.parts.length = g.bodies.length := by rw [h.parts]; simp
  have hend := h.fileEnd
  refine ⟨?_,?_,?_⟩
  · intro b hb
    rcases List.mem_append.mp hb with hb | hb
    · exact h.fits.partLen b hb
    · rw [List.mem_singleton.mp hb]
      exact hlen
  · simp only [Generation.push,List.length_append,List.length_singleton]
    omega
  · simp only [Generation.push,framesLen_append,framesLen_cons,framesLen_nil]
    omega

/-- Without I/O failures an admitted append holds one part more. -/
theorem Journal.Holds.append_ok {j : Journal} {g : Generation} (h : j.Holds g)
    (hfaults : j.file.faults = []) {segmentId : SegmentId} {part : Bytes} {nextEnd : ℕ}
    (hpre : j.precheck segmentId part = .ok nextEnd) :
    ∃ (hv : ValidPart part) (next : Journal),
      j.append segmentId part =
        (.ok ⟨⟨j.fileEnd+frameHeaderLen,part.length⟩,j.generation⟩,next) ∧
      next.Holds (g.push segmentId part hv) ∧ next.generation = j.generation ∧
      next.config = j.config ∧ next.file.faults = [] ∧
      next.parts = j.parts ++ [⟨⟨j.fileEnd+frameHeaderLen,part.length⟩,j.generation⟩] := by
  obtain ⟨_,_,hv,_,hnext,_⟩ := precheck_ok hpre
  have hdisk : j.file = ⟨g.image,[]⟩ := by
    rw [← h.file,← hfaults]
  have himage : (g.push segmentId part hv).image =
      (appendedHeader segmentId nextEnd).encode ++ encodeFrames g.bodies ++ encodeFrame part := by
    rw [Generation.image,h.appendedHeader_eq hpre hv]
    simp [Generation.push]
  have hperform := performAll_of_no_faults (ε := IoError)
    (j.appendWrites (appendedHeader segmentId nextEnd) part) g.image
  rw [h.applyAll_appendWrites,← himage] at hperform
  refine ⟨hv,{ j with
    file := ⟨(g.push segmentId part hv).image,[]⟩
    fileEnd := nextEnd
    parts := j.parts ++ [⟨⟨j.fileEnd+frameHeaderLen,part.length⟩,j.generation⟩]
    segmentId := some segmentId },by rw [append,hpre]; dsimp only; rw [hdisk,hperform],?_,
    rfl,rfl,rfl,rfl⟩
  refine ⟨h.config,rfl,?_,?_,rfl,h.healthy,h.push_fits hpre hv⟩
  · simp only [hnext,h.fileEnd,Generation.push,framesLen_append,framesLen_cons,framesLen_nil]
    omega
  · simp only [h.parts,Generation.push,framesFrom_append,List.map_append,h.fileEnd]
    rfl

theorem Journal.append_refused {j : Journal} {segmentId : SegmentId} {part : Bytes}
    {e : JournalError} (h : j.precheck segmentId part = .error e) :
    j.append segmentId part = (.error e,j) := by
  rw [append,h]

@[ext] theorem Generation.ext {g g' : Generation} (hs : g.segmentId = g'.segmentId)
    (hb : g.bodies = g'.bodies) : g = g' := by
  cases g; cases g'; cases hs; cases hb; rfl

theorem Journal.Holds.isEmpty_iff {j : Journal} {g : Generation} (h : j.Holds g) :
    j.parts.isEmpty = true ↔ g = .fresh := by
  rw [h.parts,List.isEmpty_iff,List.map_eq_nil_iff,← List.length_eq_zero_iff,framesFrom_length,
    List.length_eq_zero_iff]
  constructor
  · intro hb
    exact Generation.ext (g.identified.mpr hb) hb
  · rintro rfl; rfl

/-- The marker of a non-empty generation. -/
def Generation.marker (g : Generation) (segmentId : SegmentId) : ResetMarker :=
  ⟨UInt64.ofNat g.image.length,segmentId.get,
    Crc32c.crc32c (activeHeader (UInt64.ofNat g.image.length) segmentId.get).encode⟩

theorem Generation.framesLen_pos {g : Generation} (h : g ≠ .fresh) : 0 < framesLen g.bodies := by
  have hb : g.bodies ≠ [] := fun hb => h (Generation.ext (g.identified.mpr hb) hb)
  obtain ⟨b,bs,hbs⟩ := List.exists_cons_of_ne_nil hb
  have hfh : frameHeaderLen = 16 := rfl
  rw [hbs,framesLen_cons]
  omega

/-- The header of a non-empty generation is the one its marker names. -/
theorem Generation.header_eq_activeHeader {g : Generation} {config : JournalConfig}
    (h : g.Fits config) (hc : validateConfig config = .ok ()) {segmentId : SegmentId}
    (hs : g.segmentId = some segmentId) :
    g.header = activeHeader (UInt64.ofNat g.image.length) segmentId.get := by
  have hle := h.len_lt hc
  have hlen := g.image_length
  have hi : (UInt64.ofNat g.image.length).toNat = g.image.length := toNat_ofNat_of_le (by omega)
  have hb := @activeHeader_bodyLen (UInt64.ofNat g.image.length) segmentId.get (by omega)
  rw [hi] at hb
  have hbody : (activeHeader (UInt64.ofNat g.image.length) segmentId.get).bodyLen =
      UInt64.ofNat (framesLen g.bodies) := by
    rw [← UInt64.toNat_inj,hb,toNat_ofNat_of_le (by omega)]
    omega
  rw [header,hs,← hbody]
  rfl

theorem Journal.Holds.resetMarker_eq {j : Journal} {g : Generation} (h : j.Holds g)
    (hne : g ≠ .fresh) (segmentId : SegmentId) :
    j.resetMarker segmentId =
      if j.config.maxJournalLen < j.fileEnd+resetMarkerLen then
        .error (.full j.fileEnd j.config.maxJournalLen)
      else .ok (some (g.marker segmentId)) := by
  have hle := h.fits.len_lt h.config
  have hpos := Generation.framesLen_pos hne
  have hlen := g.image_length
  have hm : resetMarkerLen = 32 := rfl
  have hend := h.fileEnd
  have hto : (UInt64.ofNat j.fileEnd).toNat = j.fileEnd := toNat_ofNat_of_le (by omega)
  have hnew : ResetMarker.new (UInt64.ofNat j.fileEnd) segmentId.get = some (g.marker segmentId) := by
    rw [ResetMarker.new,if_neg (by omega),Generation.marker,hend,← hlen]
  rw [resetMarker,checkedAdd_of_le (by rw [u64Max]; omega),hnew]
  simp

theorem Generation.fresh_image : Generation.fresh.image = JournalHeader.EMPTY.encode :=
  List.append_nil _

/-- The empty header, with everything behind it cut off. -/
theorem truncate_emptyHeader (file : Bytes) :
    (FileOp.setLen journalHeaderLen).apply ((writeHeader .EMPTY).apply file) =
      Generation.fresh.image := by
  have hh := JournalHeader.EMPTY.encode_length
  rw [apply_setLen,writeHeader,apply_writeAll,overwrite_start,
    truncate_of_le (by rw [List.length_append,hh]; exact Nat.le_add_right _ _),
    List.take_left' hh,Generation.fresh_image]

/-- The last steps of a reset leave the empty file, whatever they start from. -/
theorem applyAll_finishCommittedReset (file : Bytes) :
    applyAll finishCommittedReset file = Generation.fresh.image := by
  rw [finishCommittedReset,applyAll_cons,applyAll_cons,applyAll_cons,applyAll_cons,applyAll_nil,
    apply_syncData,apply_syncData,truncate_emptyHeader]

theorem applyAll_initializeFile (file : Bytes) :
    applyAll initializeFile file = Generation.fresh.image := by
  rw [initializeFile,applyAll_cons,applyAll_cons,applyAll_cons,applyAll_nil,apply_syncData,
    truncate_emptyHeader]

theorem Generation.fresh_fits {config : JournalConfig} (hc : validateConfig config = .ok ()) :
    Generation.fresh.Fits config :=
  ⟨by simp [fresh],Nat.zero_le _,(validateConfig_ok hc).1⟩

/-- Without I/O failures a reset is refused and changes nothing, or leaves the empty
journal under a new generation number. -/
theorem Journal.Holds.reset_cases {j : Journal} {g : Generation} (h : j.Holds g)
    (hfaults : j.file.faults = []) (nextGeneration : ℕ) :
    (g = .fresh ∧ j.reset nextGeneration = (.ok (),j,nextGeneration)) ∨
    (g ≠ .fresh ∧ ∃ e, j.reset nextGeneration = (.error e,j,nextGeneration+1)) ∨
    (g ≠ .fresh ∧ ∃ next : Journal, j.reset nextGeneration = (.ok (),next,nextGeneration+1) ∧
      next.Holds .fresh ∧ next.generation = nextGeneration ∧ next.config = j.config ∧
      next.file.faults = []) := by
  have hhealthy : j.ensureHealthy = .ok () := by rw [ensureHealthy,h.healthy]; rfl
  by_cases hg : g = .fresh
  · refine .inl ⟨hg,?_⟩
    rw [reset,hhealthy]
    exact if_pos (h.isEmpty_iff.mpr hg)
  · have hne : ¬ j.parts.isEmpty = true := fun he => hg (h.isEmpty_iff.mp he)
    cases hs : g.segmentId with
    | none =>
      exact absurd (Generation.ext hs (g.identified.mp hs)) hg
    | some segmentId =>
      have hsj : j.segmentId = some segmentId := h.segmentId.trans hs
      have hmarker := h.resetMarker_eq hg segmentId
      split_ifs at hmarker with hfull
      · refine .inr (.inl ⟨hg,.full j.fileEnd j.config.maxJournalLen,?_⟩)
        rw [reset,hhealthy]
        dsimp only
        rw [if_neg hne,hsj]
        dsimp only
        rw [hmarker]
      · refine .inr (.inr ⟨hg,{ j with
          file := ⟨Generation.fresh.image,[]⟩
          fileEnd := journalHeaderLen
          parts := []
          generation := nextGeneration
          segmentId := none },?_,⟨h.config,rfl,rfl,rfl,rfl,h.healthy,
          Generation.fresh_fits h.config⟩,rfl,rfl,rfl⟩)
        rw [reset,hhealthy]
        dsimp only
        rw [if_neg hne,hsj]
        dsimp only
        rw [hmarker]
        dsimp only
        have hdisk : j.file = ⟨j.file.bytes,[]⟩ := by rw [← hfaults]
        rw [hdisk,performAll_of_no_faults]
        dsimp only
        rw [performAll_of_no_faults,applyAll_finishCommittedReset]

/-- The search finds a key where it is, between bounds that enclose it. -/
theorem binarySearch_found {keys : List ℕ} (hsorted : keys.Pairwise (· < ·)) {target i : ℕ}
    (hi : keys[i]? = some target) {fuel lo hi' : ℕ} (hlo : lo ≤ i) (hhi : i < hi')
    (hlen : hi' ≤ keys.length) (hfuel : hi' < lo + fuel) :
    binarySearch keys target fuel lo hi' = some i := by
  obtain ⟨hilt,rfl⟩ := List.getElem?_eq_some_iff.mp hi
  have hpair := List.pairwise_iff_getElem.mp hsorted
  induction fuel generalizing lo hi' with
  | zero => omega
  | succ fuel ih =>
    have hmid : (lo+hi')/2 < keys.length := by omega
    rw [binarySearch,if_neg (by omega)]
    simp only [List.getElem?_eq_getElem hmid]
    rcases lt_trichotomy ((lo+hi')/2) i with hlt | he | hgt
    · have hkey := hpair _ _ hmid hilt hlt
      rw [if_neg (by omega),if_pos hkey]
      exact ih (by omega) hhi hlen (by omega)
    · subst he
      simp
    · have hkey := hpair _ _ hilt hmid hgt
      rw [if_neg (by omega),if_neg (by omega)]
      exact ih hlo hgt (by omega) (by omega)

theorem framesFrom_ascending (start : ℕ) (bodies : List Bytes) :
    ((framesFrom start bodies).map PartRef.offset).Pairwise (· < ·) ∧
      ∀ p ∈ framesFrom start bodies, start+frameHeaderLen ≤ p.offset ∧
        p.offset+p.len ≤ start+framesLen bodies := by
  have hfh : frameHeaderLen = 16 := rfl
  induction bodies generalizing start with
  | nil => simp [framesFrom]
  | cons b bs ih =>
    obtain ⟨hpair,hbounds⟩ := ih (start+frameHeaderLen+b.length)
    rw [framesLen_cons]
    refine ⟨List.pairwise_cons.mpr ⟨?_,hpair⟩,?_⟩
    · intro o ho
      obtain ⟨p,hp,rfl⟩ := List.mem_map.mp ho
      have hb := (hbounds p hp).1
      dsimp only
      omega
    · intro p hp
      rcases List.mem_cons.mp hp with rfl | hp
      · dsimp only
        omega
      · have hb := hbounds p hp
        omega

/-- Every body is read back at its own reference. -/
theorem slice_framesFrom (pre post : Bytes) (bodies : List Bytes) :
    (framesFrom pre.length bodies).map
      (fun p => slice (pre++encodeFrames bodies++post) p.offset p.len) = bodies := by
  induction bodies generalizing pre with
  | nil => rfl
  | cons b bs ih =>
    have hrest := ih (pre++encodeFrame b)
    have hbytes : pre++encodeFrame b++encodeFrames bs++post =
        pre++encodeFrames (b::bs)++post := by simp
    rw [hbytes,List.length_append,encodeFrame_length,← Nat.add_assoc] at hrest
    rw [framesFrom,List.map_cons,hrest]
    congr 1
    exact slice_of_append (a := pre++FrameHeader.encode ⟨UInt64.ofNat b.length⟩)
      (b := encodeFrames bs++post) (by simp [encodeFrame]) (by simp) rfl

/-- A reference of the handle passes the check. -/
theorem Journal.Holds.checkPartRef_mem {j : Journal} {g : Generation} (h : j.Holds g)
    {part : JournalPartRef} (hp : part ∈ j.parts) : j.checkPartRef part = .ok () := by
  have hle := h.fits.len_lt h.config
  obtain ⟨hsorted,hbounds⟩ := framesFrom_ascending journalHeaderLen g.bodies
  obtain ⟨i,hi⟩ := List.getElem?_of_mem hp
  rw [h.parts] at hp
  obtain ⟨raw,hraw,rfl⟩ := List.mem_map.mp hp
  have hoffsets : j.parts.map (fun candidate => candidate.raw.offset) =
      (framesFrom journalHeaderLen g.bodies).map PartRef.offset := by
    rw [h.parts,List.map_map]; rfl
  have hkey : (j.parts.map fun candidate => candidate.raw.offset)[i]? = some raw.offset := by
    rw [List.getElem?_map,hi]; rfl
  have hilt : i < j.parts.length := (List.getElem?_eq_some_iff.mp hi).1
  have hfound := binarySearch_found (hoffsets ▸ hsorted) hkey (Nat.zero_le i) hilt
    (by rw [List.length_map]) (show j.parts.length < 0 + (j.parts.length+1) by omega)
  obtain ⟨hmin,hstop⟩ := hbounds raw hraw
  have hend := h.fileEnd
  unfold checkPartRef isMember
  rw [ensureHealthy,h.healthy]
  simp only [Bool.false_eq_true,if_false,hfound,hi]
  rw [checkedAdd_of_le (by rw [u64Max]; omega)]
  simp [hmin,hend,hstop]

/-- Any other reference is refused. -/
theorem Journal.Holds.checkPartRef_other {j : Journal} {g : Generation} (h : j.Holds g)
    {part : JournalPartRef} (hp : part ∉ j.parts) :
    j.checkPartRef part = .error (.stalePartRef part.raw.offset part.raw.len) := by
  have hmember : j.isMember part = false := by
    unfold isMember
    split
    · simp
    · rename_i index _
      have hne : ¬ j.parts[index]? = some part := fun he => hp (List.mem_of_getElem? he)
      simp [hne]
  unfold checkPartRef
  rw [ensureHealthy,h.healthy,hmember]
  rfl

/-- Reading all references of the handle gives the bodies in order. -/
theorem Journal.Holds.readPart_parts {j : Journal} {g : Generation} (h : j.Holds g) :
    j.parts.map j.readPart = g.bodies.map .ok := by
  obtain ⟨_,hbounds⟩ := framesFrom_ascending journalHeaderLen g.bodies
  have hslices := slice_framesFrom g.header.encode [] g.bodies
  rw [List.append_nil,← Generation.image,JournalHeader.encode_length] at hslices
  have hread : ∀ raw ∈ framesFrom journalHeaderLen g.bodies,
      j.readPart ⟨raw,j.generation⟩ = .ok (slice g.image raw.offset raw.len) := by
    intro raw hraw
    have hmem : (⟨raw,j.generation⟩ : JournalPartRef) ∈ j.parts := by
      rw [h.parts]; exact List.mem_map_of_mem hraw
    have hfit : raw.offset+raw.len ≤ g.image.length := by
      rw [g.image_length]; exact (hbounds raw hraw).2
    rw [readPart,h.checkPartRef_mem hmem]
    dsimp only [readFile]
    rw [h.file,(readsAs_bytes g.image).read hfit]
    rfl
  rw [h.parts,List.map_map]
  conv_rhs => rw [← hslices,List.map_map]
  exact List.map_congr_left fun raw hraw => hread raw hraw

/-- One call on a handle, or a generation number taken elsewhere in the process. -/
inductive JournalCall
  | append (segmentId : SegmentId) (part : Bytes)
  | reset
  | elsewhere
  deriving DecidableEq

inductive JournalAnswer
  | appended (result : Except JournalError JournalPartRef)
  | reset (result : Except JournalError Unit)
  | elsewhere (generation : ℕ)

def JournalCall.run (j : Journal) (nextGeneration : ℕ) :
    JournalCall → JournalAnswer × Journal × ℕ
  | .append segmentId part =>
    let (result,j) := j.append segmentId part
    (.appended result,j,nextGeneration)
  | .reset =>
    let (result,j,nextGeneration) := j.reset nextGeneration
    (.reset result,j,nextGeneration)
  | .elsewhere => (.elsewhere nextGeneration,j,nextGeneration+1)

/-- What the answers so far promise: the parts accepted since the last reset with the
references issued for them, the references issued before it, and the generations of
other handles. -/
structure Ledger where
  segmentId : Option SegmentId
  accepted : List (Bytes × JournalPartRef)
  retired : List JournalPartRef
  foreign : List ℕ

def Ledger.new : Ledger := ⟨none,[],[],[]⟩

def Ledger.record (ledger : Ledger) : JournalCall → JournalAnswer → Ledger
  | .append segmentId part, .appended (.ok partRef) =>
    { ledger with segmentId := some segmentId, accepted := ledger.accepted ++ [(part,partRef)] }
  | .reset, .reset (.ok ()) =>
    { ledger with
      segmentId := none
      accepted := []
      retired := ledger.retired ++ ledger.accepted.map Prod.snd }
  | .elsewhere, .elsewhere generation => { ledger with foreign := ledger.foreign ++ [generation] }
  | _, _ => ledger

def runCalls : List JournalCall → Journal × ℕ × Ledger → Journal × ℕ × Ledger
  | [], state => state
  | call::calls, (j,nextGeneration,ledger) =>
    let (answer,next,nextGeneration) := call.run j nextGeneration
    runCalls calls (next,nextGeneration,ledger.record call answer)

/-- The invariant of a run: the handle holds the generation the ledger describes, and
generation numbers tell the current references from all others. -/
structure RunInv (config : JournalConfig) (state : Journal × ℕ × Ledger) : Prop where
  holds : ∃ g : Generation, state.1.Holds g ∧ g.segmentId = state.2.2.segmentId ∧
    g.bodies = state.2.2.accepted.map Prod.fst
  config_eq : state.1.config = config
  faults : state.1.file.faults = []
  parts : state.1.parts = state.2.2.accepted.map Prod.snd
  retired : ∀ r ∈ state.2.2.retired, r.generation < state.1.generation
  current : state.1.generation < state.2.1
  foreign : ∀ n ∈ state.2.2.foreign, n < state.2.1 ∧ n ≠ state.1.generation

/-- The generation of every part of a healthy handle is the handle's own. -/
theorem Journal.Holds.generation_eq {j : Journal} {g : Generation} (h : j.Holds g)
    {part : JournalPartRef} (hp : part ∈ j.parts) : part.generation = j.generation := by
  rw [h.parts] at hp
  obtain ⟨raw,_,rfl⟩ := List.mem_map.mp hp
  rfl

theorem RunInv.step {config : JournalConfig} {j : Journal} {nextGeneration : ℕ} {ledger : Ledger}
    (h : RunInv config (j,nextGeneration,ledger)) (call : JournalCall) :
    RunInv config ((call.run j nextGeneration).2.1,(call.run j nextGeneration).2.2,
      ledger.record call (call.run j nextGeneration).1) := by
  obtain ⟨⟨g,hg,hseg,hbodies⟩,hconfig,hfaults,hparts,hretired,hcurrent,hforeign⟩ := h
  dsimp only at hg hseg hbodies hconfig hfaults hparts hretired hcurrent hforeign
  cases call with
  | append segmentId part =>
    cases hpre : j.precheck segmentId part with
    | error e =>
      rw [JournalCall.run,Journal.append_refused hpre]
      exact ⟨⟨g,hg,hseg,hbodies⟩,hconfig,hfaults,hparts,hretired,hcurrent,hforeign⟩
    | ok nextEnd =>
      obtain ⟨hv,next,happend,hnext,hgen,hcfg,hnof,hps⟩ := hg.append_ok hfaults hpre
      rw [JournalCall.run,happend]
      refine ⟨⟨g.push segmentId part hv,hnext,rfl,?_⟩,hcfg.trans hconfig,hnof,?_,?_,?_,?_⟩
      · simp [Generation.push,Ledger.record,hbodies]
      · simp [Ledger.record,hps,hparts]
      · exact fun r hr => hgen.symm ▸ hretired r hr
      · exact hgen.symm ▸ hcurrent
      · exact fun n hn => hgen.symm ▸ hforeign n hn
  | reset =>
    rcases hg.reset_cases hfaults nextGeneration with ⟨hfresh,hr⟩ | ⟨_,e,hr⟩ |
      ⟨_,next,hr,hnext,hgen,hcfg,hnof⟩
    · rw [JournalCall.run,hr]
      have hnil : ledger.accepted = [] := by
        rw [hfresh] at hbodies
        exact List.map_eq_nil_iff.mp hbodies.symm
      have hnone : ledger.segmentId = none := by rw [← hseg,hfresh]; rfl
      refine ⟨⟨g,hg,hseg.trans hnone,by rw [hbodies,hnil]; rfl⟩,hconfig,hfaults,?_,?_,hcurrent,hforeign⟩
      · rw [hparts,hnil]; rfl
      · intro r hr
        rw [Ledger.record,hnil] at hr
        exact hretired r (by simpa using hr)
    · rw [JournalCall.run,hr]
      exact ⟨⟨g,hg,hseg,hbodies⟩,hconfig,hfaults,hparts,hretired,Nat.lt_succ_of_lt hcurrent,
        fun n hn => ⟨Nat.lt_succ_of_lt (hforeign n hn).1,(hforeign n hn).2⟩⟩
    · rw [JournalCall.run,hr]
      refine ⟨⟨.fresh,hnext,rfl,rfl⟩,hcfg.trans hconfig,hnof,?_,?_,?_,?_⟩
      · rw [hnext.parts]; rfl
      · intro r hmem
        rw [Ledger.record] at hmem
        rw [hgen]
        rcases List.mem_append.mp hmem with hmem | hmem
        · exact lt_trans (hretired r hmem) hcurrent
        · rw [← hparts] at hmem
          exact hg.generation_eq hmem ▸ hcurrent
      · rw [hgen]; exact Nat.lt_succ_self _
      · intro n hn
        have hlt := (hforeign n hn).1
        rw [hgen]
        exact ⟨Nat.lt_succ_of_lt hlt,Nat.ne_of_lt hlt⟩
  | elsewhere =>
    refine ⟨⟨g,hg,hseg,hbodies⟩,hconfig,hfaults,hparts,hretired,Nat.lt_succ_of_lt hcurrent,?_⟩
    intro n hn
    rcases List.mem_append.mp hn with hn | hn
    · exact ⟨Nat.lt_succ_of_lt (hforeign n hn).1,(hforeign n hn).2⟩
    · rw [List.mem_singleton.mp hn]
      exact ⟨Nat.lt_succ_self _,Nat.ne_of_gt hcurrent⟩

theorem RunInv.run {config : JournalConfig} (calls : List JournalCall) {state : Journal × ℕ × Ledger}
    (h : RunInv config state) : RunInv config (runCalls calls state) := by
  induction calls generalizing state with
  | nil => exact h
  | cons call calls ih => exact ih (h.step call)

/-- A created journal file is the empty generation. -/
theorem openRoot_created {config : JournalConfig} (hc : validateConfig config = .ok ())
    (nextGeneration : ℕ) :
    Journal.openRoot config true ⟨[],[]⟩ (.ok ()) nextGeneration =
      (.ok (Journal.opened Generation.fresh.image config none [] nextGeneration),
        ⟨Generation.fresh.image,[]⟩,nextGeneration+1) := by
  have hfits := Generation.fresh_fits hc
  have hcreate : (⟨[],[]⟩ : Disk IoError).performAll initializeFile =
      (.ok (),⟨Generation.fresh.image,[]⟩) := by
    rw [performAll_of_no_faults,applyAll_initializeFile]
  have hopen := Generation.openRoot_image hfits hc nextGeneration
  unfold Journal.openRoot at hopen ⊢
  simp only [hc,Bool.false_eq_true,if_false,if_true,Disk.performAll,hcreate] at hopen ⊢
  exact hopen

theorem RunInv.created {config : JournalConfig} (hc : validateConfig config = .ok ())
    (nextGeneration : ℕ) :
    RunInv config (Journal.opened Generation.fresh.image config none [] nextGeneration,
      nextGeneration+1,Ledger.new) where
  holds := ⟨.fresh,Generation.opened_holds (Generation.fresh_fits hc) hc nextGeneration,rfl,rfl⟩
  config_eq := rfl
  faults := rfl
  parts := rfl
  retired := by simp [Ledger.new]
  current := Nat.lt_succ_self _
  foreign := by simp [Ledger.new]

/-- The header that a ledger calls for. -/
def Ledger.header (ledger : Ledger) : JournalHeader :=
  match ledger.segmentId with
  | none => .EMPTY
  | some segmentId =>
    ⟨.active segmentId.get,UInt64.ofNat (framesLen (ledger.accepted.map Prod.fst))⟩

/-- The journal holds what its answers promised: the file is the canonical one, every
accepted part is read back under its reference, every other reference is refused, and
opening the file again gives the same parts. -/
structure RoundTrip (j : Journal) (nextGeneration : ℕ) (ledger : Ledger) : Prop where
  file : j.file.bytes =
    ledger.header.encode ++ encodeFrames (ledger.accepted.map Prod.fst)
  bytes : j.bytes =
    journalHeaderLen + (ledger.accepted.map fun a => frameHeaderLen+a.1.length).sum
  parts : j.parts = ledger.accepted.map Prod.snd
  ranges : j.parts.map JournalPartRef.raw =
    framesFrom journalHeaderLen (ledger.accepted.map Prod.fst)
  read : ∀ a ∈ ledger.accepted, j.readPart a.2 = .ok a.1
  refused : ∀ r : JournalPartRef, r ∈ ledger.retired ∨ r.generation ∈ ledger.foreign ∨
    r ∉ ledger.accepted.map Prod.snd →
    j.readPart r = .error (.stalePartRef r.raw.offset r.raw.len) ∧
      ∀ offset len, j.readPartRange r offset len = .error (.stalePartRef r.raw.offset r.raw.len)
  reopen : ∃ again : Journal,
    Journal.openRoot j.config false ⟨j.file.bytes,[]⟩ (.ok ()) nextGeneration =
        (.ok again,⟨j.file.bytes,[]⟩,nextGeneration+1) ∧
      again.segmentId = ledger.segmentId ∧
      again.parts.map again.readPart = ledger.accepted.map fun a => .ok a.1

theorem Ledger.header_eq {g : Generation} {ledger : Ledger} (hs : g.segmentId = ledger.segmentId)
    (hb : g.bodies = ledger.accepted.map Prod.fst) : g.header = ledger.header := by
  rw [header,Generation.header,← hs,← hb]
  cases hseg : g.segmentId with
  | none => rw [g.identified.mp hseg]; rfl
  | some segmentId => rfl

/-- Reading along two lists of one length. -/
theorem read_of_map_eq {α β γ : Type} {read : β → γ} {ok : α → γ} {l : List (α × β)}
    (h : (l.map Prod.snd).map read = (l.map Prod.fst).map ok) :
    ∀ a ∈ l, read a.2 = ok a.1 := by
  intro a ha
  rw [List.map_map,List.map_map] at h
  exact List.map_inj_left.mp h a ha

theorem RunInv.roundTrip {config : JournalConfig} {j : Journal} {nextGeneration : ℕ}
    {ledger : Ledger} (h : RunInv config (j,nextGeneration,ledger)) :
    RoundTrip j nextGeneration ledger := by
  obtain ⟨⟨g,hg,hseg,hbodies⟩,hconfig,hfaults,hparts,hretired,hcurrent,hforeign⟩ := h
  dsimp only at hg hseg hbodies hconfig hfaults hparts hretired hcurrent hforeign
  have hread := hg.readPart_parts
  rw [hparts,hbodies] at hread
  have hopened := g.opened_holds hg.fits hg.config nextGeneration
  refine ⟨?_,?_,hparts,?_,read_of_map_eq hread,?_,?_⟩
  · rw [hg.file,Generation.image,Ledger.header_eq hseg hbodies,hbodies]
  · rw [Journal.bytes,hg.fileEnd,framesLen,hbodies,List.map_map]
    rfl
  · rw [hg.parts,List.map_map,← hbodies]
    exact List.map_id _
  · intro r hr
    have hother : r ∉ j.parts := by
      rcases hr with hr | hr | hr
      · exact fun hmem => Nat.ne_of_lt (hretired r hr) (hg.generation_eq hmem)
      · exact fun hmem => (hforeign _ hr).2 (hg.generation_eq hmem)
      · rwa [hparts]
    have hcheck := hg.checkPartRef_other hother
    exact ⟨by rw [Journal.readPart,hcheck],fun _ _ => by rw [Journal.readPartRange,hcheck]⟩
  · have hopen := g.openRoot_image hg.fits hg.config nextGeneration
    refine ⟨_,by rw [hg.file]; exact hopen,hopened.segmentId.trans hseg,?_⟩
    rw [hopened.readPart_parts,hbodies,List.map_map]
    rfl

/-- Every run of appends and resets on a created journal, refused calls included,
leaves a journal that holds what its answers promised. -/
theorem journal_round_trip {config : JournalConfig} (hc : validateConfig config = .ok ())
    (nextGeneration : ℕ) (calls : List JournalCall) :
    ∃ created : Journal,
      Journal.openRoot config true ⟨[],[]⟩ (.ok ()) nextGeneration =
        (.ok created,created.file,nextGeneration+1) ∧
      ∀ j nextGeneration' ledger,
        runCalls calls (created,nextGeneration+1,Ledger.new) = (j,nextGeneration',ledger) →
          RoundTrip j nextGeneration' ledger := by
  refine ⟨_,openRoot_created hc nextGeneration,?_⟩
  intro j nextGeneration' ledger hrun
  have hinv := (RunInv.created hc nextGeneration).run calls
  rw [hrun] at hinv
  exact hinv.roundTrip

theorem journal_round_trip_sample :
    ∃ created : Journal,
      Journal.openRoot .default true ⟨[],[]⟩ (.ok ()) 7 = (.ok created,created.file,7+1) ∧
      ∀ j nextGeneration ledger,
        runCalls [.append ⟨0,by decide⟩ (emptyPart 0 0 1),.append ⟨1,by decide⟩ (emptyPart 0 0 1),
            .reset,.elsewhere,.append ⟨1,by decide⟩ (emptyPart 0 0 1)]
          (created,7+1,Ledger.new) = (j,nextGeneration,ledger) →
            RoundTrip j nextGeneration ledger :=
  journal_round_trip validateConfig_default 7 _

end PgKronika
