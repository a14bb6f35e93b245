import PgKronika.Journal

/-! What a journal file stands for: a generation of valid part bodies under one
segment identity, and the canonical file bytes of it. -/
namespace PgKronika

open ByteCodec CheckedArith FileTrace

def encodeFrame (part : Bytes) : Bytes :=
  FrameHeader.encode ⟨UInt64.ofNat part.length⟩ ++ part

def encodeFrames (bodies : List Bytes) : Bytes := bodies.flatMap encodeFrame

def framesLen (bodies : List Bytes) : ℕ := (bodies.map fun b => frameHeaderLen+b.length).sum

/-- The parts of frames laid end to end from `start`. -/
def framesFrom : ℕ → List Bytes → List PartRef
  | _, [] => []
  | start, b::bs => ⟨start+frameHeaderLen,b.length⟩ :: framesFrom (start+frameHeaderLen+b.length) bs

@[simp] theorem encodeFrame_length (part : Bytes) :
    (encodeFrame part).length = frameHeaderLen+part.length := by
  simp [encodeFrame]

@[simp] theorem framesLen_nil : framesLen [] = 0 := rfl

@[simp] theorem framesLen_cons (b : Bytes) (bs : List Bytes) :
    framesLen (b::bs) = frameHeaderLen+b.length+framesLen bs := by
  simp [framesLen]

@[simp] theorem framesLen_append (bs cs : List Bytes) :
    framesLen (bs++cs) = framesLen bs + framesLen cs := by
  simp [framesLen]

@[simp] theorem encodeFrames_nil : encodeFrames [] = [] := rfl

@[simp] theorem encodeFrames_cons (b : Bytes) (bs : List Bytes) :
    encodeFrames (b::bs) = encodeFrame b ++ encodeFrames bs := by
  simp [encodeFrames]

@[simp] theorem encodeFrames_append (bs cs : List Bytes) :
    encodeFrames (bs++cs) = encodeFrames bs ++ encodeFrames cs := by
  simp [encodeFrames]

@[simp] theorem encodeFrames_length (bodies : List Bytes) :
    (encodeFrames bodies).length = framesLen bodies := by
  induction bodies with
  | nil => rfl
  | cons b bs ih => simp [ih]

@[simp] theorem framesFrom_length (start : ℕ) (bodies : List Bytes) :
    (framesFrom start bodies).length = bodies.length := by
  induction bodies generalizing start with
  | nil => rfl
  | cons b bs ih => simp [framesFrom,ih]

theorem framesFrom_append (start : ℕ) (bs cs : List Bytes) :
    framesFrom start (bs++cs) = framesFrom start bs ++ framesFrom (start+framesLen bs) cs := by
  induction bs generalizing start with
  | nil => rfl
  | cons b bs ih => simp [framesFrom,ih,Nat.add_assoc]

/-- A part that fits the limit makes its frame valid wherever it stands. -/
theorem validFrame_encodeFrame {limits : JournalLimits} {part : Bytes} (hv : ValidPart part)
    (hmax : part.length ≤ limits.maxPartLen.toNat) (pre post : Bytes) :
    ValidFrame (pre++encodeFrame part++post) limits pre.length part.length := by
  have hlt := limits.maxPartLen.toNat_lt
  have hlen : (UInt64.ofNat part.length).toNat = part.length :=
    UInt64.toNat_ofNat_of_lt' (by simpa [UInt64.size] using by omega)
  refine ⟨by simp; omega,⟨⟨UInt64.ofNat part.length⟩,?_,hlen,?_⟩,?_⟩
  · have hs : slice (pre++encodeFrame part++post) pre.length frameHeaderLen =
        FrameHeader.encode ⟨UInt64.ofNat part.length⟩ :=
      slice_of_append (b := part++post) (by simp [encodeFrame]) rfl (by simp)
    rw [hs,FrameHeader.decode_encode]
  · rw [UInt64.le_iff_toNat_le,hlen]
    exact hmax
  · have hs : slice (pre++encodeFrame part++post) (pre.length+frameHeaderLen) part.length = part :=
      slice_of_append (a := pre++FrameHeader.encode ⟨UInt64.ofNat part.length⟩) (b := post)
        (by simp [encodeFrame]) (by simp) rfl
    rwa [hs]

/-- Encoded frames are found again as a run of valid frames, whatever the bodies
hold and whatever follows. -/
theorem frameRun_encodeFrames (limits : JournalLimits) {bodies : List Bytes}
    (hv : ∀ b ∈ bodies, ValidPart b ∧ b.length ≤ limits.maxPartLen.toNat) (pre post : Bytes) :
    FrameRun (pre++encodeFrames bodies++post) limits pre.length (framesFrom pre.length bodies)
      (pre.length+framesLen bodies) := by
  induction bodies generalizing pre with
  | nil => exact .nil _
  | cons b bs ih =>
    obtain ⟨hvb,hle⟩ := hv b (by simp)
    have hframe := validFrame_encodeFrame hvb hle pre (encodeFrames bs++post)
    have hrest := ih (fun x hx => hv x (by simp [hx])) (pre++encodeFrame b)
    have hbytes : pre++encodeFrames (b::bs)++post = pre++encodeFrame b++(encodeFrames bs++post) := by
      simp
    have hbytes' : pre++encodeFrame b++encodeFrames bs++post =
        pre++encodeFrame b++(encodeFrames bs++post) := by simp
    rw [hbytes',List.length_append,encodeFrame_length,← Nat.add_assoc] at hrest
    rw [hbytes,framesLen_cons,← Nat.add_assoc,← Nat.add_assoc]
    exact .cons hframe hrest

/-- The parts of a file, in order, with the identity they belong to. Only an empty
generation lacks an identity. -/
structure Generation where
  segmentId : Option SegmentId
  bodies : List Bytes
  identified : segmentId = none ↔ bodies = []
  valid : ∀ b ∈ bodies, ValidPart b

def Generation.fresh : Generation := ⟨none,[],by simp,by simp⟩

/-- The generation after one more part. -/
def Generation.push (g : Generation) (segmentId : SegmentId) (part : Bytes) (hv : ValidPart part) :
    Generation where
  segmentId := some segmentId
  bodies := g.bodies ++ [part]
  identified := by simp
  valid := by
    intro b hb
    rcases List.mem_append.mp hb with hb | hb
    · exact g.valid b hb
    · exact List.mem_singleton.mp hb ▸ hv

def Generation.header (g : Generation) : JournalHeader where
  state := match g.segmentId with
    | none => .empty
    | some segmentId => .active segmentId.get
  bodyLen := UInt64.ofNat (framesLen g.bodies)

/-- The canonical file of a generation. -/
def Generation.image (g : Generation) : Bytes := g.header.encode ++ encodeFrames g.bodies

@[simp] theorem Generation.image_length (g : Generation) :
    g.image.length = journalHeaderLen + framesLen g.bodies := by
  simp [image]

theorem Generation.slice_header (g : Generation) (post : Bytes) :
    slice (g.image++post) 0 journalHeaderLen = g.header.encode :=
  slice_of_append (a := []) (b := encodeFrames g.bodies++post) (by simp [image]) rfl (by simp)

/-- The bounds that a configuration puts on a generation. -/
structure Generation.Fits (g : Generation) (config : JournalConfig) : Prop where
  partLen : ∀ b ∈ g.bodies, b.length ≤ config.limits.maxPartLen.toNat
  count : g.bodies.length ≤ config.maxParts
  len : journalHeaderLen + framesLen g.bodies ≤ config.maxJournalLen

theorem validateConfig_ok {config : JournalConfig} (h : validateConfig config = .ok ()) :
    journalHeaderLen ≤ config.maxJournalLen ∧ config.maxJournalLen ≤ maxJournalLen ∧
      0 < config.maxParts ∧ config.maxParts ≤ maxJournalParts ∧
      0 < config.limits.maxPartLen.toNat ∧ config.limits.maxPartLen.toNat ≤ maxPartLen.toNat := by
  unfold validateConfig at h
  split_ifs at h with h1 h2 h3
  push Not at h1 h2 h3
  obtain ⟨hz,hle⟩ := h3
  have hpos : config.limits.maxPartLen.toNat ≠ 0 := fun he => hz (UInt64.toNat_inj.mp he)
  exact ⟨h1.1,h1.2,by omega,h2.2,by omega,UInt64.le_iff_toNat_le.mp (UInt64.not_lt.mp hle)⟩

theorem validateConfig_default : validateConfig .default = .ok () := by decide

/-- Lengths of a file under a valid configuration fit every integer of the format. -/
theorem Generation.Fits.len_lt {g : Generation} {config : JournalConfig} (h : g.Fits config)
    (hc : validateConfig config = .ok ()) : journalHeaderLen + framesLen g.bodies ≤ 2^30 := by
  have hmax : maxJournalLen = 2^30 := rfl
  have hle := (validateConfig_ok hc).2.1
  have hlen := h.len
  omega

theorem toNat_ofNat_of_le {n : ℕ} (h : n ≤ 2^62) : (UInt64.ofNat n).toNat = n :=
  UInt64.toNat_ofNat_of_lt' (by simpa [UInt64.size] using by omega)

theorem Generation.frameRun {g : Generation} {config : JournalConfig} (h : g.Fits config)
    (post : Bytes) :
    FrameRun (g.image++post) config.limits journalHeaderLen (framesFrom journalHeaderLen g.bodies)
      (journalHeaderLen+framesLen g.bodies) := by
  have hrun := frameRun_encodeFrames config.limits
    (fun b hb => ⟨g.valid b hb,h.partLen b hb⟩) g.header.encode post
  rwa [JournalHeader.encode_length,← image] at hrun

/-- Frames that reach the end of the file scan without damage. -/
theorem Generation.scan_image {g : Generation} {config : JournalConfig} (h : g.Fits config)
    (hc : validateConfig config = .ok ()) {σ : Type} [ReadAt σ] {s : σ} (hs : ReadsAs s g.image) :
    scanJournalStreamingStrictFrom (UInt64.ofNat journalHeaderLen) config.limits config.maxParts s =
      .ok (⟨framesFrom journalHeaderLen g.bodies,[],g.image.length⟩,s) := by
  have hle := h.len_lt hc
  have hrun := g.frameRun h []
  rw [List.append_nil,← g.image_length] at hrun
  have hlen := g.image_length
  exact scanStrict_clean hs (by rw [hlen,u64Max]; omega) _ _
    (show (UInt64.ofNat journalHeaderLen).toNat ≤ g.image.length by
      rw [hlen]; exact Nat.le_add_right _ _) hrun (by simpa using h.count)

theorem activeHeader_bodyLen {previousLen : UInt64} {segmentId : Int64}
    (h : journalHeaderLen ≤ previousLen.toNat) :
    (activeHeader previousLen segmentId).bodyLen.toNat = previousLen.toNat - journalHeaderLen := by
  have hh : (UInt64.ofNat journalHeaderLen).toNat = journalHeaderLen := rfl
  rw [activeHeader,UInt64.toNat_sub_of_le _ _ (UInt64.le_iff_toNat_le.mpr (by rwa [hh])),hh]

/-- What a marker must satisfy to commit a reset. -/
theorem committedMarker_some {file : Bytes} {config : JournalConfig} {marker : ResetMarker}
    (h : committedMarker file config = some marker) :
    journalHeaderLen+resetMarkerLen ≤ file.length ∧
      ResetMarker.decode (slice file (file.length-resetMarkerLen) resetMarkerLen) = some marker ∧
      marker.previousLen.toNat = file.length-resetMarkerLen ∧
      (marker.classifyHeaderTransition (slice file 0 journalHeaderLen)).isSome := by
  unfold committedMarker at h
  split_ifs at h with hlen
  dsimp only at h
  split at h
  · cases h
  · rename_i m hd
    split_ifs at h with h1 h2 h3
    cases h
    push Not at h1
    exact ⟨by omega,hd,h1.1,Option.isSome_iff_ne_none.mpr (by simpa using h3)⟩

/-- A marker never commits over an active header that does not name the bytes in
front of it. -/
theorem committedMarker_active {file : Bytes} {config : JournalConfig} {marker : ResetMarker}
    {segmentId : Int64} {bodyLen : UInt64}
    (hh : slice file 0 journalHeaderLen = JournalHeader.encode ⟨.active segmentId,bodyLen⟩)
    (h : committedMarker file config = some marker) :
    bodyLen.toNat + journalHeaderLen + resetMarkerLen = file.length := by
  obtain ⟨hlen,_,hprev,hclass⟩ := committedMarker_some h
  rw [hh] at hclass
  have hflag : u8At (JournalHeader.encode ⟨.active segmentId,bodyLen⟩) 12 = 1 :=
    JournalHeader.u8At_flag ⟨.active segmentId,bodyLen⟩ (show 0 < 4 by omega)
  have hsame := ResetMarker.classify_nonempty (by rw [hflag]; decide) hclass
  have hdec := JournalHeader.decode_encode ⟨.active segmentId,bodyLen⟩
  rw [hsame,JournalHeader.decode_encode] at hdec
  have hbody := congrArg JournalHeader.bodyLen (Except.ok.inj hdec)
  have hfits := @activeHeader_bodyLen marker.previousLen marker.previousSegmentId (by omega)
  rw [hbody] at hfits
  dsimp only at hfits
  omega

theorem Generation.committedMarker_image {g : Generation} {config : JournalConfig}
    (h : g.Fits config) (hc : validateConfig config = .ok ()) :
    committedMarker g.image config = none := by
  have hle := h.len_lt hc
  have hlen := g.image_length
  have hm : resetMarkerLen = 32 := rfl
  cases hs : g.segmentId with
  | none =>
    have hb := g.identified.mp hs
    rw [committedMarker,if_pos (by rw [hlen,hb,framesLen_nil]; omega)]
  | some segmentId =>
    by_contra hne
    obtain ⟨marker,hmarker⟩ := Option.ne_none_iff_exists'.mp hne
    have hslice := g.slice_header []
    rw [List.append_nil] at hslice
    have hheader : g.header = ⟨.active segmentId.get,UInt64.ofNat (framesLen g.bodies)⟩ := by
      rw [header,hs]
    rw [hheader] at hslice
    have heq := committedMarker_active hslice hmarker
    rw [toNat_ofNat_of_le (by omega)] at heq
    omega

theorem recoverCommittedReset_of_none {file : Disk IoError} {config : JournalConfig}
    (h : committedMarker file.bytes config = none) :
    recoverCommittedReset file config = (.ok false,file) := by
  rw [recoverCommittedReset,h]

/-- The contents of a canonical file are the generation it was written for. -/
theorem Generation.openContents_image {g : Generation} {config : JournalConfig}
    (h : g.Fits config) (hc : validateConfig config = .ok ()) :
    openContents g.image config = .ok (g.segmentId,framesFrom journalHeaderLen g.bodies) := by
  have hle := h.len_lt hc
  have hlen := g.image_length
  have hslice := g.slice_header []
  rw [List.append_nil] at hslice
  have hbody : g.header.bodyLen.toNat = framesLen g.bodies := toNat_ofNat_of_le (by omega)
  unfold openContents
  rw [if_neg (by omega),hslice,JournalHeader.decode_encode]
  dsimp only
  rw [if_neg (by rw [hbody,hlen]; simp)]
  cases hs : g.segmentId with
  | none =>
    have hb := g.identified.mp hs
    have hstate : g.header.state = .empty := by rw [header,hs]
    rw [hstate,hb]
    exact if_neg (by rw [hlen,hb]; simp)
  | some segmentId =>
    have hstate : g.header.state = .active segmentId.get := by rw [header,hs]
    have hne : g.bodies ≠ [] := fun he => by
      rw [g.identified.mpr he] at hs
      cases hs
    rw [hstate]
    dsimp only
    rw [SegmentId.new_get]
    dsimp only
    rw [g.scan_image h hc (readsAs_bytes g.image)]
    dsimp only
    rw [if_neg (by simp),if_neg ?_]
    cases hb : g.bodies with
    | nil => exact absurd hb hne
    | cons b bs => simp [framesFrom]

/-- A healthy handle on the canonical file of a generation. -/
structure Journal.Holds (j : Journal) (g : Generation) : Prop where
  config : validateConfig j.config = .ok ()
  file : j.file.bytes = g.image
  fileEnd : j.fileEnd = journalHeaderLen + framesLen g.bodies
  parts : j.parts = (framesFrom journalHeaderLen g.bodies).map fun raw => ⟨raw,j.generation⟩
  segmentId : j.segmentId = g.segmentId
  healthy : j.poisoned = false
  fits : g.Fits j.config

/-- The handle that opening a file under its contents gives. -/
def Journal.opened (file : Bytes) (config : JournalConfig) (segmentId : Option SegmentId)
    (parts : List PartRef) (generation : ℕ) : Journal where
  file := ⟨file,[]⟩
  fileEnd := file.length
  config
  parts := parts.map fun raw => ⟨raw,generation⟩
  generation
  segmentId
  poisoned := false

/-- Opening an existing file with nothing to complete reads its contents and changes
nothing. -/
theorem openRoot_existing {file : Bytes} {config : JournalConfig}
    (hc : validateConfig config = .ok ()) (hpos : 0 < file.length)
    (hlen : file.length ≤ config.maxJournalLen) (hmarker : committedMarker file config = none)
    (nextGeneration : ℕ) :
    Journal.openRoot config false ⟨file,[]⟩ (.ok ()) nextGeneration =
      match openContents file config with
      | .error e => (.error e,⟨file,[]⟩,nextGeneration)
      | .ok (segmentId,parts) =>
        (.ok (Journal.opened file config segmentId parts nextGeneration),⟨file,[]⟩,
          nextGeneration+1) := by
  have hrecover : recoverCommittedReset ⟨file,[]⟩ config = (.ok false,⟨file,[]⟩) :=
    recoverCommittedReset_of_none hmarker
  unfold Journal.openRoot
  simp only [hc,Bool.false_eq_true,if_false,Disk.performAll,if_neg (not_lt.mpr hlen),hrecover,
    if_neg (Nat.pos_iff_ne_zero.mp hpos)]
  cases openContents file config with
  | error e => rfl
  | ok r => rfl

/-- Opening the canonical file of a generation gives a handle on it. -/
theorem Generation.openRoot_image {g : Generation} {config : JournalConfig} (h : g.Fits config)
    (hc : validateConfig config = .ok ()) (nextGeneration : ℕ) :
    Journal.openRoot config false ⟨g.image,[]⟩ (.ok ()) nextGeneration =
      (.ok (Journal.opened g.image config g.segmentId (framesFrom journalHeaderLen g.bodies)
        nextGeneration),⟨g.image,[]⟩,nextGeneration+1) := by
  have hlen := g.image_length
  have hpos : 0 < g.image.length := by rw [hlen,journalHeaderLen]; omega
  rw [openRoot_existing hc hpos (hlen ▸ h.len) (g.committedMarker_image h hc),
    g.openContents_image h hc]

theorem Generation.opened_holds {g : Generation} {config : JournalConfig} (h : g.Fits config)
    (hc : validateConfig config = .ok ()) (nextGeneration : ℕ) :
    (Journal.opened g.image config g.segmentId (framesFrom journalHeaderLen g.bodies)
      nextGeneration).Holds g :=
  ⟨hc,rfl,g.image_length,rfl,rfl,rfl,h⟩

end PgKronika
