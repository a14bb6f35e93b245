import PgKronika.JournalRecovery
import PgKronika.JournalRuns

/-! Crashes between the writes of an append and of a reset: the file they leave and
what startup gets out of it. -/
namespace PgKronika

open ByteCodec CheckedArith FileTrace

/-- A header whose first `i` bytes are already rewritten. -/
def mixedHeader (old new : JournalHeader) (i : ℕ) : Bytes :=
  new.encode.take i ++ old.encode.drop i

@[simp] theorem mixedHeader_length (old new : JournalHeader) (i : ℕ) :
    (mixedHeader old new i).length = journalHeaderLen := by
  have hold := old.encode_length
  have hnew := new.encode_length
  rw [mixedHeader,List.length_append,List.length_take,List.length_drop]
  omega

theorem mixedHeader_zero (old new : JournalHeader) : mixedHeader old new 0 = old.encode := by
  simp [mixedHeader]

theorem mixedHeader_all (old new : JournalHeader) {i : ℕ} (h : journalHeaderLen ≤ i) :
    mixedHeader old new i = new.encode := by
  rw [mixedHeader,List.take_of_length_le (by simpa using h),List.drop_of_length_le (by simpa using h),
    List.append_nil]

/-- Two headers of one generation differ in four consecutive bytes before their
checksums. -/
theorem slice_encode_high (segmentId : Int64) {m n : UInt64} (hm : m.toNat < 2^32)
    (hn : n.toNat < 2^32) :
    slice (JournalHeader.encode ⟨.active segmentId,m⟩) 28 4 =
      slice (JournalHeader.encode ⟨.active segmentId,n⟩) 28 4 := by
  have hfield : ∀ x : UInt64, slice (JournalHeader.encode ⟨.active segmentId,x⟩) 24 8 = u64Le x :=
    fun x => by rw [← u64Le_u64At (by simp [journalHeaderLen]),JournalHeader.u64At_bodyLen]
  have hhigh : ∀ x : UInt64, slice (JournalHeader.encode ⟨.active segmentId,x⟩) 28 4 =
      slice (u64Le x) 4 4 := fun x => by rw [← hfield x,slice_slice (by omega)]
  rw [hhigh,hhigh,u64Le_high hm,u64Le_high hn]

/-- The checksum tells every torn rewrite of one header of a generation by another. -/
theorem mixedHeader_decode {segmentId : Int64} {m n : UInt64} (hm : m.toNat < 2^32)
    (hn : n.toNat < 2^32) {i : ℕ} {h : JournalHeader}
    (hd : JournalHeader.decode (mixedHeader ⟨.active segmentId,m⟩ ⟨.active segmentId,n⟩ i) =
      .ok h) :
    mixedHeader ⟨.active segmentId,m⟩ ⟨.active segmentId,n⟩ i =
        JournalHeader.encode ⟨.active segmentId,m⟩ ∨
      mixedHeader ⟨.active segmentId,m⟩ ⟨.active segmentId,n⟩ i =
        JournalHeader.encode ⟨.active segmentId,n⟩ := by
  have hcrc := JournalHeader.decode_ok_checksum hd
  have hhigh := slice_encode_high segmentId hn hm
  generalize hold : (⟨.active segmentId,m⟩ : JournalHeader) = old at *
  generalize hnew : (⟨.active segmentId,n⟩ : JournalHeader) = new at *
  have hlen : new.encode.length = old.encode.length := by simp
  have hstate : slice new.encode 0 24 = slice old.encode 0 24 := by
    rw [JournalHeader.slice_encodeState,JournalHeader.slice_encodeState,← hold,← hnew]
  have hsplit : ∀ x : Bytes, slice x 0 32 = slice x 0 24 ++ slice x 24 4 ++ slice x 28 4 := by
    intro x
    rw [← slice_split x 0 24 4,← slice_split x 0 28 4]
  have hwhole : ∀ x : Bytes, x.length = journalHeaderLen → x = slice x 0 32 ++ slice x 32 4 := by
    intro x hx
    have hall : 32+4 = x.length := hx.symm
    rw [← slice_split x 0 32 4,hall]
    exact (slice_all x).symm
  have hmix := mixedHeader_length old new i
  rcases Nat.lt_or_ge 32 i with hi | hi
  · -- The fields are new, so the stored checksum must be the new one.
    right
    have hfields : slice (mixedHeader old new i) 0 32 = slice new.encode 0 32 := by
      rw [mixedHeader,slice_append_left (by simp [journalHeaderLen]; omega),slice_take (by omega)]
    have hsum : slice (mixedHeader old new i) 32 4 = slice new.encode 32 4 := by
      rw [← u32Le_u32At (by simp [journalHeaderLen]),← u32Le_u32At (by simp [journalHeaderLen]),hcrc,
        hfields,JournalHeader.u32At_checksum,JournalHeader.slice_encodeFields]
    rw [hwhole _ hmix,hfields,hsum,← hwhole _ new.encode_length]
  · -- The stored checksum is old, so the four bytes that may differ are old as well.
    left
    have hsum : slice (mixedHeader old new i) 32 4 = slice old.encode 32 4 := by
      have htake : (new.encode.take i).length = i := by simp [journalHeaderLen]; omega
      rw [mixedHeader,slice_append_right (by omega),htake,slice,slice,List.drop_drop,
        Nat.add_sub_cancel' hi]
    have hword : slice (mixedHeader old new i) 24 4 = slice old.encode 24 4 := by
      have heq : Crc32c.crc32c (slice (mixedHeader old new i) 0 32) =
          Crc32c.crc32c (slice old.encode 0 32) := by
        rw [← hcrc,JournalHeader.slice_encodeFields,← JournalHeader.u32At_checksum,u32At,hsum,← u32At]
      rw [hsplit,hsplit old.encode,mixedHeader,slice_mix hlen hstate,slice_mix hlen hhigh,
        ← mixedHeader] at heq
      exact Crc32c.crc32c_word_injective (slice_length_of_le (by simp [journalHeaderLen]))
        (slice_length_of_le (by simp [journalHeaderLen])) heq
    rw [hwhole _ hmix,hsplit,mixedHeader,slice_mix hlen hstate,slice_mix hlen hhigh,← mixedHeader,
      hsum,hword,← hsplit,← hwhole _ old.encode_length]

theorem partBodies_framesFrom (pre post : Bytes) (bodies : List Bytes) :
    partBodies (pre++encodeFrames bodies++post) (framesFrom pre.length bodies) = bodies :=
  slice_framesFrom pre post bodies

/-- A canonical file starts up with its bodies. -/
theorem Generation.startup_image {g : Generation} {config : JournalConfig} (h : g.Fits config)
    (hc : validateConfig config = .ok ()) (nextGeneration : ℕ) :
    startupBodies config g.image nextGeneration = .ok g.bodies := by
  have hbodies := partBodies_framesFrom g.header.encode [] g.bodies
  rw [List.append_nil,← Generation.image,JournalHeader.encode_length] at hbodies
  rw [startupBodies,g.openRoot_image h hc]
  simp only [Journal.opened,List.map_map]
  exact congrArg Except.ok ((congrArg (partBodies g.image) (List.map_id _)).trans hbodies)

/-- Open leaves a file alone whose contents it refuses. -/
theorem openRoot_refused {file : Bytes} {config : JournalConfig}
    (hc : validateConfig config = .ok ()) (hpos : 0 < file.length)
    (hlen : file.length ≤ config.maxJournalLen) (hmarker : committedMarker file config = none)
    {e : JournalError} (hopen : openContents file config = .error e) (nextGeneration : ℕ) :
    startupBodies config file nextGeneration =
      (JournalRecovery.inspect file config).map fun r => partBodies r.source r.parts := by
  rw [startupBodies,openRoot_existing hc hpos hlen hmarker,hopen]

/-- An active header that does not count the bytes behind it: open refuses the file,
and the inspection gets every complete frame back. -/
theorem startup_miscounted {config : JournalConfig} (hc : validateConfig config = .ok ())
    {file : Bytes} (post : Bytes) (segmentId : SegmentId) (bodyLen : UInt64) {bodies : List Bytes}
    (hfile : file = JournalHeader.encode ⟨.active segmentId.get,bodyLen⟩ ++ encodeFrames bodies ++
      post)
    (hbody : bodyLen.toNat ≠ file.length - journalHeaderLen)
    (hmarker : committedMarker file config = none) (hlen : file.length ≤ config.maxJournalLen)
    (hv : ∀ b ∈ bodies, ValidPart b ∧ b.length ≤ config.limits.maxPartLen.toNat)
    (hcount : bodies.length ≤ config.maxParts)
    (hno : NoFurtherFrame file config.limits (journalHeaderLen+framesLen bodies))
    (nextGeneration : ℕ) : startupBodies config file nextGeneration = .ok bodies := by
  have hmin : journalHeaderLen ≤ file.length := by rw [hfile]; simp
  have hpos : 0 < journalHeaderLen := by decide
  have hheader : slice file 0 journalHeaderLen =
      JournalHeader.encode ⟨.active segmentId.get,bodyLen⟩ :=
    slice_of_append (a := []) (b := encodeFrames bodies ++ post) (by simp [hfile]) rfl (by simp)
  have hopen : openContents file config =
      .error (.bodyLengthMismatch bodyLen.toNat (file.length - journalHeaderLen)) := by
    unfold openContents
    rw [if_neg (by omega),hheader,JournalHeader.decode_encode]
    exact if_pos hbody
  have hrun := frameRun_encodeFrames config.limits hv (JournalHeader.encode ⟨.active segmentId.get,bodyLen⟩) post
  rw [JournalHeader.encode_length,← hfile] at hrun
  obtain ⟨r,hinspect,hsource,hparts⟩ := inspect_active hc hmin hlen hheader hrun hno
    (by rwa [framesFrom_length])
  have hbodies := partBodies_framesFrom (JournalHeader.encode ⟨.active segmentId.get,bodyLen⟩) post
    bodies
  rw [JournalHeader.encode_length,← hfile] at hbodies
  rw [openRoot_refused hc (by omega) hlen hmarker hopen,hinspect]
  exact congrArg Except.ok (by dsimp only; rw [hsource,hparts,hbodies])

/-- Without a decodable header startup gets nothing back. -/
theorem startup_undecodable {config : JournalConfig} (hc : validateConfig config = .ok ())
    {file : Bytes} (hmin : journalHeaderLen ≤ file.length)
    (hlen : file.length ≤ config.maxJournalLen) (hmarker : committedMarker file config = none)
    {e : JournalHeaderError}
    (hheader : JournalHeader.decode (slice file 0 journalHeaderLen) = .error e)
    (nextGeneration : ℕ) : startupBodies config file nextGeneration = .ok [] := by
  have hpos : 0 < journalHeaderLen := by decide
  obtain ⟨r,hinspect,hsource,hparts⟩ := inspect_undecodable hc hheader
  have hopen : ∃ e', openContents file config = .error e' := by
    unfold openContents
    rw [if_neg (by omega),hheader]
    cases e <;> exact ⟨_,rfl⟩
  obtain ⟨e',hopen⟩ := hopen
  rw [openRoot_refused hc (by omega) hlen hmarker hopen,hinspect]
  exact congrArg Except.ok (by dsimp only; rw [hparts]; rfl)

/-- The two writes of a frame at the end of a file. -/
theorem crashImage_writeFrame (file header part : Bytes) (ops : List FileOp) (k : ℕ) :
    crashImage (writeFrame file.length header part ++ ops) k file =
      if k ≤ header.length+part.length then file ++ (header++part).take k
      else crashImage ops (k - (header.length+part.length)) (file ++ (header++part)) := by
  rw [writeFrame,List.cons_append,List.cons_append,List.nil_append]
  rcases le_or_gt k header.length with hk | hk
  · rw [crashImage_writeAll_of_le _ _ hk,overwrite_end,if_pos (by omega),
      List.take_append_of_le_length hk]
  · obtain ⟨m,rfl⟩ := Nat.exists_eq_add_of_le hk.le
    rw [crashImage_writeAll_add,overwrite_end,← List.length_append,List.take_length_add_append]
    split_ifs with hm
    · rw [crashImage_writeAll_of_le _ _ (by omega),overwrite_end,List.append_assoc]
    · obtain ⟨i,rfl⟩ := Nat.exists_eq_add_of_le (show part.length ≤ m by omega)
      have hi : header.length+(part.length+i) - (header.length+part.length) = i := by omega
      rw [crashImage_writeAll_add,overwrite_end,hi,List.append_assoc]

/-- A header rewritten in place, up to any of its bytes. -/
theorem crashImage_writeHeader (old new : JournalHeader) (rest : Bytes) (k : ℕ) :
    crashImage [writeHeader new,.syncData] k (old.encode ++ rest) = mixedHeader old new k ++ rest := by
  have hold := old.encode_length
  have hnew := new.encode_length
  rcases le_or_gt k new.encode.length with hk | hk
  · rw [writeHeader,crashImage_writeAll_of_le _ _ hk,overwrite_start,mixedHeader,List.length_take,
      Nat.min_eq_left hk,List.drop_append_of_le_length (by omega),List.append_assoc]
  · obtain ⟨m,rfl⟩ := Nat.exists_eq_add_of_le hk.le
    rw [writeHeader,crashImage_writeAll_add,overwrite_start,crashImage_syncData,crashImage_nil,
      mixedHeader_all _ _ (by omega),List.drop_append_of_le_length (by omega),
      List.drop_of_length_le (by omega),List.nil_append]

/-- A crash inside the append of a later part leaves some bytes of the frame, and once
the frame is complete a header that may be torn. -/
theorem Journal.Holds.crash_appendWrites {j : Journal} {g : Generation} (h : j.Holds g)
    (hne : g ≠ .fresh) (header : JournalHeader) (part : Bytes) (k : ℕ) :
    crashImage (j.appendWrites header part) k g.image =
      mixedHeader g.header header (k - (frameHeaderLen+part.length)) ++
        (encodeFrames g.bodies ++ (encodeFrame part).take k) := by
  have hempty : j.parts.isEmpty = false := by
    rw [← Bool.not_eq_true,h.isEmpty_iff]
    exact hne
  have hend : j.fileEnd = g.image.length := by rw [h.fileEnd,g.image_length]
  have hframe : (FrameHeader.encode ⟨UInt64.ofNat part.length⟩).length = frameHeaderLen := by simp
  have himage : g.image = g.header.encode ++ encodeFrames g.bodies := rfl
  unfold appendWrites
  rw [hempty]
  simp only [Bool.false_eq_true,if_false,hend]
  rw [crashImage_writeFrame,hframe,← encodeFrame]
  split_ifs with hk
  · rw [Nat.sub_eq_zero_of_le hk,mixedHeader_zero,himage,List.append_assoc]
  · rw [himage,List.append_assoc,crashImage_writeHeader,
      List.take_of_length_le (by rw [encodeFrame_length]; omega)]

/-- Too few bytes for a frame with a part in it. -/
theorem noFurtherFrame_of_short {b : Bytes} {limits : JournalLimits} {stop : ℕ}
    (h : b.length < stop+frameHeaderLen+minPartLen) : NoFurtherFrame b limits stop := by
  refine .inr fun pos n hpos hframe => ?_
  have hmin := hframe.part.minPartLen_le
  rw [slice_length] at hmin
  have hfit := hframe.fits
  omega

/-- A frame that ends before its part does. -/
theorem noFurtherFrame_of_torn {limits : JournalLimits} {part : Bytes}
    (hmax : part.length ≤ limits.maxPartLen.toNat) (pre : Bytes) {k : ℕ}
    (hk : k < frameHeaderLen+part.length) :
    NoFurtherFrame (pre ++ (encodeFrame part).take k) limits pre.length := by
  have hlt := limits.maxPartLen.toNat_lt
  have hlen : (UInt64.ofNat part.length).toNat = part.length :=
    UInt64.toNat_ofNat_of_lt' (by simpa [UInt64.size] using by omega)
  have htotal : (pre ++ (encodeFrame part).take k).length = pre.length + k := by
    rw [List.length_append,List.length_take,encodeFrame_length]
    omega
  rcases Nat.lt_or_ge k frameHeaderLen with hshort | hlong
  · refine .inl ⟨.tornFrameHeader,none,?_⟩
    rw [streamingFrame,if_pos (by omega)]
  · refine .inl ⟨.tornFrameBody,none,?_⟩
    have hheader : slice (pre ++ (encodeFrame part).take k) pre.length frameHeaderLen =
        FrameHeader.encode ⟨UInt64.ofNat part.length⟩ := by
      rw [slice_append_right (le_refl _),Nat.sub_self,slice_take (by omega)]
      exact slice_of_append (a := []) (b := part) (by simp [encodeFrame]) rfl (by simp)
    have hfits : ¬ limits.maxPartLen < UInt64.ofNat part.length := by
      rw [UInt64.not_lt,UInt64.le_iff_toNat_le,hlen]
      exact hmax
    rw [streamingFrame,if_neg (by omega),hheader,streamingHeader,FrameHeader.decode_encode]
    dsimp only
    rw [if_neg hfits,if_pos (by rw [htotal,hlen]; omega)]

/-- No prefix of a frame ends a file with a committed marker, as long as the header
still counts the bytes in front of it. -/
theorem committedMarker_torn_append {g : Generation} {config : JournalConfig}
    (h : g.Fits config) (hc : validateConfig config = .ok ()) {segmentId : SegmentId}
    (hs : g.segmentId = some segmentId) {part : Bytes} (hv : ValidPart part) (k : ℕ) :
    committedMarker (g.image ++ (encodeFrame part).take k) config = none := by
  by_contra hne
  obtain ⟨marker,hmarker⟩ := Option.ne_none_iff_exists'.mp hne
  have hmin := hv.minPartLen_le
  have hm : minPartLen = 44 := rfl
  have hr : resetMarkerLen = 32 := rfl
  have hf : frameHeaderLen = 16 := rfl
  have hle := h.len_lt hc
  have hheader := g.slice_header ((encodeFrame part).take k)
  have hstate : g.header = ⟨.active segmentId.get,UInt64.ofNat (framesLen g.bodies)⟩ := by
    rw [Generation.header,hs]
  rw [hstate] at hheader
  have hlen := committedMarker_active hheader hmarker
  rw [toNat_ofNat_of_le (by omega),List.length_append,g.image_length,List.length_take,
    encodeFrame_length] at hlen
  have hk : k = resetMarkerLen := by omega
  subst hk
  obtain ⟨_,hdec,_⟩ := committedMarker_some hmarker
  have htail : (g.image ++ (encodeFrame part).take resetMarkerLen).length - resetMarkerLen =
      g.image.length := by
    rw [List.length_append,List.length_take,encodeFrame_length]
    omega
  have hmagic := ResetMarker.decode_some_magic hdec
  rw [htail,slice_slice (by omega),slice_append_right (by omega),slice_take (by omega)] at hmagic
  rw [Nat.add_zero,Nat.sub_self] at hmagic
  have hframe : slice (encodeFrame part) 0 4 = frameMagic :=
    slice_of_append (a := []) (b := u64Le (UInt64.ofNat part.length) ++ u32Le (Crc32c.crc32c
      (FrameHeader.encodeFields ⟨UInt64.ofNat part.length⟩)) ++ part)
      (by simp [encodeFrame,FrameHeader.encode,FrameHeader.encodeFields]) rfl rfl
  rw [← Nat.zero_add 0,← slice_slice (n := 8) (by omega),hmagic] at hframe
  exact absurd hframe (by decide)

theorem Journal.Holds.currentHeader_eq {j : Journal} {g : Generation} (h : j.Holds g) :
    j.currentHeader = g.header := by
  rewrite [currentHeader,Generation.header,h.segmentId,h.fileEnd,Nat.add_sub_cancel_left]
  rfl

section AppendCrash

variable {j : Journal} {g : Generation} (h : j.Holds g) (hne : g.bodies ≠ [])
variable {segmentId : SegmentId} {part : Bytes} {nextEnd : ℕ}
variable (hpre : j.precheck segmentId part = .ok nextEnd)
include h hne hpre

theorem Journal.Holds.append_identity : g.segmentId = some segmentId := by
  rcases (precheck_ok hpre).1 with hs | hs
  · exact absurd (g.identified.mp (h.segmentId ▸ hs)) hne
  · exact h.segmentId ▸ hs

/-- Until the header changes, the frames in front of the crash start up again. -/
theorem Journal.Holds.startup_append_old (k nextGeneration : ℕ) :
    ∃ more, (more = [] ∨ more = [part]) ∧
      startupBodies j.config (g.image ++ (encodeFrame part).take k) nextGeneration =
        .ok (g.bodies ++ more) := by
  have hf : frameHeaderLen = 16 := rfl
  have hm : minPartLen = 44 := rfl
  obtain ⟨_,hlen,hv,hcount,hnext,hfits⟩ := precheck_ok hpre
  have hpush := h.push_fits hpre hv
  have hs := h.append_identity hne hpre
  have hc := h.config
  have hmarker := committedMarker_torn_append h.fits hc hs hv k
  have hle := h.fits.len_lt hc
  have hlenPush := hpush.len
  simp only [Generation.push,framesLen_append,framesLen_cons,framesLen_nil] at hlenPush
  have htotal : (g.image ++ (encodeFrame part).take k).length =
      journalHeaderLen + framesLen g.bodies + min k (frameHeaderLen+part.length) := by
    rw [List.length_append,g.image_length,List.length_take,encodeFrame_length]
  have hheader : g.header = ⟨.active segmentId.get,UInt64.ofNat (framesLen g.bodies)⟩ := by
    rw [Generation.header,hs]
  have hbody : (UInt64.ofNat (framesLen g.bodies)).toNat = framesLen g.bodies :=
    toNat_ofNat_of_le (by omega)
  rcases Nat.eq_zero_or_pos k with hk | hk
  · subst hk
    refine ⟨[],.inl rfl,?_⟩
    rw [List.take_zero,List.append_nil,List.append_nil]
    exact g.startup_image h.fits hc nextGeneration
  · rcases Nat.lt_or_ge k (frameHeaderLen+part.length) with htorn | hwhole
    · refine ⟨[],.inl rfl,?_⟩
      rw [List.append_nil]
      have hno := noFurtherFrame_of_torn hlen g.image htorn
      rw [g.image_length] at hno
      exact startup_miscounted hc _ _ _ (by rw [← hheader]; rfl) (by rw [hbody]; omega) hmarker (by omega)
        (fun b hb => ⟨g.valid b hb,h.fits.partLen b hb⟩) h.fits.count hno nextGeneration
    · refine ⟨[part],.inr rfl,?_⟩
      have hno : NoFurtherFrame (g.image ++ (encodeFrame part).take k) j.config.limits
          (journalHeaderLen+framesLen (g.bodies++[part])) := by
        refine noFurtherFrame_of_short ?_
        rw [htotal]
        simp only [framesLen_append,framesLen_cons,framesLen_nil]
        omega
      refine startup_miscounted hc [] segmentId (UInt64.ofNat (framesLen g.bodies)) ?_ (by rw [hbody]; omega) hmarker (by omega)
        (fun b hb => ⟨(g.push segmentId part hv).valid b hb,hpush.partLen b hb⟩) hpush.count hno
        nextGeneration
      rw [← hheader,List.take_of_length_le (by rwa [encodeFrame_length]),Generation.image]
      simp [Generation.push]

omit hne in
/-- A complete new header counts the new frame. -/
theorem Journal.Holds.startup_append_new (nextGeneration : ℕ) :
    startupBodies j.config ((appendedHeader segmentId nextEnd).encode ++
      (encodeFrames g.bodies ++ encodeFrame part)) nextGeneration = .ok (g.bodies ++ [part]) := by
  obtain ⟨_,_,hv,_⟩ := precheck_ok hpre
  have himage : (g.push segmentId part hv).image = (appendedHeader segmentId nextEnd).encode ++
      (encodeFrames g.bodies ++ encodeFrame part) := by
    rw [Generation.image,h.appendedHeader_eq hpre hv]
    simp [Generation.push]
  rw [← himage]
  exact (g.push segmentId part hv).startup_image (h.push_fits hpre hv) h.config nextGeneration

/-- A torn header loses every part: no frame is looked at behind it. -/
theorem Journal.Holds.startup_append_torn {i : ℕ}
    (hold : mixedHeader g.header (appendedHeader segmentId nextEnd) i ≠ g.header.encode)
    (hnew : mixedHeader g.header (appendedHeader segmentId nextEnd) i ≠
      (appendedHeader segmentId nextEnd).encode) (nextGeneration : ℕ) :
    startupBodies j.config (mixedHeader g.header (appendedHeader segmentId nextEnd) i ++
      (encodeFrames g.bodies ++ encodeFrame part)) nextGeneration = .ok [] := by
  obtain ⟨_,_,hv,_,hnext,hfits⟩ := precheck_ok hpre
  have hs := h.append_identity hne hpre
  have hc := h.config
  have hpush := h.push_fits hpre hv
  have hle := h.fits.len_lt hc
  have hlePush := hpush.len_lt hc
  have hlen := hpush.len
  simp only [Generation.push,framesLen_append,framesLen_cons,framesLen_nil] at hlen hlePush
  have hcut := Journal.Holds.fileEnd h
  have hheader : g.header = ⟨.active segmentId.get,UInt64.ofNat (framesLen g.bodies)⟩ := by
    rw [Generation.header,hs]
  rw [appendedHeader,hheader] at hold hnew ⊢
  generalize hmix : mixedHeader ⟨.active segmentId.get,UInt64.ofNat (framesLen g.bodies)⟩
    ⟨.active segmentId.get,UInt64.ofNat (nextEnd - journalHeaderLen)⟩ i = mixed at hold hnew ⊢
  have hmixed : mixed.length = journalHeaderLen := by rw [← hmix,mixedHeader_length]
  have hslice : slice (mixed ++ (encodeFrames g.bodies ++ encodeFrame part)) 0 journalHeaderLen =
      mixed := slice_of_append (a := []) (b := encodeFrames g.bodies ++ encodeFrame part) (by simp)
        rfl hmixed
  have hdecode : ∀ header, JournalHeader.decode mixed ≠ .ok header := by
    intro header hd
    rw [← hmix] at hd
    have hw := mixedHeader_decode (by rw [toNat_ofNat_of_le (by omega)]; omega)
      (by rw [toNat_ofNat_of_le (by omega)]; omega) hd
    rw [hmix] at hw
    exact hw.elim hold hnew
  have hmarker : committedMarker (mixed ++ (encodeFrames g.bodies ++ encodeFrame part)) j.config =
      none := by
    by_contra hsome
    obtain ⟨marker,hmarker⟩ := Option.ne_none_iff_exists'.mp hsome
    obtain ⟨_,_,_,hclass⟩ := committedMarker_some hmarker
    rw [hslice] at hclass
    have hflags : ∀ bodyLen, u8At (JournalHeader.encode ⟨.active segmentId.get,bodyLen⟩) 12 = 1 :=
      fun bodyLen => JournalHeader.u8At_flag ⟨.active segmentId.get,bodyLen⟩ (show 0 < 4 by omega)
    have hflag : u8At mixed 12 ≠ 0 := by
      rw [← hmix,mixedHeader,u8At,slice_mix (by simp) ?_,← u8At,hflags]
      · decide
      · rw [JournalHeader.slice_encode _ (by omega),JournalHeader.slice_encode _ (by omega)]
    have hsame := ResetMarker.classify_nonempty hflag hclass
    exact hdecode _ (hsame ▸ JournalHeader.decode_encode _)
  cases hd : JournalHeader.decode mixed with
  | ok header => exact absurd hd (hdecode header)
  | error e =>
    have hhead : JournalHeader.decode (slice (mixed ++ (encodeFrames g.bodies ++ encodeFrame part)) 0
        journalHeaderLen) = .error e := by rw [hslice,hd]
    exact startup_undecodable hc (by simp; omega) (by simp; omega) hmarker hhead nextGeneration

omit hne in
theorem Journal.Holds.header_changes : (appendedHeader segmentId nextEnd).encode ≠ g.header.encode := by
  intro he
  obtain ⟨_,_,hv,_⟩ := precheck_ok hpre
  have hdec := JournalHeader.decode_encode (appendedHeader segmentId nextEnd)
  rw [he,JournalHeader.decode_encode,h.appendedHeader_eq hpre hv] at hdec
  have hbody := congrArg (fun x : JournalHeader => x.bodyLen.toNat) (Except.ok.inj hdec)
  have hle := h.fits.len_lt h.config
  have hlePush := (h.push_fits hpre hv).len_lt h.config
  simp only [Generation.header] at hbody
  rw [toNat_ofNat_of_le (by omega),toNat_ofNat_of_le (by omega)] at hbody
  simp only [Generation.push,framesLen_append,framesLen_cons,framesLen_nil] at hbody
  have hf : frameHeaderLen = 16 := rfl
  omega

end AppendCrash

/-- A crash of a later append keeps the acknowledged parts exactly when it leaves the
root header complete, old or new. The first append of a generation has no earlier part. -/
theorem append_crash_keeps_iff {j : Journal} {g : Generation} (h : j.Holds g)
    (hne : g.bodies ≠ []) {segmentId : SegmentId} {part : Bytes} {nextEnd : ℕ}
    (hpre : j.precheck segmentId part = .ok nextEnd) (k nextGeneration : ℕ) :
    (∃ more, (more = [] ∨ more = [part]) ∧
      startupBodies j.config (crashImage (j.appendWrites (appendedHeader segmentId nextEnd) part) k
        j.file.bytes) nextGeneration = .ok (g.bodies ++ more)) ↔
      (mixedHeader j.currentHeader (appendedHeader segmentId nextEnd)
          (k - (frameHeaderLen+part.length)) = j.currentHeader.encode ∨
        mixedHeader j.currentHeader (appendedHeader segmentId nextEnd)
          (k - (frameHeaderLen+part.length)) = (appendedHeader segmentId nextEnd).encode) := by
  have hfresh : g ≠ .fresh := fun hg => hne (hg ▸ rfl)
  rw [h.file,h.crash_appendWrites hfresh,h.currentHeader_eq]
  constructor
  · rintro ⟨more,_,hstart⟩
    by_contra hneither
    push Not at hneither
    have hk : frameHeaderLen+part.length < k := by
      by_contra hk
      rw [Nat.sub_eq_zero_of_le (by omega),mixedHeader_zero] at hneither
      exact hneither.1 rfl
    rw [List.take_of_length_le (by rw [encodeFrame_length]; omega),
      h.startup_append_torn hne hpre hneither.1 hneither.2] at hstart
    exact hne (List.append_eq_nil_iff.mp (Except.ok.inj hstart).symm).1
  · rintro (hold | hnew)
    · rw [hold,← List.append_assoc]
      exact h.startup_append_old hne hpre k nextGeneration
    · have hk : frameHeaderLen+part.length < k := by
        by_contra hk
        rw [Nat.sub_eq_zero_of_le (by omega),mixedHeader_zero] at hnew
        exact h.header_changes hpre hnew.symm
      rw [hnew,List.take_of_length_le (by rw [encodeFrame_length]; omega)]
      exact ⟨[part],.inr rfl,h.startup_append_new hpre nextGeneration⟩

def sampleId : SegmentId := ⟨0,segmentIdInRange_zero⟩

/-- A generation with one empty part, and a handle on it. -/
def sampleGeneration : Generation := Generation.fresh.push sampleId (emptyPart 0 0 1) emptyPart_valid

def sampleJournal : Journal :=
  Journal.opened sampleGeneration.image .default sampleGeneration.segmentId
    (framesFrom journalHeaderLen sampleGeneration.bodies) 7

theorem sampleJournal_holds : sampleJournal.Holds sampleGeneration :=
  Generation.opened_holds ⟨by decide,by decide,by decide⟩ validateConfig_default 7

theorem sampleJournal_precheck : sampleJournal.precheck sampleId (emptyPart 0 0 1) = .ok 156 := by
  decide +kernel

theorem append_crash_keeps_iff_sample :
    (∃ more, (more = [] ∨ more = [emptyPart 0 0 1]) ∧
      startupBodies sampleJournal.config (crashImage (sampleJournal.appendWrites
        (appendedHeader sampleId 156) (emptyPart 0 0 1)) 20 sampleJournal.file.bytes) 8 =
          .ok (sampleGeneration.bodies ++ more)) ↔
      (mixedHeader sampleJournal.currentHeader (appendedHeader sampleId 156)
          (20 - (frameHeaderLen+(emptyPart 0 0 1).length)) = sampleJournal.currentHeader.encode ∨
        mixedHeader sampleJournal.currentHeader (appendedHeader sampleId 156)
          (20 - (frameHeaderLen+(emptyPart 0 0 1).length)) = (appendedHeader sampleId 156).encode) :=
  append_crash_keeps_iff sampleJournal_holds (by simp [sampleGeneration,Generation.push])
    sampleJournal_precheck 20 8

/-- Sixty frame bytes and 25 header bytes reach the file: the new body length under the
old checksum. -/
theorem append_crash_loses_sample :
    sampleJournal.Holds sampleGeneration ∧ sampleGeneration.bodies = [emptyPart 0 0 1] ∧
      sampleJournal.precheck sampleId (emptyPart 0 0 1) = .ok 156 ∧
      ¬ ∃ more, (more = [] ∨ more = [emptyPart 0 0 1]) ∧
        startupBodies sampleJournal.config (crashImage (sampleJournal.appendWrites
          (appendedHeader sampleId 156) (emptyPart 0 0 1)) 85 sampleJournal.file.bytes) 8 =
            .ok (sampleGeneration.bodies ++ more) := by
  have hbodies : sampleGeneration.bodies = [emptyPart 0 0 1] := by
    simp [sampleGeneration,Generation.push,Generation.fresh]
  have hne : sampleGeneration.bodies ≠ [] := by rw [hbodies]; simp
  have hi : 85 - (frameHeaderLen+(emptyPart 0 0 1).length) = 25 := by decide
  have hold : mixedHeader sampleGeneration.header (appendedHeader sampleId 156) 25 ≠
      sampleGeneration.header.encode := by decide
  have hnew : mixedHeader sampleGeneration.header (appendedHeader sampleId 156) 25 ≠
      (appendedHeader sampleId 156).encode := by decide +kernel
  refine ⟨sampleJournal_holds,hbodies,sampleJournal_precheck,?_⟩
  rintro ⟨more,_,hstart⟩
  rw [sampleJournal_holds.file,sampleJournal_holds.crash_appendWrites (fun hg => hne (hg ▸ rfl)),hi,
    List.take_of_length_le (by decide),
    sampleJournal_holds.startup_append_torn hne sampleJournal_precheck hold hnew] at hstart
  exact hne (List.append_eq_nil_iff.mp (Except.ok.inj hstart).symm).1

/-- The writes of a reset, none when it is refused or has nothing to do. -/
def Journal.resetWrites (j : Journal) : List FileOp :=
  if j.parts.isEmpty then []
  else
    match j.segmentId with
    | none => []
    | some segmentId =>
      match j.resetMarker segmentId with
      | .ok (some marker) => resetMarkerWrites j.fileEnd marker ++ finishCommittedReset
      | _ => []

/-- A file on which a committed reset is not complete yet, or is complete. -/
def Resetting (g : Generation) (marker : ResetMarker) (file : Bytes) : Prop :=
  (∃ i, file = mixedHeader g.header .EMPTY i ++ (encodeFrames g.bodies ++ marker.encode)) ∨
    file = Generation.fresh.image

theorem mixedHeader_mixed (old new : JournalHeader) (i k : ℕ) :
    new.encode.take k ++ (mixedHeader old new i).drop k = mixedHeader old new (max i k) := by
  have hold := old.encode_length
  have hnew := new.encode_length
  apply List.ext_getElem?
  intro n
  simp only [mixedHeader,List.getElem?_append,List.getElem?_take,List.getElem?_drop,
    List.length_take]
  grind

/-- A crash while a committed reset is completed. -/
theorem crashImage_finishCommittedReset (file : Bytes) (k : ℕ) :
    crashImage finishCommittedReset k file =
      if k ≤ journalHeaderLen then JournalHeader.EMPTY.encode.take k ++ file.drop k
      else Generation.fresh.image := by
  have hh := JournalHeader.EMPTY.encode_length
  rw [finishCommittedReset,writeHeader]
  split_ifs with hk
  · rw [crashImage_writeAll_of_le _ _ (by omega),overwrite_start,List.length_take,hh,
      Nat.min_eq_left hk]
  · obtain ⟨m,rfl⟩ := Nat.exists_eq_add_of_lt (not_le.mp hk)
    rw [Nat.add_assoc,← hh,crashImage_writeAll_add,crashImage_syncData,crashImage_setLen_succ,
      crashImage_syncData,crashImage_nil,hh]
    have hcut := truncate_emptyHeader file
    rwa [writeHeader,apply_writeAll,apply_setLen] at hcut

theorem Resetting.length_le {g : Generation} {marker : ResetMarker} {file : Bytes}
    (h : Resetting g marker file) :
    journalHeaderLen ≤ file.length ∧ file.length ≤ g.image.length + resetMarkerLen := by
  rcases h with ⟨i,rfl⟩ | rfl
  · simp
    omega
  · rw [Generation.fresh_image,JournalHeader.encode_length,g.image_length]
    omega

theorem Resetting.crash {g : Generation} {marker : ResetMarker} {file : Bytes}
    (h : Resetting g marker file) (k : ℕ) :
    Resetting g marker (crashImage finishCommittedReset k file) := by
  rw [crashImage_finishCommittedReset]
  split_ifs with hk
  · rcases h with ⟨i,rfl⟩ | rfl
    · refine .inl ⟨max i k,?_⟩
      rw [List.drop_append_of_le_length (by rwa [mixedHeader_length]),← List.append_assoc,
        mixedHeader_mixed]
    · exact .inr (by rw [Generation.fresh_image,List.take_append_drop])
  · exact .inr rfl

section ResetCrash

variable {g : Generation} {config : JournalConfig} (h : g.Fits config)
variable (hc : validateConfig config = .ok ()) {segmentId : SegmentId}
variable (hs : g.segmentId = some segmentId)
include h hc hs

theorem Generation.marker_names :
    (g.marker segmentId).previousLen.toNat = g.image.length ∧
      (g.marker segmentId).previousSegmentId = segmentId.get ∧
      (g.marker segmentId).expectedPreviousHeader = some g.header := by
  have hle := h.len_lt hc
  have hlen := g.image_length
  have hto : (UInt64.ofNat g.image.length).toNat = g.image.length := toNat_ofNat_of_le (by omega)
  have hpos : 0 < framesLen g.bodies :=
    Generation.framesLen_pos fun hg => by rw [hg] at hs; cases hs
  have hnew : ResetMarker.new (UInt64.ofNat g.image.length) segmentId.get =
      some (g.marker segmentId) := if_neg (by omega)
  have hexpected := (ResetMarker.expected_of_new hnew).2.2
  rw [← g.header_eq_activeHeader h hc hs] at hexpected
  exact ⟨hto,rfl,hexpected⟩

/-- A complete marker commits the reset behind any prefix of the empty header. -/
theorem Generation.committedMarker_resetting (i : ℕ) :
    committedMarker (mixedHeader g.header .EMPTY i ++
      (encodeFrames g.bodies ++ (g.marker segmentId).encode)) config = some (g.marker segmentId) := by
  obtain ⟨hprev,hid,hexpected⟩ := g.marker_names h hc hs
  have hlen := g.image_length
  have hfits := h.len
  generalize hfile : mixedHeader g.header .EMPTY i ++
    (encodeFrames g.bodies ++ (g.marker segmentId).encode) = file
  have htotal : file.length = g.image.length + resetMarkerLen := by
    rw [← hfile]; simp; omega
  have htail : slice file (file.length - resetMarkerLen) resetMarkerLen =
      (g.marker segmentId).encode :=
    slice_of_append (a := mixedHeader g.header .EMPTY i ++ encodeFrames g.bodies) (b := [])
      (by rw [← hfile]; simp) (by simp; omega) (by simp)
  have hhead : slice file 0 journalHeaderLen = mixedHeader g.header .EMPTY (min i journalHeaderLen) := by
    have hslice : slice file 0 journalHeaderLen = mixedHeader g.header .EMPTY i :=
      slice_of_append (a := []) (b := encodeFrames g.bodies ++ (g.marker segmentId).encode)
        (by rw [← hfile]; simp) rfl (by simp)
    rcases le_total i journalHeaderLen with hi | hi
    · rw [hslice,Nat.min_eq_left hi]
    · rw [hslice,Nat.min_eq_right hi,mixedHeader_all _ _ hi,mixedHeader_all _ _ (le_refl _)]
  have hclass := ResetMarker.classify_split hexpected (Nat.min_le_right i journalHeaderLen)
  rw [← mixedHeader,← hhead] at hclass
  unfold committedMarker
  rw [if_neg (by omega)]
  dsimp only
  rw [htail,ResetMarker.decode_encode]
  dsimp only
  rw [if_neg ?_,if_neg (by rw [hexpected]; simp),
    if_neg (by rw [Option.isNone_iff_eq_none]; exact Option.isSome_iff_ne_none.mp hclass)]
  rw [hprev,hid,SegmentId.new_get]
  simp [Except.toOption]
  omega

/-- The scan behind the marker confirms the old body, so the reset is completed. -/
theorem Generation.recover_resetting (i : ℕ) (faults : List (Option (ℕ × IoError))) :
    recoverCommittedReset ⟨mixedHeader g.header .EMPTY i ++
        (encodeFrames g.bodies ++ (g.marker segmentId).encode),faults⟩ config =
      match (Disk.mk (mixedHeader g.header .EMPTY i ++
        (encodeFrames g.bodies ++ (g.marker segmentId).encode)) faults).performAll
          finishCommittedReset with
      | (.error e,file) => (.error (.io e),file)
      | (.ok (),file) => (.ok true,file) := by
  obtain ⟨hprev,_,_⟩ := g.marker_names h hc hs
  have hle := h.len_lt hc
  have hlen := g.image_length
  have hmarker := g.committedMarker_resetting h hc hs i
  have hsplit : mixedHeader g.header .EMPTY i ++
      (encodeFrames g.bodies ++ (g.marker segmentId).encode) =
        mixedHeader g.header .EMPTY i ++ encodeFrames g.bodies ++ (g.marker segmentId).encode := by
    simp
  have hbody : (mixedHeader g.header .EMPTY i ++ encodeFrames g.bodies).length = g.image.length := by
    simp
  have hreads := readsAs_upTo (mixedHeader g.header .EMPTY i ++
    (encodeFrames g.bodies ++ (g.marker segmentId).encode)) (g.marker segmentId).previousLen
    (by rw [hprev,hsplit,List.length_append,hbody]; omega)
  rw [hprev] at hreads
  nth_rewrite 2 [hsplit] at hreads
  rw [List.take_left' hbody] at hreads
  have hrun := frameRun_encodeFrames config.limits
    (fun b hb => ⟨g.valid b hb,h.partLen b hb⟩) (mixedHeader g.header .EMPTY i) []
  rw [List.append_nil,mixedHeader_length,← hlen,← hbody] at hrun
  have hscan := scanStrict_clean hreads (by rw [hbody,u64Max]; omega)
    (UInt64.ofNat journalHeaderLen) config.maxParts
    (show (UInt64.ofNat journalHeaderLen).toNat ≤ _ by
      rw [hbody,hlen]; exact Nat.le_add_right _ _) hrun
    (by simpa using h.count)
  have hne : (framesFrom journalHeaderLen g.bodies).isEmpty = false := by
    rw [← Bool.not_eq_true,List.isEmpty_iff,← List.length_eq_zero_iff,framesFrom_length,
      List.length_eq_zero_iff,← g.identified,hs]
    simp
  rw [recoverCommittedReset]
  dsimp only
  rw [hmarker]
  dsimp only
  rw [hscan]
  dsimp only
  rewrite [if_neg (by rw [hprev,hbody,hne]; simp)]
  rfl


/-- An open of a file on which a committed reset is pending, with any I/O failures on
the way, leaves a file of the same kind, and without failures the empty journal. -/
theorem Resetting.openRoot {file : Bytes} (hfile : Resetting g (g.marker segmentId) file)
    (hlen : file.length ≤ config.maxJournalLen) (faults : List (Option (ℕ × IoError)))
    (nextGeneration : ℕ) :
    Resetting g (g.marker segmentId)
        (Journal.openRoot config false ⟨file,faults⟩ (.ok ()) nextGeneration).2.1.bytes ∧
      (faults = [] → Journal.openRoot config false ⟨file,faults⟩ (.ok ()) nextGeneration =
        (.ok (Journal.opened Generation.fresh.image config none [] nextGeneration),
          ⟨Generation.fresh.image,[]⟩,nextGeneration+1)) := by
  have hfresh := Generation.openContents_image (Generation.fresh_fits hc) hc
  have hempty : Generation.fresh.image.length = 36 := by
    rw [Generation.fresh_image,JournalHeader.encode_length,journalHeaderLen]
  have hrecover : ∃ result next, recoverCommittedReset ⟨file,faults⟩ config = (result,next) ∧
      Resetting g (g.marker segmentId) next.bytes ∧
      (∀ b, result = .ok b → next.bytes = Generation.fresh.image) ∧
      (faults = [] → (∃ b, result = .ok b) ∧ next.faults = []) := by
    rcases hfile with ⟨i,rfl⟩ | rfl
    · rw [g.recover_resetting h hc hs i faults]
      cases hp : (Disk.mk (mixedHeader g.header .EMPTY i ++
          (encodeFrames g.bodies ++ (g.marker segmentId).encode)) faults).performAll
          finishCommittedReset with
      | mk result next =>
        cases result with
        | error e =>
          obtain ⟨k,hk⟩ := performAll_error_image hp
          refine ⟨_,_,rfl,hk ▸ Resetting.crash (.inl ⟨i,rfl⟩) k,by simp,?_⟩
          rintro rfl
          rw [performAll_of_no_faults] at hp
          cases hp
        | ok u =>
          have hbytes := performAll_ok_bytes hp
          rw [applyAll_finishCommittedReset] at hbytes
          refine ⟨_,_,rfl,.inr hbytes,fun _ _ => hbytes,?_⟩
          rintro rfl
          rw [performAll_of_no_faults] at hp
          exact ⟨⟨true,rfl⟩,(Prod.mk.inj hp).2 ▸ rfl⟩
    · have hnone : committedMarker Generation.fresh.image config = none :=
        Generation.committedMarker_image (Generation.fresh_fits hc) hc
      have hskip : recoverCommittedReset ⟨Generation.fresh.image,faults⟩ config =
          (.ok false,⟨Generation.fresh.image,faults⟩) := recoverCommittedReset_of_none hnone
      refine ⟨.ok false,⟨Generation.fresh.image,faults⟩,hskip,?_,?_,?_⟩
      · exact .inr rfl
      · intro _ _; rfl
      · exact fun hf => ⟨⟨false,rfl⟩,hf⟩
  obtain ⟨result,next,hr,hnext,hok,hnofault⟩ := hrecover
  unfold Journal.openRoot
  simp only [hc,Bool.false_eq_true,if_false,Disk.performAll,if_neg (not_lt.mpr hlen),hr]
  cases result with
  | error e =>
    exact ⟨hnext,fun hf => absurd (hnofault hf).1 (by simp)⟩
  | ok b =>
    have hbytes := hok b rfl
    obtain ⟨bytes,left⟩ := next
    dsimp only at hbytes hnofault
    subst hbytes
    simp only [hempty,show ¬ 36 = 0 by decide,if_false,Disk.performAll,hfresh]
    refine ⟨hnext,fun hf => ?_⟩
    rw [(hnofault hf).2]
    rfl

end ResetCrash

theorem Journal.Holds.resetWrites_eq {j : Journal} {g : Generation} (h : j.Holds g)
    {segmentId : SegmentId} (hs : g.segmentId = some segmentId) :
    j.resetWrites = if j.config.maxJournalLen < j.fileEnd+resetMarkerLen then []
      else resetMarkerWrites j.fileEnd (g.marker segmentId) ++ finishCommittedReset := by
  have hfresh : g ≠ .fresh := fun hg => by rw [hg] at hs; cases hs
  rw [resetWrites,if_neg (fun he => hfresh (h.isEmpty_iff.mp he)),h.segmentId,hs]
  dsimp only
  rw [h.resetMarker_eq hfresh segmentId]
  split_ifs <;> rfl

/-- A reset performs these writes and no others. -/
theorem Journal.Holds.reset_file {j : Journal} {g : Generation} (h : j.Holds g)
    (hfaults : j.file.faults = []) (nextGeneration : ℕ) :
    (j.reset nextGeneration).2.1.file = ⟨applyAll j.resetWrites j.file.bytes,[]⟩ := by
  have hdisk : j.file = ⟨j.file.bytes,[]⟩ := by rw [← hfaults]
  have hhealthy : j.ensureHealthy = .ok () := by rw [ensureHealthy,h.healthy]; rfl
  rw [reset,hhealthy]
  dsimp only
  cases hs : g.segmentId with
  | none =>
    have hg : g = .fresh := Generation.ext hs (g.identified.mp hs)
    rw [if_pos (h.isEmpty_iff.mpr hg),resetWrites,if_pos (h.isEmpty_iff.mpr hg)]
    exact hdisk
  | some segmentId =>
    have hfresh : g ≠ .fresh := fun hg => by rw [hg] at hs; cases hs
    rw [if_neg (fun he => hfresh (h.isEmpty_iff.mp he)),h.resetWrites_eq hs,h.segmentId,hs]
    dsimp only
    rw [h.resetMarker_eq hfresh segmentId]
    split_ifs with hfull
    · exact hdisk
    · dsimp only
      rw [hdisk,performAll_of_no_faults]
      dsimp only
      rw [performAll_of_no_faults,applyAll_append]

/-- Part of a marker behind the frames: the old parts start up. -/
theorem Journal.Holds.startup_partial_marker {j : Journal} {g : Generation} (h : j.Holds g)
    {segmentId : SegmentId} (hs : g.segmentId = some segmentId)
    (hroom : j.fileEnd+resetMarkerLen ≤ j.config.maxJournalLen) (marker : ResetMarker) {k : ℕ}
    (hk : k < resetMarkerLen) (nextGeneration : ℕ) :
    startupBodies j.config (g.image ++ marker.encode.take k) nextGeneration = .ok g.bodies := by
  have hf : frameHeaderLen = 16 := rfl
  have hm : minPartLen = 44 := rfl
  have hr : resetMarkerLen = 32 := rfl
  have hc := h.config
  have hle := h.fits.len_lt hc
  have hend := h.fileEnd
  have hlen := marker.encode_length
  have hheader : g.header = ⟨.active segmentId.get,UInt64.ofNat (framesLen g.bodies)⟩ := by
    rw [Generation.header,hs]
  have hbody : (UInt64.ofNat (framesLen g.bodies)).toNat = framesLen g.bodies :=
    toNat_ofNat_of_le (by omega)
  have htotal : (g.image ++ marker.encode.take k).length =
      journalHeaderLen + framesLen g.bodies + k := by
    rw [List.length_append,g.image_length,List.length_take]
    omega
  rcases Nat.eq_zero_or_pos k with rfl | hpos
  · rw [List.take_zero,List.append_nil]
    exact g.startup_image h.fits hc nextGeneration
  · have hmarker : committedMarker (g.image ++ marker.encode.take k) j.config = none := by
      by_contra hsome
      obtain ⟨committed,hcommitted⟩ := Option.ne_none_iff_exists'.mp hsome
      have hslice := g.slice_header (marker.encode.take k)
      rw [hheader] at hslice
      have hcount := committedMarker_active hslice hcommitted
      omega
    exact startup_miscounted hc (marker.encode.take k) _ _ (by rw [← hheader]; rfl)
      (by rw [hbody]; omega) hmarker (by omega)
      (fun b hb => ⟨g.valid b hb,h.fits.partLen b hb⟩) h.fits.count
      (noFurtherFrame_of_short (by omega)) nextGeneration

/-- A crash inside a reset leaves part of the marker, or a file on which the reset is
committed. -/
theorem crashImage_reset (g : Generation) (marker : ResetMarker) (k : ℕ) :
    (k < resetMarkerLen → crashImage (resetMarkerWrites g.image.length marker ++
      finishCommittedReset) k g.image = g.image ++ marker.encode.take k) ∧
    (resetMarkerLen ≤ k → Resetting g marker (crashImage (resetMarkerWrites g.image.length marker ++
      finishCommittedReset) k g.image)) := by
  have hlen := marker.encode_length
  rw [resetMarkerWrites,List.cons_append,List.cons_append,List.nil_append]
  refine ⟨fun hk => ?_,fun hk => ?_⟩
  · rw [crashImage_writeAll_of_le _ _ (by omega),overwrite_end]
  · obtain ⟨m,rfl⟩ := Nat.exists_eq_add_of_le hk
    rw [← hlen,crashImage_writeAll_add,overwrite_end,crashImage_syncData]
    refine Resetting.crash (.inl ⟨0,?_⟩) m
    rw [mixedHeader_zero,Generation.image,List.append_assoc]

/-- A reset is atomic over crashes. Before its marker is complete the old parts start
up; from then on every open completes the reset, however often the completion is
interrupted in turn. -/
theorem reset_crash_atomic {j : Journal} {g : Generation} (h : j.Holds g) (hne : g.bodies ≠ [])
    (k nextGeneration : ℕ) :
    ((k < resetMarkerLen ∨ j.resetWrites = []) →
      startupBodies j.config (crashImage j.resetWrites k j.file.bytes) nextGeneration =
        .ok g.bodies) ∧
    (resetMarkerLen ≤ k → j.resetWrites ≠ [] → ∀ attempts : List (List (Option (ℕ × IoError))),
      ∃ again : Journal,
        Journal.openRoot j.config false ⟨attempts.foldl (fun file faults =>
            (Journal.openRoot j.config false ⟨file,faults⟩ (.ok ()) nextGeneration).2.1.bytes)
          (crashImage j.resetWrites k j.file.bytes),[]⟩ (.ok ()) nextGeneration =
            (.ok again,⟨JournalHeader.EMPTY.encode,[]⟩,nextGeneration+1) ∧
          again.file.bytes = JournalHeader.EMPTY.encode ∧ again.parts = [] ∧
          again.segmentId = none) := by
  obtain ⟨segmentId,hs⟩ : ∃ segmentId, g.segmentId = some segmentId :=
    Option.ne_none_iff_exists'.mp fun hn => hne (g.identified.mp hn)
  have hc := h.config
  have hend : j.fileEnd = g.image.length := by rw [h.fileEnd,g.image_length]
  have hold := g.startup_image h.fits hc nextGeneration
  obtain ⟨htorn,hcommitted⟩ := crashImage_reset g (g.marker segmentId) k
  rw [h.resetWrites_eq hs,h.file]
  split_ifs with hfull
  · exact ⟨fun _ => by rw [crashImage_nil,hold],fun _ hw => absurd rfl hw⟩
  · have hroom : g.image.length+resetMarkerLen ≤ j.config.maxJournalLen := by omega
    rw [hend]
    refine ⟨fun hk => ?_,fun hk _ attempts => ?_⟩
    · have hk : k < resetMarkerLen := hk.resolve_right (by simp [resetMarkerWrites])
      rw [htorn hk]
      exact h.startup_partial_marker hs (by omega) _ hk nextGeneration
    · have hfile : Resetting g (g.marker segmentId) (attempts.foldl (fun file faults =>
          (Journal.openRoot j.config false ⟨file,faults⟩ (.ok ()) nextGeneration).2.1.bytes)
          (crashImage (resetMarkerWrites g.image.length (g.marker segmentId) ++
            finishCommittedReset) k g.image)) := by
        have hstart := hcommitted hk
        generalize crashImage (resetMarkerWrites g.image.length (g.marker segmentId) ++
          finishCommittedReset) k g.image = file at hstart ⊢
        induction attempts generalizing file with
        | nil => exact hstart
        | cons faults attempts ih =>
          have hlen := hstart.length_le.2
          exact ih _ (hstart.openRoot h.fits hc hs (by omega) faults nextGeneration).1
      have hlen := hfile.length_le.2
      have hopen := (hfile.openRoot h.fits hc hs (by omega) [] nextGeneration).2 rfl
      rw [← Generation.fresh_image]
      exact ⟨_,hopen,rfl,rfl,rfl⟩

theorem sampleJournal_resetWrites : sampleJournal.resetWrites ≠ [] := by
  rw [sampleJournal_holds.resetWrites_eq rfl,if_neg (by decide)]
  simp [resetMarkerWrites]

/-- Twenty marker bytes, and the marker with eight header bytes followed by a completion
that fails after five more bytes. -/
theorem reset_crash_atomic_sample :
    startupBodies sampleJournal.config (crashImage sampleJournal.resetWrites 20
      sampleJournal.file.bytes) 8 = .ok sampleGeneration.bodies ∧
    ∃ again : Journal,
      Journal.openRoot sampleJournal.config false ⟨[[some (13,unexpectedEof)]].foldl
        (fun file faults =>
          (Journal.openRoot sampleJournal.config false ⟨file,faults⟩ (.ok ()) 8).2.1.bytes)
        (crashImage sampleJournal.resetWrites 40 sampleJournal.file.bytes),[]⟩ (.ok ()) 8 =
          (.ok again,⟨JournalHeader.EMPTY.encode,[]⟩,8+1) ∧
        again.file.bytes = JournalHeader.EMPTY.encode ∧ again.parts = [] ∧
        again.segmentId = none := by
  have hne : sampleGeneration.bodies ≠ [] := by simp [sampleGeneration,Generation.push]
  exact ⟨(reset_crash_atomic sampleJournal_holds hne 20 8).1 (.inl (by decide)),
    (reset_crash_atomic sampleJournal_holds hne 40 8).2 (by decide) sampleJournal_resetWrites _⟩

end PgKronika
