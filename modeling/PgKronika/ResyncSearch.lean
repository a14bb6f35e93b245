import PgKronika.PositionSearch
import PgKronika.RecoveryScan

/-! The chunked resynchronization against a search that knows no chunks: every magic of the damaged
range is tried in order, once, however the chunks cut it. -/
namespace PgKronika

open ByteCodec CheckedArith StateLogic PositionSearch

section Resync

variable {σ : Type} [ReadAt σ] {s : σ} {b : Bytes} {limits : RecoveryScanLimits} {scanEnd : ℕ}

/-- A complete valid frame starts here and ends by `scanEnd`. -/
def FrameBy (b : Bytes) (limits : RecoveryScanLimits) (scanEnd pos : ℕ) : Prop :=
  ∃ n, ValidFrame (b.take scanEnd) limits.journal pos n

def frameBy (b : Bytes) (limits : RecoveryScanLimits) (scanEnd pos : ℕ) : Bool :=
  (frameAt (b.take scanEnd) pos limits.journal).isValid

theorem frameBy_iff {pos : ℕ} : frameBy b limits scanEnd pos = true ↔ FrameBy b limits scanEnd pos := by
  rw [frameBy,FrameBy]
  cases hframe : frameAt (b.take scanEnd) pos limits.journal with
  | valid n => exact iff_of_true rfl ⟨n,frameAt_valid_iff.mp hframe⟩
  | torn =>
    refine iff_of_false (by simp [FrameCheck.isValid]) fun ⟨n,hn⟩ => ?_
    rw [frameAt_valid_iff.mpr hn] at hframe
    cases hframe
  | damaged stop =>
    refine iff_of_false (by simp [FrameCheck.isValid]) fun ⟨n,hn⟩ => ?_
    rw [frameAt_valid_iff.mpr hn] at hframe
    cases hframe

/-- The four magic bytes, with room for a frame header before `scanEnd`. -/
def MagicBy (b : Bytes) (scanEnd pos : ℕ) : Prop :=
  slice b pos frameMagic.length = frameMagic ∧ pos+frameHeaderLen ≤ scanEnd

instance : DecidablePred (MagicBy b scanEnd) :=
  fun _ => inferInstanceAs (Decidable (_ ∧ _))

/-- The body bytes that a candidate announces and that are read to validate it. -/
def candidateBody (b : Bytes) (limits : RecoveryScanLimits) (scanEnd pos : ℕ) : ℕ :=
  match FrameHeader.decode (slice b pos frameHeaderLen) with
  | .error _ => 0
  | .ok header =>
    if limits.journal.maxPartLen < header.partLen ∨
        scanEnd - (pos+frameHeaderLen) < header.partLen.toNat then 0
    else header.partLen.toNat

/-- The bytes that validating one candidate takes. -/
def candidateCost (b : Bytes) (limits : RecoveryScanLimits) (scanEnd pos : ℕ) : ℕ :=
  frameHeaderLen + candidateBody b limits scanEnd pos

/-- The work after these positions were tried. -/
def CandidateWork.after (work : CandidateWork) (b : Bytes) (limits : RecoveryScanLimits)
    (scanEnd : ℕ) (tries : List ℕ) : CandidateWork :=
  ⟨work.headers + tries.length,
    work.bytes + (tries.map (candidateCost b limits scanEnd)).sum⟩

def CandidateWork.Within (work : CandidateWork) (limits : RecoveryScanLimits) : Prop :=
  work.headers ≤ limits.maxCandidates ∧ work.bytes ≤ limits.maxCandidateBytes.toNat

theorem CandidateWork.after_nil (work : CandidateWork) :
    work.after b limits scanEnd [] = work := rfl

theorem CandidateWork.after_append (work : CandidateWork) (xs ys : List ℕ) :
    work.after b limits scanEnd (xs ++ ys) =
      (work.after b limits scanEnd xs).after b limits scanEnd ys := by
  simp [CandidateWork.after,Nat.add_assoc]

theorem CandidateWork.after_cons (work : CandidateWork) (pos : ℕ) (ys : List ℕ) :
    work.after b limits scanEnd (pos::ys) =
      (work.after b limits scanEnd [pos]).after b limits scanEnd ys :=
  CandidateWork.after_append work [pos] ys

/-- Work only grows, so a search within its limits was within them at every step. -/
theorem CandidateWork.Within.before {work : CandidateWork} {tries : List ℕ}
    (h : (work.after b limits scanEnd tries).Within limits) : work.Within limits :=
  ⟨(Nat.le_add_right _ _).trans h.1,(Nat.le_add_right _ _).trans h.2⟩

theorem frameBy_eq (hend : scanEnd ≤ b.length) {pos : ℕ} (hfit : pos+frameHeaderLen ≤ scanEnd) :
    frameBy b limits scanEnd pos =
      match FrameHeader.decode (slice b pos frameHeaderLen) with
      | .error _ => false
      | .ok header =>
        if limits.journal.maxPartLen < header.partLen then false
        else if scanEnd - (pos+frameHeaderLen) < header.partLen.toNat then false
        else (validatePart (slice b (pos+frameHeaderLen) header.partLen.toNat)).toOption.isSome := by
  have htake : (b.take scanEnd).length = scanEnd := by
    rw [List.length_take]
    omega
  rw [frameBy,frameAt]
  dsimp only
  rw [htake,if_neg (by omega),slice_take hfit]
  cases FrameHeader.decode (slice b pos frameHeaderLen) with
  | error e => rfl
  | ok header =>
    dsimp only
    rw [Nat.sub_sub]
    split_ifs with hlong hbody
    · rfl
    · rfl
    · rw [slice_take (by omega)]
      cases validatePart (slice b (pos+frameHeaderLen) header.partLen.toNat) <;> rfl

/-- What the check of one candidate finds, within the limits. -/
theorem checkRecoveryCandidate_eq (hread : ReadsPrefix s b) (hend : scanEnd ≤ b.length)
    (hlen : b.length ≤ u64Max) {candAt : ℕ} (hfit : candAt+frameHeaderLen ≤ scanEnd)
    {work : CandidateWork} (hwork : (work.after b limits scanEnd [candAt]).Within limits) :
    checkRecoveryCandidate candAt scanEnd limits work s =
      .ok ((if frameBy b limits scanEnd candAt then .valid else .invalid,
        work.after b limits scanEnd [candAt]),s) := by
  have hmax : limits.maxCandidateBytes.toNat ≤ u64Max := Nat.le_pred_of_lt limits.maxCandidateBytes.toNat_lt
  obtain ⟨hheaders,hbytes⟩ := hwork
  have hencoded : ReadAt.readExactAt candAt frameHeaderLen s = .ok (slice b candAt frameHeaderLen,s) :=
    hread (by omega)
  have hby := @frameBy_eq b limits scanEnd hend candAt hfit
  simp only [CandidateWork.after,candidateCost,List.length_singleton,List.map_cons,List.map_nil,
    List.sum_singleton,candidateBody] at hheaders hbytes ⊢
  rw [checkRecoveryCandidate,checkedAdd_of_le (by omega)]
  dsimp only
  rw [if_neg (by omega),if_neg (by omega),checkedAdd_of_le (by omega)]
  dsimp only
  rw [if_neg (by omega),bind_apply_ok (mapError_apply_ok hencoded)]
  cases hdecode : FrameHeader.decode (slice b candAt frameHeaderLen) with
  | error e =>
    rw [hdecode] at hby
    rw [hby]
    rfl
  | ok header =>
    rw [hdecode] at hby hbytes
    dsimp only at hby hbytes ⊢
    by_cases hlong : limits.journal.maxPartLen < header.partLen
    · rw [if_pos hlong] at hby
      rw [hby,if_pos hlong,if_pos (Or.inl hlong)]
      rfl
    · rw [if_neg hlong] at hby ⊢
      by_cases hbody : scanEnd - (candAt+frameHeaderLen) < header.partLen.toNat
      · rw [if_pos hbody] at hby
        rw [hby,if_pos hbody,if_pos (Or.inr hbody)]
        rfl
      · have hbodyRead : ReadAt.readExactAt (candAt+frameHeaderLen) header.partLen.toNat s =
            .ok (slice b (candAt+frameHeaderLen) header.partLen.toNat,s) := hread (by omega)
        have hneither : ¬(limits.journal.maxPartLen < header.partLen ∨
            scanEnd - (candAt+frameHeaderLen) < header.partLen.toNat) := by simp [hlong,hbody]
        rw [if_neg hneither] at hbytes ⊢
        rw [if_neg hbody] at hby ⊢
        rw [checkedAdd_of_le (by omega)]
        dsimp only
        rw [if_neg (by omega),bind_apply_ok (mapError_apply_ok hbodyRead),hby,Nat.add_assoc]
        rfl

/-- The candidates of a stretch of the damaged range. -/
def candidates (b : Bytes) (scanEnd lo hi : ℕ) : List ℕ := positions (MagicBy b scanEnd) lo hi

theorem slice_chunk {chunk : Bytes} {start searchAt j len : ℕ}
    (hchunk : chunk = slice b start chunk.length) (h : searchAt+j+len ≤ chunk.length) :
    slice (chunk.drop searchAt) j len = slice b (start+searchAt+j) len := by
  conv_lhs => rw [hchunk]
  rw [slice,List.drop_drop,← slice,slice_slice h,Nat.add_assoc]

/-- A magic that a chunk shows is a magic of the source, with all its bytes in the chunk. -/
theorem findMagic_chunk {chunk : Bytes} {start searchAt relative : ℕ}
    (hchunk : chunk = slice b start chunk.length) (h : findMagic (chunk.drop searchAt) = some relative) :
    searchAt+relative+4 ≤ chunk.length ∧ slice b (start+searchAt+relative) 4 = frameMagic ∧
      ∀ pos, start+searchAt ≤ pos → pos < start+searchAt+relative → slice b pos 4 ≠ frameMagic := by
  obtain ⟨hmagic,hmin⟩ := findMagic_some h
  have hlen := congrArg List.length hmagic
  rw [slice_length,List.length_drop,show frameMagic.length = 4 from rfl] at hlen
  have hfit : searchAt+relative+4 ≤ chunk.length := by omega
  refine ⟨hfit,by rw [← slice_chunk hchunk hfit,hmagic],fun pos hlo hhi => ?_⟩
  have hnot := hmin (pos-(start+searchAt)) (by omega)
  rwa [slice_chunk hchunk (by omega),Nat.add_sub_cancel' hlo] at hnot

theorem findMagic_chunk_none {chunk : Bytes} {start searchAt pos : ℕ}
    (hchunk : chunk = slice b start chunk.length) (h : findMagic (chunk.drop searchAt) = none)
    (hlo : start+searchAt ≤ pos) (hhi : pos+4 ≤ start+chunk.length) : slice b pos 4 ≠ frameMagic := by
  have hnot := findMagic_none h (pos-(start+searchAt))
  rwa [slice_chunk hchunk (by omega),Nat.add_sub_cancel' hlo] at hnot

/-- One chunk is searched as the stretch of positions whose magic it holds in full. -/
theorem searchChunk_eq (hread : ReadsPrefix s b) (hend : scanEnd ≤ b.length)
    (hlen : b.length ≤ u64Max) {chunk : Bytes} {searchStart start fuel searchAt : ℕ}
    (hstart : searchStart ≤ start) (hchunk : chunk = slice b start chunk.length)
    (hfuel : chunk.length < searchAt + fuel) {work : CandidateWork}
    (hwork : (work.after b limits scanEnd (tried (frameBy b limits scanEnd)
      (candidates b scanEnd (start+searchAt) (start+chunk.length-3)))).Within limits) :
    searchChunk limits searchStart scanEnd chunk start fuel searchAt work s =
      .ok ((((candidates b scanEnd (start+searchAt) (start+chunk.length-3)).find?
          (frameBy b limits scanEnd)).map .found,
        work.after b limits scanEnd (tried (frameBy b limits scanEnd)
          (candidates b scanEnd (start+searchAt) (start+chunk.length-3)))),s) := by
  have hm : frameMagic.length = 4 := rfl
  induction fuel generalizing searchAt work with
  | zero =>
    have hnone : candidates b scanEnd (start+searchAt) (start+chunk.length-3) = [] :=
      positions_eq_nil fun n hlo hhi => by omega
    rw [hnone]
    rfl
  | succ fuel ih =>
    rw [searchChunk]
    by_cases hroom : searchAt + frameMagic.length ≤ chunk.length
    · rw [if_pos hroom]
      cases hfind : findMagic (chunk.drop searchAt) with
      | none =>
        have hnone : candidates b scanEnd (start+searchAt) (start+chunk.length-3) = [] :=
          positions_eq_nil fun n hlo hhi hn =>
            findMagic_chunk_none hchunk hfind hlo (by omega) hn.1
        rw [hnone]
        rfl
      | some relative =>
        obtain ⟨hfit,hmagic,hbefore⟩ := findMagic_chunk hchunk hfind
        have hsplit : candidates b scanEnd (start+searchAt) (start+chunk.length-3) =
            (if MagicBy b scanEnd (start+searchAt+relative) then [start+searchAt+relative] else []) ++
              candidates b scanEnd (start+searchAt+relative+1) (start+chunk.length-3) :=
          positions_from (Nat.le_add_right _ _) (by omega) fun m hlo hhi hn => hbefore m hlo hhi hn.1
        have hnext : start + (searchAt+relative) = start+searchAt+relative := by omega
        have hrest := @ih (searchAt+relative+1)
        rw [show start + (searchAt+relative+1) = start+searchAt+relative+1 by omega] at hrest
        dsimp only
        rw [hsplit] at hwork ⊢
        rw [hnext]
        by_cases hby : start+searchAt+relative+frameHeaderLen ≤ scanEnd
        · rw [if_pos ⟨by omega,hby⟩]
          rw [if_pos (show MagicBy b scanEnd (start+searchAt+relative) from ⟨hmagic,hby⟩),
            List.singleton_append] at hwork ⊢
          rw [List.find?_cons]
          cases hok : frameBy b limits scanEnd (start+searchAt+relative) with
          | true =>
            rw [tried,if_pos hok] at hwork ⊢
            rw [bind_apply_ok (checkRecoveryCandidate_eq hread hend hlen hby hwork),if_pos hok]
            rfl
          | false =>
            rw [tried,if_neg (by simp [hok]),CandidateWork.after_cons] at hwork ⊢
            rw [bind_apply_ok (checkRecoveryCandidate_eq hread hend hlen hby hwork.before),
              if_neg (by simp [hok])]
            exact hrest (by omega) hwork
        · rw [if_neg fun h => hby h.2]
          rw [if_neg (fun h : MagicBy b scanEnd (start+searchAt+relative) => hby h.2),
            List.nil_append] at hwork ⊢
          exact hrest (by omega) hwork
    · have hnone : candidates b scanEnd (start+searchAt) (start+chunk.length-3) = [] :=
        positions_eq_nil fun n hlo hhi => by omega
      rw [if_neg hroom,hnone]
      rfl

/-- What the search of a stretch comes to. -/
def searched (b : Bytes) (limits : RecoveryScanLimits) (scanEnd lo : ℕ) : StreamingResync :=
  ((candidates b scanEnd lo scanEnd).find? (frameBy b limits scanEnd)).elim (.noCandidate scanEnd) .found

theorem slice_drop (b : Bytes) (offset len k : ℕ) :
    (slice b offset len).drop k = slice b (offset+k) (len-k) := by
  rw [slice,slice,List.drop_take,List.drop_drop]

/-- The carried bytes make the next chunk start where the last one stopped trying. -/
theorem searchChunks_eq (hread : ReadsPrefix s b) (hend : scanEnd ≤ b.length)
    (hlen : b.length ≤ u64Max) {carry : Bytes} {searchStart start fuel : ℕ}
    (hstart : searchStart ≤ start) (hcarry : carry = slice b start carry.length)
    (hshort : carry.length ≤ 3) (hwithin : start+carry.length ≤ scanEnd)
    (hfuel : scanEnd < start+carry.length + fuel) {work : CandidateWork}
    (hwork : (work.after b limits scanEnd (tried (frameBy b limits scanEnd)
      (candidates b scanEnd start scanEnd))).Within limits) :
    searchChunks limits searchStart scanEnd fuel (start+carry.length) carry work s =
      .ok ((searched b limits scanEnd start,work.after b limits scanEnd
        (tried (frameBy b limits scanEnd) (candidates b scanEnd start scanEnd))),s) := by
  have hfh : frameHeaderLen = 16 := rfl
  have hm : frameMagic.length - 1 = 3 := rfl
  have hchunkLen : recoveryScanChunkLen = 65536 := rfl
  induction fuel generalizing start carry work with
  | zero => omega
  | succ fuel ih =>
    rw [searchChunks]
    by_cases hdone : scanEnd ≤ start+carry.length
    · have hnone : candidates b scanEnd start scanEnd = [] := positions_eq_nil fun n hlo hhi hn => by
        have hroom := hn.2
        omega
      rw [if_pos hdone,searched,hnone]
      rfl
    · rw [if_neg hdone]
      dsimp only
      generalize hreadLen : min (scanEnd - (start+carry.length)) recoveryScanChunkLen = readLen
      have hdata : ReadAt.readExactAt (start+carry.length) readLen s =
          .ok (slice b (start+carry.length) readLen,s) := hread (by omega)
      rw [bind_apply_ok (mapError_apply_ok hdata),Nat.add_sub_cancel]
      have hchunk : carry ++ slice b (start+carry.length) readLen =
          slice b start (carry.length+readLen) := by
        rw [slice_split,← hcarry]
      have hchunkSize : (slice b start (carry.length+readLen)).length = carry.length+readLen :=
        slice_length_of_le (by omega)
      rw [hchunk]
      generalize hbytes : slice b start (carry.length+readLen) = chunk at hchunkSize ⊢
      rw [← hchunkSize] at hbytes
      -- every magic in the chunk is tried before the position that the carry starts at
      obtain ⟨mid,hmid⟩ : ∃ mid, mid = start + (chunk.length - min chunk.length 3) := ⟨_,rfl⟩
      have hcut : candidates b scanEnd (start+0) (start+chunk.length-3) =
          candidates b scanEnd start mid := by
        rcases Nat.lt_or_ge chunk.length 3 with hlt | hge
        · rw [hmid,min_eq_left (by omega),Nat.sub_self]
          exact (positions_eq_nil fun n hlo hhi => by omega).trans positions_self.symm
        · rw [hmid,min_eq_right hge,Nat.add_sub_assoc hge]
          rfl
      have hjoin : candidates b scanEnd start mid ++ candidates b scanEnd mid scanEnd =
          candidates b scanEnd start scanEnd := positions_append (by omega) (by omega)
      have hsearch := @searchChunk_eq _ _ s b limits scanEnd hread hend hlen chunk searchStart start
        (chunk.length+1) 0 hstart hbytes.symm (by omega) work
      rw [hcut] at hsearch
      rw [searched,← hjoin,List.find?_append]
      rw [← hjoin] at hwork
      cases hfound : (candidates b scanEnd start mid).find? (frameBy b limits scanEnd) with
      | some found =>
        rw [tried_append_of_some hfound] at hwork ⊢
        rw [bind_apply_ok (hsearch hwork),hfound]
        rfl
      | none =>
        rw [tried_append_of_none hfound,CandidateWork.after_append] at hwork ⊢
        rw [tried_of_none hfound] at hsearch
        rw [bind_apply_ok (hsearch hwork.before),hfound]
        have hkept : chunk.drop (chunk.length - min chunk.length 3) =
            slice b mid (min chunk.length 3) := by
          rw [← hbytes,slice_drop,hbytes,hmid,Nat.sub_sub_self (min_le_left _ _)]
        have hkeptLen : (slice b mid (min chunk.length 3)).length = min chunk.length 3 :=
          slice_length_of_le (by omega)
        have hnext : start+carry.length+readLen = mid + (slice b mid (min chunk.length 3)).length := by
          omega
        dsimp only [Option.map_none]
        rw [hm,hkept,hnext]
        exact ih (by omega) (by rw [hkeptLen]) (by omega) (by omega) (by omega) hwork

/-- Where the search for a magic begins. -/
def searchFrom (damagedAt : ℕ) : Option ℕ → ℕ
  | none => damagedAt+1
  | some boundary => boundary+1

/-- Cutting the search off at `scanEnd` loses no candidate. -/
theorem candidates_searchStart (damagedAt : ℕ) (impliedEnd : Option ℕ) (hend : scanEnd ≤ u64Max) :
    candidates b scanEnd (resyncSearchStart damagedAt scanEnd impliedEnd) scanEnd =
      candidates b scanEnd (searchFrom damagedAt impliedEnd) scanEnd := by
  have hcut : ∀ lo, candidates b scanEnd (min lo scanEnd) scanEnd = candidates b scanEnd lo scanEnd := by
    intro lo
    rcases Nat.le_total lo scanEnd with hle | hge
    · rw [min_eq_left hle]
    · rw [min_eq_right hge,candidates,positions_self]
      exact (positions_eq_nil fun n hlo hhi => by omega).symm
  cases impliedEnd with
  | none =>
    rw [resyncSearchStart,searchFrom,hcut,saturatingAdd]
    rcases Nat.le_total (damagedAt+1) u64Max with hle | hge
    · rw [min_eq_left hle]
    · rw [min_eq_right hge,← hcut,← hcut (damagedAt+1),min_eq_right hend,min_eq_right (hend.trans hge)]
  | some boundary =>
    rw [resyncSearchStart,searchFrom,hcut,checkedAdd]
    split_ifs with hle
    · rfl
    · rw [Option.getD_none,← hcut (boundary+1),min_eq_right (by omega)]

/-- The positions worth trying: the implied boundary when a header fits there, then the magics behind
it. -/
def resyncCandidates (b : Bytes) (damagedAt scanEnd : ℕ) (impliedEnd : Option ℕ) : List ℕ :=
  (impliedEnd.filter fun boundary => boundary+frameHeaderLen ≤ scanEnd).toList ++
    candidates b scanEnd (searchFrom damagedAt impliedEnd) scanEnd

/-- The positions that are tried: none behind the first valid frame. -/
def resyncTries (b : Bytes) (limits : RecoveryScanLimits) (damagedAt scanEnd : ℕ)
    (impliedEnd : Option ℕ) : List ℕ :=
  tried (frameBy b limits scanEnd) (resyncCandidates b damagedAt scanEnd impliedEnd)

theorem boundary_fits (hend : scanEnd ≤ u64Max) (boundary : ℕ) :
    ((checkedAdd boundary frameHeaderLen).any fun headerEnd => headerEnd ≤ scanEnd) =
      decide (boundary+frameHeaderLen ≤ scanEnd) := by
  rw [checkedAdd]
  split_ifs with hle
  · rfl
  · rw [Option.any_none,eq_comm,decide_eq_false_iff_not]
    omega

/-- The chunked search finds what a search of all the candidates finds, and tries as many. -/
theorem streamingResync_eq (hread : ReadsPrefix s b) (hend : scanEnd ≤ b.length)
    (hlen : b.length ≤ u64Max) {damagedAt : ℕ} {impliedEnd : Option ℕ} {work : CandidateWork}
    (hwork : (work.after b limits scanEnd
      (resyncTries b limits damagedAt scanEnd impliedEnd)).Within limits) :
    streamingResync damagedAt scanEnd impliedEnd limits work true s =
      .ok ((((resyncCandidates b damagedAt scanEnd impliedEnd).find? (frameBy b limits scanEnd)).elim
          (.noCandidate scanEnd) .found,
        work.after b limits scanEnd (resyncTries b limits damagedAt scanEnd impliedEnd)),s) := by
  have hends : scanEnd ≤ u64Max := hend.trans hlen
  have hstart : resyncSearchStart damagedAt scanEnd impliedEnd ≤ scanEnd := by
    cases impliedEnd <;> exact min_le_right _ _
  have hsearch := fun (work : CandidateWork) => @searchChunks_eq _ _ s b limits scanEnd hread hend hlen []
    (resyncSearchStart damagedAt scanEnd impliedEnd) _ _ (le_refl _) rfl (Nat.zero_le _) hstart
    (show scanEnd < _ + (scanEnd - resyncSearchStart damagedAt scanEnd impliedEnd + 1) by
      rw [List.length_nil]
      omega) work
  simp only [searched,candidates_searchStart damagedAt impliedEnd hends] at hsearch
  rw [streamingResync,if_neg (by decide)]
  simp only [boundary_fits hends]
  rw [resyncTries,resyncCandidates] at *
  cases hboundary : impliedEnd.filter fun boundary => decide (boundary+frameHeaderLen ≤ scanEnd) with
  | none =>
    rw [hboundary] at hwork
    exact hsearch work hwork
  | some boundary =>
    rw [hboundary,Option.toList_some,List.singleton_append] at hwork
    have hfit : boundary+frameHeaderLen ≤ scanEnd := by
      simpa using (Option.filter_eq_some_iff.mp hboundary).2
    rw [Option.toList_some,List.singleton_append,List.find?_cons]
    cases hok : frameBy b limits scanEnd boundary with
    | true =>
      rw [tried,if_pos hok] at hwork ⊢
      dsimp only
      rw [bind_apply_ok (checkRecoveryCandidate_eq hread hend hlen hfit hwork),if_pos hok]
      rfl
    | false =>
      rw [tried,if_neg (by simp [hok]),CandidateWork.after_cons] at hwork ⊢
      dsimp only
      rw [bind_apply_ok (checkRecoveryCandidate_eq hread hend hlen hfit hwork.before),
        if_neg (by simp [hok])]
      exact hsearch _ hwork

theorem FrameBy.magic {pos : ℕ} (hend : scanEnd ≤ b.length) (h : FrameBy b limits scanEnd pos) :
    MagicBy b scanEnd pos := by
  have hfh : frameHeaderLen = 16 := rfl
  have hm : frameMagic.length = 4 := rfl
  obtain ⟨n,hn⟩ := h
  have hfits := hn.fits
  have hmagic := hn.magic
  rw [List.length_take,min_eq_left hend] at hfits
  rw [slice_take (by omega)] at hmagic
  exact ⟨hmagic,by omega⟩

/-- A valid frame at the implied boundary settles the search. -/
theorem find_resync_boundary (hend : scanEnd ≤ b.length) {damagedAt boundary : ℕ}
    (h : FrameBy b limits scanEnd boundary) :
    (resyncCandidates b damagedAt scanEnd (some boundary)).find? (frameBy b limits scanEnd) =
      some boundary := by
  have hfit := (h.magic hend).2
  rw [resyncCandidates,Option.filter_some,if_pos (by simpa using hfit),Option.toList_some,
    List.singleton_append,List.find?_cons,frameBy_iff.2 h]

/-- Else the magics behind it do. -/
theorem find_resync_magic {damagedAt : ℕ} {impliedEnd : Option ℕ}
    (h : ∀ boundary, impliedEnd = some boundary → ¬ FrameBy b limits scanEnd boundary) :
    (resyncCandidates b damagedAt scanEnd impliedEnd).find? (frameBy b limits scanEnd) =
      (candidates b scanEnd (searchFrom damagedAt impliedEnd) scanEnd).find?
        (frameBy b limits scanEnd) := by
  rw [resyncCandidates,List.find?_append,List.find?_eq_none.mpr,Option.none_or]
  intro boundary hmem
  have hsome := Option.mem_toList.mp hmem
  exact fun hok => h boundary (Option.filter_eq_some_iff.mp hsome).1 (frameBy_iff.1 hok)

end Resync

/-- Resynchronization by chunks is a search of all the bytes: the implied boundary when a valid frame
starts there, else the first magic that begins one, each magic on the way tried once. -/
theorem streaming_resync_is_naive_search {σ : Type} [ReadAt σ] {s : σ} {b : Bytes} {scanEnd : ℕ}
    (hread : ReadsPrefix s b) (hend : scanEnd ≤ b.length) (hlen : b.length ≤ u64Max)
    (damagedAt : ℕ) (impliedEnd : Option ℕ) (limits : RecoveryScanLimits) (work : CandidateWork)
    (hwork : (work.after b limits scanEnd
      (resyncTries b limits damagedAt scanEnd impliedEnd)).Within limits) :
    ∃ outcome, streamingResync damagedAt scanEnd impliedEnd limits work true s =
        .ok ((outcome,work.after b limits scanEnd
          (resyncTries b limits damagedAt scanEnd impliedEnd)),s) ∧
      (∀ boundary, impliedEnd = some boundary → FrameBy b limits scanEnd boundary →
        outcome = .found boundary) ∧
      ((∀ boundary, impliedEnd = some boundary → ¬ FrameBy b limits scanEnd boundary) →
        (∀ first, IsLeast {pos | searchFrom damagedAt impliedEnd ≤ pos ∧
            slice b pos frameMagic.length = frameMagic ∧ FrameBy b limits scanEnd pos} first →
          outcome = .found first) ∧
        ((∀ pos, searchFrom damagedAt impliedEnd ≤ pos →
            slice b pos frameMagic.length = frameMagic → ¬ FrameBy b limits scanEnd pos) →
          outcome = .noCandidate scanEnd)) := by
  refine ⟨_,streamingResync_eq hread hend hlen hwork,?_,fun hnot => ⟨?_,?_⟩⟩
  · rintro boundary rfl hframe
    rw [find_resync_boundary hend hframe]
    rfl
  · rintro first ⟨⟨hfrom,-,hframe⟩,hleast⟩
    have hmagic := hframe.magic hend
    have hbefore : first < scanEnd := lt_of_lt_of_le (Nat.lt_add_of_pos_right (by decide)) hmagic.2
    rw [find_resync_magic hnot]
    cases hfind : (candidates b scanEnd (searchFrom damagedAt impliedEnd) scanEnd).find?
        (frameBy b limits scanEnd) with
    | none =>
      have hok := find_positions_none hfind hfrom hbefore hmagic
      rw [frameBy_iff.2 hframe] at hok
      cases hok
    | some found =>
      obtain ⟨⟨hfound,-,hmagicFound,hok⟩,hmin⟩ := find_positions_some hfind
      have hle := hmin ⟨hfrom,hbefore,hmagic,frameBy_iff.2 hframe⟩
      have hge := hleast ⟨hfound,hmagicFound.1,frameBy_iff.1 hok⟩
      rw [le_antisymm hle hge]
      rfl
  · intro hnone
    rw [find_resync_magic hnot,List.find?_eq_none.mpr]
    · rfl
    · intro pos hmem hok
      obtain ⟨hfrom,-,hmagic⟩ := mem_positions.mp hmem
      exact hnone pos hfrom hmagic.1 (frameBy_iff.1 hok)

theorem streaming_resync_is_naive_search_false_magic :
    ∃ outcome, streamingResync 0 20 none RecoveryScanLimits.default ⟨3,0⟩ true
        ([0,0] ++ frameMagic ++ List.replicate 14 0 : Bytes) =
      .ok ((outcome,(CandidateWork.mk 3 0).after ([0,0] ++ frameMagic ++ List.replicate 14 0)
          RecoveryScanLimits.default 20 (resyncTries ([0,0] ++ frameMagic ++ List.replicate 14 0)
            RecoveryScanLimits.default 0 20 none)),[0,0] ++ frameMagic ++ List.replicate 14 0) ∧
      outcome = .noCandidate 20 := by
  obtain ⟨outcome,hrun,-,hsearch⟩ := streaming_resync_is_naive_search
    (readsAs_bytes ([0,0] ++ frameMagic ++ List.replicate 14 0)).read (show 20 ≤ _ by decide)
    (by decide) 0 none RecoveryScanLimits.default ⟨3,0⟩ ⟨by decide +kernel,by decide +kernel⟩
  refine ⟨outcome,hrun,(hsearch fun boundary h => by cases h).2 fun pos hfrom hmagic hframe => ?_⟩
  have hnone : ∀ pos ≤ 4, frameBy ([0,0] ++ frameMagic ++ List.replicate 14 0)
      RecoveryScanLimits.default 20 pos = false := by decide +kernel
  have hroom : pos+16 ≤ 20 := (hframe.magic (by decide)).2
  have hframeBy := frameBy_iff.2 hframe
  rw [hnone pos (by omega)] at hframeBy
  cases hframeBy

end PgKronika
