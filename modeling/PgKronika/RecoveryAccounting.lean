import PgKronika.RecoveryScan

/-! The recovery scan accounts for every byte of its source: what one frame, one
resumption and one round of the loop do, and what a whole report says. -/
namespace PgKronika

open ByteCodec CheckedArith StateLogic Tiling

structure RecoveryScanLimits.WithinCaps (limits : RecoveryScanLimits) : Prop where
  partBytes : 0 < limits.journal.maxPartLen.toNat ∧ limits.journal.maxPartLen.toNat ≤ maxPartLen.toNat
  scanBytes : 0 < limits.maxScanBytes.toNat ∧ limits.maxScanBytes.toNat ≤ maxJournalLen
  parts : 0 < limits.maxParts ∧ limits.maxParts ≤ maxJournalParts
  candidates : 0 < limits.maxCandidates ∧ limits.maxCandidates ≤ maxRecoveryCandidates
  candidateBytes : 0 < limits.maxCandidateBytes.toNat ∧
    limits.maxCandidateBytes.toNat ≤ maxJournalLen

theorem validateRecoveryLimit_of_pos {kind : RecoveryLimitKind} {value maximum : ℕ}
    (h : 0 < value ∧ value ≤ maximum) : validateRecoveryLimit kind value maximum = .ok () :=
  if_neg (by omega)

theorem RecoveryScanLimits.WithinCaps.validate {limits : RecoveryScanLimits}
    (h : limits.WithinCaps) : validateRecoveryLimits limits = .ok () := by
  rw [validateRecoveryLimits,validateRecoveryLimit_of_pos h.partBytes,
    validateRecoveryLimit_of_pos h.scanBytes,validateRecoveryLimit_of_pos h.parts,
    validateRecoveryLimit_of_pos h.candidates,validateRecoveryLimit_of_pos h.candidateBytes]
  rfl

theorem RecoveryScanLimits.default_withinCaps : RecoveryScanLimits.default.WithinCaps := by
  constructor <;> decide

/-- Errors that come from the source alone. -/
def ReadFailure (E : IoError → Prop) (e : RecoveryScanError) : Prop := ∃ io, e = .io io ∧ E io

/-- What the frame decision at `pos` guarantees. -/
def FrameOutcome (Content : ℕ → Bytes → Prop) (scanEnd pos : ℕ) : StreamingFrame → Prop
  | .valid n rows => pos+frameHeaderLen+n ≤ scanEnd ∧ ∃ body catalog,
      body.length = n ∧ Content (pos+frameHeaderLen) body ∧ validatePart body = .ok catalog ∧
        rows = catalog.rowTotal
  | .damaged reason impliedEnd _ => reason ≠ .workLimit ∧
      ∀ stop, impliedEnd = some stop → pos < stop

/-- What a search started at a damage guarantees: it resumes, or stops, inside. -/
def ResyncOutcome (scanEnd pos : ℕ) : StreamingResync → Prop
  | .found next => pos < next ∧ next < scanEnd
  | .noCandidate searchedTo => searchedTo = scanEnd
  | .candidateLimit searchedTo => pos < searchedTo ∧ searchedTo < scanEnd
  | .candidateByteLimit searchedTo => pos < searchedTo ∧ searchedTo < scanEnd

theorem candidate_outcome {candAt scanEnd pos : ℕ} {check : CandidateCheck}
    {outcome : StreamingResync} (hlt : pos < candAt) (hfit : candAt + frameHeaderLen ≤ scanEnd)
    (h : check.outcome candAt = some outcome) : ResyncOutcome scanEnd pos outcome := by
  have hfh : frameHeaderLen = 16 := rfl
  cases check <;> cases h
  · exact ⟨hlt,by omega⟩
  · exact ⟨hlt,by omega⟩
  · exact ⟨hlt,by omega⟩

section StableScan

variable {σ : Type} [ReadAt σ] {I : σ → Prop} {E : IoError → Prop} {Content : ℕ → Bytes → Prop}
variable {len : UInt64} (hs : StableSource σ I E Content len)
include hs

theorem StableSource.read_io {offset n : ℕ} (h : offset+n ≤ len.toNat) :
    Meets I (ReadFailure E) (mapError .io (ReadAt.readExactAt (σ := σ) offset n)) fun data =>
      data.length = n ∧ Content offset data :=
  (hs.read h).mapError fun e he => ⟨e,rfl,he⟩

theorem streamingFrameAt_meets {scanEnd pos : ℕ} (hend : scanEnd ≤ len.toNat)
    (limits : JournalLimits) :
    Meets I E (streamingFrameAt (σ := σ) scanEnd pos limits) (FrameOutcome Content scanEnd pos) := by
  have hfh : frameHeaderLen = 16 := rfl
  unfold streamingFrameAt
  split_ifs with hrem
  · exact .pure ⟨by simp,by simp⟩
  · refine (hs.read (by omega)).bind fun encoded _ => ?_
    cases hh : streamingHeader scanEnd pos limits encoded with
    | error frame =>
      refine .pure ?_
      unfold streamingHeader at hh
      split at hh
      · cases hh
        exact ⟨by simp,by simp⟩
      · rename_i header hd
        dsimp only at hh
        split_ifs at hh
        · cases hh
          refine ⟨by simp,?_⟩
          intro stop hstop
          obtain ⟨hadd,_⟩ := Option.filter_eq_some_iff.mp hstop
          obtain ⟨bodyAt,hb,hbody⟩ := Option.bind_eq_some_iff.mp hadd
          have h1 := (checkedAdd_eq_some.mp hb).1
          have h2 := (checkedAdd_eq_some.mp hbody).1
          omega
        · cases hh
          exact ⟨by simp,by simp⟩
    | ok n =>
      obtain ⟨_,_,_,_,hfit⟩ := streamingHeader_ok hh
      refine (hs.read (by omega)).bind fun body hbody => .pure ?_
      obtain ⟨hlen,hcontent⟩ := hbody
      unfold streamingBody
      cases hv : validatePart body with
      | error e => exact ⟨by simp,by simp; omega⟩
      | ok catalog =>
        simp only [validatePart_checkedRows hv]
        exact ⟨by omega,body,catalog,rfl,hcontent,hv,rfl⟩

theorem checkRecoveryCandidate_meets {candAt scanEnd : ℕ} (hend : scanEnd ≤ len.toNat)
    (limits : RecoveryScanLimits) (work : CandidateWork) :
    Meets I (ReadFailure E) (checkRecoveryCandidate (σ := σ) candAt scanEnd limits work)
      fun _ => True := by
  unfold checkRecoveryCandidate
  split
  · exact .pure trivial
  · rename_i headerEnd hhead
    obtain ⟨hadd,_⟩ := checkedAdd_eq_some.mp hhead
    split
    · exact .pure trivial
    · rename_i hle
      split
      · exact .pure trivial
      · split
        · exact .pure trivial
        · split
          · exact .pure trivial
          · refine (hs.read_io (by omega)).bind fun encoded _ => ?_
            split
            · exact .pure trivial
            · split
              · exact .pure trivial
              · split
                · exact .pure trivial
                · rename_i hbody
                  split
                  · exact .pure trivial
                  · split
                    · exact .pure trivial
                    · exact (hs.read_io (by omega)).bind fun body _ => .pure trivial

theorem searchChunk_meets {searchStart scanEnd pos fuel : ℕ} (hend : scanEnd ≤ len.toNat)
    (limits : RecoveryScanLimits) (hpos : pos < searchStart) (chunk : Bytes)
    (absoluteStart searchAt : ℕ) (work : CandidateWork) :
    Meets I (ReadFailure E)
      (searchChunk (σ := σ) limits searchStart scanEnd chunk absoluteStart fuel searchAt work)
      fun r => ∀ outcome, r.1 = some outcome → ResyncOutcome scanEnd pos outcome := by
  induction fuel generalizing searchAt work with
  | zero => exact .pure (by simp)
  | succ fuel ih =>
    unfold searchChunk
    split
    · split
      · exact .pure (by simp)
      · rename_i relative _
        dsimp only
        split
        · rename_i hfit
          refine (checkRecoveryCandidate_meets hs hend limits work).bind fun r _ => ?_
          cases hout : r.1.outcome (absoluteStart+(searchAt+relative)) with
          | none => exact ih _ r.2
          | some outcome =>
            dsimp only
            refine .pure ?_
            intro o ho
            cases ho
            exact candidate_outcome (by omega) hfit.2 hout
        · exact ih _ work
    · exact .pure (by simp)

theorem searchChunks_meets {searchStart scanEnd pos fuel : ℕ} (hend : scanEnd ≤ len.toNat)
    (limits : RecoveryScanLimits) (hpos : pos < searchStart) (chunkAt : ℕ) (carry : Bytes)
    (work : CandidateWork) :
    Meets I (ReadFailure E)
      (searchChunks (σ := σ) limits searchStart scanEnd fuel chunkAt carry work)
      fun r => ResyncOutcome scanEnd pos r.1 := by
  induction fuel generalizing chunkAt carry work with
  | zero => exact .pure rfl
  | succ fuel ih =>
    unfold searchChunks
    split
    · exact .pure rfl
    · dsimp only
      refine (hs.read_io (by omega)).bind fun data _ => ?_
      refine (searchChunk_meets hs hend limits hpos _ _ _ work).bind fun r hr => ?_
      obtain ⟨outcome,work'⟩ := r
      cases outcome with
      | none => exact ih _ _ _
      | some outcome => exact .pure (hr outcome rfl)

theorem streamingResync_meets {scanEnd pos : ℕ} {impliedEnd : Option ℕ} {canResync : Bool}
    (hend : scanEnd ≤ len.toNat) (hpos : pos < scanEnd)
    (himplied : ∀ stop, impliedEnd = some stop → pos < stop) (limits : RecoveryScanLimits)
    (work : CandidateWork) :
    Meets I (ReadFailure E)
      (streamingResync (σ := σ) pos scanEnd impliedEnd limits work canResync)
      fun r => ResyncOutcome scanEnd pos r.1 := by
  have hu : len.toNat ≤ u64Max := by have hlt := len.toNat_lt; rw [u64Max]; omega
  have hstart : pos < resyncSearchStart pos scanEnd impliedEnd := by
    unfold resyncSearchStart
    cases impliedEnd with
    | none => simp only [saturatingAdd]; omega
    | some boundary =>
      have hb := himplied boundary rfl
      simp only [checkedAdd]
      split_ifs <;> simp only [Option.getD_some,Option.getD_none] <;> omega
  unfold streamingResync
  split
  · exact .pure rfl
  · dsimp only
    split
    · exact searchChunks_meets hs hend limits hstart _ _ work
    · rename_i boundary hb
      obtain ⟨hb,hfit⟩ := Option.filter_eq_some_iff.mp hb
      refine (checkRecoveryCandidate_meets hs hend limits work).bind fun r _ => ?_
      cases hout : r.1.outcome boundary with
      | none => exact searchChunks_meets hs hend limits hstart _ _ r.2
      | some outcome =>
        dsimp only
        refine .pure (candidate_outcome (himplied boundary hb) ?_ hout)
        cases hadd : checkedAdd boundary frameHeaderLen with
        | none => rw [hadd] at hfit; cases hfit
        | some headerEnd =>
          rw [hadd,Option.any_some,decide_eq_true_eq] at hfit
          exact (checkedAdd_eq_some.mp hadd).1 ▸ hfit

end StableScan


/-- The bytes of a frame around its part. -/
def PartRef.frameRange (p : PartRef) : ℕ × ℕ := (p.offset - frameHeaderLen,p.offset+p.len)

def RecoveryDamageRegion.range (d : RecoveryDamageRegion) : ℕ × ℕ := (d.fromOffset,d.toOffset)

/-- The counters of a list of accepted parts, whose bodies are admitted by `Content`. -/
structure AcceptedParts (Content : ℕ → Bytes → Prop) (parts : List PartRef)
    (partBytes rows : ℕ) : Prop where
  behindHeader : ∀ p ∈ parts, frameHeaderLen ≤ p.offset
  partBytes_eq : partBytes = (parts.map PartRef.len).sum
  rows_eq : ∃ catalogs : List Catalog, List.Forall₂ (fun p c => ∃ body : Bytes,
    body.length = p.len ∧ Content p.offset body ∧ validatePart body = .ok c) parts catalogs ∧
    rows = (catalogs.map Catalog.rowTotal).sum

theorem AcceptedParts.nil (Content : ℕ → Bytes → Prop) : AcceptedParts Content [] 0 0 :=
  ⟨by simp,rfl,[],.nil,rfl⟩

theorem AcceptedParts.snoc {Content : ℕ → Bytes → Prop} {parts : List PartRef}
    {partBytes rows pos : ℕ} (h : AcceptedParts Content parts partBytes rows) {body : Bytes}
    {catalog : Catalog} (hc : Content (pos+frameHeaderLen) body)
    (hv : validatePart body = .ok catalog) :
    AcceptedParts Content (parts++[⟨pos+frameHeaderLen,body.length⟩]) (partBytes+body.length)
      (rows+catalog.rowTotal) := by
  obtain ⟨catalogs,hall,hrows⟩ := h.rows_eq
  refine ⟨?_,by simp [h.partBytes_eq],catalogs++[catalog],?_,by simp [hrows]⟩
  · intro p hp
    rcases List.mem_append.mp hp with hp | hp
    · exact h.behindHeader p hp
    · cases List.mem_singleton.mp hp
      exact Nat.le_add_left _ _
  · exact List.rel_append hall (.cons ⟨body,rfl,hc,hv⟩ .nil)

/-- Row counters are bounded by the bytes that hold the catalogs. -/
theorem AcceptedParts.rows_le {Content : ℕ → Bytes → Prop} {parts : List PartRef}
    {partBytes rows : ℕ} (h : AcceptedParts Content parts partBytes rows) :
    rows ≤ 2048*partBytes := by
  obtain ⟨catalogs,hall,hrows⟩ := h.rows_eq
  rw [hrows,h.partBytes_eq]
  clear hrows h
  induction hall with
  | nil => simp
  | cons hp _ ih =>
    obtain ⟨body,hlen,_,hv⟩ := hp
    have hle := (validatePart_rowTotal_le hv).1
    simp only [List.map_cons,List.sum_cons]
    omega

theorem AcceptedParts.frame_sum {Content : ℕ → Bytes → Prop} {parts : List PartRef}
    {partBytes rows : ℕ} (h : AcceptedParts Content parts partBytes rows) :
    ((parts.map PartRef.frameRange).map fun r => r.2 - r.1).sum =
      partBytes + frameHeaderLen*parts.length := by
  rw [h.partBytes_eq]
  have hb := h.behindHeader
  clear h
  induction parts with
  | nil => simp
  | cons p ps ih =>
    have hp := hb p (by simp)
    have hi := ih fun q hq => hb q (by simp [hq])
    simp only [List.map_cons,List.sum_cons,List.length_cons,PartRef.frameRange,mul_add,mul_one]
    omega

/-- Between two rounds of the scan loop, everything up to `pos` is accounted for. -/
structure RecoveryInv (Content : ℕ → Bytes → Prop) (startAt scanEnd : ℕ) (st : RecoveryState) :
    Prop where
  tiles : Tiles startAt (st.parts.map PartRef.frameRange)
    (st.damages.map RecoveryDamageRegion.range) st.pos
  accepted : AcceptedParts Content st.parts st.recoveredPartBytes st.recoveredRows
  pos_le : st.pos ≤ scanEnd
  noWorkLimit : ∀ d ∈ st.damages, d.reason ≠ .workLimit
  running : st.stop = .endOfSource

/-- After the loop, everything up to the physical end is accounted for, and a work
limit shows both in the last damage and in the stop reason. -/
structure RecoveryClosed (Content : ℕ → Bytes → Prop) (startAt scanEnd physicalLen : ℕ)
    (st : RecoveryState) : Prop where
  tiles : Tiles startAt (st.parts.map PartRef.frameRange)
    (st.damages.map RecoveryDamageRegion.range) physicalLen
  accepted : AcceptedParts Content st.parts st.recoveredPartBytes st.recoveredRows
  parts_le : ∀ p ∈ st.parts, p.offset+p.len ≤ scanEnd
  workLimit : ∃ seen, (∀ d ∈ seen, d.reason ≠ .workLimit) ∧
    ((st.damages = seen ∧ st.stop = .endOfSource) ∨
      ∃ fromOffset, st.damages = seen ++ [⟨fromOffset,physicalLen,.workLimit⟩] ∧
        st.stop ≠ .endOfSource)

namespace RecoveryInv

variable {Content : ℕ → Bytes → Prop} {startAt scanEnd physicalLen : ℕ} {st : RecoveryState}

theorem parts_le (h : RecoveryInv Content startAt scanEnd st) :
    ∀ p ∈ st.parts, p.offset+p.len ≤ scanEnd := by
  intro p hp
  exact le_trans (h.tiles.mem_left (List.mem_map_of_mem hp)).2.2 h.pos_le

theorem partBytes_le (h : RecoveryInv Content startAt scanEnd st) :
    startAt + st.recoveredPartBytes ≤ st.pos := by
  have hsum := h.tiles.sum_eq
  rw [h.accepted.frame_sum] at hsum
  omega

theorem accept (h : RecoveryInv Content startAt scanEnd st) {body : Bytes} {catalog : Catalog}
    (hfit : st.pos+frameHeaderLen+body.length ≤ scanEnd)
    (hc : Content (st.pos+frameHeaderLen) body) (hv : validatePart body = .ok catalog) :
    RecoveryInv Content startAt scanEnd { st with
      pos := st.pos+frameHeaderLen+body.length
      parts := st.parts ++ [⟨st.pos+frameHeaderLen,body.length⟩]
      recoveredPartBytes := st.recoveredPartBytes+body.length
      recoveredRows := st.recoveredRows+catalog.rowTotal } := by
  have hfh : 0 < frameHeaderLen := by decide
  refine ⟨?_,h.accepted.snoc hc hv,hfit,h.noWorkLimit,h.running⟩
  simp only [List.map_append,List.map_cons,List.map_nil,PartRef.frameRange,Nat.add_sub_cancel]
  exact h.tiles.snoc_left (by omega)

theorem resume (h : RecoveryInv Content startAt scanEnd st) {next : ℕ} {work : CandidateWork}
    {reason : RecoveryDamageReason} (hlt : st.pos < next) (hle : next ≤ scanEnd)
    (hr : reason ≠ .workLimit) :
    RecoveryInv Content startAt scanEnd { st with
      pos := next, work, damages := st.damages ++ [⟨st.pos,next,reason⟩] } := by
  refine ⟨?_,h.accepted,hle,?_,h.running⟩
  · simp only [List.map_append,List.map_cons,List.map_nil,RecoveryDamageRegion.range]
    exact h.tiles.snoc_right hlt
  · intro d hd
    rcases List.mem_append.mp hd with hd | hd
    · exact h.noWorkLimit d hd
    · cases List.mem_singleton.mp hd
      exact hr

/-- A limit met at a complete frame leaves the rest of the source unexamined. -/
theorem closeAt (h : RecoveryInv Content startAt scanEnd st) (hlt : st.pos < physicalLen)
    {stop : RecoveryScanStop} (hstop : stop ≠ .endOfSource) :
    RecoveryClosed Content startAt scanEnd physicalLen { st with
      damages := st.damages ++ [⟨st.pos,physicalLen,.workLimit⟩], stop } := by
  refine ⟨?_,h.accepted,h.parts_le,st.damages,h.noWorkLimit,.inr ⟨st.pos,rfl,hstop⟩⟩
  simp only [List.map_append,List.map_cons,List.map_nil,RecoveryDamageRegion.range]
  exact h.tiles.snoc_right hlt

/-- A search that stops names its damage up to where it looked. -/
theorem stopDamaged (h : RecoveryInv Content startAt scanEnd st) {work : CandidateWork}
    {searchedTo : ℕ} {reason : RecoveryDamageReason} {stop : RecoveryScanStop}
    (hlt : st.pos < searchedTo) (hle : searchedTo ≤ physicalLen) (hr : reason ≠ .workLimit)
    (hstop : stop = .endOfSource ↔ searchedTo = physicalLen) :
    RecoveryClosed Content startAt scanEnd physicalLen
      (RecoveryState.stopDamaged { st with work } searchedTo physicalLen reason stop) := by
  have hresumed := h.tiles.snoc_right hlt
  have hseen : ∀ d ∈ st.damages ++ [⟨st.pos,searchedTo,reason⟩], d.reason ≠ .workLimit := by
    intro d hd
    rcases List.mem_append.mp hd with hd | hd
    · exact h.noWorkLimit d hd
    · cases List.mem_singleton.mp hd
      exact hr
  unfold RecoveryState.stopDamaged pushStoppedDamage
  rw [min_eq_left hle]
  simp only [if_pos hlt]
  rcases Nat.lt_or_ge searchedTo physicalLen with hend | hend
  · simp only [if_pos hend]
    refine ⟨?_,h.accepted,h.parts_le,_,hseen,.inr ⟨searchedTo,rfl,?_⟩⟩
    · simp only [List.map_append,List.map_cons,List.map_nil,RecoveryDamageRegion.range]
      exact hresumed.snoc_right hend
    · intro he
      exact absurd (hstop.mp he) (by omega)
  · have he : searchedTo = physicalLen := by omega
    subst he
    simp only [lt_irrefl,if_false,List.append_nil]
    refine ⟨?_,h.accepted,h.parts_le,_,hseen,.inl ⟨rfl,hstop.mpr rfl⟩⟩
    simpa [RecoveryDamageRegion.range] using hresumed

end RecoveryInv

/-- Joining touching regions changes neither the tiling nor the reasons. -/
theorem coalesceFrom_tiles {last : RecoveryDamageRegion} {ds : List RecoveryDamageRegion}
    {x stop : ℕ} {as : List (ℕ × ℕ)}
    (h : Tiles x as ((last::ds).map RecoveryDamageRegion.range) stop) :
    Tiles x as ((coalesceFrom last ds).map RecoveryDamageRegion.range) stop := by
  induction ds generalizing last x as with
  | nil => exact h
  | cons d ds ih =>
    unfold coalesceFrom
    split_ifs with hjoin
    · apply ih
      simp only [List.map_cons,RecoveryDamageRegion.range,hjoin.1] at h ⊢
      exact h.join_right
    · exact h.congr_right fun y as' hrest => ih hrest

theorem coalesceFrom_reason {last : RecoveryDamageRegion} {ds : List RecoveryDamageRegion}
    {d : RecoveryDamageRegion} (hd : d ∈ coalesceFrom last ds) :
    ∃ d' ∈ last::ds, d'.reason = d.reason := by
  induction ds generalizing last with
  | nil => exact ⟨d,hd,rfl⟩
  | cons x xs ih =>
    unfold coalesceFrom at hd
    split_ifs at hd with hjoin
    · obtain ⟨d',hmem,hr⟩ := ih hd
      rcases List.mem_cons.mp hmem with rfl | hmem
      · exact ⟨last,by simp,hr⟩
      · exact ⟨d',by simp [hmem],hr⟩
    · rcases List.mem_cons.mp hd with rfl | hd
      · exact ⟨d,by simp,rfl⟩
      · obtain ⟨d',hmem,hr⟩ := ih hd
        exact ⟨d',List.mem_cons_of_mem _ hmem,hr⟩

/-- A region of a new reason stays on its own. -/
theorem coalesceFrom_snoc {last w : RecoveryDamageRegion} {ds : List RecoveryDamageRegion}
    (h : ∀ d ∈ last::ds, d.reason ≠ w.reason) :
    coalesceFrom last (ds++[w]) = coalesceFrom last ds ++ [w] := by
  induction ds generalizing last with
  | nil => simp [coalesceFrom,h last (by simp)]
  | cons d ds ih =>
    rw [List.cons_append,coalesceFrom,coalesceFrom]
    split_ifs with hjoin
    · apply ih
      intro x hx
      rcases List.mem_cons.mp hx with rfl | hx
      · exact h last (by simp)
      · exact h x (by simp [hx])
    · rw [ih fun x hx => h x (by simp [hx])]
      rfl

theorem coalesce_tiles {ds : List RecoveryDamageRegion} {x stop : ℕ} {as : List (ℕ × ℕ)}
    (h : Tiles x as (ds.map RecoveryDamageRegion.range) stop) :
    Tiles x as ((coalesceRecoveryDamages ds).map RecoveryDamageRegion.range) stop := by
  cases ds with
  | nil => exact h
  | cons d ds => exact coalesceFrom_tiles h

theorem coalesce_reason {ds : List RecoveryDamageRegion} {reason : RecoveryDamageReason}
    (h : ∀ d ∈ ds, d.reason ≠ reason) : ∀ d ∈ coalesceRecoveryDamages ds, d.reason ≠ reason := by
  intro d hd
  cases ds with
  | nil => cases hd
  | cons x xs =>
    obtain ⟨d',hmem,hr⟩ := coalesceFrom_reason hd
    exact hr ▸ h d' hmem

theorem coalesce_snoc {ds : List RecoveryDamageRegion} {w : RecoveryDamageRegion}
    (h : ∀ d ∈ ds, d.reason ≠ w.reason) :
    coalesceRecoveryDamages (ds++[w]) = coalesceRecoveryDamages ds ++ [w] := by
  cases ds with
  | nil => rfl
  | cons d ds => exact coalesceFrom_snoc h

/-- Every byte from `startAt` to the physical end is in exactly one accepted frame or
one discarded range, and the counters say so. -/
structure RecoveryAccounts (Content : ℕ → Bytes → Prop) (startAt physicalLen : ℕ)
    (limits : RecoveryScanLimits) (report : RecoveryScanReport) : Prop where
  physicalLen_eq : report.physicalLen = physicalLen
  frames_nonempty : ∀ p ∈ report.parts, frameHeaderLen ≤ p.offset ∧ p.frameRange.1 < p.frameRange.2
  damages_nonempty : ∀ d ∈ report.damages, d.fromOffset < d.toOffset
  frames_ascending : report.parts.Pairwise fun p q => p.frameRange.2 ≤ q.frameRange.1
  damages_ascending : report.damages.Pairwise fun d e => d.toOffset ≤ e.fromOffset
  disjoint : ∀ p ∈ report.parts, ∀ d ∈ report.damages,
    p.frameRange.2 ≤ d.fromOffset ∨ d.toOffset ≤ p.frameRange.1
  covers : ∀ x, ((∃ p ∈ report.parts, p.frameRange.1 ≤ x ∧ x < p.frameRange.2) ∨
    ∃ d ∈ report.damages, d.fromOffset ≤ x ∧ x < d.toOffset) ↔ startAt ≤ x ∧ x < physicalLen
  discardedBytes_eq :
    report.discardedBytes = (report.damages.map fun d => d.toOffset - d.fromOffset).sum
  discardedSuffixBytes_eq : partsEnd startAt report.parts ≤ physicalLen ∧
    report.discardedSuffixBytes = physicalLen - partsEnd startAt report.parts
  accepted : AcceptedParts Content report.parts report.recoveredPartBytes report.recoveredRows
  within_scan : ∀ p ∈ report.parts, p.offset+p.len ≤ startAt + limits.maxScanBytes.toNat
  workLimit_last : ∀ d ∈ report.damages, d.reason = .workLimit →
    report.damages.getLast? = some d ∧ d.toOffset = physicalLen
  stop_iff : report.stop = .endOfSource ↔ ∀ d ∈ report.damages, d.reason ≠ .workLimit

theorem RecoveryClosed.partsEnd_le {Content : ℕ → Bytes → Prop} {startAt scanEnd physicalLen : ℕ}
    {st : RecoveryState} (h : RecoveryClosed Content startAt scanEnd physicalLen st) :
    partsEnd startAt st.parts ≤ physicalLen := by
  unfold partsEnd
  cases hl : st.parts.getLast? with
  | none => exact h.tiles.le
  | some p =>
    exact (h.tiles.mem_left (List.mem_map_of_mem (List.mem_of_getLast? hl))).2.2

/-- The report of a closed scan. -/
theorem RecoveryClosed.accounts {Content : ℕ → Bytes → Prop} {startAt scanEnd physicalLen : ℕ}
    {limits : RecoveryScanLimits} {st : RecoveryState} {discarded : ℕ}
    (h : RecoveryClosed Content startAt scanEnd physicalLen st)
    (hcap : scanEnd ≤ startAt + limits.maxScanBytes.toNat)
    (hd : discarded = physicalLen - startAt -
      (st.recoveredPartBytes + frameHeaderLen*st.parts.length)) :
    RecoveryAccounts Content startAt physicalLen limits {
      parts := st.parts
      damages := coalesceRecoveryDamages st.damages
      physicalLen := physicalLen
      recoveredPartBytes := st.recoveredPartBytes
      recoveredRows := st.recoveredRows
      discardedBytes := discarded
      discardedSuffixBytes := physicalLen - partsEnd startAt st.parts
      candidateHeadersExamined := st.work.headers
      candidateValidationBytes := st.work.bytes
      stop := st.stop } := by
  have ht := coalesce_tiles h.tiles
  have hsum := ht.sum_eq
  rw [h.accepted.frame_sum,List.map_map] at hsum
  have hcov := ht.covers
  simp only [List.mem_map,exists_exists_and_eq_and] at hcov
  obtain ⟨seen,hseen,hend⟩ := h.workLimit
  have hplain := coalesce_reason hseen
  refine
    { physicalLen_eq := rfl
      frames_nonempty := fun p hp =>
        ⟨h.accepted.behindHeader p hp,(ht.mem_left (List.mem_map_of_mem hp)).2.1⟩
      damages_nonempty := fun d hmem => (ht.mem_right (List.mem_map_of_mem hmem)).2.1
      frames_ascending := List.pairwise_map.mp ht.pairwise_left
      damages_ascending := List.pairwise_map.mp ht.pairwise_right
      disjoint := fun p hp d hmem => ht.disjoint (List.mem_map_of_mem hp) (List.mem_map_of_mem hmem)
      covers := hcov
      discardedBytes_eq := ?_
      discardedSuffixBytes_eq := ⟨h.partsEnd_le,rfl⟩
      accepted := h.accepted
      within_scan := fun p hp => le_trans (h.parts_le p hp) hcap
      workLimit_last := ?_
      stop_iff := ?_ }
  · rw [hd]
    change physicalLen - startAt - _ = (List.map ((fun r : ℕ × ℕ => r.2 - r.1) ∘
      RecoveryDamageRegion.range) (coalesceRecoveryDamages st.damages)).sum
    omega
  · rcases hend with ⟨he,_⟩ | ⟨fromOffset,he,_⟩
    · dsimp only
      rw [he]
      exact fun d hmem hr => absurd hr (hplain d hmem)
    · dsimp only
      rw [he,coalesce_snoc hseen]
      intro d hmem hr
      rcases List.mem_append.mp hmem with hmem | hmem
      · exact absurd hr (hplain d hmem)
      · cases List.mem_singleton.mp hmem
        exact ⟨List.getLast?_concat,rfl⟩
  · rcases hend with ⟨he,hs⟩ | ⟨fromOffset,he,hs⟩
    · dsimp only
      rw [he]
      exact iff_of_true hs hplain
    · dsimp only
      rw [he,coalesce_snoc hseen]
      exact iff_of_false hs fun hall =>
        hall ⟨fromOffset,physicalLen,.workLimit⟩ (by simp) rfl

section StableReport

variable {σ : Type} [ReadAt σ] {I : σ → Prop} {E : IoError → Prop} {Content : ℕ → Bytes → Prop}
variable {len : UInt64} (hs : StableSource σ I E Content len)
include hs

/-- One run of the scan loop. -/
theorem recoverFrom_meets {limits : RecoveryScanLimits} (hlimits : limits.WithinCaps)
    {startAt scanEnd fuel : ℕ} (hend : scanEnd ≤ len.toNat)
    (hcap : scanEnd ≤ startAt + limits.maxScanBytes.toNat) {st : RecoveryState}
    (h : RecoveryInv Content startAt scanEnd st) (hfuel : scanEnd < st.pos + fuel) :
    Meets I (ReadFailure E) (recoverFrom (σ := σ) limits scanEnd len.toNat fuel st) fun st' =>
      (RecoveryInv Content startAt scanEnd st' ∧ st'.pos = scanEnd) ∨
        (RecoveryClosed Content startAt scanEnd len.toNat st' ∧ st'.pos < scanEnd) := by
  have hfh : frameHeaderLen = 16 := rfl
  have hcaps := hlimits.scanBytes.2
  have hmax : maxJournalLen = 1073741824 := rfl
  have hu : u64Max = 18446744073709551615 := rfl
  induction fuel generalizing st with
  | zero => exact absurd h.pos_le (by omega)
  | succ fuel ih =>
    unfold recoverFrom
    split
    · exact .pure (.inl ⟨h,le_antisymm h.pos_le ‹_›⟩)
    · rename_i hpos
      have hread : Meets I (ReadFailure E)
          (mapError .io (streamingFrameAt (σ := σ) scanEnd st.pos limits.journal))
          (FrameOutcome Content scanEnd st.pos) :=
        (streamingFrameAt_meets hs hend limits.journal).mapError fun e he => ⟨e,rfl,he⟩
      refine hread.bind fun frame hframe => ?_
      cases frame with
      | valid n rows =>
        obtain ⟨hfit,body,catalog,rfl,hc,hv,rfl⟩ := hframe
        dsimp only
        split
        · exact .pure (.inr ⟨h.closeAt (by omega) (by simp),by simpa using hpos⟩)
        · have hnext := h.accept hfit hc hv
          have hbytes := hnext.partBytes_le
          have hrows := hnext.accepted.rows_le
          dsimp only at hbytes hrows
          rw [checkedAdd_of_le (by omega),checkedAdd_of_le (by omega)]
          refine Meets.bind (.pure rfl) fun _ hb => ?_
          subst hb
          refine Meets.bind (.pure rfl) fun _ hr => ?_
          subst hr
          exact ih hnext (by dsimp only; omega)
      | damaged reason impliedEnd canResync =>
        obtain ⟨hreason,himplied⟩ := hframe
        dsimp only
        refine (streamingResync_meets hs hend (by omega) himplied limits st.work).bind fun r hr => ?_
        obtain ⟨outcome,work⟩ := r
        cases outcome with
        | found next =>
          obtain ⟨hlt,hle⟩ := hr
          exact ih (h.resume hlt hle.le hreason) (by dsimp only; omega)
        | noCandidate searchedTo =>
          have hto : searchedTo = scanEnd := hr
          subst hto
          refine .pure (.inr ⟨h.stopDamaged (by omega) hend hreason ?_,by simpa using hpos⟩)
          have hrun := h.running
          split_ifs with hlt
          · exact iff_of_false (by simp) (by omega)
          · exact iff_of_true hrun (by omega)
        | candidateLimit searchedTo =>
          obtain ⟨hlt,hle⟩ := hr
          exact .pure (.inr ⟨h.stopDamaged hlt (by omega) hreason
            (iff_of_false (by simp) (by omega)),by simpa using hpos⟩)
        | candidateByteLimit searchedTo =>
          obtain ⟨hlt,hle⟩ := hr
          exact .pure (.inr ⟨h.stopDamaged hlt (by omega) hreason
            (iff_of_false (by simp) (by omega)),by simpa using hpos⟩)

omit [ReadAt σ] hs in
theorem recoveryReport_meets {limits : RecoveryScanLimits} {startAt scanEnd physicalLen : ℕ}
    {st : RecoveryState} (hphys : physicalLen ≤ u64Max)
    (hcap : scanEnd ≤ startAt + limits.maxScanBytes.toNat)
    (h : RecoveryClosed Content startAt scanEnd physicalLen st) :
    Meets I (ReadFailure E) (recoveryReport (σ := σ) startAt physicalLen st)
      (RecoveryAccounts Content startAt physicalLen limits) := by
  have hsum := h.tiles.sum_eq
  rw [h.accepted.frame_sum] at hsum
  have hfh : frameHeaderLen = 16 := rfl
  have hcomm : st.parts.length*frameHeaderLen = frameHeaderLen*st.parts.length := mul_comm _ _
  have hparts := h.partsEnd_le
  have hlast : checkedPartsEnd startAt st.parts = some (partsEnd startAt st.parts) := by
    unfold checkedPartsEnd partsEnd at *
    cases hl : st.parts.getLast? with
    | none => rfl
    | some p =>
      rw [hl] at hparts
      exact checkedAdd_of_le (le_trans hparts hphys)
  unfold recoveryReport
  rw [checkedMul_of_le (by rw [hcomm]; omega),hcomm]
  refine Meets.bind (.pure rfl) fun _ hb => ?_
  subst hb
  rw [checkedAdd_of_le (by omega)]
  refine Meets.bind (.pure rfl) fun _ hb => ?_
  subst hb
  rw [checkedSub_of_le (by omega)]
  refine Meets.bind (.pure rfl) fun _ hb => ?_
  subst hb
  rw [hlast]
  refine Meets.bind (.pure rfl) fun _ hb => ?_
  subst hb
  rw [checkedSub_of_le hparts]
  refine Meets.bind (.pure rfl) fun _ hb => ?_
  subst hb
  exact .pure (h.accounts hcap rfl)

/-- Every report of the recovery scan tiles its source exactly, and a stable source
fails the scan only with errors of its own. -/
theorem recovery_scan_accounts {startAt : UInt64} {limits : RecoveryScanLimits}
    (hlimits : limits.WithinCaps) (hstart : startAt ≤ len) :
    Meets I (ReadFailure E) (scanJournalStreamingRecoveryFrom (σ := σ) startAt limits)
      (RecoveryAccounts Content startAt.toNat len.toNat limits) := by
  have hle := UInt64.le_iff_toNat_le.mp hstart
  have hu : len.toNat ≤ u64Max := by have hlt := len.toNat_lt; rw [u64Max]; omega
  unfold scanJournalStreamingRecoveryFrom
  rw [hlimits.validate]
  refine (hs.byteLen.mapError fun e he => ⟨e,rfl,he⟩).bind fun physicalLen hp => ?_
  subst hp
  rw [if_neg (UInt64.not_lt.mpr hstart)]
  generalize hse : min (saturatingAdd startAt.toNat limits.maxScanBytes.toNat) physicalLen.toNat =
    scanEnd
  have hend : scanEnd ≤ physicalLen.toNat := by omega
  have hcap : scanEnd ≤ startAt.toNat + limits.maxScanBytes.toNat := by
    rw [saturatingAdd] at hse; omega
  have hpos : startAt.toNat ≤ scanEnd := by rw [saturatingAdd] at hse; omega
  have hinit : RecoveryInv Content startAt.toNat scanEnd
      ⟨startAt.toNat,[],[],0,0,⟨0,0⟩,.endOfSource⟩ :=
    ⟨.nil _,.nil Content,hpos,by simp,rfl⟩
  dsimp only
  refine (recoverFrom_meets hs hlimits hend hcap hinit (by dsimp only; omega)).bind fun st hst => ?_
  have hclosed : RecoveryClosed Content startAt.toNat scanEnd physicalLen.toNat
      (st.closeScan limits scanEnd physicalLen.toNat) := by
    unfold RecoveryState.closeScan
    rcases hst with ⟨hinv,hat⟩ | ⟨hcl,hlt⟩
    · subst hat
      split_ifs with hshort
      · exact hinv.closeAt (by omega) (by simp)
      · have he : st.pos = physicalLen.toNat := by omega
        exact ⟨he ▸ hinv.tiles,hinv.accepted,hinv.parts_le,st.damages,hinv.noWorkLimit,
          .inl ⟨rfl,hinv.running⟩⟩
    · rwa [if_neg (by omega)]
  refine (recoveryReport_meets hu hcap hclosed).bind fun report hreport => ?_
  refine (hs.byteLen.mapError fun e he => ⟨e,rfl,he⟩).bind fun after ha => ?_
  subst ha
  rw [if_neg (by simp)]
  exact .pure hreport

end StableReport

/-- Three bytes of frame magic, scanned in memory under the default limits. -/
theorem recovery_scan_accounts_sample :
    Meets (· = ([0x50,0x47,0x4D] : Bytes)) (ReadFailure fun _ => False)
      (scanJournalStreamingRecoveryFrom 1 .default)
      (RecoveryAccounts (fun offset data => data = slice [0x50,0x47,0x4D] offset data.length)
        (1 : UInt64).toNat (UInt64.ofNat 3).toNat .default) :=
  recovery_scan_accounts ((readsAs_bytes [0x50,0x47,0x4D]).stable (by decide))
    RecoveryScanLimits.default_withinCaps (by decide)

end PgKronika
