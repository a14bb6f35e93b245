import PgKronika.JournalFormat
import PgKronika.PartFormat

/-! The frames of `active.parts`, the runs of valid frames every scanner follows,
and the diagnostic in-memory scanner. -/
namespace PgKronika

open ByteCodec

structure JournalLimits where
  maxPartLen : UInt64
  deriving DecidableEq

structure PartRef where
  offset : ℕ
  len : ℕ
  deriving DecidableEq

inductive DamageKind
  | tornTail
  | middle (resumedAt : ℕ)
  | quarantinedTail
  deriving DecidableEq

structure DamageRegion where
  fromOffset : ℕ
  kind : DamageKind
  deriving DecidableEq

structure ScanReport where
  parts : List PartRef
  damages : List DamageRegion
  validLen : ℕ
  deriving DecidableEq

inductive FrameCheck
  | valid (bodyLen : ℕ)
  | torn
  | damaged (impliedEnd : Option ℕ)
  deriving DecidableEq

def FrameCheck.isValid : FrameCheck → Bool
  | .valid _ => true
  | _ => false

def ScanReport.accept (report : ScanReport) (part : PartRef) : ScanReport :=
  { report with parts := report.parts ++ [part], validLen := part.offset+part.len }

def ScanReport.damage (report : ScanReport) (pos : ℕ) (kind : DamageKind) : ScanReport :=
  { report with damages := report.damages ++ [⟨pos,kind⟩] }

def frameAt (bytes : Bytes) (pos : ℕ) (limits : JournalLimits) : FrameCheck :=
  let rem := bytes.length - pos
  if rem < frameHeaderLen then .torn
  else
    match FrameHeader.decode (slice bytes pos frameHeaderLen) with
    | .error _ => .damaged none
    | .ok header =>
      if limits.maxPartLen < header.partLen then .damaged none
      else
        let bodyLen := header.partLen.toNat
        if rem - frameHeaderLen < bodyLen then .torn
        else
          match validatePart (slice bytes (pos+frameHeaderLen) bodyLen) with
          | .error _ => .damaged (some (pos+frameHeaderLen+bodyLen))
          | .ok _ => .valid bodyLen

/-- Position of the first frame magic. -/
def findMagic : Bytes → Option ℕ
  | [] => none
  | b::bs => if (b::bs).take 4 = frameMagic then some 0 else (findMagic bs).map (· + 1)

theorem findMagic_some {b : Bytes} {k : ℕ} (h : findMagic b = some k) :
    slice b k 4 = frameMagic ∧ ∀ j < k, slice b j 4 ≠ frameMagic := by
  induction b generalizing k with
  | nil => cases h
  | cons x xs ih =>
    unfold findMagic at h
    split_ifs at h with hx
    · cases h
      exact ⟨hx,by simp⟩
    · obtain ⟨k',hk,rfl⟩ := Option.map_eq_some_iff.mp h
      obtain ⟨hs,hmin⟩ := ih hk
      refine ⟨by simpa [slice] using hs,?_⟩
      rintro (_ | j) hj
      · exact hx
      · simpa [slice] using hmin j (by omega)

theorem findMagic_none {b : Bytes} (h : findMagic b = none) (j : ℕ) :
    slice b j 4 ≠ frameMagic := by
  induction b generalizing j with
  | nil => simp [slice,frameMagic]
  | cons x xs ih =>
    unfold findMagic at h
    split_ifs at h with hx
    cases j with
    | zero => exact hx
    | succ j => simpa [slice] using ih (by simpa using h) j

/-- Try every magic from `cand` on; `fuel` bounds the remaining bytes. -/
def resyncFrom (bytes : Bytes) (limits : JournalLimits) : ℕ → ℕ → Option ℕ
  | 0, _ => none
  | fuel+1, cand =>
    if cand + frameHeaderLen ≤ bytes.length then
      match findMagic (bytes.drop cand) with
      | none => none
      | some found =>
        match frameAt bytes (cand+found) limits with
        | .valid _ => some (cand+found)
        | _ => resyncFrom bytes limits fuel (cand+found+1)
    else none

/-- A complete frame at `pos`: an admitted header and a valid part of `n` bytes. -/
structure ValidFrame (bytes : Bytes) (limits : JournalLimits) (pos n : ℕ) : Prop where
  fits : pos+frameHeaderLen+n ≤ bytes.length
  header : ∃ h, FrameHeader.decode (slice bytes pos frameHeaderLen) = .ok h ∧
    h.partLen.toNat = n ∧ h.partLen ≤ limits.maxPartLen
  part : ValidPart (slice bytes (pos+frameHeaderLen) n)

theorem frameAt_valid_iff {bytes : Bytes} {limits : JournalLimits} {pos n : ℕ} :
    frameAt bytes pos limits = .valid n ↔ ValidFrame bytes limits pos n := by
  have hfh : frameHeaderLen = 16 := rfl
  constructor
  · intro h
    unfold frameAt at h
    dsimp only at h
    split_ifs at h with hrem
    split at h
    · cases h
    · rename_i header hd
      split_ifs at h with hmax hbody
      split at h
      · cases h
      · rename_i catalog hv
        cases h
        exact ⟨by omega,⟨header,hd,rfl,UInt64.not_lt.mp hmax⟩,⟨catalog,hv⟩⟩
  · rintro ⟨hfit,⟨header,hd,rfl,hle⟩,⟨catalog,hv⟩⟩
    unfold frameAt
    dsimp only
    rw [if_neg (by omega),hd]
    dsimp only
    rw [if_neg (UInt64.not_lt.mpr hle),if_neg (by omega),hv]

theorem frameAt_impliedEnd {bytes : Bytes} {limits : JournalLimits} {pos stop : ℕ}
    (h : frameAt bytes pos limits = .damaged (some stop)) : pos < stop := by
  have hfh : frameHeaderLen = 16 := rfl
  unfold frameAt at h
  dsimp only at h
  split_ifs at h
  split at h
  · cases h
  · split_ifs at h with hmax
    · cases h
    · split at h
      · cases h; omega
      · cases h

theorem ValidFrame.magic {bytes : Bytes} {limits : JournalLimits} {pos n : ℕ}
    (h : ValidFrame bytes limits pos n) : slice bytes pos 4 = frameMagic := by
  obtain ⟨header,hd,_⟩ := h.header
  have hm := FrameHeader.decode_ok_magic hd
  rwa [slice_slice (by decide),Nat.add_zero] at hm

/-- The search finds the first valid frame at or after `cand`. -/
theorem resyncFrom_some {bytes : Bytes} {limits : JournalLimits} {fuel cand next : ℕ}
    (h : resyncFrom bytes limits fuel cand = some next) :
    cand ≤ next ∧ ∃ n, ValidFrame bytes limits next n := by
  induction fuel generalizing cand with
  | zero => cases h
  | succ fuel ih =>
    unfold resyncFrom at h
    split_ifs at h with hfit
    split at h
    · cases h
    · split at h
      · rename_i n hv
        cases h
        exact ⟨by omega,n,frameAt_valid_iff.1 hv⟩
      · obtain ⟨hle,hn⟩ := ih h
        exact ⟨by omega,hn⟩

theorem resyncFrom_none {bytes : Bytes} {limits : JournalLimits} {fuel cand : ℕ}
    (hfuel : bytes.length < cand + fuel) (h : resyncFrom bytes limits fuel cand = none)
    {later n : ℕ} (hl : cand ≤ later) : ¬ ValidFrame bytes limits later n := by
  intro hv
  have hfit := hv.fits
  induction fuel generalizing cand with
  | zero => omega
  | succ fuel ih =>
    unfold resyncFrom at h
    rw [if_pos (by omega)] at h
    have hmagic : slice (bytes.drop cand) (later-cand) 4 = frameMagic := by
      rw [slice,List.drop_drop,Nat.add_sub_cancel' hl]
      exact hv.magic
    split at h
    · rename_i hnone
      exact findMagic_none hnone _ hmagic
    · rename_i found hfound
      have hmin : found ≤ later - cand := by
        by_contra hlt
        exact (findMagic_some hfound).2 _ (by omega) hmagic
      split at h
      · cases h
      · rename_i hnot
        rcases Nat.lt_or_ge (cand+found) later with hlt | hge
        · exact ih (by omega) h (by omega)
        · have he : cand+found = later := by omega
          rw [he] at hnot
          exact hnot n (frameAt_valid_iff.2 hv)

/-- The next valid frame after damage. -/
def resync (bytes : Bytes) (damagedAt : ℕ) (impliedEnd : Option ℕ) (limits : JournalLimits) :
    Option ℕ :=
  match impliedEnd with
  | some boundary =>
    if boundary < bytes.length ∧ (frameAt bytes boundary limits).isValid then some boundary
    else resyncFrom bytes limits (bytes.length+1) (damagedAt+1)
  | none => resyncFrom bytes limits (bytes.length+1) (damagedAt+1)

theorem resync_some {bytes : Bytes} {limits : JournalLimits} {damagedAt next : ℕ}
    {impliedEnd : Option ℕ} (himplied : ∀ stop, impliedEnd = some stop → damagedAt < stop)
    (h : resync bytes damagedAt impliedEnd limits = some next) : damagedAt < next := by
  unfold resync at h
  split at h
  · rename_i boundary
    split_ifs at h with hb
    · cases h
      exact himplied _ rfl
    · exact (resyncFrom_some h).1
  · exact (resyncFrom_some h).1

/-- No resumption means no later valid frame at all. -/
theorem resync_none_iff {bytes : Bytes} {limits : JournalLimits} {damagedAt : ℕ}
    {impliedEnd : Option ℕ} (himplied : ∀ stop, impliedEnd = some stop → damagedAt < stop) :
    resync bytes damagedAt impliedEnd limits = none ↔
      ∀ later n, damagedAt < later → ¬ ValidFrame bytes limits later n := by
  have hloop : resyncFrom bytes limits (bytes.length+1) (damagedAt+1) = none ↔
      ∀ later n, damagedAt < later → ¬ ValidFrame bytes limits later n := by
    constructor
    · intro h later n hl
      exact resyncFrom_none (by omega) h hl
    · intro h
      by_contra hne
      obtain ⟨next,hnext⟩ := Option.ne_none_iff_exists'.mp hne
      obtain ⟨hle,n,hv⟩ := resyncFrom_some hnext
      exact h next n hle hv
  unfold resync
  cases impliedEnd with
  | none => exact hloop
  | some boundary =>
    dsimp only
    split_ifs with hb
    · refine iff_of_false (by simp) ?_
      obtain ⟨_,hvalid⟩ := hb
      cases hf : frameAt bytes boundary limits with
      | valid n => exact fun h => h boundary n (himplied _ rfl) (frameAt_valid_iff.1 hf)
      | torn => rw [hf] at hvalid; cases hvalid
      | damaged stop => rw [hf] at hvalid; cases hvalid
    · exact hloop

/-- The in-memory scan from `pos`; every round moves forward, so `fuel` bounds the
remaining bytes. -/
def scanFrom (bytes : Bytes) (limits : JournalLimits) : ℕ → ℕ → ScanReport → ScanReport
  | 0, _, report => report
  | fuel+1, pos, report =>
    if bytes.length ≤ pos then report
    else
      match frameAt bytes pos limits with
      | .valid bodyLen =>
        scanFrom bytes limits fuel (pos+frameHeaderLen+bodyLen)
          (report.accept ⟨pos+frameHeaderLen,bodyLen⟩)
      | .torn => report.damage pos .tornTail
      | .damaged impliedEnd =>
        match resync bytes pos impliedEnd limits with
        | some next => scanFrom bytes limits fuel next (report.damage pos (.middle next))
        | none =>
          -- A complete-looking final frame counts as an interrupted write.
          report.damage pos (if impliedEnd = some bytes.length then .tornTail else .quarantinedTail)

def scanJournal (bytes : Bytes) (limits : JournalLimits) : ScanReport :=
  scanFrom bytes limits (bytes.length+1) 0 ⟨[],[],0⟩

/-- Valid frames laid end to end from one offset to another. -/
inductive FrameRun (bytes : Bytes) (limits : JournalLimits) : ℕ → List PartRef → ℕ → Prop
  | nil (pos : ℕ) : FrameRun bytes limits pos [] pos
  | cons {pos n stop : ℕ} {parts : List PartRef} (frame : ValidFrame bytes limits pos n)
      (rest : FrameRun bytes limits (pos+frameHeaderLen+n) parts stop) :
      FrameRun bytes limits pos (⟨pos+frameHeaderLen,n⟩::parts) stop

/-- End of the last part, or `start` when there is none. -/
def partsEnd (start : ℕ) (parts : List PartRef) : ℕ :=
  (parts.getLast?.map fun p => p.offset+p.len).getD start

@[simp] theorem partsEnd_nil (start : ℕ) : partsEnd start [] = start := rfl

@[simp] theorem partsEnd_cons (start : ℕ) (p : PartRef) (ps : List PartRef) :
    partsEnd start (p::ps) = partsEnd (p.offset+p.len) ps := by
  cases ps with
  | nil => rfl
  | cons q qs => simp [partsEnd,List.getLast?_cons]

theorem foldl_accept (report : ScanReport) (parts : List PartRef) :
    parts.foldl ScanReport.accept report =
      ⟨report.parts++parts,report.damages,partsEnd report.validLen parts⟩ := by
  induction parts generalizing report with
  | nil => simp
  | cons p ps ih => simp [ih,ScanReport.accept]

namespace FrameRun

variable {bytes : Bytes} {limits : JournalLimits} {pos stop : ℕ} {parts : List PartRef}

theorem partsEnd_eq (h : FrameRun bytes limits pos parts stop) : partsEnd pos parts = stop := by
  induction h with
  | nil pos => rfl
  | cons frame rest ih => simpa using ih

theorem start_le (h : FrameRun bytes limits pos parts stop) : pos ≤ stop := by
  induction h with
  | nil pos => exact le_refl _
  | cons frame rest ih => omega

/-- Only the empty run goes nowhere. -/
theorem nil_iff (h : FrameRun bytes limits pos parts stop) : parts = [] ↔ stop = pos := by
  cases h with
  | nil => simp
  | cons frame rest =>
    have hfh : frameHeaderLen = 16 := rfl
    have hstop := rest.start_le
    exact iff_of_false (by simp) (by omega)

theorem stop_le (h : FrameRun bytes limits pos parts stop) (hpos : pos ≤ bytes.length) :
    stop ≤ bytes.length := by
  induction h with
  | nil pos => exact hpos
  | cons frame rest ih => exact ih frame.fits

theorem part_le (h : FrameRun bytes limits pos parts stop) {p : PartRef} (hp : p ∈ parts) :
    pos+frameHeaderLen ≤ p.offset ∧ p.offset+p.len ≤ stop := by
  induction h with
  | nil pos => cases hp
  | cons frame rest ih =>
    have hle := rest.start_le
    rcases List.mem_cons.mp hp with rfl | hp
    · exact ⟨le_refl _,hle⟩
    · have hi := ih hp
      exact ⟨by omega,hi.2⟩

theorem part_valid (h : FrameRun bytes limits pos parts stop) {p : PartRef} (hp : p ∈ parts) :
    p.offset+p.len ≤ bytes.length ∧ p.len ≤ limits.maxPartLen.toNat ∧
      ValidPart (slice bytes p.offset p.len) := by
  induction h with
  | nil pos => cases hp
  | cons frame rest ih =>
    rcases List.mem_cons.mp hp with rfl | hp
    · obtain ⟨header,_,hlen,hmax⟩ := frame.header
      exact ⟨frame.fits,hlen ▸ UInt64.le_iff_toNat_le.mp hmax,frame.part⟩
    · exact ih hp

/-- A part is never empty, so it starts before the run ends. -/
theorem offset_lt (h : FrameRun bytes limits pos parts stop) {p : PartRef} (hp : p ∈ parts) :
    p.offset < stop := by
  induction h with
  | nil pos => cases hp
  | cons frame rest ih =>
    rename_i pos n stop parts
    rcases List.mem_cons.mp hp with rfl | hp
    · have hle := rest.start_le
      have hmin := frame.part.minPartLen_le
      have hfit := frame.fits
      have hm : minPartLen = 44 := rfl
      rw [slice_length_of_le hfit] at hmin
      exact lt_of_lt_of_le (Nat.lt_add_of_pos_right (by omega)) hle
    · exact ih hp

theorem append {mid : ℕ} {more : List PartRef} (h : FrameRun bytes limits pos parts mid)
    (h' : FrameRun bytes limits mid more stop) :
    FrameRun bytes limits pos (parts++more) stop := by
  induction h with
  | nil pos => exact h'
  | cons frame rest ih => exact .cons frame (ih h')

end FrameRun

theorem ValidFrame.len_unique {bytes : Bytes} {limits : JournalLimits} {pos n n' : ℕ}
    (h : ValidFrame bytes limits pos n) (h' : ValidFrame bytes limits pos n') : n = n' := by
  have he := frameAt_valid_iff.2 h
  rw [frameAt_valid_iff.2 h'] at he
  cases he; rfl

/-- Every offset starts a run that cannot be continued. -/
theorem FrameRun.exists_maximal (bytes : Bytes) (limits : JournalLimits) (pos : ℕ) :
    ∃ parts stop, FrameRun bytes limits pos parts stop ∧ ∀ n, ¬ ValidFrame bytes limits stop n := by
  by_cases h : ∃ n, ValidFrame bytes limits pos n
  · obtain ⟨n,hn⟩ := h
    have hfit := hn.fits
    obtain ⟨parts,stop,hrun,hmax⟩ := FrameRun.exists_maximal bytes limits (pos+frameHeaderLen+n)
    exact ⟨_,stop,.cons hn hrun,hmax⟩
  · push Not at h
    exact ⟨[],pos,.nil pos,h⟩
termination_by bytes.length - pos
decreasing_by
  have hfh : 0 < frameHeaderLen := by decide
  omega

theorem FrameRun.maximal_unique {bytes : Bytes} {limits : JournalLimits} {pos stop stop' : ℕ}
    {parts parts' : List PartRef} (h : FrameRun bytes limits pos parts stop)
    (hmax : ∀ n, ¬ ValidFrame bytes limits stop n) (h' : FrameRun bytes limits pos parts' stop')
    (hmax' : ∀ n, ¬ ValidFrame bytes limits stop' n) : parts = parts' ∧ stop = stop' := by
  induction h generalizing parts' with
  | nil pos =>
    cases h' with
    | nil => exact ⟨rfl,rfl⟩
    | cons frame rest => exact absurd frame (hmax _)
  | cons frame rest ih =>
    cases h' with
    | nil => exact absurd frame (hmax' _)
    | cons frame' rest' =>
      cases frame.len_unique frame'
      obtain ⟨rfl,rfl⟩ := ih hmax rest'
      exact ⟨rfl,rfl⟩

/-- The in-memory scan follows a run of valid frames. -/
theorem scanFrom_run {bytes : Bytes} {limits : JournalLimits} {pos stop fuel : ℕ}
    {parts : List PartRef} (h : FrameRun bytes limits pos parts stop) (report : ScanReport)
    (hfuel : bytes.length < pos + fuel) :
    ∃ fuel', bytes.length < stop + fuel' ∧ scanFrom bytes limits fuel pos report =
      scanFrom bytes limits fuel' stop (parts.foldl ScanReport.accept report) := by
  have hfh : frameHeaderLen = 16 := rfl
  induction h generalizing fuel report with
  | nil pos => exact ⟨fuel,hfuel,rfl⟩
  | cons frame rest ih =>
    rename_i pos n stop parts
    have hfit := frame.fits
    obtain ⟨fuel,rfl⟩ : ∃ k, fuel = k+1 := ⟨fuel-1,by omega⟩
    obtain ⟨fuel',hf,he⟩ := ih (report.accept ⟨pos+frameHeaderLen,n⟩)
      (show bytes.length < pos+frameHeaderLen+n + fuel by omega)
    refine ⟨fuel',hf,?_⟩
    rw [scanFrom,if_neg (by omega),frameAt_valid_iff.2 frame]
    exact he

/-- Whatever happens later, a scan only adds parts behind its position and damages
behind those already found. -/
theorem scanFrom_extends {bytes : Bytes} {limits : JournalLimits} {fuel pos : ℕ}
    (report : ScanReport) : ∃ ps ds,
      (scanFrom bytes limits fuel pos report).parts = report.parts ++ ps ∧
      (scanFrom bytes limits fuel pos report).damages = report.damages ++ ds ∧
      ∀ p ∈ ps, pos < p.offset := by
  have hfh : frameHeaderLen = 16 := rfl
  induction fuel generalizing pos report with
  | zero => exact ⟨[],[],by simp [scanFrom]⟩
  | succ fuel ih =>
    unfold scanFrom
    split
    · exact ⟨[],[],by simp⟩
    · split
      · rename_i n hn
        obtain ⟨ps,ds,hp,hd,hlt⟩ := @ih (pos+frameHeaderLen+n)
          (report.accept ⟨pos+frameHeaderLen,n⟩)
        refine ⟨⟨pos+frameHeaderLen,n⟩::ps,ds,by rw [hp]; simp [ScanReport.accept],by
          rw [hd]; rfl,?_⟩
        intro p hmem
        rcases List.mem_cons.mp hmem with rfl | hmem
        · exact Nat.lt_add_of_pos_right (by omega)
        · have hh := hlt p hmem
          omega
      · exact ⟨[],_,by simp [ScanReport.damage],rfl,by simp⟩
      · rename_i impliedEnd hf
        split
        · rename_i next hnext
          have hgt : pos < next := by
            refine resync_some ?_ hnext
            intro stop hstop
            exact frameAt_impliedEnd (hstop ▸ hf)
          obtain ⟨ps,ds,hp,hd,hlt⟩ := @ih next (report.damage pos (.middle next))
          refine ⟨ps,⟨pos,.middle next⟩::ds,by rw [hp]; rfl,by
            rw [hd]; simp [ScanReport.damage],?_⟩
          intro p hmem
          exact lt_trans hgt (hlt p hmem)
        · exact ⟨[],_,by simp [ScanReport.damage],rfl,by simp⟩

/-- The class of the first damage, at a position where no valid frame starts. -/
def firstDamageKind (bytes : Bytes) (limits : JournalLimits) (pos : ℕ) : DamageKind :=
  match frameAt bytes pos limits with
  | .valid _ => .quarantinedTail
  | .torn => .tornTail
  | .damaged impliedEnd =>
    match resync bytes pos impliedEnd limits with
    | some next => .middle next
    | none => if impliedEnd = some bytes.length then .tornTail else .quarantinedTail

theorem scanJournal_clean {bytes : Bytes} {limits : JournalLimits} {stop : ℕ}
    {parts : List PartRef} (h : FrameRun bytes limits 0 parts stop) (hle : bytes.length ≤ stop) :
    scanJournal bytes limits = ⟨parts,[],stop⟩ := by
  obtain ⟨fuel,_,he⟩ := scanFrom_run h ⟨[],[],0⟩
    (show bytes.length < 0 + (bytes.length+1) by omega)
  have hfold := foldl_accept ⟨[],[],0⟩ parts
  rw [h.partsEnd_eq] at hfold
  simp only [List.nil_append] at hfold
  rw [scanJournal,he,hfold]
  cases fuel with
  | zero => rfl
  | succ fuel => rw [scanFrom,if_pos hle]

/-- A scan that meets damage has listed the maximal run before it. -/
theorem scanJournal_damaged {bytes : Bytes} {limits : JournalLimits} {stop : ℕ}
    {parts : List PartRef} (h : FrameRun bytes limits 0 parts stop) (hlt : stop < bytes.length)
    (hnot : ∀ n, ¬ ValidFrame bytes limits stop n) :
    ∃ ps ds, (scanJournal bytes limits).parts = parts ++ ps ∧
      (scanJournal bytes limits).damages = ⟨stop,firstDamageKind bytes limits stop⟩::ds ∧
      ∀ p ∈ ps, stop < p.offset := by
  obtain ⟨fuel,hfuel,he⟩ := scanFrom_run h ⟨[],[],0⟩
    (show bytes.length < 0 + (bytes.length+1) by omega)
  have hfold := foldl_accept ⟨[],[],0⟩ parts
  rw [h.partsEnd_eq] at hfold
  simp only [List.nil_append] at hfold
  obtain ⟨fuel,rfl⟩ : ∃ k, fuel = k+1 := ⟨fuel-1,by omega⟩
  rw [scanJournal,he,hfold,scanFrom,if_neg (by omega)]
  unfold firstDamageKind
  cases hf : frameAt bytes stop limits with
  | valid n => exact absurd (frameAt_valid_iff.1 hf) (hnot n)
  | torn => exact ⟨[],[],by simp [ScanReport.damage],rfl,by simp⟩
  | damaged impliedEnd =>
    dsimp only
    cases hnext : resync bytes stop impliedEnd limits with
    | none => exact ⟨[],[],by simp [ScanReport.damage],rfl,by simp⟩
    | some next =>
      have hgt : stop < next :=
        resync_some (fun e hstop => frameAt_impliedEnd (hstop ▸ hf)) hnext
      obtain ⟨ps,ds,hp,hd,hmore⟩ := @scanFrom_extends bytes limits fuel next
        (ScanReport.damage ⟨parts,[],stop⟩ stop (.middle next))
      exact ⟨ps,ds,hp,hd,fun p hmem => lt_trans hgt (hmore p hmem)⟩

end PgKronika
