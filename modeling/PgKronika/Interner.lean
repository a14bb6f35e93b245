import PgKronika.Dictionary

/-! The per-segment interner: a window of full values and compact records of the values
that the journal already holds. It behaves as one dictionary that is never flushed. -/
namespace PgKronika

open ByteCodec CheckedArith

/-- The first 16 bytes of the digest. -/
def check16 (hashes : Hashes) (bytes : Bytes) : Bytes := (hashes.sha256 bytes).take 16

/-- What is kept of a value whose bytes are in the journal. -/
structure Flushed where
  fullLen : ℕ
  check : Bytes
  blobRequired : Bool
  hotHard : Bool
  hotSoft : Bool
  deriving DecidableEq

def Flushed.fits (f : Flushed) (hashes : Hashes) (bytes : Bytes) : Bool :=
  f.fullLen == bytes.length && check16 hashes bytes == f.check

def Flushed.req (f : Flushed) : Requirements := ⟨f.blobRequired,f.hotHard,f.hotSoft⟩

def Flushed.placement (f : Flushed) (limits : DictLimits) : Placement :=
  if f.blobRequired || decide (limits.blobThreshold ≤ f.fullLen) then .blobs else .strings

structure Interner where
  window : SegmentDicts
  flushed : OrderedMap StrId Flushed
  hotPinned : OrderedMap StrId Bytes

def Interner.new (limits : DictLimits) : Interner := ⟨.new limits,.empty,.empty⟩

/-- The flags of a request on a window that holds the value, one call each. -/
def applyFlags (hashes : Hashes) (id : StrId) (bytes : Bytes) (req : Requirements)
    (window : SegmentDicts) : Except DictError (StrId × Bool) × SegmentDicts :=
  match if req.blob then window.internBlob hashes bytes else (.ok id,window) with
  | (.error e,window) => (.error e,window)
  | (.ok _,window) =>
    match if req.hotHard then window.internHot hashes bytes else (.ok id,window) with
    | (.error e,window) => (.error e,window)
    | (.ok _,window) =>
      match if req.hotSoft then window.internHotBestEffort hashes bytes
        else (.ok (id,req.hotHard),window) with
      | (.error e,window) => (.error e,window)
      | (.ok (_,hot),window) => (.ok (id,hot),window)

/-- The conflict is checked first, so that a request with several flags cannot stop
halfway. -/
def Interner.applyToWindow (t : Interner) (hashes : Hashes) (id : StrId) (bytes : Bytes)
    (req : Requirements) : Except DictError (StrId × Bool) × Interner :=
  if req.conflicts (decide (t.window.limits.blobThreshold ≤ bytes.length)) then
    (.error (.placementConflict id),t)
  else
    match t.window.intern hashes bytes with
    | (.error e,window) => (.error e,{ t with window })
    | (.ok id,window) =>
      let (result,window) := applyFlags hashes id bytes req window
      (result,{ t with window })

/-- Keep the record of a flushed value in step with an accepted upgrade. -/
def Interner.recordFlushedBits (t : Interner) (id : StrId) (merged : Requirements) : Interner :=
  match t.flushed.lookup id with
  | none => t
  | some f => { t with flushed := t.flushed.insert id { f with
      blobRequired := merged.blob
      hotHard := merged.hotHard
      hotSoft := merged.hotSoft } }

/-- A request for a value the journal already holds. Only what has to survive a crash
brings the value back into the window. -/
def Interner.requestFlushed (t : Interner) (hashes : Hashes) (id : StrId) (bytes : Bytes)
    (flushed : Flushed) (req : Requirements) : Except DictError (StrId × Bool) × Interner :=
  if !flushed.fits hashes bytes then (.error (.collision id.get),t)
  else
    let merged := flushed.req.merge req
    let oversized := decide (t.window.limits.blobThreshold ≤ flushed.fullLen)
    if merged.conflicts oversized then (.error (.placementConflict id),t)
    else
      let placementIsBlob := merged.blob || oversized
      let durableUpgrade := merged.blob != flushed.blobRequired || merged.hotHard != flushed.hotHard
      let softBecameEffective := merged.hotSoft != flushed.hotSoft && !placementIsBlob
      if durableUpgrade then
        match t.applyToWindow hashes id bytes merged with
        | (.error e,t) => (.error e,t)
        | (.ok result,t) => (.ok result,t.recordFlushedBits id merged)
      else
        (.ok (id,(merged.hotHard || merged.hotSoft) && !placementIsBlob),
          if softBecameEffective then t.recordFlushedBits id merged else t)

def Interner.request (t : Interner) (hashes : Hashes) (bytes : Bytes) (req : Requirements) :
    Except DictError (StrId × Bool) × Interner :=
  match StrId.of hashes bytes with
  | none => (.error (.collision 0),t)
  | some id =>
    if t.window.resolves id then t.applyToWindow hashes id bytes req
    else
      match t.flushed.lookup id with
      | some flushed => t.requestFlushed hashes id bytes flushed req
      | none => t.applyToWindow hashes id bytes req

/-- The four entry points. -/
inductive InternCall
  | intern
  | internBlob
  | internHot
  | internHotBestEffort
  deriving DecidableEq

def InternCall.req : InternCall → Requirements
  | .intern => .default
  | .internBlob => { Requirements.default with blob := true }
  | .internHot => { Requirements.default with hotHard := true }
  | .internHotBestEffort => { Requirements.default with hotSoft := true }

/-- A call on the interner; only a best-effort call reports whether the value is hot. -/
def Interner.call (t : Interner) (hashes : Hashes) (bytes : Bytes) (call : InternCall) :
    Except DictError (StrId × Option Bool) × Interner :=
  match call, t.request hashes bytes call.req with
  | _, (.error e,t) => (.error e,t)
  | .internHotBestEffort, (.ok (id,hot),t) => (.ok (id,some hot),t)
  | .internHot, (.ok (id,_),t) =>
    (.ok (id,none),
      if t.hotPinned.contains id then t else { t with hotPinned := t.hotPinned.insert id bytes })
  | _, (.ok (id,_),t) => (.ok (id,none),t)

/-- The same call on one dictionary. -/
def SegmentDicts.call (d : SegmentDicts) (hashes : Hashes) (bytes : Bytes) (call : InternCall) :
    Except DictError (StrId × Option Bool) × SegmentDicts :=
  match call with
  | .internHotBestEffort =>
    match d.internHotBestEffort hashes bytes with
    | (.error e,d) => (.error e,d)
    | (.ok (id,hot),d) => (.ok (id,some hot),d)
  | _ =>
    match d.insert hashes bytes call.req with
    | (.error e,d) => (.error e,d)
    | (.ok id,d) => (.ok (id,none),d)

def EntrySnapshot.flushed (hashes : Hashes) (snap : EntrySnapshot) : Flushed where
  fullLen := snap.fullLen
  check := match snap.fullSha256 with
    | none => check16 hashes snap.storedBytes
    | some sha => sha.take 16
  blobRequired := snap.blobRequired
  hotHard := decide (snap.hot = .hard)
  hotSoft := decide (snap.hot = .soft)

/-- The same of one dictionary. -/
def SegmentDicts.directive (d : SegmentDicts) (id : StrId) : Option (Placement × Bool) :=
  (d.entries.lookup id).map fun e => (e.placement,e.isHot)

def recordFlushed (hashes : Hashes) (snapshots : List EntrySnapshot)
    (flushed : OrderedMap StrId Flushed) : OrderedMap StrId Flushed :=
  snapshots.foldl (fun m snap => m.insert snap.strId (snap.flushed hashes)) flushed

/-- Strict hot values enter every window. -/
def reinsertPinned (hashes : Hashes) (pinned : List (StrId × Bytes)) (window : SegmentDicts) :
    SegmentDicts :=
  pinned.foldl (fun d p => (d.internHot hashes p.2).2) window

/-- Move the window into the journal, unless the write fails. -/
def Interner.flushWindow {ε : Type} (t : Interner) (hashes : Hashes)
    (write : SegmentDicts → Except ε Unit) : Except ε ℕ × Interner :=
  match write t.window with
  | .error e => (.error e,t)
  | .ok () =>
    (.ok t.window.len,{ t with
      flushed := recordFlushed hashes t.window.snapshots t.flushed
      window := reinsertPinned hashes t.hotPinned.entries (.new t.window.limits) })

structure FlushedEntry where
  strId : StrId
  fullLen : ℕ
  placement : Placement
  hot : HotMark
  deriving DecidableEq

structure SealedSegment where
  window : SegmentDicts
  flushed : List FlushedEntry

def Interner.seal (t : Interner) : SealedSegment × Interner :=
  (⟨t.window,t.flushed.entries.map fun p =>
      ⟨p.1,p.2.fullLen,p.2.placement t.window.limits,p.2.req.hotMark⟩⟩,
    .new t.window.limits)

/-- The placement of an id in the final dictionaries and whether it is hot there. The
window's entry wins. -/
def SealedSegment.directive (s : SealedSegment) (id : StrId) : Option (Placement × Bool) :=
  match s.window.entries.lookup id with
  | some e => some (e.placement,e.isHot)
  | none => (s.flushed.find? fun e => decide (e.strId = id)).map fun e =>
    (e.placement,decide (e.placement = .strings ∧ e.hot ≠ .none))

/-- Sizes across the window and the flushed values that are not back in it. -/
def Interner.stats (t : Interner) : DictStats :=
  t.window.stats +
    ((t.flushed.entries.filter fun p => !t.window.resolves p.1).map fun p =>
      entryStats (p.2.placement t.window.limits) (decide (p.2.req.hotMark ≠ .none))
        (min p.2.fullLen t.window.limits.truncateLimit)).sum

theorem Requirements.merge_assoc (a b c : Requirements) : (a.merge b).merge c = a.merge (b.merge c) := by
  simp [merge,Bool.or_assoc]

theorem Requirements.merge_default (r : Requirements) : r.merge .default = r := by
  simp [merge,default]

section Window

variable {hashes : Hashes} {v : Bytes} {id : StrId} (hid : StrId.of hashes v = some id)
include hid

/-- `w` holds `v` with the requirements `r`. -/
def SegmentDicts.Has (w : SegmentDicts) (hashes : Hashes) (id : StrId) (v : Bytes)
    (r : Requirements) : Prop :=
  w.entries.lookup id = some (w.limits.store hashes v r) ∧
    r.conflicts (decide (w.limits.blobThreshold ≤ v.length)) = false

/-- The same dictionary with other requirements for `v`. -/
def SegmentDicts.write (w : SegmentDicts) (hashes : Hashes) (id : StrId) (v : Bytes)
    (r : Requirements) : SegmentDicts :=
  { w with entries := w.entries.insert id (w.limits.store hashes v r) }

omit hid in
theorem SegmentDicts.Has.write_self {w : SegmentDicts} {r : Requirements} (h : w.Has hashes id v r) :
    w.write hashes id v r = w := by
  rw [write,OrderedMap.insert_of_lookup h.1]

omit hid in
theorem SegmentDicts.write_write (w : SegmentDicts) (r r' : Requirements) :
    (w.write hashes id v r).write hashes id v r' = w.write hashes id v r' := by
  simp only [write,OrderedMap.insert_insert]

omit hid in
theorem SegmentDicts.write_has (w : SegmentDicts) (hashes : Hashes) (id : StrId) {v : Bytes}
    {r : Requirements}
    (hr : r.conflicts (decide (w.limits.blobThreshold ≤ v.length)) = false) :
    (w.write hashes id v r).Has hashes id v r :=
  ⟨OrderedMap.lookup_insert_self _ _ _,hr⟩

theorem SegmentDicts.Has.insert {w : SegmentDicts} {r : Requirements} (h : w.Has hashes id v r)
    (more : Requirements) :
    w.insert hashes v more =
      if (r.merge more).conflicts (decide (w.limits.blobThreshold ≤ v.length)) then
        (.error (.placementConflict id),w)
      else (.ok id,w.write hashes id v (r.merge more)) :=
  SegmentDicts.insert_present hid h.1 rfl more

/-- A soft request never fails on a value that is there. -/
theorem SegmentDicts.Has.internHotBestEffort {w : SegmentDicts} {r : Requirements}
    (h : w.Has hashes id v r) :
    w.internHotBestEffort hashes v =
      (.ok (id,(w.limits.standing v (r.merge ⟨false,false,true⟩)).hot),
        w.write hashes id v (r.merge ⟨false,false,true⟩)) := by
  have hr : (r.merge ⟨false,false,true⟩).conflicts (decide (w.limits.blobThreshold ≤ v.length)) =
      false := by
    have hr := h.2
    simpa [Requirements.merge,Requirements.conflicts] using hr
  rw [SegmentDicts.internHotBestEffort,show { Requirements.default with hotSoft := true } =
    (⟨false,false,true⟩ : Requirements) from rfl,h.insert hid,if_neg (by rw [hr]; simp)]
  simp only [write,OrderedMap.lookup_insert_self,Option.any_some]
  rfl

/-- One flag of a request on a value that is there. -/
theorem SegmentDicts.Has.flag {w : SegmentDicts} {r : Requirements} (h : w.Has hashes id v r)
    (set : Bool) (more added : Requirements) (hadded : added = if set then more else .default) :
    (if set then w.insert hashes v more else (.ok id,w)) =
      if (r.merge added).conflicts (decide (w.limits.blobThreshold ≤ v.length)) then
        (.error (.placementConflict id),w)
      else (.ok id,w.write hashes id v (r.merge added)) := by
  subst hadded
  cases set with
  | true => simpa using h.insert hid more
  | false =>
    have hw := h.write_self
    have hc := h.2
    simp [Requirements.merge_default,hw,hc]

/-- The soft flag comes last and only decides what is reported. -/
theorem SegmentDicts.Has.softFlag {w : SegmentDicts} {r : Requirements} (h : w.Has hashes id v r)
    (hard soft : Bool) (hhard : hard = true → r.hotHard = true) :
    (match if soft then w.internHotBestEffort hashes v
        else ((.ok (id,hard),w) : Except DictError (StrId × Bool) × SegmentDicts) with
      | (.error e,window) => (.error e,window)
      | (.ok (_,hot),window) => (.ok (id,hot),window)) =
      ((.ok (id,(hard || soft) && (w.limits.standing v (r.merge ⟨false,false,soft⟩)).hot),
        w.write hashes id v (r.merge ⟨false,false,soft⟩)) :
          Except DictError (StrId × Bool) × SegmentDicts) := by
  cases soft with
  | true => rw [if_pos rfl,h.internHotBestEffort hid,Bool.or_true,Bool.true_and]
  | false =>
    have hw := h.write_self
    have hc := h.2
    have hhot : (hard && (w.limits.standing v r).hot) = hard := by
      cases hard with
      | false => rfl
      | true =>
        rw [Requirements.conflicts,hhard rfl,Bool.true_and] at hc
        simp only [DictLimits.standing,standing,hc,hhard rfl,Bool.true_or,Bool.not_false,
          Bool.and_self]
    rw [show (⟨false,false,false⟩ : Requirements) = .default from rfl,Requirements.merge_default,hw]
    simp [hhot]

/-- All flags together are one requirement. -/
theorem SegmentDicts.Has.applyFlags {w : SegmentDicts} {r : Requirements}
    (h : w.Has hashes id v r) {req : Requirements}
    (hpre : req.conflicts (decide (w.limits.blobThreshold ≤ v.length)) = false) :
    applyFlags hashes id v req w =
      if (r.merge req).conflicts (decide (w.limits.blobThreshold ≤ v.length)) then
        (.error (.placementConflict id),w)
      else (.ok (id,(req.hotHard || req.hotSoft) && (w.limits.standing v (r.merge req)).hot),
        w.write hashes id v (r.merge req)) := by
  have hself := h.write_self
  have hblob := h.flag hid req.blob ⟨true,false,false⟩ ⟨req.blob,false,false⟩
    (by cases req.blob <;> rfl)
  have hmerge : ((r.merge ⟨req.blob,false,false⟩).merge ⟨false,req.hotHard,false⟩).merge
      ⟨false,false,req.hotSoft⟩ = r.merge req := by
    simp [Requirements.merge]
  rw [PgKronika.applyFlags,show w.internBlob hashes v = w.insert hashes v ⟨true,false,false⟩ from rfl,
    hblob]
  by_cases h1 : (r.merge ⟨req.blob,false,false⟩).conflicts
      (decide (w.limits.blobThreshold ≤ v.length)) = true
  · have htotal : (r.merge req).conflicts (decide (w.limits.blobThreshold ≤ v.length)) = true := by
      revert h1
      simp only [Requirements.merge,Requirements.conflicts,Bool.and_eq_true,Bool.or_eq_true,
        Bool.or_false]
      tauto
    rw [if_pos h1,if_pos htotal]
  · rw [if_neg h1]
    dsimp only
    have hhas := w.write_has hashes id (eq_false_of_ne_true h1)
    generalize hw1 : w.write hashes id v (r.merge ⟨req.blob,false,false⟩) = w1 at hhas ⊢
    have hl1 : w1.limits = w.limits := by rw [← hw1]; rfl
    have hhot := hhas.flag hid req.hotHard ⟨false,true,false⟩ ⟨false,req.hotHard,false⟩
      (by cases req.hotHard <;> rfl)
    rw [show w1.internHot hashes v = w1.insert hashes v ⟨false,true,false⟩ from rfl,hhot,hl1]
    have hconf : ((r.merge ⟨req.blob,false,false⟩).merge ⟨false,req.hotHard,false⟩).conflicts
        (decide (w.limits.blobThreshold ≤ v.length)) =
        (r.merge req).conflicts (decide (w.limits.blobThreshold ≤ v.length)) := by
      rw [← hmerge]
      simp [Requirements.merge,Requirements.conflicts]
    rw [hconf]
    by_cases h2 : (r.merge req).conflicts (decide (w.limits.blobThreshold ≤ v.length)) = true
    · -- the second flag fails only when the first one changed nothing
      have hnb : req.blob = false := by
        simp only [Requirements.merge,Requirements.conflicts] at h1 h2 hpre
        revert h1 h2 hpre
        cases req.blob <;> cases req.hotHard <;> simp
      rw [if_pos h2,if_pos h2]
      rw [hnb,show (⟨false,false,false⟩ : Requirements) = .default from rfl,
        Requirements.merge_default,hself] at hw1
      rw [hw1]
    · rw [if_neg h2,if_neg h2]
      dsimp only
      have hhas2 := w1.write_has hashes id (v := v)
        (r := (r.merge ⟨req.blob,false,false⟩).merge ⟨false,req.hotHard,false⟩)
        (by rw [hl1,hconf]; exact eq_false_of_ne_true h2)
      rw [hhas2.softFlag hid req.hotHard req.hotSoft (by simp +contextual [Requirements.merge]),hmerge,
        write_write,← hw1,write_write]
      simp only [write,OrderedMap.insert_insert]

end Window

end PgKronika
