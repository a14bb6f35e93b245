import PgKronika.ByteCodec
import PgKronika.CheckedArith
import PgKronika.OrderedMap

/-! The in-memory dictionaries of one segment, and the standing that one value has
in them: where it is placed and whether it is hot. -/
namespace PgKronika

open ByteCodec CheckedArith

/-- The two hash functions of the format, which other packages provide. -/
structure Hashes where
  xxh3 : Bytes → UInt64
  sha256 : Bytes → Bytes

/-- Interned string id; on disk zero means no value. -/
structure StrId where
  raw : UInt64
  nonZero : raw ≠ 0
  deriving DecidableEq

def StrId.get (id : StrId) : UInt64 := id.raw

def StrId.fromRaw (raw : UInt64) : Option StrId :=
  if h : raw ≠ 0 then some ⟨raw,h⟩ else none

def StrId.of (hashes : Hashes) (bytes : Bytes) : Option StrId := StrId.fromRaw (hashes.xxh3 bytes)

instance : LinearOrder StrId :=
  LinearOrder.lift' (fun id => id.raw.toNat) fun a b h => by
    cases a; cases b; cases UInt64.toNat_inj.mp h; rfl

/-- Size limits, checked when they are built. -/
structure DictLimits where
  blobThreshold : ℕ
  truncateLimit : ℕ
  maxTotalBytes : ℕ
  valid : 0 < blobThreshold ∧ blobThreshold ≤ truncateLimit ∧ truncateLimit ≤ maxTotalBytes
  deriving DecidableEq

structure InvalidLimits where
  blobThreshold : ℕ
  truncateLimit : ℕ
  maxTotalBytes : ℕ
  deriving DecidableEq

def defaultMaxTotalBytes : ℕ := 64*1024*1024

def DictLimits.validate (blobThreshold truncateLimit maxTotalBytes : ℕ) :
    Except InvalidLimits DictLimits :=
  if h : 0 < blobThreshold ∧ blobThreshold ≤ truncateLimit ∧ truncateLimit ≤ maxTotalBytes then
    .ok ⟨blobThreshold,truncateLimit,maxTotalBytes,h⟩
  else .error ⟨blobThreshold,truncateLimit,maxTotalBytes⟩

def DictLimits.new (blobThreshold truncateLimit : ℕ) : Except InvalidLimits DictLimits :=
  validate blobThreshold truncateLimit defaultMaxTotalBytes

def DictLimits.withMaxTotalBytes (limits : DictLimits) (maxTotalBytes : ℕ) :
    Except InvalidLimits DictLimits :=
  validate limits.blobThreshold limits.truncateLimit maxTotalBytes

def DictLimits.default : DictLimits := ⟨4*1024,1024*1024,defaultMaxTotalBytes,by decide⟩

inductive DictError
  | collision (id : UInt64)
  | placementConflict (id : StrId)
  | full (storedBytes max : ℕ)
  deriving DecidableEq

def DictError.isFull : DictError → Bool
  | .full _ _ => true
  | _ => false

inductive Placement
  | strings
  | blobs
  deriving DecidableEq

inductive HotMark
  | none
  | soft
  | hard
  deriving DecidableEq

/-- Requirements of one value. They accumulate and are never withdrawn. -/
structure Requirements where
  blob : Bool
  hotHard : Bool
  hotSoft : Bool
  deriving DecidableEq

def Requirements.default : Requirements := ⟨false,false,false⟩

def Requirements.merge (a b : Requirements) : Requirements :=
  ⟨a.blob || b.blob,a.hotHard || b.hotHard,a.hotSoft || b.hotSoft⟩

/-- A strict hot value must be a string. -/
def Requirements.conflicts (req : Requirements) (oversized : Bool) : Bool :=
  req.hotHard && (req.blob || oversized)

def Requirements.hotMark (req : Requirements) : HotMark :=
  if req.hotHard then .hard else if req.hotSoft then .soft else .none

/-- One stored value with its accumulated requirements. -/
structure Stored where
  bytes : Bytes
  fullLen : ℕ
  fullSha256 : Option Bytes
  oversized : Bool
  req : Requirements
  deriving DecidableEq

def Stored.isBlob (s : Stored) : Bool := s.req.blob || s.oversized

def Stored.isHot (s : Stored) : Bool := !s.isBlob && (s.req.hotHard || s.req.hotSoft)

def Stored.placement (s : Stored) : Placement := if s.isBlob then .blobs else .strings

structure EntrySnapshot where
  strId : StrId
  storedBytes : Bytes
  fullLen : ℕ
  truncated : Bool
  fullSha256 : Option Bytes
  placement : Placement
  hot : HotMark
  blobRequired : Bool
  deriving DecidableEq

@[ext] structure DictStats where
  stringCount : ℕ
  blobCount : ℕ
  hotCount : ℕ
  stringBytes : ℕ
  blobBytes : ℕ
  deriving DecidableEq

instance : Zero DictStats := ⟨⟨0,0,0,0,0⟩⟩

instance : Add DictStats :=
  ⟨fun a b => ⟨a.stringCount+b.stringCount,a.blobCount+b.blobCount,a.hotCount+b.hotCount,
    a.stringBytes+b.stringBytes,a.blobBytes+b.blobBytes⟩⟩

instance : AddCommMonoid DictStats where
  nsmul := nsmulRec
  add_assoc _ _ _ := DictStats.ext (Nat.add_assoc ..) (Nat.add_assoc ..) (Nat.add_assoc ..)
    (Nat.add_assoc ..) (Nat.add_assoc ..)
  zero_add _ := DictStats.ext (Nat.zero_add _) (Nat.zero_add _) (Nat.zero_add _) (Nat.zero_add _)
    (Nat.zero_add _)
  add_zero _ := rfl
  add_comm _ _ := DictStats.ext (Nat.add_comm ..) (Nat.add_comm ..) (Nat.add_comm ..)
    (Nat.add_comm ..) (Nat.add_comm ..)

/-- What one entry adds to the sizes. -/
def entryStats (placement : Placement) (hot : Bool) (storedLen : ℕ) : DictStats :=
  match placement with
  | .blobs => ⟨0,1,0,0,storedLen⟩
  | .strings => ⟨1,0,if hot then 1 else 0,storedLen,0⟩

structure SegmentDicts where
  limits : DictLimits
  entries : OrderedMap StrId Stored
  storedBytes : ℕ

def SegmentDicts.new (limits : DictLimits) : SegmentDicts := ⟨limits,.empty,0⟩

/-- The original bytes of a truncated entry are gone, so its length and digest stand
for them. -/
def checkSameValue (hashes : Hashes) (existing : Stored) (bytes : Bytes) : Bool :=
  existing.fullLen == bytes.length &&
    match existing.fullSha256 with
    | none => existing.bytes == bytes
    | some sha => hashes.sha256 bytes == sha

/-- The entry that a new value gets. -/
def DictLimits.store (limits : DictLimits) (hashes : Hashes) (bytes : Bytes) (req : Requirements) :
    Stored where
  bytes := bytes.take limits.truncateLimit
  fullLen := bytes.length
  fullSha256 := if limits.truncateLimit < bytes.length then some (hashes.sha256 bytes) else none
  oversized := decide (limits.blobThreshold ≤ bytes.length)
  req

def SegmentDicts.tryInsert (d : SegmentDicts) (hashes : Hashes) (id : StrId) (bytes : Bytes)
    (req : Requirements) : Except DictError StrId × SegmentDicts :=
  match d.entries.lookup id with
  | some existing =>
    if checkSameValue hashes existing bytes then
      let merged := existing.req.merge req
      if merged.conflicts existing.oversized then (.error (.placementConflict id),d)
      else (.ok id,{ d with entries := d.entries.insert id { existing with req := merged } })
    else (.error (.collision id.get),d)
  | none =>
    let oversized := decide (d.limits.blobThreshold ≤ bytes.length)
    if req.conflicts oversized then (.error (.placementConflict id),d)
    else
      let storedLen := min bytes.length d.limits.truncateLimit
      if !req.hotHard && decide (d.limits.maxTotalBytes < saturatingAdd d.storedBytes storedLen) then
        (.error (.full d.storedBytes d.limits.maxTotalBytes),d)
      else
        (.ok id,{ d with
          entries := d.entries.insert id (d.limits.store hashes bytes req)
          storedBytes := d.storedBytes+storedLen })

/-- Zero is the sentinel for no value, so a value that hashes to it collides. -/
def SegmentDicts.insert (d : SegmentDicts) (hashes : Hashes) (bytes : Bytes) (req : Requirements) :
    Except DictError StrId × SegmentDicts :=
  match StrId.of hashes bytes with
  | none => (.error (.collision 0),d)
  | some id => d.tryInsert hashes id bytes req

def SegmentDicts.intern (d : SegmentDicts) (hashes : Hashes) (bytes : Bytes) :
    Except DictError StrId × SegmentDicts := d.insert hashes bytes .default

def SegmentDicts.internBlob (d : SegmentDicts) (hashes : Hashes) (bytes : Bytes) :
    Except DictError StrId × SegmentDicts := d.insert hashes bytes { Requirements.default with blob := true }

def SegmentDicts.internHot (d : SegmentDicts) (hashes : Hashes) (bytes : Bytes) :
    Except DictError StrId × SegmentDicts :=
  d.insert hashes bytes { Requirements.default with hotHard := true }

def SegmentDicts.internHotBestEffort (d : SegmentDicts) (hashes : Hashes) (bytes : Bytes) :
    Except DictError (StrId × Bool) × SegmentDicts :=
  match d.insert hashes bytes { Requirements.default with hotSoft := true } with
  | (.error e,d) => (.error e,d)
  | (.ok id,d) => (.ok (id,(d.entries.lookup id).any Stored.isHot),d)

/-- Whether an id resolves inside the set. -/
def SegmentDicts.resolves (d : SegmentDicts) (id : StrId) : Bool := d.entries.contains id

def SegmentDicts.len (d : SegmentDicts) : ℕ := d.entries.entries.length

def Stored.snapshot (strId : StrId) (s : Stored) : EntrySnapshot where
  strId
  storedBytes := s.bytes
  fullLen := s.fullLen
  truncated := s.fullSha256.isSome
  fullSha256 := s.fullSha256
  placement := s.placement
  hot := s.req.hotMark
  blobRequired := s.req.blob

/-- Snapshots in id order. -/
def SegmentDicts.snapshots (d : SegmentDicts) : List EntrySnapshot :=
  d.entries.entries.map fun p => p.2.snapshot p.1

def SegmentDicts.stats (d : SegmentDicts) : DictStats :=
  (d.entries.entries.map fun p => entryStats p.2.placement p.2.isHot p.2.bytes.length).sum

/-- What the requirements of a value amount to, and all that an observer sees of it. -/
structure Standing where
  fullLen : ℕ
  blob : Bool
  hot : Bool
  strict : Bool
  deriving DecidableEq

def standing (fullLen : ℕ) (oversized : Bool) (req : Requirements) : Standing where
  fullLen
  blob := req.blob || oversized
  hot := !(req.blob || oversized) && (req.hotHard || req.hotSoft)
  strict := req.hotHard

def Standing.placement (s : Standing) : Placement := if s.blob then .blobs else .strings

/-- One more requirement, refused when the value would have to be strict hot and a blob. -/
def Standing.accept (s : Standing) (req : Requirements) : Option Standing :=
  let blob := s.blob || req.blob
  let strict := s.strict || req.hotHard
  if strict && blob then none
  else some ⟨s.fullLen,blob,!blob && (strict || s.hot || req.hotSoft),strict⟩

theorem accept_standing (fullLen : ℕ) (oversized : Bool) (req more : Requirements) :
    (standing fullLen oversized req).accept more =
      if (req.merge more).conflicts oversized then none
      else some (standing fullLen oversized (req.merge more)) := by
  obtain ⟨b,h,s⟩ := req
  obtain ⟨b',h',s'⟩ := more
  cases oversized <;> cases b <;> cases h <;> cases b' <;> cases h' <;> cases s <;> cases s' <;> rfl

/-- The standing of every value of a segment: the purpose of a dictionary, without the
bytes, the windows and the caps. -/
abbrev Standings := StrId → Option Standing

def freshStanding (limits : DictLimits) (fullLen : ℕ) : Standing :=
  standing fullLen (decide (limits.blobThreshold ≤ fullLen)) .default

def Standings.request (limits : DictLimits) (st : Standings) (id : StrId) (fullLen : ℕ)
    (req : Requirements) : Except DictError Standing × Standings :=
  match ((st id).getD (freshStanding limits fullLen)).accept req with
  | none => (.error (.placementConflict id),st)
  | some s => (.ok s,Function.update st id (some s))

def Stored.standing (s : Stored) : Standing := PgKronika.standing s.fullLen s.oversized s.req

def SegmentDicts.standings (d : SegmentDicts) : Standings :=
  fun id => (d.entries.lookup id).map Stored.standing

/-- Ids tell the values in use apart. -/
def IdInjective (hashes : Hashes) (used : Bytes → Prop) : Prop :=
  ∀ v w id, used v → used w → StrId.of hashes v = some id → StrId.of hashes w = some id → v = w

/-- Every entry is the one its value gets, and no strict hot value is a blob. -/
structure DictInv (hashes : Hashes) (used : Bytes → Prop) (d : SegmentDicts) : Prop where
  stored : ∀ id s, d.entries.lookup id = some s → ∃ v, used v ∧ StrId.of hashes v = some id ∧
    s = d.limits.store hashes v s.req
  strict : ∀ id s, d.entries.lookup id = some s → s.req.conflicts s.oversized = false

theorem DictInv.new (hashes : Hashes) (used : Bytes → Prop) (limits : DictLimits) :
    DictInv hashes used (.new limits) :=
  ⟨by simp [SegmentDicts.new],by simp [SegmentDicts.new]⟩

theorem checkSameValue_store (hashes : Hashes) (limits : DictLimits) (v : Bytes)
    (req : Requirements) : checkSameValue hashes (limits.store hashes v req) v = true := by
  rw [checkSameValue,DictLimits.store]
  by_cases h : limits.truncateLimit < v.length
  · simp [h]
  · simp [h,List.take_of_length_le (not_lt.mp h)]

/-- The entry of a value in use is the one the value gets. -/
theorem DictInv.lookup_eq {hashes : Hashes} {used : Bytes → Prop} {d : SegmentDicts}
    (h : DictInv hashes used d) (hinj : IdInjective hashes used) {v : Bytes} (hv : used v)
    {id : StrId} (hid : StrId.of hashes v = some id) {s : Stored}
    (hs : d.entries.lookup id = some s) : s = d.limits.store hashes v s.req := by
  obtain ⟨w,hw,hwid,he⟩ := h.stored id s hs
  rwa [hinj v w id hv hw hid hwid]

section Insert

variable {hashes : Hashes} {d : SegmentDicts} {v : Bytes} {id : StrId}
variable (hid : StrId.of hashes v = some id)
include hid

/-- A repeat only adds its requirement. -/
theorem SegmentDicts.insert_present {s : Stored} (hs : d.entries.lookup id = some s)
    (hsame : s = d.limits.store hashes v s.req) (req : Requirements) :
    d.insert hashes v req =
      if (s.req.merge req).conflicts s.oversized then (.error (.placementConflict id),d)
      else (.ok id,{ d with
        entries := d.entries.insert id (d.limits.store hashes v (s.req.merge req)) }) := by
  have hcheck : checkSameValue hashes s v = true := by
    rw [hsame]; exact checkSameValue_store _ _ _ _
  have hnext : { s with req := s.req.merge req } = d.limits.store hashes v (s.req.merge req) := by
    rw [hsame]; rfl
  rw [insert,hid]
  dsimp only
  rw [tryInsert,hs]
  dsimp only
  rw [if_pos hcheck,hnext]

theorem SegmentDicts.insert_absent (hs : d.entries.lookup id = none) (req : Requirements) :
    d.insert hashes v req =
      if req.conflicts (decide (d.limits.blobThreshold ≤ v.length)) then
        (.error (.placementConflict id),d)
      else if !req.hotHard && decide (d.limits.maxTotalBytes <
          saturatingAdd d.storedBytes (min v.length d.limits.truncateLimit)) then
        (.error (.full d.storedBytes d.limits.maxTotalBytes),d)
      else (.ok id,{ d with
        entries := d.entries.insert id (d.limits.store hashes v req)
        storedBytes := d.storedBytes + min v.length d.limits.truncateLimit }) := by
  rw [insert,hid]
  dsimp only
  rw [tryInsert,hs]

end Insert

def DictLimits.standing (limits : DictLimits) (v : Bytes) (req : Requirements) : Standing :=
  PgKronika.standing v.length (decide (limits.blobThreshold ≤ v.length)) req

theorem standings_write (d : SegmentDicts) (hashes : Hashes) (id : StrId) (v : Bytes)
    (req : Requirements) (storedBytes : ℕ) :
    SegmentDicts.standings { d with
      entries := d.entries.insert id (d.limits.store hashes v req)
      storedBytes } = Function.update d.standings id (some (d.limits.standing v req)) := by
  funext id'
  simp only [SegmentDicts.standings,OrderedMap.lookup_insert,Function.update_apply]
  split_ifs <;> rfl

theorem DictInv.write {hashes : Hashes} {used : Bytes → Prop} {d : SegmentDicts}
    (h : DictInv hashes used d) {v : Bytes} (hv : used v) {id : StrId}
    (hid : StrId.of hashes v = some id) {req : Requirements}
    (hreq : req.conflicts (decide (d.limits.blobThreshold ≤ v.length)) = false) (storedBytes : ℕ) :
    DictInv hashes used { d with
      entries := d.entries.insert id (d.limits.store hashes v req)
      storedBytes } := by
  constructor
  · intro id' s hs
    simp only [OrderedMap.lookup_insert] at hs
    split_ifs at hs with he
    · subst he
      cases hs
      exact ⟨v,hv,hid,rfl⟩
    · exact h.stored id' s hs
  · intro id' s hs
    simp only [OrderedMap.lookup_insert] at hs
    split_ifs at hs with he
    · cases hs
      exact hreq
    · exact h.strict id' s hs

/-- What one request does to the standings; a full dictionary refuses it instead. -/
theorem SegmentDicts.insert_refines {hashes : Hashes} {used : Bytes → Prop} {d : SegmentDicts}
    (h : DictInv hashes used d) (hinj : IdInjective hashes used) {v : Bytes} (hv : used v)
    {id : StrId} (hid : StrId.of hashes v = some id) (req : Requirements) :
    (∃ e, d.insert hashes v req = (.error e,d) ∧ e.isFull = true) ∨
    ∃ next : SegmentDicts,
      d.insert hashes v req =
        ((d.standings.request d.limits id v.length req).1.map fun _ => id,next) ∧
      next.standings = (d.standings.request d.limits id v.length req).2 ∧
      next.limits = d.limits ∧ DictInv hashes used next := by
  cases hs : d.entries.lookup id with
  | some s =>
    right
    have hsame := h.lookup_eq hinj hv hid hs
    have hstand : d.standings id = some (d.limits.standing v s.req) := by
      rw [SegmentDicts.standings,hs,hsame]; rfl
    have hover : s.oversized = decide (d.limits.blobThreshold ≤ v.length) := by rw [hsame]; rfl
    rw [insert_present hid hs hsame,Standings.request,hstand,Option.getD_some,DictLimits.standing,
      accept_standing,← hover]
    split_ifs with hconf
    · exact ⟨d,rfl,rfl,rfl,h⟩
    · rw [hover] at hconf ⊢
      exact ⟨_,rfl,standings_write d hashes id v _ _,rfl,h.write hv hid (by simpa using hconf) _⟩
  | none =>
    have hstand : d.standings id = none := by rw [SegmentDicts.standings,hs]; rfl
    have hmerge : Requirements.default.merge req = req := by
      simp [Requirements.merge,Requirements.default]
    rw [insert_absent hid hs,Standings.request,hstand,Option.getD_none,freshStanding,
      accept_standing,hmerge]
    by_cases hconf : req.conflicts (decide (d.limits.blobThreshold ≤ v.length)) = true
    · rw [if_pos hconf,if_pos hconf]
      exact .inr ⟨d,rfl,rfl,rfl,h⟩
    · rw [if_neg hconf,if_neg hconf]
      split_ifs with hfull
      · exact .inl ⟨_,rfl,rfl⟩
      · exact .inr ⟨_,rfl,standings_write d hashes id v _ _,rfl,
          h.write hv hid (by simpa using hconf) _⟩

end PgKronika
