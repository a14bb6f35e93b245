import PgKronika.InternerRefinement

/-! Runs of calls on one dictionary, refused ones included: what its entries, its counter and its
listings agree on. -/
namespace PgKronika

open ByteCodec CheckedArith

structure BlobEntry where
  strId : StrId
  storedBytes : Bytes
  fullLen : ℕ
  truncated : Bool
  fullSha256 : Option Bytes
  deriving DecidableEq

namespace SegmentDicts

def blobEntry (id : StrId) (s : Stored) : BlobEntry where
  strId := id
  storedBytes := s.bytes
  fullLen := s.fullLen
  truncated := s.fullSha256.isSome
  fullSha256 := s.fullSha256

def strings (d : SegmentDicts) : List (StrId × Bytes) :=
  (d.entries.entries.filter fun p => !p.2.isBlob).map fun p => (p.1,p.2.bytes)

def blobs (d : SegmentDicts) : List BlobEntry :=
  (d.entries.entries.filter fun p => p.2.isBlob).map fun p => blobEntry p.1 p.2

def hotStrings (d : SegmentDicts) : List (StrId × Bytes) :=
  (d.entries.entries.filter fun p => p.2.isHot).map fun p => (p.1,p.2.bytes)

end SegmentDicts

abbrev DictCall := InternCall × Bytes

def SegmentDicts.calls (hashes : Hashes) :
    List DictCall → SegmentDicts → List InternAnswer × SegmentDicts
  | [],d => ([],d)
  | c::cs,d =>
    let (answer,d) := d.call hashes c.2 c.1
    let (answers,d) := SegmentDicts.calls hashes cs d
    (answer::answers,d)

theorem SegmentDicts.calls_cons (hashes : Hashes) (c : DictCall) (cs : List DictCall)
    (d : SegmentDicts) : SegmentDicts.calls hashes (c::cs) d =
      ((d.call hashes c.2 c.1).1::(SegmentDicts.calls hashes cs (d.call hashes c.2 c.1).2).1,
        (SegmentDicts.calls hashes cs (d.call hashes c.2 c.1).2).2) := rfl

/-- What an accepted request does. -/
inductive DictStep (hashes : Hashes) (d : SegmentDicts) (id : StrId) (v : Bytes)
    (req : Requirements) : SegmentDicts → Prop
  | again {s : Stored} (present : d.entries.lookup id = some s)
      (same : checkSameValue hashes s v = true)
      (agrees : (s.req.merge req).conflicts s.oversized = false) :
      DictStep hashes d id v req
        { d with entries := d.entries.insert id { s with req := s.req.merge req } }
  | added (absent : d.entries.lookup id = none)
      (agrees : req.conflicts (decide (d.limits.blobThreshold ≤ v.length)) = false)
      (room : req.hotHard = true ∨
        saturatingAdd d.storedBytes (min v.length d.limits.truncateLimit) ≤ d.limits.maxTotalBytes) :
      DictStep hashes d id v req { d with
        entries := d.entries.insert id (d.limits.store hashes v req)
        storedBytes := d.storedBytes + min v.length d.limits.truncateLimit }

section Steps

variable {hashes : Hashes} {used : Bytes → Prop} {d next : SegmentDicts} {id : StrId} {v : Bytes}
  {req : Requirements}

theorem SegmentDicts.tryInsert_step (d : SegmentDicts) (hashes : Hashes) (id : StrId) (v : Bytes)
    (req : Requirements) :
    (∃ e, d.tryInsert hashes id v req = (.error e,d)) ∨
      ∃ next, d.tryInsert hashes id v req = (.ok id,next) ∧ DictStep hashes d id v req next := by
  rw [tryInsert]
  cases hs : d.entries.lookup id with
  | some s =>
    dsimp only
    split_ifs with hsame hconflict
    · exact .inl ⟨_,rfl⟩
    · exact .inr ⟨_,rfl,.again hs hsame (eq_false_of_ne_true hconflict)⟩
    · exact .inl ⟨_,rfl⟩
  | none =>
    dsimp only
    split_ifs with hconflict hfull
    · exact .inl ⟨_,rfl⟩
    · exact .inl ⟨_,rfl⟩
    · refine .inr ⟨_,rfl,.added hs (eq_false_of_ne_true hconflict) ?_⟩
      rw [Bool.and_eq_true,Bool.not_eq_true',decide_eq_true_eq,not_and_or,not_lt,
        Bool.not_eq_false] at hfull
      exact hfull

/-- A call is refused without effect, or takes a step. -/
theorem SegmentDicts.call_step (d : SegmentDicts) (hashes : Hashes) (c : DictCall) :
    (∃ e, d.call hashes c.2 c.1 = (.error e,d)) ∨
      ∃ id answer next, StrId.of hashes c.2 = some id ∧ d.call hashes c.2 c.1 = (.ok answer,next) ∧
        DictStep hashes d id c.2 c.1.req next := by
  cases hid : StrId.of hashes c.2 with
  | none => exact .inl ⟨_,(call_zero hid (.new d.limits) d c.1).2⟩
  | some id =>
    have hinsert : d.insert hashes c.2 c.1.req = d.tryInsert hashes id c.2 c.1.req := by
      rw [insert,hid]
    rcases d.tryInsert_step hashes id c.2 c.1.req with ⟨e,he⟩ | ⟨next,he,hstep⟩
    · exact .inl ⟨e,call_error (hinsert.trans he)⟩
    · exact .inr ⟨id,_,next,rfl,call_ok (hinsert.trans he),hstep⟩

/-- A property that accepted requests keep holds after every call. -/
theorem SegmentDicts.call_keeps {P : SegmentDicts → Prop} {c : DictCall}
    (hstep : ∀ id next, StrId.of hashes c.2 = some id → DictStep hashes d id c.2 c.1.req next → P next)
    (h : P d) : P (d.call hashes c.2 c.1).2 := by
  rcases d.call_step hashes c with ⟨e,he⟩ | ⟨id,answer,next,hid,he,hnext⟩
  · rw [he]
    exact h
  · rw [he]
    exact hstep id next hid hnext

theorem DictStep.limits (h : DictStep hashes d id v req next) : next.limits = d.limits := by
  cases h <;> rfl

theorem DictStep.inv (h : DictStep hashes d id v req next) (hd : DictInv hashes used d)
    (hv : used v) (hid : StrId.of hashes v = some id) : DictInv hashes used next := by
  cases h with
  | again present same agrees =>
    rename_i s
    obtain ⟨w,hw,hwid,hsw⟩ := hd.stored id s present
    have hnext : { s with req := s.req.merge req } = d.limits.store hashes w (s.req.merge req) := by
      rw [hsw]
      rfl
    rw [hnext]
    exact hd.write hw hwid (by rw [hsw] at agrees; exact agrees) _
  | added absent agrees room => exact hd.write hv hid agrees _

theorem DictInv.call (h : DictInv hashes used d) {c : DictCall} (hv : used c.2) :
    DictInv hashes used (d.call hashes c.2 c.1).2 :=
  SegmentDicts.call_keeps (fun _ _ hid hstep => hstep.inv h hv hid) h

theorem DictInv.calls (h : DictInv hashes used d) {cs : List DictCall} (hused : ∀ c ∈ cs, used c.2) :
    DictInv hashes used (SegmentDicts.calls hashes cs d).2 := by
  induction cs generalizing d with
  | nil => exact h
  | cons c cs ih =>
    exact ih (h.call (hused c List.mem_cons_self)) fun c' hc' =>
      hused c' (List.mem_cons_of_mem _ hc')

theorem SegmentDicts.calls_limits (hashes : Hashes) (cs : List DictCall) (d : SegmentDicts) :
    (SegmentDicts.calls hashes cs d).2.limits = d.limits := by
  induction cs generalizing d with
  | nil => rfl
  | cons c cs ih =>
    refine (ih _).trans ?_
    exact call_keeps (P := fun next => next.limits = d.limits) (fun _ _ _ hstep => hstep.limits) rfl

end Steps

section Counter

variable {hashes : Hashes} {d next : SegmentDicts} {id : StrId} {v : Bytes} {req : Requirements}

/-- Rewriting an entry without changing what it adds leaves a sum over the entries. -/
theorem OrderedMap.sum_insert_same {κ ν M : Type} [LinearOrder κ] [AddCommMonoid M]
    {m : OrderedMap κ ν} {k : κ} {a b : ν} (h : m.lookup k = some a) (f : κ → ν → M)
    (hf : f k b = f k a) :
    ((m.insert k b).entries.map fun p => f p.1 p.2).sum = (m.entries.map fun p => f p.1 p.2).sum := by
  have hkeys : ∀ p ∈ (m.insert k b).entries, p.1 ∈ (m.entries.map Prod.fst).toFinset := by
    intro p hp
    have hlookup := OrderedMap.mem_entries_iff.mp hp
    rw [List.mem_toFinset,List.mem_map]
    by_cases hk : p.1 = k
    · exact ⟨(k,a),OrderedMap.mem_entries_iff.mpr h,hk.symm⟩
    · rw [OrderedMap.lookup_insert_of_ne _ hk] at hlookup
      exact ⟨p,OrderedMap.mem_entries_iff.mpr hlookup,rfl⟩
  rw [OrderedMap.sum_entries _ f _ hkeys,OrderedMap.sum_entries m f _ fun p hp =>
    List.mem_toFinset.mpr (List.mem_map_of_mem hp)]
  refine Finset.sum_congr rfl fun k' _ => ?_
  rw [OrderedMap.lookup_insert]
  split_ifs with hk
  · rw [hk,h]
    exact hf
  · rfl

/-- The stored bytes of all entries. -/
def SegmentDicts.entryBytes (d : SegmentDicts) : ℕ :=
  (d.entries.entries.map fun p => p.2.bytes.length).sum

theorem DictStep.counted (h : DictStep hashes d id v req next) (hd : d.storedBytes = d.entryBytes) :
    next.storedBytes = next.entryBytes := by
  cases h with
  | again present same agrees =>
    rename_i s
    have hsame := OrderedMap.sum_insert_same (b := { s with req := s.req.merge req }) present
      (fun _ s => s.bytes.length) rfl
    rw [SegmentDicts.entryBytes,hsame]
    exact hd
  | added absent agrees room =>
    rw [SegmentDicts.entryBytes,((OrderedMap.insert_perm absent _).map _).sum_eq,List.map_cons,
      List.sum_cons]
    dsimp only
    rw [hd,SegmentDicts.entryBytes,DictLimits.store,List.length_take,Nat.add_comm,min_comm]

theorem SegmentDicts.calls_counted (hashes : Hashes) (cs : List DictCall) {d : SegmentDicts}
    (h : d.storedBytes = d.entryBytes) :
    (SegmentDicts.calls hashes cs d).2.storedBytes = (SegmentDicts.calls hashes cs d).2.entryBytes := by
  induction cs generalizing d with
  | nil => exact h
  | cons c cs ih =>
    exact ih (call_keeps (P := fun next => next.storedBytes = next.entryBytes)
      (fun _ _ _ hstep => hstep.counted h) h)

/-- The sizes by dictionary add up to the stored bytes. -/
theorem SegmentDicts.stats_bytes (d : SegmentDicts) :
    d.stats.stringBytes + d.stats.blobBytes = d.entryBytes := by
  rw [stats,entryBytes]
  induction d.entries.entries with
  | nil => rfl
  | cons p es ih =>
    rw [List.map_cons,List.sum_cons,List.map_cons,List.sum_cons,← ih]
    have hadd : ∀ a b : DictStats, (a+b).stringBytes + (a+b).blobBytes =
        (a.stringBytes + a.blobBytes) + (b.stringBytes + b.blobBytes) := fun a b =>
      Nat.add_add_add_comm a.stringBytes b.stringBytes a.blobBytes b.blobBytes
    rw [hadd]
    refine congrArg (· + _) ?_
    cases p.2.placement with
    | strings => exact Nat.add_zero _
    | blobs => exact Nat.zero_add _

/-- The bytes that strict hot calls were the first to store. -/
def SegmentDicts.strictBytes (hashes : Hashes) : List DictCall → SegmentDicts → ℕ
  | [],_ => 0
  | c::cs,d =>
    (if c.1 = .internHot then (d.call hashes c.2 c.1).2.storedBytes - d.storedBytes else 0) +
      SegmentDicts.strictBytes hashes cs (d.call hashes c.2 c.1).2

/-- The cap as it stands after strict hot calls stored some bytes of their own. -/
def SegmentDicts.Capped (d : SegmentDicts) (strict : ℕ) : Prop :=
  d.storedBytes ≤ u64Max → d.storedBytes ≤ d.limits.maxTotalBytes + strict

theorem SegmentDicts.Capped.call {n : ℕ} (h : d.Capped n) (c : DictCall) :
    (d.call hashes c.2 c.1).2.Capped (n + if c.1 = .internHot then
      (d.call hashes c.2 c.1).2.storedBytes - d.storedBytes else 0) := by
  rcases d.call_step hashes c with ⟨e,he⟩ | ⟨id,answer,next,-,he,hstep⟩
  · rw [he,Nat.sub_self,ite_self]
    exact h
  · rw [he]
    dsimp only
    cases hstep with
    | again present same agrees =>
      rw [Nat.sub_self,ite_self]
      exact h
    | added absent agrees room =>
      intro hfits
      dsimp only at hfits ⊢
      rw [InternCall.req_hotHard,decide_eq_true_eq] at room
      split_ifs with hstrict
      · have hle := h (by omega)
        omega
      · have hroom := room.resolve_left hstrict
        rw [saturatingAdd,min_eq_left hfits] at hroom
        omega

theorem SegmentDicts.calls_capped (hashes : Hashes) (cs : List DictCall) {d : SegmentDicts} {n : ℕ}
    (h : d.Capped n) :
    (SegmentDicts.calls hashes cs d).2.Capped (n + SegmentDicts.strictBytes hashes cs d) := by
  induction cs generalizing d n with
  | nil => exact h
  | cons c cs ih =>
    rw [strictBytes,← Nat.add_assoc]
    exact ih (h.call c)

end Counter

section Listings

variable (d : SegmentDicts)

theorem SegmentDicts.mem_strings (id : StrId) :
    id ∈ d.strings.map Prod.fst ↔ ∃ s, d.entries.lookup id = some s ∧ s.isBlob = false := by
  rw [strings,List.map_map,List.mem_map]
  constructor
  · rintro ⟨p,hp,rfl⟩
    obtain ⟨hmem,hkind⟩ := List.mem_filter.mp hp
    exact ⟨p.2,OrderedMap.mem_entries_iff.mp hmem,by simpa using hkind⟩
  · rintro ⟨s,hs,hkind⟩
    exact ⟨(id,s),List.mem_filter.mpr ⟨OrderedMap.mem_entries_iff.mpr hs,by simpa using hkind⟩,rfl⟩

theorem SegmentDicts.mem_blobs (id : StrId) :
    id ∈ d.blobs.map BlobEntry.strId ↔ ∃ s, d.entries.lookup id = some s ∧ s.isBlob = true := by
  rw [blobs,List.map_map,List.mem_map]
  constructor
  · rintro ⟨p,hp,rfl⟩
    obtain ⟨hmem,hkind⟩ := List.mem_filter.mp hp
    exact ⟨p.2,OrderedMap.mem_entries_iff.mp hmem,hkind⟩
  · rintro ⟨s,hs,hkind⟩
    exact ⟨(id,s),List.mem_filter.mpr ⟨OrderedMap.mem_entries_iff.mpr hs,hkind⟩,rfl⟩

theorem SegmentDicts.strings_ascending : (d.strings.map Prod.fst).Pairwise (· < ·) := by
  rw [strings,List.map_map,List.pairwise_map]
  exact d.entries.ascending.filter _

theorem SegmentDicts.blobs_ascending : (d.blobs.map BlobEntry.strId).Pairwise (· < ·) := by
  rw [blobs,List.map_map,List.pairwise_map]
  exact d.entries.ascending.filter _

/-- Strings and blobs share the ids among them. -/
theorem SegmentDicts.partition (id : StrId) :
    (d.resolves id = true ↔ id ∈ d.strings.map Prod.fst ∨ id ∈ d.blobs.map BlobEntry.strId) ∧
      ¬(id ∈ d.strings.map Prod.fst ∧ id ∈ d.blobs.map BlobEntry.strId) := by
  rw [d.mem_strings,d.mem_blobs,resolves_iff,Option.isSome_iff_exists]
  constructor
  · constructor
    · rintro ⟨s,hs⟩
      cases hkind : s.isBlob with
      | false => exact .inl ⟨s,hs,hkind⟩
      | true => exact .inr ⟨s,hs,hkind⟩
    · rintro (⟨s,hs,-⟩ | ⟨s,hs,-⟩) <;> exact ⟨s,hs⟩
  · rintro ⟨⟨s,hs,hstring⟩,s',hs',hblob⟩
    rw [hs] at hs'
    cases hs'
    rw [hstring] at hblob
    cases hblob

theorem SegmentDicts.hotStrings_strings : d.hotStrings.Sublist d.strings := by
  rw [hotStrings,strings]
  refine List.Sublist.map _ ?_
  have hhot : (d.entries.entries.filter fun p => p.2.isHot) =
      (d.entries.entries.filter fun p => !p.2.isBlob).filter fun p => p.2.isHot := by
    rw [List.filter_filter]
    refine List.filter_congr fun p _ => ?_
    rw [Stored.isHot]
    cases p.2.isBlob <;> simp
  rw [hhot]
  exact List.filter_sublist

end Listings

/-- The digest tells the values in use apart. -/
def DigestInjective (hashes : Hashes) (used : Bytes → Prop) : Prop :=
  ∀ v w, used v → used w → hashes.sha256 v = hashes.sha256 w → v = w

section Values

variable {hashes : Hashes} {used : Bytes → Prop} {d : SegmentDicts} {id : StrId} {v w : Bytes}

/-- An entry is told from every other value in use. -/
theorem checkSameValue_iff (hsha : DigestInjective hashes used) (hv : used v) (hw : used w)
    (limits : DictLimits) (req : Requirements) :
    checkSameValue hashes (limits.store hashes v req) w = true ↔ w = v := by
  constructor
  · intro h
    rw [checkSameValue,DictLimits.store,Bool.and_eq_true] at h
    obtain ⟨-,hsame⟩ := h
    dsimp only at hsame
    split_ifs at hsame with hlong
    · exact hsha w v hw hv (beq_iff_eq.mp hsame)
    · rw [List.take_of_length_le (not_lt.mp hlong)] at hsame
      exact (beq_iff_eq.mp hsame).symm
  · rintro rfl
    exact checkSameValue_store hashes limits w req

theorem SegmentDicts.call_again (hid : StrId.of hashes v = some id) {s : Stored}
    (hs : d.entries.lookup id = some s) (hsame : checkSameValue hashes s v = true) (kind : InternCall)
    (n : UInt64) : (d.call hashes v kind).1 ≠ .error (.collision n) := by
  have hinsert : d.insert hashes v kind.req = if (s.req.merge kind.req).conflicts s.oversized then
      (.error (.placementConflict id),d) else (.ok id,{ d with
        entries := d.entries.insert id { s with req := s.req.merge kind.req } }) := by
    rw [insert,hid]
    dsimp only
    rw [tryInsert,hs]
    dsimp only
    rw [if_pos hsame]
  split_ifs at hinsert
  · rw [call_error hinsert]
    intro h
    cases h
  · rw [call_ok hinsert]
    intro h
    cases h

theorem SegmentDicts.call_other (hid : StrId.of hashes w = some id) {s : Stored}
    (hs : d.entries.lookup id = some s) (hother : checkSameValue hashes s w = false)
    (kind : InternCall) : (d.call hashes w kind).1 = .error (.collision id.get) := by
  have hinsert : d.insert hashes w kind.req = (.error (.collision id.get),d) := by
    rw [insert,hid]
    dsimp only
    rw [tryInsert,hs]
    dsimp only
    rw [if_neg (by simp [hother])]
  rw [call_error hinsert]

end Values

/-- What the entries, the counter and the listings agree on after the calls `cs`. -/
structure DictRepresentation (hashes : Hashes) (limits : DictLimits) (used : Bytes → Prop)
    (cs : List DictCall) (d : SegmentDicts) : Prop where
  refusedUnchanged : ∀ v kind e, (d.call hashes v kind).1 = .error e → (d.call hashes v kind).2 = d
  counted : d.storedBytes = (d.entries.entries.map fun p => p.2.bytes.length).sum
  sized : d.storedBytes = d.stats.stringBytes + d.stats.blobBytes
  stringsAscending : (d.strings.map Prod.fst).Pairwise (· < ·)
  blobsAscending : (d.blobs.map BlobEntry.strId).Pairwise (· < ·)
  partition : ∀ id, (d.resolves id = true ↔
      id ∈ d.strings.map Prod.fst ∨ id ∈ d.blobs.map BlobEntry.strId) ∧
    ¬(id ∈ d.strings.map Prod.fst ∧ id ∈ d.blobs.map BlobEntry.strId)
  hotStrings : d.hotStrings.Sublist d.strings
  entry : ∀ id s, d.entries.lookup id = some s →
    ∃ v, (∃ kind, (kind,v) ∈ cs) ∧ StrId.of hashes v = some id ∧ s.fullLen = v.length ∧
      s.bytes = v.take limits.truncateLimit ∧
      (s.fullSha256.isSome = true ↔ limits.truncateLimit < s.fullLen) ∧
      checkSameValue hashes s v = true ∧
      (∀ kind n, (d.call hashes v kind).1 ≠ .error (.collision n)) ∧
      ∀ w, used w → w ≠ v → StrId.of hashes w = some id →
        ∀ kind, (d.call hashes w kind).1 = .error (.collision id.get)
  capped : d.storedBytes ≤ u64Max →
    d.storedBytes - SegmentDicts.strictBytes hashes cs (.new limits) ≤ limits.maxTotalBytes

/-- A dictionary keeps its representation over any calls, refused ones included. -/
theorem dictionary_representation (hashes : Hashes) (limits : DictLimits) (used : Bytes → Prop)
    (hsha : DigestInjective hashes used) (cs : List DictCall) (hused : ∀ c ∈ cs, used c.2) :
    DictRepresentation hashes limits used cs (SegmentDicts.calls hashes cs (.new limits)).2 := by
  have hinv : DictInv hashes (fun v => ∃ kind, (kind,v) ∈ cs)
      (SegmentDicts.calls hashes cs (.new limits)).2 :=
    (DictInv.new hashes _ limits).calls fun c hc => ⟨c.1,hc⟩
  have hlimits := SegmentDicts.calls_limits hashes cs (.new limits)
  have hcounted := SegmentDicts.calls_counted hashes cs (d := .new limits) rfl
  have hcapped := SegmentDicts.calls_capped hashes cs (d := .new limits) (n := 0)
    fun _ => Nat.zero_le _
  rw [Nat.zero_add] at hcapped
  generalize (SegmentDicts.calls hashes cs (.new limits)).2 = d at *
  refine ⟨fun v kind e he => ?_,hcounted,by rw [d.stats_bytes,hcounted],d.strings_ascending,
    d.blobs_ascending,d.partition,d.hotStrings_strings,fun id s hs => ?_,fun hfits => ?_⟩
  · rcases d.call_step hashes (kind,v) with ⟨e',he'⟩ | ⟨id,answer,next,-,he',-⟩
    · exact congrArg Prod.snd he'
    · rw [he'] at he
      cases he
  · obtain ⟨v,⟨kind,hkind⟩,hid,hstore⟩ := hinv.stored id s hs
    rw [hlimits] at hstore
    have hv : used v := hused _ hkind
    have hsame : checkSameValue hashes s v = true := by
      rw [hstore]
      exact checkSameValue_store hashes _ v _
    refine ⟨v,⟨kind,hkind⟩,hid,by rw [hstore]; rfl,by rw [hstore]; rfl,?_,hsame,
      fun kind n => SegmentDicts.call_again hid hs hsame kind n,fun w hw hne hwid kind => ?_⟩
    · rw [hstore,DictLimits.store]
      dsimp only
      split_ifs with hlong
      · exact iff_of_true rfl hlong
      · exact iff_of_false (by simp) hlong
    · refine SegmentDicts.call_other hwid hs ?_ kind
      rw [hstore]
      exact eq_false_of_ne_true fun hcheck => hne ((checkSameValue_iff hsha hv hw _ _).mp hcheck)
  · have hle := hcapped hfits
    rw [hlimits] at hle
    exact Nat.sub_le_iff_le_add.mpr hle

theorem dictionary_representation_sample :
    DictRepresentation sampleHashes .default sampleUsed [(.internHot,[97]),(.internBlob,[97]),
      (.intern,[98])] (SegmentDicts.calls sampleHashes [(.internHot,[97]),(.internBlob,[97]),
        (.intern,[98])] (.new .default)).2 := by
  refine dictionary_representation sampleHashes .default sampleUsed ?_ _ ?_
  · rintro v w (rfl | rfl) (rfl | rfl) h
    · rfl
    · exact absurd h (by decide)
    · exact absurd h (by decide)
    · rfl
  · intro c hc
    simp only [List.mem_cons,List.not_mem_nil,or_false] at hc
    rcases hc with rfl | rfl | rfl <;> simp [sampleUsed]

end PgKronika
