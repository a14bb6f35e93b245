import PgKronika.InternerRefinement

/-! Strict hot values through the interner: once accepted they stand in every window, but the first
insertion is subject to the cap. -/
namespace PgKronika

open ByteCodec CheckedArith

section Same

variable {hashes : Hashes} {v w : Bytes} {id : StrId}

/-- The dictionary holds `w` and cannot tell `v` from it. -/
def SegmentDicts.Mistakes (d : SegmentDicts) (hashes : Hashes) (id : StrId) (v w : Bytes) : Prop :=
  ∃ r, d.entries.lookup id = some (d.limits.store hashes w r) ∧
    checkSameValue hashes (d.limits.store hashes w r) v = true

theorem SegmentDicts.Mistakes.insert {d : SegmentDicts} (h : d.Mistakes hashes id v w)
    (hv : StrId.of hashes v = some id) (hw : StrId.of hashes w = some id) (req : Requirements) :
    d.insert hashes v req = d.insert hashes w req ∧
      (d.insert hashes w req).2.Mistakes hashes id v w := by
  obtain ⟨r,hs,hsame⟩ := h
  have hown := insert_present hw hs rfl req
  have hother : d.insert hashes v req = d.insert hashes w req := by
    rw [hown,SegmentDicts.insert,hv]
    dsimp only
    rw [tryInsert,hs]
    dsimp only
    rw [if_pos hsame]
    rfl
  refine ⟨hother,?_⟩
  rw [hown]
  split_ifs
  · exact ⟨r,hs,hsame⟩
  · exact ⟨_,OrderedMap.lookup_insert_self ..,hsame⟩

theorem applyFlags_mistakes {d : SegmentDicts} (h : d.Mistakes hashes id v w)
    (hv : StrId.of hashes v = some id) (hw : StrId.of hashes w = some id) (out : StrId)
    (req : Requirements) : applyFlags hashes out v req d = applyFlags hashes out w req d := by
  have hflag : ∀ {d : SegmentDicts}, d.Mistakes hashes id v w → ∀ (set : Bool) (more : Requirements),
      (if set then d.insert hashes v more else (.ok out,d)) =
        (if set then d.insert hashes w more else (.ok out,d)) ∧
      (if set then d.insert hashes w more else (.ok out,d)).2.Mistakes hashes id v w := by
    intro d h set more
    cases set with
    | true => exact h.insert hv hw more
    | false => exact ⟨rfl,h⟩
  obtain ⟨hblob,hafter⟩ := hflag h req.blob { Requirements.default with blob := true }
  rw [applyFlags,applyFlags,SegmentDicts.internBlob,SegmentDicts.internBlob,hblob]
  generalize (if req.blob then d.insert hashes w { Requirements.default with blob := true }
    else (.ok out,d)) = first at hafter ⊢
  obtain ⟨answer,d1⟩ := first
  cases answer with
  | error e => rfl
  | ok id1 =>
    obtain ⟨hhot,hlast⟩ := hflag hafter req.hotHard { Requirements.default with hotHard := true }
    dsimp only at hhot hlast ⊢
    rw [SegmentDicts.internHot,SegmentDicts.internHot,hhot]
    generalize (if req.hotHard then d1.insert hashes w { Requirements.default with hotHard := true }
      else (.ok out,d1)) = second at hlast ⊢
    obtain ⟨answer,d2⟩ := second
    cases answer with
    | error e => rfl
    | ok id2 =>
      dsimp only
      rw [SegmentDicts.internHotBestEffort,SegmentDicts.internHotBestEffort,
        (SegmentDicts.Mistakes.insert hlast hv hw _).1]

end Same

/-- What an accepted request does. -/
inductive RequestStep (hashes : Hashes) (t : Interner) (id : StrId) (v : Bytes) (req : Requirements) :
    Interner → Prop
  | window {w : Bytes} {r : Requirements} (has : t.window.Has hashes id w r)
      (named : StrId.of hashes w = some id)
      (same : checkSameValue hashes (t.window.limits.store hashes w r) v = true)
      (agrees : (r.merge req).conflicts (decide (t.window.limits.blobThreshold ≤ v.length)) = false) :
      RequestStep hashes t id v req (t.withEntry hashes id w (r.merge req) t.window.storedBytes)
  | fresh (absent : t.window.entries.lookup id = none) (unknown : t.flushed.lookup id = none)
      (agrees : req.conflicts (decide (t.window.limits.blobThreshold ≤ v.length)) = false) :
      RequestStep hashes t id v req (t.withEntry hashes id v req
        (t.window.storedBytes + min v.length t.window.limits.truncateLimit))
  | upgrade {f : Flushed} (absent : t.window.entries.lookup id = none)
      (known : t.flushed.lookup id = some f) (fits : f.fits hashes v = true)
      (agrees : (f.req.merge req).conflicts
        (decide (t.window.limits.blobThreshold ≤ v.length)) = false) :
      RequestStep hashes t id v req ((t.withEntry hashes id v (f.req.merge req)
        (t.window.storedBytes + min v.length t.window.limits.truncateLimit)).recordFlushedBits id
          (f.req.merge req))
  | kept {f : Flushed} (absent : t.window.entries.lookup id = none)
      (known : t.flushed.lookup id = some f) (soft : (f.req.merge req).hotHard = f.hotHard) :
      RequestStep hashes t id v req t
  | softened {f : Flushed} (absent : t.window.entries.lookup id = none)
      (known : t.flushed.lookup id = some f) (soft : (f.req.merge req).hotHard = f.hotHard) :
      RequestStep hashes t id v req (t.recordFlushedBits id (f.req.merge req))

section Steps

variable {hashes : Hashes} {t next : Interner} {id : StrId} {v : Bytes} {req : Requirements}

/-- A request for an id of the window is refused without effect, or adds to its entry. -/
theorem Interner.applyToWindow_step (h : DictInv hashes (fun _ => True) t.window)
    (hid : StrId.of hashes v = some id) {s : Stored} (hs : t.window.entries.lookup id = some s)
    (req : Requirements) :
    (∃ e, t.applyToWindow hashes id v req = (.error e,t) ∧ e.isFull = false) ∨
    ∃ hot next, t.applyToWindow hashes id v req = (.ok (id,hot),next) ∧
      RequestStep hashes t id v req next := by
  obtain ⟨w,-,hw,hstore⟩ := h.stored id s hs
  have hstrict := h.strict id s hs
  cases hsame : checkSameValue hashes s v with
  | false =>
    left
    have hintern : t.window.intern hashes v = (.error (.collision id.get),t.window) := by
      rw [SegmentDicts.intern,SegmentDicts.insert,hid]
      dsimp only
      rw [SegmentDicts.tryInsert,hs]
      dsimp only
      rw [if_neg (by simp [hsame])]
    rw [Interner.applyToWindow]
    split_ifs
    · exact ⟨_,rfl,rfl⟩
    · rw [hintern]
      exact ⟨_,rfl,rfl⟩
  | true =>
    have hlen : w.length = v.length := by
      rw [checkSameValue,Bool.and_eq_true,beq_iff_eq,hstore] at hsame
      exact hsame.1
    rw [hstore] at hs hsame hstrict
    have hhas : t.window.Has hashes id w s.req := ⟨hs,hstrict⟩
    have hmistakes : t.window.Mistakes hashes id v w := ⟨s.req,hs,hsame⟩
    have hown := Interner.applyToWindow_present hw hhas req
    have hother : t.applyToWindow hashes id v req = t.applyToWindow hashes id w req := by
      rw [Interner.applyToWindow,Interner.applyToWindow,hlen,SegmentDicts.intern,SegmentDicts.intern,
        (hmistakes.insert hid hw _).1]
      have hafter := (hmistakes.insert hid hw .default).2
      generalize t.window.insert hashes w .default = first at hafter ⊢
      obtain ⟨answer,d1⟩ := first
      cases answer with
      | error e => rfl
      | ok id1 =>
        dsimp only
        rw [applyFlags_mistakes hafter hid hw]
    rw [hother,hown,hlen]
    split_ifs with hconflict
    · exact .inl ⟨_,rfl,rfl⟩
    · exact .inr ⟨_,_,rfl,.window hhas hw hsame (eq_false_of_ne_true hconflict)⟩

/-- A request is refused without effect, or takes a step. -/
theorem Interner.request_step (h : DictInv hashes (fun _ => True) t.window)
    (hid : StrId.of hashes v = some id) (req : Requirements) :
    (∃ e, t.request hashes v req = (.error e,t)) ∨
    ∃ hot next, t.request hashes v req = (.ok (id,hot),next) ∧
      RequestStep hashes t id v req next := by
  rw [request,hid]
  dsimp only
  cases hs : t.window.entries.lookup id with
  | some s =>
    rw [SegmentDicts.resolves_iff,hs,Option.isSome_some,if_pos rfl]
    rcases applyToWindow_step h hid hs req with ⟨e,he,-⟩ | hstep
    · exact .inl ⟨e,he⟩
    · exact .inr hstep
  | none =>
    rw [SegmentDicts.resolves_iff,hs,Option.isSome_none,if_neg Bool.false_ne_true]
    cases hf : t.flushed.lookup id with
    | none =>
      dsimp only
      rw [applyToWindow_absent_eq hid hs]
      split_ifs with hconflict hfull
      · exact .inl ⟨_,rfl⟩
      · exact .inl ⟨_,rfl⟩
      · exact .inr ⟨_,_,rfl,.fresh hs hf (eq_false_of_ne_true hconflict)⟩
    | some f =>
      dsimp only
      rw [requestFlushed]
      cases hfits : f.fits hashes v with
      | false => exact .inl ⟨_,rfl⟩
      | true =>
        have hlen : f.fullLen = v.length := by
          rw [Flushed.fits,Bool.and_eq_true,beq_iff_eq] at hfits
          exact hfits.1
        dsimp only
        rw [if_neg (by decide),hlen]
        by_cases hconflict : (f.req.merge req).conflicts
            (decide (t.window.limits.blobThreshold ≤ v.length)) = true
        · rw [if_pos hconflict]
          exact .inl ⟨_,rfl⟩
        · rw [if_neg hconflict]
          by_cases hdurable : ((f.req.merge req).blob != f.blobRequired ||
              (f.req.merge req).hotHard != f.hotHard) = true
          · rw [if_pos hdurable,applyToWindow_absent_eq hid hs,if_neg hconflict]
            split_ifs with hfull
            · exact .inl ⟨_,rfl⟩
            · exact .inr ⟨_,_,rfl,.upgrade hs hf hfits (eq_false_of_ne_true hconflict)⟩
          · rw [if_neg hdurable]
            have hsoft : (f.req.merge req).hotHard = f.hotHard := by
              simpa using (Bool.or_eq_false_iff.mp (eq_false_of_ne_true hdurable)).2
            split_ifs
            · exact .inr ⟨_,_,rfl,.softened hs hf hsoft⟩
            · exact .inr ⟨_,_,rfl,.kept hs hf hsoft⟩

end Steps

section Short

variable {hashes : Hashes} {limits : DictLimits} {v w : Bytes} {r r' : Requirements}

/-- A value that is kept in full is told from every other one. -/
theorem checkSameValue_short (hv : v.length ≤ limits.truncateLimit)
    (h : checkSameValue hashes (limits.store hashes w r) v = true) : w = v := by
  rw [checkSameValue,DictLimits.store,Bool.and_eq_true,beq_iff_eq] at h
  obtain ⟨hlen,hsame⟩ := h
  dsimp only at hlen hsame
  rw [if_neg (by omega),List.take_of_length_le (by omega)] at hsame
  exact beq_iff_eq.mp hsame

theorem store_injective_short (hv : v.length ≤ limits.truncateLimit)
    (h : limits.store hashes w r = limits.store hashes v r') : w = v :=
  checkSameValue_short hv (by rw [h]; exact checkSameValue_store hashes limits v r')

end Short

/-- Strict hot values are pinned, and every pinned value stands in the window. -/
structure HotInv (hashes : Hashes) (t : Interner) : Prop where
  window : DictInv hashes (fun _ => True) t.window
  pinned : ∀ id v, t.hotPinned.lookup id = some v → StrId.of hashes v = some id ∧
    ∃ r, t.window.Has hashes id v r ∧ r.hotHard = true
  windowHard : ∀ id s, t.window.entries.lookup id = some s → s.req.hotHard = true →
    t.hotPinned.contains id = true
  flushedHard : ∀ id f, t.flushed.lookup id = some f → f.hotHard = true →
    t.hotPinned.contains id = true

section Invariant

variable {hashes : Hashes} {t next : Interner} {id : StrId} {v : Bytes} {req : Requirements}

theorem HotInv.new (hashes : Hashes) (limits : DictLimits) : HotInv hashes (.new limits) where
  window := .new hashes _ limits
  pinned := by simp [Interner.new]
  windowHard := by simp [Interner.new,SegmentDicts.new]
  flushedHard := by simp [Interner.new]

/-- A strict hot value is short, and so kept in full, and not forced into the blobs. -/
theorem SegmentDicts.Has.short {d : SegmentDicts} {r : Requirements} (h : d.Has hashes id v r)
    (hhard : r.hotHard = true) : v.length < d.limits.blobThreshold ∧ r.blob = false := by
  have hvalid := h.2
  rw [Requirements.conflicts,hhard,Bool.true_and,Bool.or_eq_false_iff,decide_eq_false_iff_not,
    not_le] at hvalid
  exact ⟨hvalid.2,hvalid.1⟩

theorem DictLimits.blobThreshold_le (limits : DictLimits) :
    limits.blobThreshold ≤ limits.truncateLimit := limits.valid.2.1

/-- A pinned id is never out of the window. -/
theorem HotInv.not_contains (h : HotInv hashes t) (habsent : t.window.entries.lookup id = none) :
    t.hotPinned.contains id = false := by
  cases hpin : t.hotPinned.lookup id with
  | none => rw [OrderedMap.contains,hpin]; rfl
  | some w =>
    obtain ⟨-,r,hhas,-⟩ := h.pinned id w hpin
    rw [hhas.1] at habsent
    cases habsent

/-- What the records of an id say once a request has been accepted. -/
theorem Interner.recordFlushedBits_lookup {t : Interner} {merged : Requirements} {id' : StrId}
    {f : Flushed} (h : (t.recordFlushedBits id merged).flushed.lookup id' = some f) :
    (id' = id ∧ f.hotHard = merged.hotHard) ∨ t.flushed.lookup id' = some f := by
  rw [recordFlushedBits] at h
  cases hf : t.flushed.lookup id with
  | none =>
    rw [hf] at h
    exact .inr h
  | some old =>
    rw [hf] at h
    dsimp only at h
    rw [OrderedMap.lookup_insert] at h
    split_ifs at h with hid
    · cases h
      exact .inl ⟨hid,rfl⟩
    · exact .inr h

theorem Interner.recordFlushedBits_frame (t : Interner) (id : StrId) (merged : Requirements) :
    (t.recordFlushedBits id merged).window = t.window ∧
      (t.recordFlushedBits id merged).hotPinned = t.hotPinned := by
  rw [recordFlushedBits]
  cases t.flushed.lookup id <;> exact ⟨rfl,rfl⟩

theorem Interner.withEntry_lookup (t : Interner) (hashes : Hashes) (id id' : StrId) (w : Bytes)
    (r : Requirements) (n : ℕ) :
    (t.withEntry hashes id w r n).window.entries.lookup id' =
      if id' = id then some (t.window.limits.store hashes w r) else t.window.entries.lookup id' := by
  rw [withEntry,OrderedMap.lookup_insert]
  split_ifs <;> rfl

/-- Writing an entry that only adds to the old one keeps the pinned values in the window. -/
theorem HotInv.withEntry_pinned (h : HotInv hashes t) {w : Bytes} {r : Requirements} {n : ℕ}
    (hold : t.window.entries.lookup id = none ∨
      ∃ r0 more, t.window.Has hashes id w r0 ∧ r = r0.merge more)
    (hvalid : r.conflicts (decide (t.window.limits.blobThreshold ≤ w.length)) = false)
    {id' : StrId} {v' : Bytes} (hpin : t.hotPinned.lookup id' = some v') :
    ∃ r', (t.withEntry hashes id w r n).window.Has hashes id' v' r' ∧ r'.hotHard = true := by
  obtain ⟨-,r1,hhas,hhard⟩ := h.pinned id' v' hpin
  by_cases hid : id' = id
  · subst hid
    rcases hold with habsent | ⟨r0,more,hown,rfl⟩
    · rw [hhas.1] at habsent
      cases habsent
    · have hsame := hown.1.symm.trans hhas.1
      have hkept := (hhas.short hhard).1.le.trans t.window.limits.blobThreshold_le
      have hreq := congrArg Stored.req (Option.some.inj hsame)
      cases store_injective_short hkept (Option.some.inj hsame)
      refine ⟨_,⟨by rw [Interner.withEntry_lookup,if_pos rfl]; rfl,hvalid⟩,?_⟩
      rw [Requirements.merge,show r0 = r1 from hreq,hhard,Bool.true_or]
  · exact ⟨r1,⟨by rw [Interner.withEntry_lookup,if_neg hid]; exact hhas.1,hhas.2⟩,hhard⟩

/-- What an accepted request keeps, before its value is pinned. -/
structure HotStep (hashes : Hashes) (t : Interner) (id : StrId) (v : Bytes) (req : Requirements)
    (next : Interner) : Prop where
  window : DictInv hashes (fun _ => True) next.window
  limits : next.window.limits = t.window.limits
  hotPinned : next.hotPinned = t.hotPinned
  pinned : ∀ id' v', t.hotPinned.lookup id' = some v' →
    ∃ r, next.window.Has hashes id' v' r ∧ r.hotHard = true
  windowHard : ∀ id' s, next.window.entries.lookup id' = some s → s.req.hotHard = true →
    t.hotPinned.contains id' = true ∨ (id' = id ∧ req.hotHard = true)
  flushedHard : ∀ id' f, next.flushed.lookup id' = some f → f.hotHard = true →
    t.hotPinned.contains id' = true ∨ (id' = id ∧ req.hotHard = true)
  accepted : req.hotHard = true → ∃ r, next.window.Has hashes id v r ∧ r.hotHard = true

/-- The step of a request that writes the entry of `w`, told apart from nothing else by its id. -/
theorem HotInv.write (h : HotInv hashes t) {w : Bytes} {r : Requirements} {n : ℕ}
    (hnamed : StrId.of hashes w = some id)
    (hold : t.window.entries.lookup id = none ∨
      ∃ r0 more, t.window.Has hashes id w r0 ∧ r = r0.merge more)
    (hvalid : r.conflicts (decide (t.window.limits.blobThreshold ≤ w.length)) = false)
    (hhard : r.hotHard = true → t.hotPinned.contains id = true ∨ req.hotHard = true)
    (haccepted : req.hotHard = true → w = v ∧ r.hotHard = true) :
    HotStep hashes t id v req (t.withEntry hashes id w r n) where
  window := h.window.write trivial hnamed hvalid n
  limits := rfl
  hotPinned := rfl
  pinned := fun id' v' hpin => h.withEntry_pinned hold hvalid hpin
  windowHard := by
    intro id' s hs hhot
    rw [Interner.withEntry_lookup] at hs
    split_ifs at hs with hid
    · cases hs
      exact (hhard hhot).imp (fun hpin => by rw [hid]; exact hpin) fun hreq => ⟨hid,hreq⟩
    · exact .inl (h.windowHard id' s hs hhot)
  flushedHard := fun id' f hf hhot => .inl (h.flushedHard id' f hf hhot)
  accepted := by
    intro hreq
    obtain ⟨rfl,hhot⟩ := haccepted hreq
    exact ⟨r,⟨by rw [Interner.withEntry_lookup,if_pos rfl]; rfl,hvalid⟩,hhot⟩

/-- The same step with the record of a flushed value brought up to date. -/
theorem HotStep.record (h : HotStep hashes t id v req next) {merged : Requirements}
    (hhard : merged.hotHard = true → t.hotPinned.contains id = true ∨ req.hotHard = true) :
    HotStep hashes t id v req (next.recordFlushedBits id merged) := by
  obtain ⟨hwindow,hpinned⟩ := next.recordFlushedBits_frame id merged
  constructor
  · rw [hwindow]
    exact h.window
  · rw [hwindow]
    exact h.limits
  · rw [hpinned]
    exact h.hotPinned
  · rw [hwindow]
    exact h.pinned
  · rw [hwindow]
    exact h.windowHard
  · intro id' f hf hhot
    rcases Interner.recordFlushedBits_lookup hf with ⟨rfl,hbit⟩ | hf
    · rw [hbit] at hhot
      exact (hhard hhot).imp id fun hreq => ⟨rfl,hreq⟩
    · exact h.flushedHard id' f hf hhot
  · rw [hwindow]
    exact h.accepted

theorem HotInv.step (h : HotInv hashes t) (hid : StrId.of hashes v = some id)
    (hstep : RequestStep hashes t id v req next) : HotStep hashes t id v req next := by
  have hflushed : ∀ f, t.window.entries.lookup id = none → t.flushed.lookup id = some f →
      f.hotHard = false := fun f habsent hf => by
    cases hhard : f.hotHard with
    | false => rfl
    | true =>
      have hpin := h.flushedHard id f hf hhard
      rw [h.not_contains habsent] at hpin
      cases hpin
  have hkeep : (req.hotHard = true → False) → HotStep hashes t id v req t := fun hnot =>
    ⟨h.window,rfl,rfl,fun id' v' hpin => (h.pinned id' v' hpin).2,
      fun id' s hs hhot => .inl (h.windowHard id' s hs hhot),
      fun id' f hf hhot => .inl (h.flushedHard id' f hf hhot),fun hreq => (hnot hreq).elim⟩
  cases hstep with
  | window has named same agrees =>
    rename_i w r
    have hlen : w.length = v.length := by
      rw [checkSameValue,Bool.and_eq_true,beq_iff_eq] at same
      exact same.1
    refine h.write named (.inr ⟨r,req,has,rfl⟩) (by rw [hlen]; exact agrees) ?_ fun hreq => ?_
    · intro hhot
      rw [Requirements.merge,Bool.or_eq_true] at hhot
      exact hhot.imp_left fun hr => h.windowHard id _ has.1 hr
    · have hhot : (r.merge req).hotHard = true := by
        rw [Requirements.merge,hreq,Bool.or_true]
      rw [Requirements.conflicts,hhot,Bool.true_and,Bool.or_eq_false_iff,decide_eq_false_iff_not,
        not_le] at agrees
      exact ⟨checkSameValue_short (agrees.2.le.trans t.window.limits.blobThreshold_le) same,hhot⟩
  | fresh absent unknown agrees =>
    exact h.write hid (.inl absent) agrees .inr fun hreq => ⟨rfl,hreq⟩
  | upgrade absent known fits agrees =>
    rename_i f
    have hhot : (f.req.merge req).hotHard = req.hotHard := by
      rw [Requirements.merge,Flushed.req,hflushed f absent known,Bool.false_or]
    refine (h.write hid (.inl absent) agrees ?_ fun hreq => ⟨rfl,?_⟩).record ?_
    · rw [hhot]
      exact .inr
    · rw [hhot,hreq]
    · rw [hhot]
      exact .inr
  | kept absent known soft =>
    rename_i f
    refine hkeep fun hreq => ?_
    rw [Requirements.merge,hreq,Bool.or_true,hflushed f absent known] at soft
    cases soft
  | softened absent known soft =>
    rename_i f
    have hsoft : (f.req.merge req).hotHard = false := soft.trans (hflushed f absent known)
    refine (hkeep fun hreq => ?_).record fun hhot => ?_
    · rw [Requirements.merge,hreq,Bool.or_true] at hsoft
      cases hsoft
    · rw [hsoft] at hhot
      cases hhot

/-- A call is refused without effect, or takes a step and pins what is strict hot. -/
theorem HotInv.call_step (h : HotInv hashes t) (v : Bytes) (kind : InternCall) :
    (∃ e, t.call hashes v kind = (.error e,t)) ∨
    ∃ id answer next, StrId.of hashes v = some id ∧
      t.call hashes v kind = (.ok (id,answer),if kind = .internHot then next.pin id v else next) ∧
      HotStep hashes t id v kind.req next := by
  cases hid : StrId.of hashes v with
  | none => exact .inl ⟨_,(call_zero hid t t.window kind).1⟩
  | some id =>
    rcases t.request_step h.window hid kind.req with ⟨e,he⟩ | ⟨hot,next,he,hstep⟩
    · exact .inl ⟨e,Interner.call_error he⟩
    · exact .inr ⟨id,_,next,rfl,Interner.call_ok he,h.step hid hstep⟩

/-- Pinning the value of a strict hot request closes the step. -/
theorem HotStep.settled {kind : InternCall} (h : HotInv hashes t) (hid : StrId.of hashes v = some id)
    (hstep : HotStep hashes t id v kind.req next) :
    HotInv hashes (if kind = .internHot then next.pin id v else next) := by
  have hhot := kind.req_hotHard
  split_ifs with hkind
  · have hreq : kind.req.hotHard = true := by rw [hhot,hkind]; rfl
    obtain ⟨-,hwindow,hflushed⟩ := next.pin_standings id v
    constructor
    · rw [hwindow]
      exact hstep.window
    · intro id' v' hpin
      rw [hwindow]
      rcases Interner.lookup_pin hpin with ⟨rfl,rfl⟩ | hold
      · exact ⟨hid,hstep.accepted hreq⟩
      · rw [hstep.hotPinned] at hold
        exact ⟨(h.pinned id' v' hold).1,hstep.pinned id' v' hold⟩
    · intro id' s hs hhard
      rw [hwindow] at hs
      rw [Interner.contains_pin,hstep.hotPinned,Bool.or_eq_true,decide_eq_true_eq]
      exact (hstep.windowHard id' s hs hhard).symm.imp_left And.left
    · intro id' f hf hhard
      rw [hflushed] at hf
      rw [Interner.contains_pin,hstep.hotPinned,Bool.or_eq_true,decide_eq_true_eq]
      exact (hstep.flushedHard id' f hf hhard).symm.imp_left And.left
  · have hreq : ¬kind.req.hotHard = true := by
      rw [hhot]
      simpa using hkind
    constructor
    · exact hstep.window
    · intro id' v' hpin
      rw [hstep.hotPinned] at hpin
      exact ⟨(h.pinned id' v' hpin).1,hstep.pinned id' v' hpin⟩
    · intro id' s hs hhard
      rw [hstep.hotPinned]
      exact (hstep.windowHard id' s hs hhard).resolve_right fun hnew => hreq hnew.2
    · intro id' f hf hhard
      rw [hstep.hotPinned]
      exact (hstep.flushedHard id' f hf hhard).resolve_right fun hnew => hreq hnew.2

theorem HotInv.call (h : HotInv hashes t) (v : Bytes) (kind : InternCall) :
    HotInv hashes (t.call hashes v kind).2 := by
  rcases h.call_step v kind with ⟨e,he⟩ | ⟨id,answer,next,hid,he,hstep⟩
  · rw [he]
    exact h
  · rw [he]
    exact hstep.settled h hid

theorem Interner.pin_keeps {w : Bytes} {id' : StrId} (h : t.hotPinned.lookup id' = some w) :
    (t.pin id v).hotPinned.lookup id' = some w := by
  rw [pin]
  split_ifs with hpin
  · exact h
  · dsimp only
    rw [OrderedMap.lookup_insert_of_ne]
    · exact h
    · rintro rfl
      rw [OrderedMap.contains,h] at hpin
      exact hpin rfl

/-- What is pinned stays pinned. -/
theorem HotInv.call_pinned (h : HotInv hashes t) (v : Bytes) (kind : InternCall) {id' : StrId}
    {w : Bytes} (hpin : t.hotPinned.lookup id' = some w) :
    (t.call hashes v kind).2.hotPinned.lookup id' = some w := by
  rcases h.call_step v kind with ⟨e,he⟩ | ⟨id,answer,next,-,he,hstep⟩
  · rw [he]
    exact hpin
  · rw [← hstep.hotPinned] at hpin
    rw [he]
    dsimp only
    split_ifs
    · exact Interner.pin_keeps hpin
    · exact hpin

/-- An accepted strict hot value is pinned. -/
theorem HotInv.call_pins (h : HotInv hashes t) {v : Bytes} {id : StrId} {hot : Option Bool}
    (haccepted : (t.call hashes v .internHot).1 = .ok (id,hot)) :
    (t.call hashes v .internHot).2.hotPinned.lookup id = some v := by
  rcases h.call_step v .internHot with ⟨e,he⟩ | ⟨id',answer,next,hid,he,hstep⟩
  · rw [he] at haccepted
    cases haccepted
  · rw [he] at haccepted
    cases haccepted
    rw [he]
    dsimp only
    rw [if_pos rfl,Interner.pin]
    split_ifs with hpin
    · obtain ⟨w,hw⟩ := Option.isSome_iff_exists.mp hpin
      have hold := hw
      rw [hstep.hotPinned] at hold
      obtain ⟨r,hhas,hhard⟩ := hstep.pinned id w hold
      obtain ⟨r',hown,-⟩ := hstep.accepted rfl
      have hkept := (hhas.short hhard).1.le.trans next.window.limits.blobThreshold_le
      rw [hw,store_injective_short hkept (Option.some.inj (hown.1.symm.trans hhas.1))]
    · exact OrderedMap.lookup_insert_self ..

/-- A flush leaves just the pinned values in the window. -/
theorem HotInv.flush {ε : Type} (h : HotInv hashes t) (write : SegmentDicts → Except ε Unit) :
    HotInv hashes (t.flushWindow hashes write).2 ∧
      (t.flushWindow hashes write).2.hotPinned = t.hotPinned ∧
      (t.flushWindow hashes write).2.window.limits = t.window.limits := by
  rw [Interner.flushWindow]
  cases write t.window with
  | error e => exact ⟨h,rfl,rfl⟩
  | ok u =>
    have hshort : ∀ id v, t.hotPinned.lookup id = some v → StrId.of hashes v = some id ∧
        v.length < t.window.limits.blobThreshold := fun id v hpin => by
      obtain ⟨hid,r,hhas,hhard⟩ := h.pinned id v hpin
      exact ⟨hid,(hhas.short hhard).1⟩
    obtain ⟨hl,hentries⟩ := reinsertPinned_entries t.hotPinned.ascending
      (fun p hp => hshort p.1 p.2 (OrderedMap.mem_entries_iff.mp hp)) (w := .new t.window.limits) rfl
      fun _ _ => rfl
    dsimp only
    generalize reinsertPinned hashes t.hotPinned.entries (.new t.window.limits) = window at hl hentries ⊢
    have hlookup : ∀ id, window.entries.lookup id = (t.hotPinned.lookup id).map
        fun v => t.window.limits.store hashes v ⟨false,true,false⟩ := by
      intro id
      rw [hentries]
      refine (OrderedMap.lookup_overlay t.hotPinned
        (fun _ v => t.window.limits.store hashes v ⟨false,true,false⟩) _ id).trans ?_
      exact Option.or_none
    refine ⟨⟨⟨fun id s hs => ?_,fun id s hs => ?_⟩,fun id v hpin => ?_,fun id s hs _ => ?_,
      fun id f hf hhard => ?_⟩,rfl,hl⟩
    · rw [hlookup] at hs
      obtain ⟨v,hpin,rfl⟩ := Option.map_eq_some_iff.mp hs
      exact ⟨v,trivial,(hshort id v hpin).1,by rw [hl]; rfl⟩
    · rw [hlookup] at hs
      obtain ⟨v,hpin,rfl⟩ := Option.map_eq_some_iff.mp hs
      have hlt := (hshort id v hpin).2
      simp [DictLimits.store,Requirements.conflicts,hlt]
    · obtain ⟨hid,hlt⟩ := hshort id v hpin
      refine ⟨hid,⟨false,true,false⟩,⟨?_,?_⟩,rfl⟩
      · dsimp only
        rw [hlookup,hpin,hl]
        rfl
      · dsimp only
        rw [hl]
        simp [Requirements.conflicts,hlt]
    · rw [hlookup] at hs
      obtain ⟨v,hpin,-⟩ := Option.map_eq_some_iff.mp hs
      rw [OrderedMap.contains,hpin]
      rfl
    · dsimp only at hf ⊢
      rw [lookup_recordFlushed] at hf
      cases hs : t.window.entries.lookup id with
      | none =>
        rw [hs] at hf
        exact h.flushedHard id f hf hhard
      | some s =>
        rw [hs] at hf
        cases hf
        refine h.windowHard id s hs ?_
        change decide (s.req.hotMark = .hard) = true at hhard
        rw [Requirements.hotMark] at hhard
        revert hhard
        cases s.req.hotHard <;> cases s.req.hotSoft <;> simp

end Invariant

section Runs

variable {ε : Type} {hashes : Hashes} {t : Interner}

theorem HotInv.run (h : HotInv hashes t) (ops : List (InternerOp ε)) :
    HotInv hashes (Interner.run hashes ops t).2 := by
  induction ops generalizing t with
  | nil => exact h
  | cons op ops ih =>
    cases op with
    | call kind v => exact ih (h.call v kind)
    | flush write => exact ih (h.flush write).1

theorem HotInv.run_pinned (h : HotInv hashes t) (ops : List (InternerOp ε)) {id : StrId} {v : Bytes}
    (hpin : t.hotPinned.lookup id = some v) :
    (Interner.run hashes ops t).2.hotPinned.lookup id = some v := by
  induction ops generalizing t with
  | nil => exact hpin
  | cons op ops ih =>
    cases op with
    | call kind v => exact ih (h.call v kind) (h.call_pinned v kind hpin)
    | flush write =>
      obtain ⟨hnext,hkeep,-⟩ := h.flush write
      exact ih hnext (by rw [hkeep]; exact hpin)

theorem HotInv.run_limits (h : HotInv hashes t) (ops : List (InternerOp ε)) :
    (Interner.run hashes ops t).2.window.limits = t.window.limits := by
  induction ops generalizing t with
  | nil => rfl
  | cons op ops ih =>
    cases op with
    | call kind v =>
      refine (ih (h.call v kind)).trans ?_
      rcases h.call_step v kind with ⟨e,he⟩ | ⟨id,answer,next,-,he,hstep⟩
      · rw [he]
      · rw [he]
        dsimp only
        split_ifs
        · rw [(next.pin_standings id v).2.1]
          exact hstep.limits
        · exact hstep.limits
    | flush write =>
      obtain ⟨hnext,-,hlimits⟩ := h.flush write
      exact (ih hnext).trans hlimits

/-- A pinned value stands in the window and is hot there. -/
theorem HotInv.pinned_hot (h : HotInv hashes t) {id : StrId} {v : Bytes}
    (hpin : t.hotPinned.lookup id = some v) :
    ∃ s, t.window.entries.lookup id = some s ∧ s.bytes = v ∧ s.isHot = true := by
  obtain ⟨-,r,hhas,hhard⟩ := h.pinned id v hpin
  obtain ⟨hlt,hblob⟩ := hhas.short hhard
  refine ⟨_,hhas.1,?_,?_⟩
  · exact List.take_of_length_le (hlt.le.trans t.window.limits.blobThreshold_le)
  · rw [Stored.isHot,Stored.isBlob,DictLimits.store]
    simp [hblob,hhard,hlt]

end Runs

/-- Nothing stands in the way of a strict hot value for the cap's sake: its id is in the window, or the
record of its id refuses it, or there is room. -/
def HotRoom (hashes : Hashes) (t : Interner) (v : Bytes) : Prop :=
  ∀ id, StrId.of hashes v = some id →
    t.window.resolves id = true ∨
    (∃ f, t.flushed.lookup id = some f ∧ (f.fits hashes v = false ∨ f.blobRequired = true)) ∨
    saturatingAdd t.window.storedBytes v.length ≤ t.window.limits.maxTotalBytes

theorem Interner.call_full (t : Interner) (hashes : Hashes) (v : Bytes) (kind : InternCall) :
    answeredFull (t.call hashes v kind).1 = match (t.request hashes v kind.req).1 with
      | .error e => e.isFull
      | .ok _ => false := by
  rcases hrequest : t.request hashes v kind.req with ⟨e | ⟨id,hot⟩,next⟩
  · rw [call_error hrequest]
    rfl
  · rw [call_ok hrequest]
    rfl

/-- A short strict hot value that is not in the window is refused as full when there is no room. -/
theorem HotInv.call_full_iff {hashes : Hashes} {t : Interner} (h : HotInv hashes t) {v : Bytes}
    (hshort : v.length < t.window.limits.blobThreshold) :
    answeredFull (t.call hashes v .internHot).1 = false ↔ HotRoom hashes t v := by
  rw [Interner.call_full,Interner.request]
  cases hid : StrId.of hashes v with
  | none => exact iff_of_true rfl fun id hsome => by rw [hid] at hsome; cases hsome
  | some id =>
    have hroom : HotRoom hashes t v ↔ t.window.resolves id = true ∨
        (∃ f, t.flushed.lookup id = some f ∧ (f.fits hashes v = false ∨ f.blobRequired = true)) ∨
        saturatingAdd t.window.storedBytes v.length ≤ t.window.limits.maxTotalBytes :=
      ⟨fun hroom => hroom id hid,fun hroom id' hid' => by
        rw [hid] at hid'
        cases hid'
        exact hroom⟩
    have hmin : min v.length t.window.limits.truncateLimit = v.length :=
      min_eq_left (hshort.le.trans t.window.limits.blobThreshold_le)
    have hwide : decide (t.window.limits.blobThreshold ≤ v.length) = false := by simpa using hshort
    have happly : ∀ req : Requirements, req.blob = false → t.window.entries.lookup id = none →
        ((match (t.applyToWindow hashes id v req).1 with
          | .error e => e.isFull
          | .ok _ => false) = false ↔
        saturatingAdd t.window.storedBytes v.length ≤ t.window.limits.maxTotalBytes) := by
      intro req hblob habsent
      rw [Interner.applyToWindow_absent_eq hid habsent,hwide,hmin,Requirements.conflicts,hblob,
        Bool.or_false,Bool.and_false,if_neg Bool.false_ne_true]
      split_ifs with hfull
      · exact iff_of_false (by simp [DictError.isFull]) (not_le.mpr hfull)
      · exact iff_of_true rfl (not_lt.mp hfull)
    rw [hroom]
    dsimp only
    cases hs : t.window.entries.lookup id with
    | some s =>
      rw [SegmentDicts.resolves_iff,hs,Option.isSome_some,if_pos rfl]
      rcases Interner.applyToWindow_step h.window hid hs InternCall.internHot.req with
        ⟨e,he,hnot⟩ | ⟨hot,next,he,-⟩
      · rw [he]
        exact iff_of_true hnot (.inl rfl)
      · rw [he]
        exact iff_of_true rfl (.inl rfl)
    | none =>
      rw [SegmentDicts.resolves_iff,hs,Option.isSome_none,if_neg Bool.false_ne_true,
        or_iff_right Bool.false_ne_true]
      cases hf : t.flushed.lookup id with
      | none =>
        have hnever : ¬∃ f, (none : Option Flushed) = some f ∧
            (f.fits hashes v = false ∨ f.blobRequired = true) := by simp
        rw [or_iff_right hnever]
        exact happly _ rfl hs
      | some f =>
        have hhard : f.hotHard = false := by
          cases hhard : f.hotHard with
          | false => rfl
          | true =>
            have hpin := h.flushedHard id f hf hhard
            rw [h.not_contains hs] at hpin
            cases hpin
        dsimp only
        rw [Interner.requestFlushed]
        cases hfits : f.fits hashes v with
        | false => exact iff_of_true rfl (.inl ⟨f,rfl,.inl hfits⟩)
        | true =>
          have hlen : f.fullLen = v.length := by
            rw [Flushed.fits,Bool.and_eq_true,beq_iff_eq] at hfits
            exact hfits.1
          have hmerged : f.req.merge InternCall.internHot.req = ⟨f.blobRequired,true,f.hotSoft⟩ := by
            simp [Requirements.merge,Flushed.req,InternCall.req,Requirements.default]
          dsimp only
          rw [if_neg (by decide),hlen,hwide,hmerged,Requirements.conflicts]
          cases hblob : f.blobRequired with
          | true => exact iff_of_true rfl (.inl ⟨f,rfl,.inr hblob⟩)
          | false =>
            have hnot : ¬∃ g, some f = some g ∧ (g.fits hashes v = false ∨ g.blobRequired = true) := by
              rintro ⟨g,hg,hrefused⟩
              cases hg
              rw [hfits,hblob] at hrefused
              simp at hrefused
            rw [or_iff_right hnot,hhard]
            have hstep := happly ⟨false,true,f.hotSoft⟩ rfl hs
            rw [← hstep,if_neg (by simp)]
            dsimp only
            rw [if_pos (by simp)]
            rcases t.applyToWindow hashes id v ⟨false,true,f.hotSoft⟩ with ⟨e | ⟨id',hot⟩,next⟩ <;> rfl

/-- A strict hot value escapes the cap exactly where there is room for it or it is there already; once
accepted it is hot in every later window. -/
theorem intern_hot_exempt_iff {ε : Type} (hashes : Hashes) (limits : DictLimits)
    (ops : List (InternerOp ε)) (v : Bytes) :
    (v.length < limits.blobThreshold →
      (answeredFull ((Interner.run hashes ops (.new limits)).2.call hashes v .internHot).1 = false ↔
        HotRoom hashes (Interner.run hashes ops (.new limits)).2 v)) ∧
    ∀ id hot, ((Interner.run hashes ops (.new limits)).2.call hashes v .internHot).1 = .ok (id,hot) →
      ∀ later : List (InternerOp ε), ∃ s,
        (Interner.run hashes later ((Interner.run hashes ops (.new limits)).2.call hashes v
          .internHot).2).2.window.entries.lookup id = some s ∧ s.bytes = v ∧ s.isHot = true := by
  have hstart := HotInv.new hashes limits
  have hinv := hstart.run ops
  refine ⟨fun hshort => hinv.call_full_iff ?_,fun id hot haccepted later => ?_⟩
  · rw [hstart.run_limits ops]
    exact hshort
  · have hnext := hinv.call v .internHot
    exact (hnext.run later).pinned_hot (hnext.run_pinned later (hinv.call_pins haccepted))

/-- The real hashes of `a` and `ab`. -/
def capHashes : Hashes where
  xxh3 bytes := if bytes = [97] then 0xe6c632b61e964e1f else
    if bytes = [97,98] then 0xa873719c24d5735c else 0
  sha256 bytes := if bytes = [97] then
      [202,151,129,18,202,27,189,202,250,194,49,179,154,35,220,77,
        167,134,239,248,20,124,78,114,185,128,119,133,175,238,72,187]
    else [251,142,32,252,46,76,63,36,140,96,195,155,214,82,243,193,
      52,114,152,187,151,123,139,77,89,3,184,80,85,98,6,3]

/-- A window that two bytes fill. -/
def twoByteLimits : DictLimits := ⟨2,2,2,by decide⟩

/-- A blob fills the window, and then a short strict hot value is refused as full. -/
theorem intern_hot_answers_full :
    ([97] : Bytes).length < twoByteLimits.blobThreshold ∧
    answeredFull ((Interner.run capHashes ([.call .intern [97,98]] : List (InternerOp Unit))
      (.new twoByteLimits)).2.call capHashes [97] .internHot).1 = true := by decide

end PgKronika
