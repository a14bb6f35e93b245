import PgKronika.Interner

/-! The interner against one dictionary that is never flushed: both do to their values
what a request does to the standings. -/
namespace PgKronika

open ByteCodec CheckedArith

def Flushed.standing (limits : DictLimits) (f : Flushed) : Standing :=
  PgKronika.standing f.fullLen (decide (limits.blobThreshold ≤ f.fullLen)) f.req

/-- The window's copy of a value is the current one. -/
def Interner.standings (t : Interner) : Standings := fun id =>
  (t.window.standings id).or ((t.flushed.lookup id).map (Flushed.standing t.window.limits))

/-- The window holds entries of values in use, and so does every flushed record. -/
structure StoreInv (hashes : Hashes) (used : Bytes → Prop) (t : Interner) : Prop where
  window : DictInv hashes used t.window
  flushed : ∀ id f, t.flushed.lookup id = some f → ∃ v, used v ∧ StrId.of hashes v = some id ∧
    f.fullLen = v.length ∧ f.check = check16 hashes v ∧
    f.req.conflicts (decide (t.window.limits.blobThreshold ≤ v.length)) = false

/-- A value is pinned exactly while it is strict hot. -/
structure InternerInv (hashes : Hashes) (used : Bytes → Prop) (t : Interner) : Prop
    extends StoreInv hashes used t where
  pinned : ∀ id v, t.hotPinned.lookup id = some v → used v ∧ StrId.of hashes v = some id
  strict : ∀ id, t.hotPinned.contains id = (t.standings id).any Standing.strict

theorem InternerInv.new (hashes : Hashes) (used : Bytes → Prop) (limits : DictLimits) :
    InternerInv hashes used (.new limits) where
  window := .new hashes used limits
  flushed := by simp [Interner.new]
  pinned := by simp [Interner.new]
  strict := fun _ => rfl

theorem Requirements.default_merge (r : Requirements) : Requirements.default.merge r = r := by
  simp [merge,default]

theorem Requirements.conflicts_merge {r : Requirements} {wide : Bool} (h : r.conflicts wide = true)
    (more : Requirements) : (more.merge r).conflicts wide = true := by
  revert h
  simp only [merge,conflicts,Bool.and_eq_true,Bool.or_eq_true]
  tauto

theorem SegmentDicts.resolves_iff (d : SegmentDicts) (id : StrId) :
    d.resolves id = (d.entries.lookup id).isSome := rfl

section Request

variable {hashes : Hashes} {used : Bytes → Prop} {t : Interner} {v : Bytes} {id : StrId}
variable (hinj : IdInjective hashes used) (hv : used v) (hid : StrId.of hashes v = some id)
include hid

/-- The window's entry of the value after a request for it. -/
def Interner.withEntry (t : Interner) (hashes : Hashes) (id : StrId) (v : Bytes)
    (r : Requirements) (storedBytes : ℕ) : Interner :=
  { t with window := { t.window with
    entries := t.window.entries.insert id (t.window.limits.store hashes v r)
    storedBytes } }

theorem Interner.applyToWindow_present {r : Requirements} (h : t.window.Has hashes id v r)
    (req : Requirements) :
    t.applyToWindow hashes id v req =
      if (r.merge req).conflicts (decide (t.window.limits.blobThreshold ≤ v.length)) then
        (.error (.placementConflict id),t)
      else (.ok (id,(req.hotHard || req.hotSoft) && (t.window.limits.standing v (r.merge req)).hot),
        t.withEntry hashes id v (r.merge req) t.window.storedBytes) := by
  rw [applyToWindow]
  by_cases hreq : req.conflicts (decide (t.window.limits.blobThreshold ≤ v.length)) = true
  · rw [if_pos hreq,if_pos (Requirements.conflicts_merge hreq r)]
  · rw [if_neg hreq,SegmentDicts.intern,h.insert hid,Requirements.merge_default,h.2,
      if_neg Bool.false_ne_true,h.write_self]
    dsimp only
    rw [h.applyFlags hid (eq_false_of_ne_true hreq)]
    split_ifs <;> rfl

/-- A value that is not in the window is subject to the cap, whatever the request. -/
theorem Interner.applyToWindow_absent_eq (h : t.window.entries.lookup id = none)
    (req : Requirements) :
    t.applyToWindow hashes id v req =
      if req.conflicts (decide (t.window.limits.blobThreshold ≤ v.length)) then
        (.error (.placementConflict id),t)
      else if t.window.limits.maxTotalBytes <
          saturatingAdd t.window.storedBytes (min v.length t.window.limits.truncateLimit) then
        (.error (.full t.window.storedBytes t.window.limits.maxTotalBytes),t)
      else (.ok (id,(req.hotHard || req.hotSoft) && (t.window.limits.standing v req).hot),
        t.withEntry hashes id v req
          (t.window.storedBytes + min v.length t.window.limits.truncateLimit)) := by
  rw [applyToWindow]
  by_cases hreq : req.conflicts (decide (t.window.limits.blobThreshold ≤ v.length)) = true
  · rw [if_pos hreq,if_pos hreq]
  · rw [if_neg hreq,if_neg hreq,SegmentDicts.intern,SegmentDicts.insert_absent hid h,
      if_neg (show ¬Requirements.default.conflicts _ = true from Bool.false_ne_true),
      show Requirements.default.hotHard = false from rfl,Bool.not_false,Bool.true_and]
    simp only [decide_eq_true_eq]
    split_ifs with hfull
    · rfl
    · dsimp only
      generalize hw : (SegmentDicts.mk t.window.limits _ _) = w
      have hhas : w.Has hashes id v .default := by
        rw [← hw]
        exact ⟨OrderedMap.lookup_insert_self _ _ _,rfl⟩
      have hl : w.limits = t.window.limits := by rw [← hw]
      rw [hhas.applyFlags hid (by rw [hl]; exact eq_false_of_ne_true hreq),
        Requirements.default_merge,hl,if_neg hreq]
      dsimp only
      rw [SegmentDicts.write,← hw]
      simp only [OrderedMap.insert_insert]
      rfl

theorem Interner.applyToWindow_absent (h : t.window.entries.lookup id = none) (req : Requirements) :
    (∃ e, t.applyToWindow hashes id v req = (.error e,t) ∧ e.isFull = true) ∨
    t.applyToWindow hashes id v req =
      if req.conflicts (decide (t.window.limits.blobThreshold ≤ v.length)) then
        (.error (.placementConflict id),t)
      else (.ok (id,(req.hotHard || req.hotSoft) && (t.window.limits.standing v req).hot),
        t.withEntry hashes id v req
          (t.window.storedBytes + min v.length t.window.limits.truncateLimit)) := by
  rw [applyToWindow_absent_eq hid h]
  split_ifs
  · exact .inr rfl
  · exact .inl ⟨_,rfl,rfl⟩
  · exact .inr rfl

omit hid in
theorem Interner.withEntry_standings (t : Interner) (hashes : Hashes) (id : StrId) (v : Bytes)
    (r : Requirements) (n : ℕ) :
    (t.withEntry hashes id v r n).standings =
      Function.update t.standings id (some (t.window.limits.standing v r)) := by
  funext id'
  rw [standings,withEntry,standings_write]
  simp only [Function.update_apply]
  split_ifs <;> rfl

include hv in
theorem StoreInv.withEntry (h : StoreInv hashes used t) {r : Requirements}
    (hr : r.conflicts (decide (t.window.limits.blobThreshold ≤ v.length)) = false) (n : ℕ) :
    StoreInv hashes used (t.withEntry hashes id v r n) :=
  ⟨h.window.write hv hid hr n,h.flushed⟩

omit hid in
theorem Interner.recordFlushedBits_some {f : Flushed} (hf : t.flushed.lookup id = some f)
    (r : Requirements) :
    t.recordFlushedBits id r =
      { t with flushed := t.flushed.insert id ⟨f.fullLen,f.check,r.blob,r.hotHard,r.hotSoft⟩ } := by
  rw [recordFlushedBits,hf]

omit hid in
theorem Interner.recordFlushedBits_standings {f : Flushed} (hf : t.flushed.lookup id = some f)
    (r : Requirements) :
    (t.recordFlushedBits id r).standings = Function.update t.standings id
      ((t.window.standings id).or (some (standing f.fullLen
        (decide (t.window.limits.blobThreshold ≤ f.fullLen)) r))) := by
  funext id'
  rw [recordFlushedBits_some hf,standings]
  simp only [OrderedMap.lookup_insert,Function.update_apply]
  split_ifs with he
  · rw [he]; rfl
  · rfl

include hinj hv in
theorem StoreInv.flushed_eq (h : StoreInv hashes used t) {f : Flushed}
    (hf : t.flushed.lookup id = some f) : f.fullLen = v.length ∧ f.check = check16 hashes v ∧
      f.req.conflicts (decide (t.window.limits.blobThreshold ≤ v.length)) = false := by
  obtain ⟨w,hw,hwid,hrest⟩ := h.flushed id f hf
  rwa [hinj v w id hv hw hid hwid]

include hinj hv in
theorem StoreInv.recordFlushedBits (h : StoreInv hashes used t) {f : Flushed}
    (hf : t.flushed.lookup id = some f) {r : Requirements}
    (hr : r.conflicts (decide (t.window.limits.blobThreshold ≤ v.length)) = false) :
    StoreInv hashes used (t.recordFlushedBits id r) := by
  obtain ⟨hlen,hcheck,-⟩ := h.flushed_eq hinj hv hid hf
  rw [Interner.recordFlushedBits_some hf]
  refine ⟨h.window,fun id' f' hf' => ?_⟩
  simp only [OrderedMap.lookup_insert] at hf'
  split_ifs at hf' with he
  · subst he
    cases hf'
    exact ⟨v,hv,hid,hlen,hcheck,hr⟩
  · exact h.flushed id' f' hf'

/-- What a request may do: refuse as a full window, refuse a conflict, or move the value's
standing. A refusal changes nothing. -/
inductive Interner.Serves (hashes : Hashes) (used : Bytes → Prop) (t : Interner) (v : Bytes)
    (id : StrId) (req : Requirements) : Except DictError (StrId × Bool) × Interner → Prop
  | full (e : DictError) (he : e.isFull = true) : Serves hashes used t v id req (.error e,t)
  | refused (h : ((t.standings id).getD (freshStanding t.window.limits v.length)).accept req = none) :
    Serves hashes used t v id req (.error (.placementConflict id),t)
  | accepted (s : Standing) (hot : Bool) (next : Interner)
    (h : ((t.standings id).getD (freshStanding t.window.limits v.length)).accept req = some s)
    (hhot : req.hotSoft = true → hot = s.hot)
    (hnext : next.standings = Function.update t.standings id (some s))
    (hlimits : next.window.limits = t.window.limits) (hpinned : next.hotPinned = t.hotPinned)
    (hinv : StoreInv hashes used next) : Serves hashes used t v id req (.ok (id,hot),next)

omit hid in
theorem DictLimits.standing_accept (limits : DictLimits) (v : Bytes) (r more : Requirements) :
    (limits.standing v r).accept more =
      if (r.merge more).conflicts (decide (limits.blobThreshold ≤ v.length)) then none
      else some (limits.standing v (r.merge more)) := accept_standing _ _ _ _

omit hid in
/-- The outcome for a value whose requirements so far are `r`. -/
theorem Interner.serves {r req : Requirements}
    (hcur : (t.standings id).getD (freshStanding t.window.limits v.length) =
      t.window.limits.standing v r)
    {result : Except DictError (StrId × Bool) × Interner}
    (hrefuse : (r.merge req).conflicts (decide (t.window.limits.blobThreshold ≤ v.length)) = true →
      result = (.error (.placementConflict id),t))
    (haccept : (r.merge req).conflicts (decide (t.window.limits.blobThreshold ≤ v.length)) = false →
      ∃ hot next, result = (.ok (id,hot),next) ∧
        (req.hotSoft = true → hot = (t.window.limits.standing v (r.merge req)).hot) ∧
        next.standings =
          Function.update t.standings id (some (t.window.limits.standing v (r.merge req))) ∧
        next.window.limits = t.window.limits ∧ next.hotPinned = t.hotPinned ∧
        StoreInv hashes used next) : t.Serves hashes used v id req result := by
  have hacc := t.window.limits.standing_accept v r req
  rw [← hcur] at hacc
  cases hconf : (r.merge req).conflicts (decide (t.window.limits.blobThreshold ≤ v.length)) with
  | true =>
    rw [hconf,if_pos rfl] at hacc
    rw [hrefuse hconf]
    exact .refused hacc
  | false =>
    rw [hconf,if_neg Bool.false_ne_true] at hacc
    obtain ⟨hot,next,hres,hhot,hst,hl,hp,hinv⟩ := haccept hconf
    rw [hres]
    exact .accepted _ _ _ hacc hhot hst hl hp hinv

include hinj hv in
/-- A value in the window. -/
theorem Interner.serves_window (h : StoreInv hashes used t) {s : Stored}
    (hs : t.window.entries.lookup id = some s) (req : Requirements) :
    t.Serves hashes used v id req (t.applyToWindow hashes id v req) := by
  have hsame := h.window.lookup_eq hinj hv hid hs
  have hover : s.oversized = decide (t.window.limits.blobThreshold ≤ v.length) := by rw [hsame]; rfl
  have hhas : t.window.Has hashes id v s.req :=
    ⟨hs.trans (congrArg some hsame),hover ▸ h.window.strict id s hs⟩
  have hcur : (t.standings id).getD (freshStanding t.window.limits v.length) =
      t.window.limits.standing v s.req := by
    rw [standings,SegmentDicts.standings,hs,hsame]; rfl
  refine serves hcur (fun hconf => ?_) fun hconf => ?_
  · rw [applyToWindow_present hid hhas,if_pos hconf]
  · refine ⟨_,_,by rw [applyToWindow_present hid hhas,hconf,if_neg Bool.false_ne_true],fun hsoft => ?_,
      t.withEntry_standings hashes id v _ _,rfl,rfl,h.withEntry hv hid hconf _⟩
    rw [hsoft,Bool.or_true,Bool.true_and]

include hv in
/-- A value the segment has not seen. -/
theorem Interner.serves_new (h : StoreInv hashes used t)
    (hs : t.window.entries.lookup id = none) (hf : t.flushed.lookup id = none) (req : Requirements) :
    t.Serves hashes used v id req (t.applyToWindow hashes id v req) := by
  rcases applyToWindow_absent hid hs req with ⟨e,heq,he⟩ | heq
  · rw [heq]
    exact .full e he
  · have hcur : (t.standings id).getD (freshStanding t.window.limits v.length) =
        t.window.limits.standing v .default := by
      rw [standings,SegmentDicts.standings,hs,hf]; rfl
    refine serves hcur (fun hconf => ?_) fun hconf => ?_ <;>
      rw [Requirements.default_merge] at *
    · rw [heq,if_pos hconf]
    · refine ⟨_,_,by rw [heq,hconf,if_neg Bool.false_ne_true],fun hsoft => ?_,
        t.withEntry_standings hashes id v _ _,rfl,rfl,h.withEntry hv hid hconf _⟩
      rw [hsoft,Bool.or_true,Bool.true_and]

include hinj hv in
/-- A value the journal holds. A durable upgrade goes through the window, a soft mark is
noted in the record. -/
theorem Interner.serves_flushed (h : StoreInv hashes used t)
    (hs : t.window.entries.lookup id = none) {f : Flushed} (hf : t.flushed.lookup id = some f)
    (req : Requirements) :
    t.Serves hashes used v id req (t.requestFlushed hashes id v f req) := by
  obtain ⟨hlen,hcheck,hvalid⟩ := h.flushed_eq hinj hv hid hf
  have hwin : t.window.standings id = none := by rw [SegmentDicts.standings,hs]; rfl
  have hfits : f.fits hashes v = true := by rw [Flushed.fits,hlen,hcheck]; simp
  have hcur : (t.standings id).getD (freshStanding t.window.limits v.length) =
      t.window.limits.standing v f.req := by
    rw [standings,hwin,hf,Option.none_or,Option.map_some,Option.getD_some,Flushed.standing,hlen]
    rfl
  rw [requestFlushed,hfits,hlen]
  simp only [Bool.not_true,Bool.false_eq_true,if_false]
  generalize hm : f.req.merge req = merged
  cases hconf : merged.conflicts (decide (t.window.limits.blobThreshold ≤ v.length)) with
  | true =>
    rw [if_pos rfl]
    exact serves hcur (fun _ => rfl) (by rw [hm,hconf]; simp)
  | false =>
    rw [if_neg Bool.false_ne_true]
    have hsoft : req.hotSoft = true → merged.hotSoft = true := by
      rw [← hm]; simp +contextual [Requirements.merge]
    split_ifs with hdurable hsb
    · rcases applyToWindow_absent hid hs merged with ⟨e,heq,he⟩ | heq
      · rw [heq]
        exact .full e he
      · rw [heq,hconf,if_neg Bool.false_ne_true]
        dsimp only
        generalize hn : t.window.storedBytes + min v.length t.window.limits.truncateLimit = n
        have hinv := h.withEntry hv hid hconf n
        have hst : (t.withEntry hashes id v merged n).window.standings id =
            some (t.window.limits.standing v merged) := by
          rw [withEntry,standings_write,Function.update_self]
        refine serves hcur (by rw [hm,hconf]; simp) fun _ => ⟨_,_,rfl,fun hs => ?_,?_,?_,?_,
          hinv.recordFlushedBits hinj hv hid hf hconf⟩
        · rw [hm,hsoft hs,Bool.or_true,Bool.true_and]
        · rw [recordFlushedBits_standings (t := t.withEntry hashes id v merged n) hf,
            withEntry_standings,hm,hst,Option.some_or,Function.update_idem]
        · rw [recordFlushedBits_some (t := t.withEntry hashes id v merged n) hf]; rfl
        · rw [recordFlushedBits_some (t := t.withEntry hashes id v merged n) hf]; rfl
    · refine serves hcur (by rw [hm,hconf]; simp) fun _ => ⟨_,_,rfl,fun hs => ?_,?_,?_,?_,
        h.recordFlushedBits hinj hv hid hf hconf⟩
      · rw [hm]; exact Bool.and_comm _ _
      · rw [recordFlushedBits_standings hf,hwin,Option.none_or,hlen,hm]; rfl
      · rw [recordFlushedBits_some hf]
      · rw [recordFlushedBits_some hf]
    · have hsame : t.window.limits.standing v merged = t.window.limits.standing v f.req := by
        simp only [Bool.or_eq_true,Bool.and_eq_true,bne_iff_ne,ne_eq,not_or,not_and,not_not,
          Bool.not_eq_true'] at hdurable hsb
        rw [DictLimits.standing,DictLimits.standing,standing,standing,hdurable.1,hdurable.2]
        -- a mark that is not noted belongs to a blob
        by_cases hs : merged.hotSoft = f.hotSoft
        · rw [hs]; rfl
        · have hblob := hsb hs
          rw [hdurable.1] at hblob
          simp [Flushed.req,hblob]
      refine serves hcur (by rw [hm,hconf]; simp) fun _ => ⟨_,_,rfl,fun hs => ?_,?_,rfl,rfl,h⟩
      · rw [hm]; exact Bool.and_comm _ _
      · rw [hm,hsame,← hcur,standings,hwin,hf]
        exact (Function.update_eq_self_iff.mpr (by rw [standings,hwin,hf]; rfl)).symm

include hinj hv in
theorem Interner.request_serves (h : StoreInv hashes used t) (req : Requirements) :
    t.Serves hashes used v id req (t.request hashes v req) := by
  rw [request,hid]
  dsimp only
  rw [SegmentDicts.resolves,OrderedMap.contains]
  cases hs : t.window.entries.lookup id with
  | some s => exact serves_window hinj hv hid h hs req
  | none =>
    rw [Option.isSome_none,if_neg Bool.false_ne_true]
    cases hf : t.flushed.lookup id with
    | some f => exact serves_flushed hinj hv hid h hs hf req
    | none => exact serves_new hv hid h hs hf req

end Request

/-- The abstract answer to a call. -/
def Standings.call (limits : DictLimits) (st : Standings) (id : StrId) (fullLen : ℕ)
    (call : InternCall) : Except DictError (StrId × Option Bool) × Standings :=
  match st.request limits id fullLen call.req with
  | (.error e,st) => (.error e,st)
  | (.ok s,st) => (.ok (id,if call = .internHotBestEffort then some s.hot else none),st)

theorem InternCall.req_hotHard (call : InternCall) :
    call.req.hotHard = decide (call = .internHot) := by cases call <;> rfl

theorem InternCall.req_hotSoft (call : InternCall) :
    call.req.hotSoft = decide (call = .internHotBestEffort) := by cases call <;> rfl

theorem Standing.accept_strict {s s' : Standing} {req : Requirements} (h : s.accept req = some s') :
    s'.strict = (s.strict || req.hotHard) := by
  rw [accept] at h
  split_ifs at h
  cases h
  rfl

/-- Keep the bytes of a strict hot value. -/
def Interner.pin (t : Interner) (id : StrId) (bytes : Bytes) : Interner :=
  if t.hotPinned.contains id then t else { t with hotPinned := t.hotPinned.insert id bytes }

section Call

variable {hashes : Hashes} {used : Bytes → Prop} {t : Interner} {v : Bytes} {id : StrId}

theorem Interner.call_error {call : InternCall} {e : DictError} {next : Interner}
    (h : t.request hashes v call.req = (.error e,next)) : t.call hashes v call = (.error e,next) := by
  cases call <;> simp only [Interner.call,h]

theorem Interner.call_ok {call : InternCall} {hot : Bool} {next : Interner}
    (h : t.request hashes v call.req = (.ok (id,hot),next)) :
    t.call hashes v call = (.ok (id,if call = .internHotBestEffort then some hot else none),
      if call = .internHot then next.pin id v else next) := by
  cases call <;> simp [Interner.call,h,pin]

theorem Interner.pin_standings (t : Interner) (id : StrId) (v : Bytes) :
    (t.pin id v).standings = t.standings ∧ (t.pin id v).window = t.window ∧
      (t.pin id v).flushed = t.flushed := by
  rw [pin]
  split_ifs <;> exact ⟨rfl,rfl,rfl⟩

theorem Interner.contains_pin (t : Interner) (id : StrId) (v : Bytes) (id' : StrId) :
    (t.pin id v).hotPinned.contains id' = (decide (id' = id) || t.hotPinned.contains id') := by
  rw [pin]
  split_ifs with h
  · by_cases he : id' = id
    · simp [he,h]
    · simp [he]
  · rw [OrderedMap.contains,OrderedMap.lookup_insert]
    by_cases he : id' = id
    · simp [he]
    · simp [he,OrderedMap.contains]

theorem Interner.lookup_pin {t : Interner} {w : Bytes} {id' : StrId}
    (h : (t.pin id v).hotPinned.lookup id' = some w) :
    id' = id ∧ w = v ∨ t.hotPinned.lookup id' = some w := by
  rw [pin] at h
  split_ifs at h
  · exact .inr h
  · rw [OrderedMap.lookup_insert] at h
    split_ifs at h with he
    · exact .inl ⟨he,(Option.some.inj h).symm⟩
    · exact .inr h

/-- One call: refused by a full window, or answered as the standings answer it. Only an
accepted call changes the interner. -/
theorem Interner.call_refines (h : InternerInv hashes used t) (hinj : IdInjective hashes used)
    (hv : used v) (hid : StrId.of hashes v = some id) (call : InternCall) :
    (∃ e, t.call hashes v call = (.error e,t) ∧ e.isFull = true) ∨
    ∃ next, t.call hashes v call =
        ((t.standings.call t.window.limits id v.length call).1,next) ∧
      next.standings = (t.standings.call t.window.limits id v.length call).2 ∧
      next.window.limits = t.window.limits ∧ InternerInv hashes used next ∧
      (∀ e, (t.standings.call t.window.limits id v.length call).1 = .error e → next = t) := by
  have hserves := request_serves hinj hv hid h.toStoreInv call.req
  rw [Standings.call,Standings.request]
  generalize hres : t.request hashes v call.req = result at hserves
  cases hserves with
  | full e he => exact .inl ⟨e,call_error hres,he⟩
  | refused hacc =>
    right
    rw [hacc]
    exact ⟨t,call_error hres,rfl,rfl,h,fun _ _ => rfl⟩
  | accepted s hot next hacc hhot hst hl hp hinv =>
    right
    have hstrict : s.strict = (t.hotPinned.contains id || decide (call = .internHot)) := by
      rw [Standing.accept_strict hacc,call.req_hotHard,h.strict id]
      cases t.standings id <;> rfl
    have hhot' : (if call = .internHotBestEffort then some hot else none) =
        if call = .internHotBestEffort then some s.hot else none := by
      by_cases hb : call = .internHotBestEffort
      · rw [hhot (by rw [call.req_hotSoft,hb]; rfl)]
      · rw [if_neg hb,if_neg hb]
    rw [hacc,call_ok hres,hhot']
    by_cases hhard : call = .internHot
    · obtain ⟨hpst,hpw,hpf⟩ := next.pin_standings id v
      rw [if_pos hhard]
      refine ⟨_,rfl,hpst.trans hst,by rw [hpw,hl],⟨⟨hpw ▸ hinv.window,?_⟩,?_,?_⟩,
        fun e he => by simp at he⟩
      · rw [hpf,hpw]; exact hinv.flushed
      · intro id' w hw
        rcases lookup_pin hw with ⟨rfl,rfl⟩ | hw
        · exact ⟨hv,hid⟩
        · exact h.pinned id' w (hp ▸ hw)
      · intro id'
        rw [contains_pin,hpst,hst,hp,Function.update_apply]
        split_ifs with he
        · simp [he,hstrict,hhard]
        · simp [he,h.strict id']
    · rw [if_neg hhard]
      refine ⟨_,rfl,hst,hl,⟨hinv,by rw [hp]; exact h.pinned,?_⟩,fun e he => by simp at he⟩
      intro id'
      rw [hst,hp,Function.update_apply]
      split_ifs with he
      · simp [he,hstrict,hhard]
      · exact h.strict id'

theorem SegmentDicts.hot_standing {d : SegmentDicts} {s : Standing} (h : d.standings id = some s) :
    (d.entries.lookup id).any Stored.isHot = s.hot := by
  rw [standings] at h
  cases hs : d.entries.lookup id with
  | none => rw [hs] at h; cases h
  | some e =>
    rw [hs] at h
    rw [← Option.some.inj h]
    rfl

theorem SegmentDicts.call_error {d : SegmentDicts} {call : InternCall} {e : DictError}
    {next : SegmentDicts} (h : d.insert hashes v call.req = (.error e,next)) :
    d.call hashes v call = (.error e,next) := by
  cases call with
  | internHotBestEffort =>
    rw [InternCall.req] at h
    simp only [call,internHotBestEffort,h]
  | _ => simp only [call,h]

theorem SegmentDicts.call_ok {d : SegmentDicts} {call : InternCall} {next : SegmentDicts}
    (h : d.insert hashes v call.req = (.ok id,next)) :
    d.call hashes v call = (.ok (id,if call = .internHotBestEffort then
      some ((next.entries.lookup id).any Stored.isHot) else none),next) := by
  cases call with
  | internHotBestEffort =>
    rw [InternCall.req] at h
    simp [call,internHotBestEffort,h]
  | _ => simp [call,h]

/-- The same for one dictionary. -/
theorem SegmentDicts.call_refines {d : SegmentDicts} (h : DictInv hashes used d)
    (hinj : IdInjective hashes used) (hv : used v) (hid : StrId.of hashes v = some id)
    (call : InternCall) :
    (∃ e, d.call hashes v call = (.error e,d) ∧ e.isFull = true) ∨
    ∃ next, d.call hashes v call = ((d.standings.call d.limits id v.length call).1,next) ∧
      next.standings = (d.standings.call d.limits id v.length call).2 ∧
      next.limits = d.limits ∧ DictInv hashes used next := by
  rcases insert_refines h hinj hv hid call.req with ⟨e,hres,he⟩ | ⟨next,hres,hst,hl,hinv⟩
  · exact .inl ⟨e,call_error hres,he⟩
  · right
    rw [Standings.call]
    rw [Standings.request] at hres hst ⊢
    cases hacc : ((d.standings id).getD (freshStanding d.limits v.length)).accept call.req with
    | none =>
      rw [hacc] at hres hst
      exact ⟨next,call_error hres,hst,hl,hinv⟩
    | some s =>
      rw [hacc] at hres hst
      refine ⟨next,?_,hst,hl,hinv⟩
      rw [call_ok hres,hot_standing (s := s) (by rw [hst]; exact Function.update_self ..)]

end Call

section Flush

variable {hashes : Hashes} {used : Bytes → Prop} {t : Interner}

theorem lookup_recordFlushed (hashes : Hashes) (d : SegmentDicts) (m : OrderedMap StrId Flushed)
    (id : StrId) :
    (recordFlushed hashes d.snapshots m).lookup id =
      ((d.entries.lookup id).map fun s => (s.snapshot id).flushed hashes).or (m.lookup id) := by
  rw [recordFlushed,SegmentDicts.snapshots,List.foldl_map]
  exact OrderedMap.lookup_overlay d.entries (fun id s => (s.snapshot id).flushed hashes) m id

/-- What the record of a window's entry keeps. -/
theorem flushed_store (hashes : Hashes) (limits : DictLimits) (id : StrId) (v : Bytes)
    (r : Requirements) :
    (((limits.store hashes v r).snapshot id).flushed hashes).check = check16 hashes v ∧
      (((limits.store hashes v r).snapshot id).flushed hashes).req =
        ⟨r.blob,r.hotHard,!r.hotHard && r.hotSoft⟩ := by
  constructor
  · rw [EntrySnapshot.flushed,Stored.snapshot,DictLimits.store]
    by_cases h : limits.truncateLimit < v.length
    · simp [h,check16]
    · simp [h,List.take_of_length_le (not_lt.mp h)]
  · obtain ⟨b,h,s⟩ := r
    cases b <;> cases h <;> cases s <;> rfl

/-- A soft mark on a strict hot value adds nothing to its standing. -/
theorem standing_flushed (fullLen : ℕ) (wide : Bool) (r : Requirements) :
    standing fullLen wide ⟨r.blob,r.hotHard,!r.hotHard && r.hotSoft⟩ = standing fullLen wide r := by
  obtain ⟨b,h,s⟩ := r
  cases h <;> rfl

theorem StoreInv.standing_valid (h : StoreInv hashes used t) (hinj : IdInjective hashes used)
    {v : Bytes} (hv : used v) {id : StrId} (hid : StrId.of hashes v = some id) {s : Standing}
    (hs : t.standings id = some s) :
    ∃ r, s = t.window.limits.standing v r ∧
      r.conflicts (decide (t.window.limits.blobThreshold ≤ v.length)) = false := by
  rw [Interner.standings,SegmentDicts.standings] at hs
  cases hw : t.window.entries.lookup id with
  | some e =>
    have he := h.window.lookup_eq hinj hv hid hw
    have hstrict := h.window.strict id e hw
    rw [hw] at hs
    rw [he] at hs hstrict
    exact ⟨e.req,(Option.some.inj hs).symm,hstrict⟩
  | none =>
    cases hf : t.flushed.lookup id with
    | none => rw [hw,hf] at hs; cases hs
    | some f =>
      obtain ⟨hlen,-,hvalid⟩ := h.flushed_eq hinj hv hid hf
      rw [hw,hf] at hs
      refine ⟨f.req,?_,hvalid⟩
      rw [← Option.some.inj hs,Flushed.standing,hlen]
      rfl

/-- A pinned value is short, and its standing is what its requirement alone gives. -/
theorem InternerInv.pinned_standing (h : InternerInv hashes used t) (hinj : IdInjective hashes used)
    {id : StrId} {v : Bytes} (hp : t.hotPinned.lookup id = some v) :
    v.length < t.window.limits.blobThreshold ∧
      t.standings id = some (t.window.limits.standing v ⟨false,true,false⟩) := by
  obtain ⟨hv,hid⟩ := h.pinned id v hp
  have hstrict := h.strict id
  rw [OrderedMap.contains,hp,Option.isSome_some] at hstrict
  cases hs : t.standings id with
  | none => rw [hs] at hstrict; cases hstrict
  | some s =>
    obtain ⟨r,rfl,hr⟩ := h.standing_valid hinj hv hid hs
    rw [hs,Option.any_some] at hstrict
    have hhard : r.hotHard = true := hstrict.symm
    simp only [Requirements.conflicts,hhard,Bool.true_and,Bool.or_eq_false_iff] at hr
    refine ⟨not_le.mp (of_decide_eq_false hr.2),?_⟩
    simp only [DictLimits.standing,standing,hr,hhard,Bool.false_or,Bool.true_or]

/-- Strict hot values enter an empty window without a refusal. -/
theorem reinsertPinned_entries {limits : DictLimits} {ps : List (StrId × Bytes)}
    (hasc : ps.Pairwise fun a b => a.1 < b.1)
    (hps : ∀ p ∈ ps, StrId.of hashes p.2 = some p.1 ∧ p.2.length < limits.blobThreshold)
    {w : SegmentDicts} (hl : w.limits = limits) (habs : ∀ p ∈ ps, w.entries.lookup p.1 = none) :
    (reinsertPinned hashes ps w).limits = limits ∧
      (reinsertPinned hashes ps w).entries = ps.foldl (fun acc p =>
        acc.insert p.1 (limits.store hashes p.2 ⟨false,true,false⟩)) w.entries := by
  induction ps generalizing w with
  | nil => exact ⟨hl,rfl⟩
  | cons p ps ih =>
    obtain ⟨hlow,hrest⟩ := List.pairwise_cons.mp hasc
    obtain ⟨hid,hshort⟩ := hps p (List.mem_cons_self ..)
    have hnconf : ¬Requirements.conflicts ⟨false,true,false⟩
        (decide (w.limits.blobThreshold ≤ p.2.length)) = true := by
      simp [Requirements.conflicts,hl,hshort]
    have hins : (w.internHot hashes p.2).2 = { w with
        entries := w.entries.insert p.1 (limits.store hashes p.2 ⟨false,true,false⟩)
        storedBytes := w.storedBytes + min p.2.length w.limits.truncateLimit } := by
      rw [SegmentDicts.internHot,show { Requirements.default with hotHard := true } =
        (⟨false,true,false⟩ : Requirements) from rfl,
        SegmentDicts.insert_absent hid (habs p (List.mem_cons_self ..)),if_neg hnconf,hl]
      rfl
    rw [reinsertPinned,List.foldl_cons,List.foldl_cons,hins]
    refine ih hrest (fun q hq => hps q (List.mem_cons_of_mem _ hq)) hl fun q hq => ?_
    rw [OrderedMap.lookup_insert_of_ne _ (hlow q hq).ne']
    exact habs q (List.mem_cons_of_mem _ hq)

/-- A flush moves values, not standings. -/
theorem InternerInv.flushed_window (h : InternerInv hashes used t) (hinj : IdInjective hashes used)
    {next : Interner} (hnext : next = { t with
      flushed := recordFlushed hashes t.window.snapshots t.flushed
      window := reinsertPinned hashes t.hotPinned.entries (.new t.window.limits) }) :
    next.standings = t.standings ∧ next.window.limits = t.window.limits ∧
      InternerInv hashes used next := by
  have hpinned : ∀ p ∈ t.hotPinned.entries, StrId.of hashes p.2 = some p.1 ∧
      p.2.length < t.window.limits.blobThreshold := fun p hp =>
    ⟨(h.pinned p.1 p.2 (OrderedMap.mem_entries_iff.mp hp)).2,
      (h.pinned_standing hinj (OrderedMap.mem_entries_iff.mp hp)).1⟩
  obtain ⟨hl,hentries⟩ := reinsertPinned_entries t.hotPinned.ascending hpinned
    (w := .new t.window.limits) rfl fun _ _ => rfl
  have hwindow : ∀ id, next.window.entries.lookup id = (t.hotPinned.lookup id).map
      fun v => t.window.limits.store hashes v ⟨false,true,false⟩ := by
    intro id
    rw [hnext]
    dsimp only
    rw [hentries]
    refine (OrderedMap.lookup_overlay t.hotPinned
      (fun _ v => t.window.limits.store hashes v ⟨false,true,false⟩) _ id).trans ?_
    exact Option.or_none
  have hlimits : next.window.limits = t.window.limits := by rw [hnext]; exact hl
  have hflushed : ∀ id, next.flushed.lookup id =
      ((t.window.entries.lookup id).map fun s => (s.snapshot id).flushed hashes).or
        (t.flushed.lookup id) := by
    intro id
    rw [hnext]
    exact lookup_recordFlushed hashes t.window t.flushed id
  have hrecord : ∀ id s, t.window.entries.lookup id = some s → ∃ v r, used v ∧
      StrId.of hashes v = some id ∧ s = t.window.limits.store hashes v r ∧
      r.conflicts (decide (t.window.limits.blobThreshold ≤ v.length)) = false := by
    intro id s hs
    obtain ⟨v,hv,hid,he⟩ := h.window.stored id s hs
    have hstrict := h.window.strict id s hs
    rw [he] at hstrict
    exact ⟨v,s.req,hv,hid,he,hstrict⟩
  have hst : next.standings = t.standings := by
    funext id
    rw [Interner.standings,SegmentDicts.standings,hwindow,hflushed,hlimits]
    cases hp : t.hotPinned.lookup id with
    | some v => exact (h.pinned_standing hinj hp).2.symm
    | none =>
      rw [Interner.standings,SegmentDicts.standings]
      cases hs : t.window.entries.lookup id with
      | none => rfl
      | some s =>
        obtain ⟨v,r,-,-,he,-⟩ := hrecord id s hs
        have hreq := (flushed_store hashes t.window.limits id v r).2
        rw [← he] at hreq
        have hstand : Flushed.standing t.window.limits ((s.snapshot id).flushed hashes) =
            s.standing := by
          rw [Flushed.standing,hreq,standing_flushed,he]
          rfl
        exact congrArg some hstand
  refine ⟨hst,hlimits,⟨⟨⟨?_,?_⟩,?_⟩,?_,?_⟩⟩
  · intro id s hs
    rw [hwindow] at hs
    obtain ⟨v,hp,rfl⟩ := Option.map_eq_some_iff.mp hs
    obtain ⟨hv,hid⟩ := h.pinned id v hp
    exact ⟨v,hv,hid,by rw [hlimits]; rfl⟩
  · intro id s hs
    rw [hwindow] at hs
    obtain ⟨v,hp,rfl⟩ := Option.map_eq_some_iff.mp hs
    have hshort := (h.pinned_standing hinj hp).1
    simp [Requirements.conflicts,DictLimits.store,hshort]
  · intro id f hf
    rw [hflushed] at hf
    rw [hlimits]
    cases hs : t.window.entries.lookup id with
    | none => rw [hs] at hf; exact h.flushed id f hf
    | some s =>
      obtain ⟨v,r,hv,hid,rfl,hr⟩ := hrecord id s hs
      obtain ⟨hcheck,hreq⟩ := flushed_store hashes t.window.limits id v r
      rw [hs] at hf
      cases hf
      refine ⟨v,hv,hid,rfl,hcheck,?_⟩
      rw [hreq]
      exact hr
  · rw [hnext]; exact h.pinned
  · rw [hst,hnext]; exact h.strict

/-- Only a write that succeeds moves the window. -/
theorem Interner.flushWindow_refines {ε : Type} (h : InternerInv hashes used t)
    (hinj : IdInjective hashes used) (write : SegmentDicts → Except ε Unit) :
    (t.flushWindow hashes write).2.standings = t.standings ∧
      (t.flushWindow hashes write).2.window.limits = t.window.limits ∧
      InternerInv hashes used (t.flushWindow hashes write).2 := by
  rw [flushWindow]
  cases write t.window with
  | error e => exact ⟨rfl,rfl,h⟩
  | ok u => exact h.flushed_window hinj rfl

end Flush

/-- What a value of this standing adds to the sizes. -/
def Standing.stats (limits : DictLimits) (s : Standing) : DictStats :=
  entryStats s.placement s.hot (min s.fullLen limits.truncateLimit)

section Observers

variable {hashes : Hashes} {used : Bytes → Prop} {t : Interner} {d : SegmentDicts}

theorem DictInv.entryStats_eq (h : DictInv hashes used d) {id : StrId} {s : Stored}
    (hs : d.entries.lookup id = some s) :
    entryStats s.placement s.isHot s.bytes.length = s.standing.stats d.limits := by
  obtain ⟨v,-,-,he⟩ := h.stored id s hs
  have hlen : (d.limits.store hashes v s.req).bytes.length = min v.length d.limits.truncateLimit := by
    rw [DictLimits.store,List.length_take,Nat.min_comm]
  rw [he,hlen]
  rfl

theorem Flushed.entryStats_eq (f : Flushed) (limits : DictLimits) :
    entryStats (f.placement limits) (decide (f.req.hotMark ≠ .none))
      (min f.fullLen limits.truncateLimit) = (f.standing limits).stats limits := by
  rw [placement,Standing.stats,Standing.placement,standing,PgKronika.standing,req]
  cases hb : f.blobRequired || decide (limits.blobThreshold ≤ f.fullLen) with
  | true => rfl
  | false =>
    cases hh : f.hotHard <;> cases hs : f.hotSoft <;> simp [Requirements.hotMark]

/-- The sizes are those of the standings, over any ids that cover them. -/
theorem SegmentDicts.stats_standings (h : DictInv hashes used d) (ids : Finset StrId)
    (hids : ∀ p ∈ d.entries.entries, p.1 ∈ ids) :
    d.stats = ∑ id ∈ ids, (d.standings id).elim 0 (Standing.stats d.limits) := by
  rw [stats,List.map_congr_left fun p hp =>
    h.entryStats_eq (OrderedMap.mem_entries_iff.mp hp)]
  rw [d.entries.sum_entries (fun _ s => s.standing.stats d.limits) ids hids]
  refine Finset.sum_congr rfl fun id _ => ?_
  rw [standings]
  cases d.entries.lookup id <;> rfl

theorem Interner.stats_standings (h : StoreInv hashes used t) (ids : Finset StrId)
    (hwin : ∀ p ∈ t.window.entries.entries, p.1 ∈ ids)
    (hfl : ∀ p ∈ t.flushed.entries, p.1 ∈ ids) :
    t.stats = ∑ id ∈ ids, (t.standings id).elim 0 (Standing.stats t.window.limits) := by
  have hkept : ((t.flushed.entries.filter fun p => !t.window.resolves p.1).map fun p =>
      entryStats (p.2.placement t.window.limits) (decide (p.2.req.hotMark ≠ .none))
        (min p.2.fullLen t.window.limits.truncateLimit)).sum =
      ∑ id ∈ ids, ((t.flushed.keep fun id => !t.window.resolves id).lookup id).elim 0
        fun f => (f.standing t.window.limits).stats t.window.limits := by
    rw [← OrderedMap.sum_entries (t.flushed.keep fun id => !t.window.resolves id)
      (fun _ f => (f.standing t.window.limits).stats t.window.limits) ids
      fun p hp => hfl p (List.mem_of_mem_filter hp)]
    simp only [Flushed.entryStats_eq]
    rfl
  rw [stats,SegmentDicts.stats_standings h.window ids hwin,hkept,← Finset.sum_add_distrib]
  refine Finset.sum_congr rfl fun id _ => ?_
  rw [standings,SegmentDicts.standings,OrderedMap.lookup_keep,SegmentDicts.resolves_iff]
  cases t.window.entries.lookup id with
  | some e => simp
  | none => cases t.flushed.lookup id <;> simp

theorem Interner.stats_eq (h : StoreInv hashes used t) (hd : DictInv hashes used d)
    (hst : t.standings = d.standings) (hl : t.window.limits = d.limits) : t.stats = d.stats := by
  let ids := (t.window.entries.entries.map Prod.fst ++ t.flushed.entries.map Prod.fst ++
    d.entries.entries.map Prod.fst).toFinset
  have hids : ∀ id, id ∈ ids ↔ id ∈ t.window.entries.entries.map Prod.fst ∨
      id ∈ t.flushed.entries.map Prod.fst ∨ id ∈ d.entries.entries.map Prod.fst := by
    simp [ids]
  rw [stats_standings h ids
      (fun p hp => (hids _).mpr (.inl (List.mem_map_of_mem hp)))
      (fun p hp => (hids _).mpr (.inr (.inl (List.mem_map_of_mem hp)))),
    SegmentDicts.stats_standings hd ids
      (fun p hp => (hids _).mpr (.inr (.inr (List.mem_map_of_mem hp)))),hst,hl]

theorem SegmentDicts.directive_standings (d : SegmentDicts) (id : StrId) :
    d.directive id = (d.standings id).map fun s => (s.placement,s.hot) := by
  rw [directive,standings]
  cases d.entries.lookup id <;> rfl

theorem Interner.seal_find (t : Interner) (id : StrId) :
    t.seal.1.flushed.find? (fun e => decide (e.strId = id)) = (t.flushed.lookup id).map fun f =>
      ⟨id,f.fullLen,f.placement t.window.limits,f.req.hotMark⟩ := by
  rw [Interner.seal,List.find?_map,t.flushed.find_entries (k := id) fun p => by simp,Option.map_map]
  rfl

theorem Flushed.directive_standing (f : Flushed) (limits : DictLimits) :
    (f.placement limits,decide (f.placement limits = .strings ∧ f.req.hotMark ≠ .none)) =
      ((f.standing limits).placement,(f.standing limits).hot) := by
  rw [placement,Standing.placement,standing,PgKronika.standing,req]
  cases hb : f.blobRequired || decide (limits.blobThreshold ≤ f.fullLen) with
  | true => rfl
  | false =>
    cases hh : f.hotHard <;> cases hs : f.hotSoft <;> simp [Requirements.hotMark]

/-- The window and the directives together give each value its standing. -/
theorem Interner.seal_standings (t : Interner) (id : StrId) :
    t.seal.1.directive id = (t.standings id).map fun s => (s.placement,s.hot) := by
  have hfind := t.seal_find id
  rw [SealedSegment.directive,hfind,standings,SegmentDicts.standings,
    show t.seal.1.window = t.window from rfl]
  cases t.window.entries.lookup id with
  | some e => rfl
  | none =>
    cases t.flushed.lookup id with
    | none => rfl
    | some f => exact congrArg some (f.directive_standing t.window.limits)

end Observers

/-- One step of a segment: a call, or a flush with whatever the write does. -/
inductive InternerOp (ε : Type)
  | call (call : InternCall) (bytes : Bytes)
  | flush (write : SegmentDicts → Except ε Unit)

abbrev InternAnswer := Except DictError (StrId × Option Bool)

def Interner.run {ε : Type} (hashes : Hashes) :
    List (InternerOp ε) → Interner → List InternAnswer × Interner
  | [],t => ([],t)
  | .call call bytes :: ops,t =>
    let (answer,t) := t.call hashes bytes call
    let (answers,t) := Interner.run hashes ops t
    (answer :: answers,t)
  | .flush write :: ops,t => Interner.run hashes ops (t.flushWindow hashes write).2

/-- One dictionary for the whole segment: a flush means nothing to it. -/
def SegmentDicts.run {ε : Type} (hashes : Hashes) :
    List (InternerOp ε) → SegmentDicts → List InternAnswer × SegmentDicts
  | [],d => ([],d)
  | .call call bytes :: ops,d =>
    let (answer,d) := d.call hashes bytes call
    let (answers,d) := SegmentDicts.run hashes ops d
    (answer :: answers,d)
  | .flush _ :: ops,d => SegmentDicts.run hashes ops d

/-- The signal that the window has to be flushed. -/
def answeredFull : InternAnswer → Bool
  | .error e => e.isFull
  | .ok _ => false

abbrev NoFull (answers : List InternAnswer) : Prop := ∀ a ∈ answers, answeredFull a = false

/-- The interner and the dictionary agree on the standing of every value. -/
structure InternerSim (hashes : Hashes) (used : Bytes → Prop) (t : Interner) (d : SegmentDicts) :
    Prop where
  interner : InternerInv hashes used t
  dicts : DictInv hashes used d
  standings : t.standings = d.standings
  limits : t.window.limits = d.limits

section Runs

variable {hashes : Hashes} {used : Bytes → Prop} {t : Interner} {d : SegmentDicts}

theorem call_zero {v : Bytes} (hid : StrId.of hashes v = none) (t : Interner) (d : SegmentDicts)
    (call : InternCall) : t.call hashes v call = (.error (.collision 0),t) ∧
      d.call hashes v call = (.error (.collision 0),d) := by
  refine ⟨Interner.call_error (by rw [Interner.request,hid]),
    SegmentDicts.call_error (by rw [SegmentDicts.insert,hid])⟩

theorem InternerSim.call (h : InternerSim hashes used t d) (hinj : IdInjective hashes used)
    {v : Bytes} (hv : used v) (call : InternCall)
    (ht : answeredFull (t.call hashes v call).1 = false)
    (hd : answeredFull (d.call hashes v call).1 = false) :
    (t.call hashes v call).1 = (d.call hashes v call).1 ∧
      InternerSim hashes used (t.call hashes v call).2 (d.call hashes v call).2 := by
  cases hid : StrId.of hashes v with
  | none =>
    obtain ⟨hct,hcd⟩ := call_zero hid t d call
    rw [hct,hcd]
    exact ⟨rfl,h⟩
  | some id =>
    rcases Interner.call_refines h.interner hinj hv hid call with
      ⟨e,he,hfull⟩ | ⟨t',hct,htst,htl,htinv,-⟩
    · rw [he,answeredFull,hfull] at ht; cases ht
    rcases SegmentDicts.call_refines h.dicts hinj hv hid call with
      ⟨e,he,hfull⟩ | ⟨d',hcd,hdst,hdl,hdinv⟩
    · rw [he,answeredFull,hfull] at hd; cases hd
    rw [hct,hcd,h.standings,h.limits]
    exact ⟨rfl,htinv,hdinv,by rw [htst,hdst,h.standings,h.limits],by rw [htl,hdl,h.limits]⟩

theorem InternerSim.flush {ε : Type} (h : InternerSim hashes used t d)
    (hinj : IdInjective hashes used) (write : SegmentDicts → Except ε Unit) :
    InternerSim hashes used (t.flushWindow hashes write).2 d := by
  obtain ⟨hst,hl,hinv⟩ := Interner.flushWindow_refines h.interner hinj write
  exact ⟨hinv,h.dicts,hst.trans h.standings,hl.trans h.limits⟩

theorem InternerSim.run {ε : Type} (hinj : IdInjective hashes used) {ops : List (InternerOp ε)}
    (hused : ∀ call v, .call call v ∈ ops → used v) (h : InternerSim hashes used t d)
    (ht : NoFull (Interner.run hashes ops t).1) (hd : NoFull (SegmentDicts.run hashes ops d).1) :
    (Interner.run hashes ops t).1 = (SegmentDicts.run hashes ops d).1 ∧
      InternerSim hashes used (Interner.run hashes ops t).2 (SegmentDicts.run hashes ops d).2 := by
  induction ops generalizing t d with
  | nil => exact ⟨rfl,h⟩
  | cons op ops ih =>
    have hrest : ∀ call v, .call call v ∈ ops → used v := fun call v hm =>
      hused call v (List.mem_cons_of_mem _ hm)
    cases op with
    | flush write => exact ih hrest (h.flush hinj write) ht hd
    | call call v =>
      obtain ⟨hans,hsim⟩ := h.call hinj (hused call v (List.mem_cons_self ..)) call
        (ht _ (List.mem_cons_self ..)) (hd _ (List.mem_cons_self ..))
      obtain ⟨hanss,hsims⟩ := ih hrest hsim (fun a ha => ht a (List.mem_cons_of_mem _ ha))
        (fun a ha => hd a (List.mem_cons_of_mem _ ha))
      exact ⟨congrArg₂ List.cons hans hanss,hsims⟩

/-- A call that fails leaves the interner as it was. -/
theorem InternerInv.call_unchanged (h : InternerInv hashes used t) (hinj : IdInjective hashes used)
    {v : Bytes} (hv : used v) {call : InternCall} {e : DictError} {next : Interner}
    (hcall : t.call hashes v call = (.error e,next)) : next = t := by
  cases hid : StrId.of hashes v with
  | none =>
    rw [(call_zero hid t t.window call).1] at hcall
    exact (Prod.ext_iff.mp hcall).2.symm
  | some id =>
    rcases Interner.call_refines h hinj hv hid call with ⟨e',he,-⟩ | ⟨t',hct,-,-,-,hsame⟩
    · rw [he] at hcall
      exact (Prod.ext_iff.mp hcall).2.symm
    · rw [hct] at hcall
      obtain ⟨h1,h2⟩ := Prod.ext_iff.mp hcall
      exact h2.symm.trans (hsame e h1)

/-- The interner with its flushes is one dictionary without them: the same answers, the
same sizes and the same final placements. What fails changes nothing. -/
theorem interner_refines {ε : Type} (hashes : Hashes) (limits : DictLimits) (used : Bytes → Prop)
    (hinj : IdInjective hashes used) (ops : List (InternerOp ε))
    (hused : ∀ call v, .call call v ∈ ops → used v)
    (ht : NoFull (Interner.run hashes ops (.new limits)).1)
    (hd : NoFull (SegmentDicts.run hashes ops (.new limits)).1) :
    (Interner.run hashes ops (.new limits)).1 = (SegmentDicts.run hashes ops (.new limits)).1 ∧
    (Interner.run hashes ops (.new limits)).2.stats =
      (SegmentDicts.run hashes ops (.new limits)).2.stats ∧
    (∀ id, (Interner.run hashes ops (.new limits)).2.seal.1.directive id =
      (SegmentDicts.run hashes ops (.new limits)).2.directive id) ∧
    (∀ call v e next, used v → (Interner.run hashes ops (.new limits)).2.call hashes v call =
      (.error e,next) → next = (Interner.run hashes ops (.new limits)).2) ∧
    ∀ (write : SegmentDicts → Except ε Unit) e next,
      (Interner.run hashes ops (.new limits)).2.flushWindow hashes write = (.error e,next) →
        next = (Interner.run hashes ops (.new limits)).2 := by
  have hstart : InternerSim hashes used (.new limits) (.new limits) :=
    ⟨.new hashes used limits,.new hashes used limits,rfl,rfl⟩
  obtain ⟨hans,hsim⟩ := hstart.run hinj hused ht hd
  refine ⟨hans,Interner.stats_eq hsim.interner.toStoreInv hsim.dicts hsim.standings hsim.limits,
    fun id => ?_,fun call v e next hv hcall => hsim.interner.call_unchanged hinj hv hcall,
    fun write e next hflush => ?_⟩
  · rw [Interner.seal_standings,SegmentDicts.directive_standings,hsim.standings]
  · rw [Interner.flushWindow] at hflush
    cases hw : write (Interner.run hashes ops (.new limits)).2.window with
    | error e' =>
      rw [hw] at hflush
      exact (Prod.ext_iff.mp hflush).2.symm
    | ok u =>
      rw [hw] at hflush
      cases (Prod.ext_iff.mp hflush).1

end Runs

/-- The real hashes of `a` and `b`. -/
def sampleHashes : Hashes where
  xxh3 bytes := if bytes = [97] then 0xe6c632b61e964e1f else
    if bytes = [98] then 0x575a0b1c44d8843f else 0
  sha256 bytes := if bytes = [97] then
      [202,151,129,18,202,27,189,202,250,194,49,179,154,35,220,77,
        167,134,239,248,20,124,78,114,185,128,119,133,175,238,72,187]
    else [62,35,232,22,0,57,89,74,51,137,79,101,100,225,177,52,
      139,189,122,0,136,212,44,74,203,115,238,174,213,156,0,157]

def sampleUsed (v : Bytes) : Prop := v = [97] ∨ v = [98]

theorem sampleUsed_injective : IdInjective sampleHashes sampleUsed := by
  rintro v w id (rfl | rfl) (rfl | rfl) hv hw
  · rfl
  · rw [← hv] at hw; exact absurd hw (by decide)
  · rw [← hv] at hw; exact absurd hw (by decide)
  · rfl

/-- A value is flushed as a string, forced into the blobs and refused as hot. -/
def sampleInternerOps : List (InternerOp Unit) :=
  [.call .intern [97],.call .internHot [98],.flush fun _ => .ok (),.call .internBlob [97],
    .flush fun _ => .error (),.call .internHotBestEffort [97],.call .internHot [97]]

theorem interner_refines_sample :
    (Interner.run sampleHashes sampleInternerOps (.new .default)).1 =
      (SegmentDicts.run sampleHashes sampleInternerOps (.new .default)).1 := by
  refine (interner_refines sampleHashes .default sampleUsed sampleUsed_injective sampleInternerOps
    ?_ (by decide) (by decide)).1
  intro call v h
  simp only [sampleInternerOps,List.mem_cons,InternerOp.call.injEq,reduceCtorEq,List.not_mem_nil,
    or_false,false_or] at h
  rcases h with h | h | h | h | h <;> rw [sampleUsed,h.2] <;> simp

end PgKronika
