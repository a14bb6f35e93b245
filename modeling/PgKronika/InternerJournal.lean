import PgKronika.InternerRefinement
import PgKronika.PartDictionary

/-! The windows that an interner wrote to the journal, and the dictionary that the sealer
rebuilds from them. -/
namespace PgKronika

open ByteCodec CheckedArith

/-- The kept check bytes tell values of one length apart. -/
def CheckInjective (hashes : Hashes) (used : Bytes → Prop) : Prop :=
  ∀ v w, used v → used w → v.length = w.length → check16 hashes v = check16 hashes w → v = w

/-- The values that the calls of a run name. -/
def called {ε : Type} (ops : List (InternerOp ε)) (v : Bytes) : Prop :=
  ∃ call, InternerOp.call call v ∈ ops

/-- The windows that reached the journal. -/
def Interner.journaled {ε : Type} (hashes : Hashes) :
    List (InternerOp ε) → Interner → List SegmentDicts
  | [],_ => []
  | .call call bytes :: ops,t => Interner.journaled hashes ops (t.call hashes bytes call).2
  | .flush write :: ops,t =>
    match write t.window with
    | .error _ => Interner.journaled hashes ops t
    | .ok () => t.window :: Interner.journaled hashes ops (t.flushWindow hashes write).2

/-- No call forces a value into the blobs that the journal holds as a string. -/
def NoJournaledUpgrade {ε : Type} (hashes : Hashes) : List (InternerOp ε) → Interner → Prop
  | [],_ => True
  | .call call bytes :: ops,t =>
    (call = .internBlob → ∀ id f, StrId.of hashes bytes = some id →
      t.flushed.lookup id = some f → f.placement t.window.limits = .blobs) ∧
      NoJournaledUpgrade hashes ops (t.call hashes bytes call).2
  | .flush write :: ops,t => NoJournaledUpgrade hashes ops (t.flushWindow hashes write).2

section Mono

variable {hashes : Hashes} {used used' : Bytes → Prop} (hmono : ∀ v, used v → used' v)
include hmono

theorem DictInv.mono {d : SegmentDicts} (h : DictInv hashes used d) : DictInv hashes used' d := by
  refine ⟨fun id s hs => ?_,h.strict⟩
  obtain ⟨v,hv,hrest⟩ := h.stored id s hs
  exact ⟨v,hmono v hv,hrest⟩

theorem InternerInv.mono {t : Interner} (h : InternerInv hashes used t) :
    InternerInv hashes used' t := by
  refine ⟨⟨h.window.mono hmono,fun id f hf => ?_⟩,fun id v hp => ?_,h.strict⟩
  · obtain ⟨v,hv,hrest⟩ := h.flushed id f hf
    exact ⟨v,hmono v hv,hrest⟩
  · exact ⟨hmono v (h.pinned id v hp).1,(h.pinned id v hp).2⟩

end Mono

section Same

variable {hashes : Hashes} {used : Bytes → Prop} {t : Interner} {u v : Bytes} {id : StrId}

theorem check16_of_sha {s : Stored} {limits : DictLimits} {req : Requirements}
    (hs : s = limits.store hashes u req) (h : checkSameValue hashes s v = true) :
    u.length = v.length ∧ check16 hashes u = check16 hashes v := by
  subst hs
  rw [checkSameValue,DictLimits.store,Bool.and_eq_true,beq_iff_eq] at h
  obtain ⟨hlen,hvalue⟩ := h
  refine ⟨hlen,?_⟩
  dsimp only at hvalue
  by_cases hcut : limits.truncateLimit < u.length
  · rw [if_pos hcut] at hvalue
    rw [check16,check16,eq_of_beq hvalue]
  · rw [if_neg hcut,List.take_of_length_le (not_lt.mp hcut)] at hvalue
    rw [eq_of_beq hvalue]

theorem SegmentDicts.tryInsert_same {d next : SegmentDicts} {req : Requirements} {r : StrId}
    {s : Stored} (hs : d.entries.lookup id = some s)
    (h : d.tryInsert hashes id v req = (.ok r,next)) : checkSameValue hashes s v = true := by
  rw [tryInsert,hs] at h
  dsimp only at h
  by_cases hcheck : checkSameValue hashes s v = true
  · exact hcheck
  · rw [if_neg hcheck] at h
    cases h

theorem Interner.applyToWindow_same {s : Stored} {req : Requirements} {r : StrId × Bool}
    {next : Interner} (hid : StrId.of hashes v = some id)
    (hs : t.window.entries.lookup id = some s)
    (h : t.applyToWindow hashes id v req = (.ok r,next)) : checkSameValue hashes s v = true := by
  rw [applyToWindow] at h
  by_cases hconf : req.conflicts (decide (t.window.limits.blobThreshold ≤ v.length)) = true
  · rw [if_pos hconf] at h
    cases h
  · rw [if_neg hconf,SegmentDicts.intern,SegmentDicts.insert,hid] at h
    dsimp only at h
    cases hins : t.window.tryInsert hashes id v .default with
    | mk result window =>
      rw [hins] at h
      cases result with
      | error e => cases h
      | ok r => exact SegmentDicts.tryInsert_same hs hins

/-- An accepted request for an id in use is a request for the value in use. -/
theorem Interner.request_same (h : StoreInv hashes used t) (hinj : IdInjective hashes used)
    (hu : used u) (hu' : StrId.of hashes u = some id) (hid : StrId.of hashes v = some id)
    (hseen : (t.standings id).isSome) {req : Requirements} {r : StrId × Bool} {next : Interner}
    (hreq : t.request hashes v req = (.ok r,next)) :
    u.length = v.length ∧ check16 hashes u = check16 hashes v := by
  rw [request,hid] at hreq
  dsimp only at hreq
  rw [SegmentDicts.resolves,OrderedMap.contains] at hreq
  rw [standings,SegmentDicts.standings] at hseen
  cases hs : t.window.entries.lookup id with
  | some s =>
    rw [hs,Option.isSome_some,if_pos rfl] at hreq
    exact check16_of_sha (h.window.lookup_eq hinj hu hu' hs) (applyToWindow_same hid hs hreq)
  | none =>
    rw [hs,Option.isSome_none,if_neg Bool.false_ne_true] at hreq
    cases hf : t.flushed.lookup id with
    | none => rw [hs,hf] at hseen; cases hseen
    | some f =>
      obtain ⟨hlen,hcheck,-⟩ := h.flushed_eq hinj hu hu' hf
      rw [hf] at hreq
      dsimp only at hreq
      rw [requestFlushed] at hreq
      by_cases hfits : f.fits hashes v = true
      · rw [Flushed.fits,Bool.and_eq_true,beq_iff_eq,beq_iff_eq] at hfits
        exact ⟨hlen.symm.trans hfits.1,hcheck.symm.trans hfits.2.symm⟩
      · rw [eq_false_of_ne_true hfits] at hreq
        cases hreq

end Same

section Records

variable {hashes : Hashes} {t next : Interner} {v : Bytes} {id : StrId}

theorem Interner.applyToWindow_flushed (t : Interner) (hashes : Hashes) (id : StrId) (v : Bytes)
    (req : Requirements) : (t.applyToWindow hashes id v req).2.flushed = t.flushed := by
  rw [applyToWindow]
  split_ifs
  · rfl
  · cases t.window.intern hashes v with
    | mk result window => cases result <;> rfl

/-- What a call may do to the record of a flushed value: add its requirement. -/
def RecordMoves (before after : Option Flushed) (req : Requirements) : Prop :=
  after = before ∨ ∃ f, before = some f ∧ after = some ⟨f.fullLen,f.check,
    (f.req.merge req).blob,(f.req.merge req).hotHard,(f.req.merge req).hotSoft⟩

theorem RecordMoves.isSome {before after : Option Flushed} {req : Requirements}
    (h : RecordMoves before after req) : after.isSome = before.isSome := by
  rcases h with rfl | ⟨f,rfl,rfl⟩ <;> rfl

theorem Interner.recordFlushedBits_moves {f : Flushed} (hf : t.flushed.lookup id = some f)
    (req : Requirements) (id' : StrId) :
    (id' ≠ id → (t.recordFlushedBits id (f.req.merge req)).flushed.lookup id' =
      t.flushed.lookup id') ∧
    RecordMoves (t.flushed.lookup id)
      ((t.recordFlushedBits id (f.req.merge req)).flushed.lookup id) req := by
  rw [recordFlushedBits_some hf]
  exact ⟨fun hne => OrderedMap.lookup_insert_of_ne _ hne _,
    .inr ⟨f,hf,OrderedMap.lookup_insert_self _ _ _⟩⟩

/-- A request touches at most the record of its own value. -/
theorem Interner.request_moves (hid : StrId.of hashes v = some id) (req : Requirements)
    (id' : StrId) :
    (id' ≠ id → (t.request hashes v req).2.flushed.lookup id' = t.flushed.lookup id') ∧
    RecordMoves (t.flushed.lookup id) ((t.request hashes v req).2.flushed.lookup id) req := by
  have hsame : ∀ next : Interner, next.flushed = t.flushed →
      (id' ≠ id → next.flushed.lookup id' = t.flushed.lookup id') ∧
      RecordMoves (t.flushed.lookup id) (next.flushed.lookup id) req := by
    intro next hnext
    rw [hnext]
    exact ⟨fun _ => rfl,.inl rfl⟩
  rw [request,hid]
  dsimp only
  by_cases hres : t.window.resolves id = true
  · rw [if_pos hres]
    exact hsame _ (t.applyToWindow_flushed hashes id v req)
  · rw [if_neg hres]
    cases hf : t.flushed.lookup id with
    | none =>
      have h := hsame _ (t.applyToWindow_flushed hashes id v req)
      rwa [hf] at h
    | some f =>
      dsimp only
      rw [← hf,requestFlushed]
      dsimp only
      split_ifs
      · exact hsame t rfl
      · exact hsame t rfl
      · have hflushed := t.applyToWindow_flushed hashes id v (f.req.merge req)
        cases happly : t.applyToWindow hashes id v (f.req.merge req) with
        | mk result next =>
          rw [happly] at hflushed
          cases result with
          | error e => exact hsame next hflushed
          | ok r =>
            have h := next.recordFlushedBits_moves (hflushed ▸ hf) req id'
            rwa [hflushed] at h
      · exact t.recordFlushedBits_moves hf req id'
      · exact hsame t rfl

theorem Interner.call_moves (hid : StrId.of hashes v = some id) (call : InternCall) (id' : StrId) :
    (id' ≠ id → (t.call hashes v call).2.flushed.lookup id' = t.flushed.lookup id') ∧
    RecordMoves (t.flushed.lookup id) ((t.call hashes v call).2.flushed.lookup id) call.req := by
  have h := t.request_moves hid call.req id'
  cases hreq : t.request hashes v call.req with
  | mk result next =>
    rw [hreq] at h
    cases result with
    | error e => rwa [call_error hreq]
    | ok r =>
      rw [show (t.call hashes v call).2.flushed = next.flushed from ?_]
      · exact h
      · cases call <;> simp only [Interner.call,hreq]
        split_ifs <;> rfl

end Records

theorem Standing.accept_blob {s s' : Standing} {req : Requirements} (h : s.accept req = some s') :
    s'.blob = (s.blob || req.blob) := by
  rw [accept] at h
  split_ifs at h
  cases h
  rfl

theorem Standings.call_ok {st : Standings} {limits : DictLimits} {id : StrId} {fullLen : ℕ}
    {call : InternCall} {r : StrId × Option Bool}
    (h : (st.call limits id fullLen call).1 = .ok r) :
    ∃ s, ((st id).getD (freshStanding limits fullLen)).accept call.req = some s ∧
      (st.call limits id fullLen call).2 = Function.update st id (some s) := by
  rw [Standings.call,Standings.request] at h ⊢
  cases hacc : ((st id).getD (freshStanding limits fullLen)).accept call.req with
  | none => rw [hacc] at h; cases h
  | some s => exact ⟨s,rfl,rfl⟩

theorem Flushed.placement_standing (f : Flushed) (limits : DictLimits) :
    (f.standing limits).placement = f.placement limits := rfl

theorem Stored.placement_standing (s : Stored) : s.standing.placement = s.placement := rfl

/-- The journaled windows and the interner agree: every value is accounted for, and a
value keeps the placement it was first written with. -/
structure Rebuildable (hashes : Hashes) (used : Bytes → Prop) (ws : List SegmentDicts)
    (t : Interner) : Prop where
  interner : InternerInv hashes used t
  injective : IdInjective hashes used
  seen : ∀ v id, used v → StrId.of hashes v = some id → (t.standings id).isSome
  windows : ∀ w ∈ ws, DictInv hashes used w ∧ w.limits = t.window.limits
  placed : ∀ w ∈ ws, ∀ id s, w.entries.lookup id = some s → (t.flushed.lookup id).isSome ∧
    (t.standings id).map Standing.placement = some s.placement
  record : ∀ id f, t.flushed.lookup id = some f →
    (t.standings id).map Standing.placement = some (f.placement t.window.limits)
  written : ∀ id, (t.flushed.lookup id).isSome → ∃ w ∈ ws, (w.entries.lookup id).isSome

section Runs

variable {hashes : Hashes} {used : Bytes → Prop} {ws : List SegmentDicts} {t : Interner}

theorem Rebuildable.new (hashes : Hashes) (limits : DictLimits) :
    Rebuildable hashes (fun _ => False) [] (.new limits) where
  interner := .new hashes _ limits
  injective := fun _ _ _ hv => hv.elim
  seen := fun _ _ hv => hv.elim
  windows := by simp
  placed := by simp
  record := by simp [Interner.new]
  written := by simp [Interner.new]

/-- An accepted call keeps the ids of all values apart. -/
theorem Rebuildable.call_injective (h : Rebuildable hashes used ws t) {v : Bytes}
    (hcheck : CheckInjective hashes fun w => used w ∨ w = v) {call : InternCall}
    {r : StrId × Option Bool} (hok : (t.call hashes v call).1 = .ok r) :
    IdInjective hashes fun w => used w ∨ w = v := by
  have hsame : ∀ u id, used u → StrId.of hashes u = some id → StrId.of hashes v = some id →
      u = v := by
    intro u id hu hu' hid
    cases hreq : t.request hashes v call.req with
    | mk result next =>
      cases result with
      | error e => rw [Interner.call_error hreq] at hok; cases hok
      | ok r' =>
        obtain ⟨hlen,hbytes⟩ := Interner.request_same h.interner.toStoreInv h.injective hu hu' hid
          (h.seen u id hu hu') hreq
        exact hcheck u v (.inl hu) (.inr rfl) hlen hbytes
  rintro a b id (ha | rfl) (hb | rfl) hai hbi
  · exact h.injective a b id ha hb hai hbi
  · exact hsame a id ha hai hbi
  · exact (hsame b id hb hbi hai).symm
  · rfl

theorem Rebuildable.call (h : Rebuildable hashes used ws t) {v : Bytes}
    (hcheck : CheckInjective hashes fun w => used w ∨ w = v) {call : InternCall}
    {r : StrId × Option Bool} (hok : (t.call hashes v call).1 = .ok r)
    (hkept : call = .internBlob → ∀ id f, StrId.of hashes v = some id →
      t.flushed.lookup id = some f → f.placement t.window.limits = .blobs) :
    Rebuildable hashes (fun w => used w ∨ w = v) ws (t.call hashes v call).2 := by
  have hinj := h.call_injective hcheck hok
  have hinv : InternerInv hashes (fun w => used w ∨ w = v) t := h.interner.mono fun _ => .inl
  cases hid : StrId.of hashes v with
  | none => rw [(call_zero hid t t.window call).1] at hok; cases hok
  | some id =>
    have hmoves := t.call_moves hid call
    rcases Interner.call_refines hinv hinj (.inr rfl) hid call with
      ⟨e,he,-⟩ | ⟨next,hcall,hst,hlimits,hnext,-⟩
    · rw [he] at hok; cases hok
    rw [hcall] at hok hmoves ⊢
    obtain ⟨s,hacc,hupdate⟩ := Standings.call_ok hok
    rw [hupdate] at hst
    dsimp only at hmoves ⊢
    have hdomain : ∀ id', (next.flushed.lookup id').isSome = (t.flushed.lookup id').isSome := by
      intro id'
      by_cases he : id' = id
      · rw [he]
        exact (hmoves id).2.isSome
      · rw [(hmoves id').1 he]
    -- only an upgrade to a blob would move a journaled value
    have hblob : ∀ f, t.flushed.lookup id = some f → (f.placement t.window.limits = .blobs ∨
        call.req.blob = false) ∧ t.standings id ≠ none := by
      intro f hf
      refine ⟨?_,fun hnone => ?_⟩
      · by_cases hup : call = .internBlob
        · exact .inl (hkept hup id f hid hf)
        · cases call <;> first | exact .inr rfl | exact absurd rfl hup
      · have hrec := h.record id f hf
        rw [hnone] at hrec
        cases hrec
    have hplace : ∀ id', (t.flushed.lookup id').isSome →
        (next.standings id').map Standing.placement = (t.standings id').map Standing.placement := by
      intro id' hsome
      by_cases he : id' = id
      · subst he
        obtain ⟨f,hf⟩ := Option.isSome_iff_exists.mp hsome
        obtain ⟨hor,hst'⟩ := hblob f hf
        obtain ⟨st,hstand⟩ := Option.ne_none_iff_exists'.mp hst'
        have hrec := h.record id' f hf
        rw [hstand,Option.map_some,Option.some_inj] at hrec
        rw [hstand,Option.getD_some] at hacc
        rw [hst,Function.update_self,hstand,Option.map_some,Option.map_some,Standing.placement,
          Standing.accept_blob hacc,Standing.placement]
        rcases hor with hblobs | hreq
        · rw [hblobs,Standing.placement] at hrec
          split_ifs at hrec with hb
          rw [hb]
          rfl
        · rw [hreq,Bool.or_false]
      · rw [hst,Function.update_of_ne he]
    refine ⟨hnext,hinj,?_,?_,?_,?_,?_⟩
    · rintro u id' (hu | rfl) hu'
      · rw [hst,Function.update_apply]
        split_ifs
        · rfl
        · exact h.seen u id' hu hu'
      · rw [hid] at hu'
        cases hu'
        rw [hst,Function.update_self]
        rfl
    · intro w hw
      obtain ⟨hdict,hl⟩ := h.windows w hw
      exact ⟨hdict.mono fun _ => .inl,by rw [hl,hlimits]⟩
    · intro w hw id' s' hs'
      obtain ⟨hsome,hp⟩ := h.placed w hw id' s' hs'
      exact ⟨by rw [hdomain]; exact hsome,by rw [hplace id' hsome]; exact hp⟩
    · intro id' f' hf'
      have hsome : (t.flushed.lookup id').isSome := by rw [← hdomain,hf']; rfl
      obtain ⟨f,hf⟩ := Option.isSome_iff_exists.mp hsome
      rw [hplace id' hsome,h.record id' f hf,hlimits]
      by_cases he : id' = id
      · subst he
        rcases (hmoves id').2 with hsame | ⟨f0,hf0,hmoved⟩
        · rw [hf',hf] at hsame
          rw [Option.some.inj hsame]
        · rw [hf] at hf0
          cases hf0
          rw [hf'] at hmoved
          cases hmoved
          rw [Flushed.placement,Flushed.placement]
          rcases (hblob f hf).1 with hblobs | hreq
          · rw [Flushed.placement] at hblobs
            split_ifs at hblobs with hb
            rw [if_pos hb,if_pos]
            simp only [Requirements.merge,Flushed.req,Bool.or_eq_true] at hb ⊢
            tauto
          · simp [Requirements.merge,Flushed.req,hreq]
      · rw [(hmoves id').1 he,hf] at hf'
        cases hf'
        rfl
    · intro id' hsome
      exact h.written id' (by rw [← hdomain]; exact hsome)

/-- A flush adds the window to the journal. -/
theorem Rebuildable.flush {ε : Type} (h : Rebuildable hashes used ws t)
    {write : SegmentDicts → Except ε Unit} (hwrite : write t.window = .ok ()) :
    Rebuildable hashes used (ws ++ [t.window]) (t.flushWindow hashes write).2 := by
  obtain ⟨hst,hlimits,hinv⟩ := Interner.flushWindow_refines h.interner h.injective write
  have hflushed : (t.flushWindow hashes write).2.flushed =
      recordFlushed hashes t.window.snapshots t.flushed := by
    rw [Interner.flushWindow,hwrite]
  generalize (t.flushWindow hashes write).2 = next at hst hlimits hinv hflushed ⊢
  have hlookup : ∀ id, next.flushed.lookup id =
      ((t.window.entries.lookup id).map fun s => (s.snapshot id).flushed hashes).or
        (t.flushed.lookup id) := fun id => by
    rw [hflushed,lookup_recordFlushed]
  have hwindow : ∀ id s, t.window.entries.lookup id = some s →
      (t.standings id).map Standing.placement = some s.placement := by
    intro id s hs
    rw [Interner.standings,SegmentDicts.standings,hs]
    rfl
  have hdomain : ∀ id, (next.flushed.lookup id).isSome ↔
      (t.window.entries.lookup id).isSome ∨ (t.flushed.lookup id).isSome := by
    intro id
    rw [hlookup]
    cases t.window.entries.lookup id <;> simp
  refine ⟨hinv,h.injective,fun v id hv hid => ?_,fun w hw => ?_,fun w hw id s hs => ?_,
    fun id f hf => ?_,fun id hsome => ?_⟩
  · rw [hst]
    exact h.seen v id hv hid
  · rw [hlimits]
    rcases List.mem_append.mp hw with hw | hw
    · exact h.windows w hw
    · rw [List.mem_singleton.mp hw]
      exact ⟨h.interner.window,rfl⟩
  · rw [hst,hdomain]
    rcases List.mem_append.mp hw with hw | hw
    · exact ⟨.inr (h.placed w hw id s hs).1,(h.placed w hw id s hs).2⟩
    · rw [List.mem_singleton.mp hw] at hs
      exact ⟨.inl (by rw [hs]; rfl),hwindow id s hs⟩
  · rw [hst,hlimits]
    rw [hlookup] at hf
    cases hs : t.window.entries.lookup id with
    | none => rw [hs] at hf; exact h.record id f hf
    | some s =>
      rw [hs] at hf
      cases hf
      obtain ⟨v,hv,hid,he⟩ := h.interner.window.stored id s hs
      rw [hwindow id s hs,he]
      rfl
  · rcases (hdomain id).mp hsome with hs | hs
    · exact ⟨t.window,by simp,hs⟩
    · obtain ⟨w,hw,hin⟩ := h.written id hs
      exact ⟨w,List.mem_append_left _ hw,hin⟩

theorem Rebuildable.run {ε : Type} {ops : List (InternerOp ε)} (h : Rebuildable hashes used ws t)
    (hcheck : CheckInjective hashes fun v => used v ∨ called ops v)
    (hok : ∀ a ∈ (Interner.run hashes ops t).1, a.isOk = true)
    (hkept : NoJournaledUpgrade hashes ops t) :
    ∃ used', Rebuildable hashes used' (ws ++ Interner.journaled hashes ops t)
      (Interner.run hashes ops t).2 := by
  induction ops generalizing used ws t with
  | nil => exact ⟨used,by rw [Interner.journaled,List.append_nil]; exact h⟩
  | cons op ops ih =>
    have hfewer : ∀ {v}, called ops v → called (op :: ops) v := fun ⟨call,hmem⟩ =>
      ⟨call,List.mem_cons_of_mem _ hmem⟩
    cases op with
    | call call v =>
      have hv : called (.call call v :: ops) v := ⟨call,List.mem_cons_self ..⟩
      have hall : ∀ w, (used w ∨ w = v) ∨ called ops w → used w ∨
          called (.call call v :: ops) w := by
        rintro w ((hw | rfl) | hw)
        · exact .inl hw
        · exact .inr hv
        · exact .inr (hfewer hw)
      obtain ⟨r,hr⟩ := ok_of_isOk (hok _ (List.mem_cons_self ..))
      have hnext := h.call (fun a b ha hb => hcheck a b (hall a (.inl ha)) (hall b (.inl hb))) hr
        hkept.1
      exact ih hnext (fun a b ha hb => hcheck a b (hall a ha) (hall b hb))
        (fun a ha => hok a (List.mem_cons_of_mem _ ha)) hkept.2
    | flush write =>
      have hrest : CheckInjective hashes fun v => used v ∨ called ops v := fun a b ha hb =>
        hcheck a b (ha.imp_right hfewer) (hb.imp_right hfewer)
      rw [NoJournaledUpgrade] at hkept
      rw [Interner.run] at hok ⊢
      rw [Interner.journaled]
      cases hwrite : write t.window with
      | error e =>
        have hsame : (t.flushWindow hashes write).2 = t := by rw [Interner.flushWindow,hwrite]
        rw [hsame] at hok hkept ⊢
        exact ih h hrest hok hkept
      | ok u =>
        have hnext := ih (h.flush hwrite) hrest hok hkept
        rwa [List.append_assoc] at hnext

end Runs

section Values

variable {hashes : Hashes} {used : Bytes → Prop} {ws : List SegmentDicts} {t : Interner}

theorem mem_windowValues {p : Placement} {w : SegmentDicts} {id : StrId} {v : DictionaryValue} :
    (id,v) ∈ windowValues p w ↔
      ∃ s, w.entries.lookup id = some s ∧ s.placement = p ∧ v = (s.snapshot id).value := by
  simp only [windowValues,SegmentDicts.snapshots,List.mem_map,List.mem_filter,
    decide_eq_true_eq,Prod.mk.injEq]
  constructor
  · rintro ⟨e,⟨⟨q,hq,rfl⟩,hp⟩,rfl,rfl⟩
    exact ⟨q.2,OrderedMap.mem_entries_iff.mp hq,hp,rfl⟩
  · rintro ⟨s,hs,hp,rfl⟩
    exact ⟨s.snapshot id,⟨⟨(id,s),OrderedMap.mem_entries_iff.mpr hs,rfl⟩,hp⟩,rfl,rfl⟩

/-- All values of the windows, strings before blobs. -/
def allValues (ws : List SegmentDicts) : List (StrId × DictionaryValue) :=
  (ws.flatMap fun w => windowValues .strings w) ++ ws.flatMap fun w => windowValues .blobs w

theorem mem_allValues {id : StrId} {v : DictionaryValue} : (id,v) ∈ allValues ws ↔
    ∃ w ∈ ws, ∃ s, w.entries.lookup id = some s ∧ v = (s.snapshot id).value := by
  simp only [allValues,List.mem_append,List.mem_flatMap,mem_windowValues]
  constructor
  · rintro (⟨w,hw,s,hs,-,hv⟩ | ⟨w,hw,s,hs,-,hv⟩) <;> exact ⟨w,hw,s,hs,hv⟩
  · rintro ⟨w,hw,s,hs,hv⟩
    cases hp : s.placement with
    | strings => exact .inl ⟨w,hw,s,hs,hp,hv⟩
    | blobs => exact .inr ⟨w,hw,s,hs,hp,hv⟩

/-- A value and its placement decide what is written for it. -/
theorem store_value_eq {limits : DictLimits} {v : Bytes} {r r' : Requirements} (id : StrId)
    (h : (limits.store hashes v r).placement = (limits.store hashes v r').placement) :
    ((limits.store hashes v r).snapshot id).value =
      ((limits.store hashes v r').snapshot id).value := by
  rw [EntrySnapshot.value,EntrySnapshot.value]
  simp only [Stored.snapshot,h]
  rfl

theorem value_placement (id : StrId) (s : Stored) :
    (s.snapshot id).value.placement = s.placement := by
  rw [EntrySnapshot.value,Stored.snapshot]
  cases s.placement <;> rfl

/-- The windows of a segment, the last one included. -/
def Interner.windows (t : Interner) (ws : List SegmentDicts) : List SegmentDicts := ws ++ [t.window]

theorem Rebuildable.mem_windows (h : Rebuildable hashes used ws t) {w : SegmentDicts}
    (hw : w ∈ t.windows ws) : DictInv hashes used w ∧ w.limits = t.window.limits ∧
      ∀ id s, w.entries.lookup id = some s →
        (t.standings id).map Standing.placement = some s.placement := by
  rcases List.mem_append.mp hw with hw | hw
  · exact ⟨(h.windows w hw).1,(h.windows w hw).2,fun id s hs => (h.placed w hw id s hs).2⟩
  · rw [List.mem_singleton.mp hw]
    refine ⟨h.interner.window,rfl,fun id s hs => ?_⟩
    rw [Interner.standings,SegmentDicts.standings,hs]
    rfl

theorem Rebuildable.covered (h : Rebuildable hashes used ws t) {id : StrId}
    (hs : (t.standings id).isSome) : ∃ w ∈ t.windows ws, ∃ s, w.entries.lookup id = some s := by
  rw [Interner.standings,SegmentDicts.standings] at hs
  cases hw : t.window.entries.lookup id with
  | some s => exact ⟨t.window,by simp [Interner.windows],s,hw⟩
  | none =>
    rw [hw,Option.map_none,Option.none_or,Option.isSome_map] at hs
    obtain ⟨w,hmem,hin⟩ := h.written id hs
    obtain ⟨s,hs⟩ := Option.isSome_iff_exists.mp hin
    exact ⟨w,List.mem_append_left _ hmem,s,hs⟩

/-- No id is written with two values. -/
theorem Rebuildable.values_unique (h : Rebuildable hashes used ws t) (id : StrId)
    (v v' : DictionaryValue) (hv : (id,v) ∈ allValues (t.windows ws))
    (hv' : (id,v') ∈ allValues (t.windows ws)) : v = v' := by
  obtain ⟨w,hw,s,hs,rfl⟩ := mem_allValues.mp hv
  obtain ⟨w',hw',s',hs',rfl⟩ := mem_allValues.mp hv'
  obtain ⟨hinv,hlimits,hplaced⟩ := h.mem_windows hw
  obtain ⟨hinv',hlimits',hplaced'⟩ := h.mem_windows hw'
  obtain ⟨b,hb,hid,he⟩ := hinv.stored id s hs
  have he' := hinv'.lookup_eq h.injective hb hid hs'
  have hp := (hplaced id s hs).symm.trans (hplaced' id s' hs')
  rw [Option.some_inj] at hp
  rw [hlimits] at he
  rw [hlimits'] at he'
  rw [he,he'] at hp ⊢
  exact store_value_eq id hp

/-- Sizes without the hot count, which only the interner keeps. -/
def DictStats.cold : DictStats →+ DictStats where
  toFun s := { s with hotCount := 0 }
  map_zero' := rfl
  map_add' _ _ := rfl

theorem WithinCaps.of_cold {a b : DictStats} (h : WithinCaps a) (hab : a.cold = b.cold) :
    WithinCaps b := by
  obtain ⟨h1,h2,h3,h4⟩ := h
  have hs := congrArg DictStats.stringCount hab
  have hb := congrArg DictStats.blobCount hab
  have hsb := congrArg DictStats.stringBytes hab
  have hbb := congrArg DictStats.blobBytes hab
  exact ⟨hs ▸ h1,hb ▸ h2,hsb ▸ h3,hbb ▸ h4⟩

theorem store_value_size (limits : DictLimits) (v : Bytes) (r : Requirements) (id : StrId) :
    ((limits.store hashes v r).snapshot id).value.size.cold =
      ((limits.standing v r).stats limits).cold := by
  have hlen : ((limits.store hashes v r).snapshot id).value.bytes.length =
      min v.length limits.truncateLimit := by
    rw [EntrySnapshot.value,Stored.snapshot,Nat.min_comm,← List.length_take]
    cases (limits.store hashes v r).placement <;> rfl
  have hplace : (limits.store hashes v r).placement = (limits.standing v r).placement := rfl
  rw [DictionaryValue.size,value_placement,hlen,Standing.stats,hplace]
  cases (limits.standing v r).placement <;> rfl

/-- The values take what the interner accounts for. -/
theorem Rebuildable.values_size (h : Rebuildable hashes used ws t) :
    (valuesSize (.ofList (allValues (t.windows ws)))).cold = t.stats.cold := by
  have hlookup := OrderedMap.lookup_ofList h.values_unique
  generalize hm : OrderedMap.ofList (allValues (t.windows ws)) = m at hlookup ⊢
  let ids := (m.entries.map Prod.fst ++ t.window.entries.entries.map Prod.fst ++
    t.flushed.entries.map Prod.fst).toFinset
  have hids : ∀ id, id ∈ ids ↔ id ∈ m.entries.map Prod.fst ∨
      id ∈ t.window.entries.entries.map Prod.fst ∨ id ∈ t.flushed.entries.map Prod.fst := by
    simp [ids]
  rw [valuesSize,m.sum_entries (fun _ v => v.size) ids
      fun p hp => (hids _).mpr (.inl (List.mem_map_of_mem hp)),
    Interner.stats_standings h.interner.toStoreInv ids
      (fun p hp => (hids _).mpr (.inr (.inl (List.mem_map_of_mem hp))))
      (fun p hp => (hids _).mpr (.inr (.inr (List.mem_map_of_mem hp)))),map_sum,map_sum]
  refine Finset.sum_congr rfl fun id _ => ?_
  cases hst : t.standings id with
  | none =>
    have hnone : m.lookup id = none := by
      rw [Option.eq_none_iff_forall_ne_some]
      intro v hv
      obtain ⟨w,hw,s,hs,-⟩ := mem_allValues.mp ((hlookup id v).mp hv)
      have hp := (h.mem_windows hw).2.2 id s hs
      rw [hst] at hp
      cases hp
    rw [hnone]
    rfl
  | some st =>
    obtain ⟨w,hw,s,hs⟩ := h.covered (by rw [hst]; rfl)
    obtain ⟨hinv,hlimits,hplaced⟩ := h.mem_windows hw
    obtain ⟨v,hv,hid,he⟩ := hinv.stored id s hs
    obtain ⟨r,hr,-⟩ := h.interner.standing_valid h.injective hv hid hst
    rw [(hlookup id _).mpr (mem_allValues.mpr ⟨w,hw,s,hs,rfl⟩)]
    have hp := hplaced id s hs
    rw [hst,Option.map_some,Option.some_inj,hr] at hp
    rw [hlimits] at he
    have hsame : s.placement = (t.window.limits.store hashes v r).placement := hp.symm
    rw [he] at hsame ⊢
    rw [hr,store_value_eq id hsame]
    exact store_value_size t.window.limits v r id

theorem sum_size_bytes {p : Placement} {vs : List DictionaryValue}
    (hp : ∀ v ∈ vs, v.placement = p) (hcaps : WithinCaps (vs.map DictionaryValue.size).sum) :
    (vs.map fun v => v.bytes.length).sum ≤ maxSectionBytes := by
  have hsum : (vs.map fun v => v.bytes.length).sum = match p with
      | .strings => (vs.map DictionaryValue.size).sum.stringBytes
      | .blobs => (vs.map DictionaryValue.size).sum.blobBytes := by
    clear hcaps
    induction vs with
    | nil => cases p <;> rfl
    | cons v vs ih =>
      rw [List.map_cons,List.sum_cons,List.map_cons,List.sum_cons,
        ih fun u hu => hp u (List.mem_cons_of_mem _ hu)]
      have hv := hp v (List.mem_cons_self ..)
      cases p <;> simp [DictionaryValue.size,hv,entryStats]
  rw [hsum]
  cases p with
  | strings => exact hcaps.stringBytes
  | blobs => exact hcaps.blobBytes

/-- One window's values of a placement fit a section when all values do. -/
theorem windowValues_fit {m : OrderedMap StrId DictionaryValue} {w : SegmentDicts} {p : Placement}
    (hsub : ∀ q ∈ windowValues p w, m.lookup q.1 = some q.2) (hcaps : WithinCaps (valuesSize m)) :
    ((windowValues p w).map fun q => q.2.bytes.length).sum ≤ maxSectionBytes := by
  have hasc : (windowValues p w).Pairwise fun a b => a.1 < b.1 :=
    List.pairwise_map.mpr ((snapshots_ascending w).filter _)
  have hnodup : (windowValues p w).Nodup := hasc.imp fun hab he => hab.ne (congrArg Prod.fst he)
  obtain ⟨l,hl,hle⟩ := hnodup.subperm fun q hq => OrderedMap.mem_entries_iff.mpr (hsub q hq)
  obtain ⟨rest,hrest⟩ := hle.exists_perm_append
  have hperm := hrest.trans (hl.append_right rest)
  rw [valuesSize,(hperm.map _).sum_eq,List.map_append,List.sum_append] at hcaps
  have hplaced : ∀ v ∈ (windowValues p w).map Prod.snd, v.placement = p := by
    intro v hv
    obtain ⟨q,hq,rfl⟩ := List.mem_map.mp hv
    obtain ⟨s,-,hp,he⟩ := mem_windowValues.mp hq
    rw [he,value_placement,hp]
  have hfit := sum_size_bytes hplaced (by rw [List.map_map]; exact hcaps.of_add)
  rwa [List.map_map] at hfit

end Values

/-- The dictionary sections that the sealer finds in the parts of the windows. -/
def normalizeWindows (codec : DictCodec) (hashes : Hashes) (j : Journal)
    (cs : List CarriedWindow) : Except SealError NormalizedDictionary :=
  let ds := descriptorsOf (j.parts.zip (cs.map CarriedWindow.catalog))
  normalizeDictionary codec hashes j (ofType dictStringsTypeId ds) (ofType dictBlobsTypeId ds)

/-- The dictionary has the id where the sealed segment reports it. -/
def PlacedAs (n : NormalizedDictionary) (s : SealedSegment) : Prop :=
  ∀ id, (n.values.lookup id).map DictionaryValue.placement = (s.directive id).map Prod.fst

theorem Rebuildable.rebuilt {codec : DictCodec} (hcodec : codec.RoundTrip) {hashes : Hashes}
    {used : Bytes → Prop} {ws : List SegmentDicts} {t : Interner}
    (h : Rebuildable hashes used ws t) (hcaps : WithinCaps t.stats) {j : Journal}
    {cs : List CarriedWindow} (hwindows : cs.map CarriedWindow.window = t.windows ws)
    (hcarries : ∀ c ∈ cs, Carries codec c.window c.bytes c.catalog)
    (hread : j.Reads (cs.map CarriedWindow.bytes)) :
    ∃ n, normalizeWindows codec hashes j cs = .ok n ∧ PlacedAs n t.seal.1 := by
  have hlookup := OrderedMap.lookup_ofList h.values_unique
  have hfit := hcaps.of_cold h.values_size.symm
  obtain ⟨n,hn⟩ := insertAll_of_map NormalizedDictionary.new_sized
    (by simp [NormalizedDictionary.new]) (fun p hp => (hlookup p.1 p.2).mpr hp) hfit
  obtain ⟨-,hvalues⟩ := insertAll_ok NormalizedDictionary.new_sized hn
  have hflat : ∀ p, (cs.flatMap fun c => windowValues p c.window) =
      (t.windows ws).flatMap fun w => windowValues p w := fun p => by
    rw [← hwindows,List.flatMap_map]
  have hall : ∀ c ∈ cs, Carries codec c.window c.bytes c.catalog ∧ DictInv hashes used c.window ∧
      ∀ p, ((windowValues p c.window).map fun q => q.2.bytes.length).sum ≤ maxSectionBytes := by
    intro c hc
    have hmem : c.window ∈ t.windows ws := hwindows ▸ List.mem_map_of_mem hc
    refine ⟨hcarries c hc,(h.mem_windows hmem).1,fun p => windowValues_fit (fun q hq => ?_) hfit⟩
    obtain ⟨s,hs,-,hv⟩ := mem_windowValues.mp hq
    exact (hlookup q.1 q.2).mpr (mem_allValues.mpr ⟨c.window,hmem,s,hs,hv⟩)
  rw [allValues,← hflat,← hflat] at hn
  refine ⟨n,normalize_windows hcodec hread hall hn,fun id => ?_⟩
  rw [Interner.seal_standings,Option.map_map]
  cases hst : t.standings id with
  | none =>
    have hnone : n.values.lookup id = none := by
      rw [Option.eq_none_iff_forall_ne_some]
      intro v hv
      rcases (hvalues id v).mp hv with hv | hv
      · simp [NormalizedDictionary.new] at hv
      · obtain ⟨w,hw,s,hs,-⟩ := mem_allValues.mp hv
        have hp := (h.mem_windows hw).2.2 id s hs
        rw [hst] at hp
        cases hp
    rw [hnone]
    rfl
  | some st =>
    obtain ⟨w,hw,s,hs⟩ := h.covered (by rw [hst]; rfl)
    have hp := (h.mem_windows hw).2.2 id s hs
    rw [hst,Option.map_some] at hp
    rw [(hvalues id _).mpr (.inr (mem_allValues.mpr ⟨w,hw,s,hs,rfl⟩)),Option.map_some,
      value_placement,← hp]
    rfl

/-- The final dictionaries come back from the journal when no journaled string is forced
into the blobs later and all values fit one section of each placement. -/
theorem journaled_dictionaries_rebuilt {ε : Type} {codec : DictCodec} (hcodec : codec.RoundTrip)
    (hashes : Hashes) (limits : DictLimits) (ops : List (InternerOp ε))
    (hcheck : CheckInjective hashes (called ops))
    (hok : ∀ a ∈ (Interner.run hashes ops (.new limits)).1, a.isOk = true)
    (hkept : NoJournaledUpgrade hashes ops (.new limits))
    (hcaps : WithinCaps (Interner.run hashes ops (.new limits)).2.stats) {j : Journal}
    {cs : List CarriedWindow}
    (hwindows : cs.map CarriedWindow.window = (Interner.run hashes ops (.new limits)).2.windows
      (Interner.journaled hashes ops (.new limits)))
    (hcarries : ∀ c ∈ cs, Carries codec c.window c.bytes c.catalog)
    (hread : j.Reads (cs.map CarriedWindow.bytes)) :
    ∃ n, normalizeWindows codec hashes j cs = .ok n ∧
      PlacedAs n (Interner.run hashes ops (.new limits)).2.seal.1 := by
  obtain ⟨used,h⟩ := (Rebuildable.new hashes limits).run
    (fun a b ha hb => hcheck a b (ha.resolve_left id) (hb.resolve_left id)) hok hkept
  exact h.rebuilt hcodec hcaps hwindows hcarries hread

/-- The tables of `a` as a string and as a blob. -/
def sampleString : DictTable := .strings [⟨0xe6c632b61e964e1f,[97]⟩]

def sampleBlob : DictTable := .blobs [⟨0xe6c632b61e964e1f,[97],1,false,none⟩]

/-- A codec of these two tables. -/
def sampleDictCodec : DictCodec where
  write _ table := if table = sampleString then .ok [1] else if table = sampleBlob then .ok [2]
    else .error .schemaMismatch
  decodeWork _ _ := .ok ()
  read body := if body = [1] then .ok ⟨1,1,dictionarySchema false,[sampleString]⟩
    else if body = [2] then .ok ⟨1,1,dictionarySchema true,[sampleBlob]⟩
    else .error .schemaMismatch

theorem sampleDictCodec_roundTrip : sampleDictCodec.RoundTrip := by
  refine ⟨fun profile table body hwrite _ _ => ⟨rfl,?_⟩⟩
  simp only [sampleDictCodec] at hwrite ⊢
  split_ifs at hwrite with hs hb
  · cases hwrite
    exact ⟨_,rfl,by decide,by rw [hs]; rfl,by rw [hs]; rfl,by rw [hs]; rfl,by rw [hs]; decide⟩
  · cases hwrite
    exact ⟨_,rfl,by decide,by rw [hb]; rfl,by rw [hb]; rfl,by rw [hb]; rfl,by rw [hb]; decide⟩

def dictCatalog (typeId : UInt32) (body : Bytes) : Catalog :=
  ⟨[⟨typeId,0,4,1,1,Crc32c.crc32c body⟩],0,0,formatVersion,1⟩

/-- A part with one dictionary section of one row. -/
def dictPart (typeId : UInt32) (body : Bytes) : Bytes :=
  magic ++ body ++ (dictCatalog typeId body).encode

def stringWindow : CarriedWindow where
  window := ((SegmentDicts.new .default).intern sampleHashes [97]).2
  bytes := dictPart dictStringsTypeId [1]
  catalog := dictCatalog dictStringsTypeId [1]

def blobWindow : CarriedWindow where
  window := ((SegmentDicts.new .default).internBlob sampleHashes [97]).2
  bytes := dictPart dictBlobsTypeId [2]
  catalog := dictCatalog dictBlobsTypeId [2]

def emptyWindow : CarriedWindow where
  window := .new .default
  bytes := emptyPart 0 0 1
  catalog := ⟨[],0,0,formatVersion,1⟩

/-- What makes a window carried, as a check. -/
def CarriedWindow.Checked (codec : DictCodec) (c : CarriedWindow) (sections : List DictSection) :
    Prop :=
  validatePart c.bytes = .ok c.catalog ∧ c.window.encode codec = .ok sections ∧
    (c.catalog.entries.filter fun e =>
      e.typeId == dictStringsTypeId || e.typeId == dictBlobsTypeId).map
        (fun e => (⟨e.typeId,e.rows,e.body c.bytes⟩ : DictSection)) = sections

instance (codec : DictCodec) (c : CarriedWindow) (sections : List DictSection) :
    Decidable (c.Checked codec sections) :=
  inferInstanceAs (Decidable (_ ∧ _))

theorem CarriedWindow.Checked.carries {codec : DictCodec} {c : CarriedWindow}
    {sections : List DictSection} (h : c.Checked codec sections) :
    Carries codec c.window c.bytes c.catalog :=
  ⟨h.1,sections,h.2.1,h.2.2⟩

theorem sampleWindows_checked :
    stringWindow.Checked sampleDictCodec [⟨dictStringsTypeId,1,[1]⟩] ∧
      blobWindow.Checked sampleDictCodec [⟨dictBlobsTypeId,1,[2]⟩] ∧
        emptyWindow.Checked sampleDictCodec [] := by
  decide +kernel

theorem stringPart_valid :
    validatePart (dictPart dictStringsTypeId [1]) = .ok (dictCatalog dictStringsTypeId [1]) :=
  sampleWindows_checked.1.1

theorem blobPart_valid :
    validatePart (dictPart dictBlobsTypeId [2]) = .ok (dictCatalog dictBlobsTypeId [2]) :=
  sampleWindows_checked.2.1.1

theorem stringWindow_carries :
    Carries sampleDictCodec stringWindow.window stringWindow.bytes stringWindow.catalog :=
  sampleWindows_checked.1.carries

theorem blobWindow_carries :
    Carries sampleDictCodec blobWindow.window blobWindow.bytes blobWindow.catalog :=
  sampleWindows_checked.2.1.carries

theorem emptyWindow_carries :
    Carries sampleDictCodec emptyWindow.window emptyWindow.bytes emptyWindow.catalog :=
  sampleWindows_checked.2.2.carries

/-- A journal whose parts carry two windows. -/
def twoWindows (a b : CarriedWindow) (ha : validatePart a.bytes = .ok a.catalog)
    (hb : validatePart b.bytes = .ok b.catalog) : Generation where
  segmentId := some ⟨0,segmentIdInRange_zero⟩
  bodies := [a.bytes,b.bytes]
  identified := by simp
  valid := by
    intro bytes hbytes
    rcases List.mem_pair.mp hbytes with rfl | rfl
    · exact ⟨_,ha⟩
    · exact ⟨_,hb⟩

def Generation.journal (g : Generation) : Journal :=
  .opened g.image .default g.segmentId (framesFrom journalHeaderLen g.bodies) 0

theorem Generation.journal_reads {g : Generation} (h : g.Fits .default) :
    g.journal.Reads g.bodies := (g.opened_holds h validateConfig_default 0).reads

/-- `a` is written as a string and asked for again. -/
def repeatedString : List (InternerOp Unit) :=
  [.call .intern [97],.flush fun _ => .ok (),.call .intern [97]]

/-- `a` is written as a string and then forced into the blobs. -/
def upgradedString : List (InternerOp Unit) :=
  [.call .intern [97],.flush fun _ => .ok (),.call .internBlob [97]]

theorem sealError_eq {r : Except SealError NormalizedDictionary} {e : SealError}
    (h : (match r with
      | .error e' => decide (e' = e)
      | .ok _ => false) = true) : r = .error e := by
  cases r with
  | error e' => rw [of_decide_eq_true h]
  | ok n => cases h

theorem called_upgradedString {v : Bytes} (h : called upgradedString v) : v = [97] := by
  obtain ⟨call,hmem⟩ := h
  simp only [upgradedString,List.mem_cons,InternerOp.call.injEq,reduceCtorEq,List.not_mem_nil,
    or_false,false_or] at hmem
  rcases hmem with h | h <;> exact h.2

theorem called_repeatedString {v : Bytes} (h : called repeatedString v) : v = [97] := by
  obtain ⟨call,hmem⟩ := h
  simp only [repeatedString,List.mem_cons,InternerOp.call.injEq,reduceCtorEq,List.not_mem_nil,
    or_false,false_or] at hmem
  rcases hmem with h | h <;> exact h.2

theorem repeatedWindows_fits :
    (twoWindows stringWindow emptyWindow stringPart_valid emptyWindow_carries.valid).Fits
      .default :=
  ⟨by decide,by decide,by decide⟩

theorem upgradedWindows_fits :
    (twoWindows stringWindow blobWindow stringPart_valid blobPart_valid).Fits .default :=
  ⟨by decide,by decide,by decide⟩

theorem journaled_dictionaries_rebuilt_sample :
    ∃ n, normalizeWindows sampleDictCodec sampleHashes
        (twoWindows stringWindow emptyWindow stringPart_valid emptyWindow_carries.valid).journal
        [stringWindow,emptyWindow] = .ok n ∧
      PlacedAs n (Interner.run sampleHashes repeatedString (.new .default)).2.seal.1 := by
  refine journaled_dictionaries_rebuilt sampleDictCodec_roundTrip sampleHashes .default
    repeatedString (fun v w hv hw _ _ => ?_) (by decide) ⟨by simp,by simp,trivial⟩ ?_ rfl ?_
    (Generation.journal_reads repeatedWindows_fits)
  · rw [called_repeatedString hv,called_repeatedString hw]
  · constructor <;> decide
  · intro c hc
    rcases List.mem_pair.mp hc with rfl | rfl
    · exact stringWindow_carries
    · exact emptyWindow_carries

/-- Every call of the upgrade succeeds, and the sealer refuses the two parts. -/
theorem journaled_upgrade_conflicts :
    CheckInjective sampleHashes (called upgradedString) ∧
    (∀ a ∈ (Interner.run sampleHashes upgradedString (.new .default)).1, a.isOk = true) ∧
    WithinCaps (Interner.run sampleHashes upgradedString (.new .default)).2.stats ∧
    [stringWindow,blobWindow].map CarriedWindow.window =
      (Interner.run sampleHashes upgradedString (.new .default)).2.windows
        (Interner.journaled sampleHashes upgradedString (.new .default)) ∧
    (∀ c ∈ [stringWindow,blobWindow], Carries sampleDictCodec c.window c.bytes c.catalog) ∧
    sampleDictCodec.RoundTrip ∧
    ∃ j : Journal, j.Reads [stringWindow.bytes,blobWindow.bytes] ∧
      normalizeWindows sampleDictCodec sampleHashes j [stringWindow,blobWindow] =
        .error (.dictionaryConflict 0xe6c632b61e964e1f) := by
  refine ⟨fun v w hv hw _ _ => ?_,by decide,?_,rfl,?_,sampleDictCodec_roundTrip,_,
    Generation.journal_reads upgradedWindows_fits,?_⟩
  · rw [called_upgradedString hv,called_upgradedString hw]
  · constructor <;> decide
  · intro c hc
    rcases List.mem_pair.mp hc with rfl | rfl
    · exact stringWindow_carries
    · exact blobWindow_carries
  · exact sealError_eq (by decide +kernel)

end PgKronika
