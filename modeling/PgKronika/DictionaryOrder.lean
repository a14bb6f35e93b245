import PgKronika.DictionaryRuns

/-! Calls on one dictionary in another order: the requirements of each value accumulate, so the order
decides neither whether a placement conflicts nor what is stored. -/
namespace PgKronika

open ByteCodec CheckedArith

/-- Some call was refused for its placement. -/
def Conflicted (answers : List InternAnswer) : Prop :=
  ∃ id, Except.error (.placementConflict id) ∈ answers

theorem Requirements.merge_comm (a b : Requirements) : a.merge b = b.merge a := by
  simp [merge,Bool.or_comm]

/-- The entry of a value after one more requirement, and the bytes it adds; none on a conflict. -/
def DictLimits.placed (limits : DictLimits) (hashes : Hashes) (v : Bytes) (req : Requirements) :
    Option Stored → Option (Stored × ℕ)
  | some s =>
    if (s.req.merge req).conflicts s.oversized then none
    else some ({ s with req := s.req.merge req },0)
  | none =>
    if req.conflicts (decide (limits.blobThreshold ≤ v.length)) then none
    else some (limits.store hashes v req,min v.length limits.truncateLimit)

/-- A requirement added to a dictionary that has no cap. -/
def SegmentDicts.place (d : SegmentDicts) (hashes : Hashes) (id : StrId) (v : Bytes)
    (req : Requirements) : Option SegmentDicts :=
  (d.limits.placed hashes v req (d.entries.lookup id)).map fun p =>
    { d with entries := d.entries.insert id p.1, storedBytes := d.storedBytes + p.2 }

section Place

variable {hashes : Hashes} {d : SegmentDicts} {id id' : StrId} {v w : Bytes} {req more : Requirements}

/-- Two requirements of one value are one requirement. -/
theorem DictLimits.placed_placed (limits : DictLimits) (old : Option Stored) :
    ((limits.placed hashes v req old).bind fun p =>
      (limits.placed hashes v more (some p.1)).map fun q => (q.1,p.2+q.2)) =
        limits.placed hashes v (req.merge more) old := by
  cases old with
  | some s =>
    rw [placed,placed,← Requirements.merge_assoc]
    by_cases hreq : (s.req.merge req).conflicts s.oversized = true
    · rw [if_pos hreq,Requirements.merge_comm _ more,
        if_pos (Requirements.conflicts_merge hreq more)]
      rfl
    · rw [if_neg hreq,Option.bind_some,placed]
      dsimp only
      split_ifs <;> rfl
  | none =>
    rw [placed,placed]
    by_cases hreq : req.conflicts (decide (limits.blobThreshold ≤ v.length)) = true
    · rw [if_pos hreq,Requirements.merge_comm req more,
        if_pos (Requirements.conflicts_merge hreq more)]
      rfl
    · rw [if_neg hreq,Option.bind_some,placed,show (limits.store hashes v req).req = req from rfl,
        show (limits.store hashes v req).oversized = decide (limits.blobThreshold ≤ v.length) from rfl]
      split_ifs <;> rfl

theorem SegmentDicts.place_place_self :
    ((d.place hashes id v req).bind fun d => d.place hashes id v more) =
      d.place hashes id v (req.merge more) := by
  rw [place,place,← d.limits.placed_placed (d.entries.lookup id)]
  cases d.limits.placed hashes v req (d.entries.lookup id) with
  | none => rfl
  | some p =>
    rw [Option.map_some,Option.bind_some,Option.bind_some,place,OrderedMap.lookup_insert_self]
    dsimp only
    cases d.limits.placed hashes v more (some p.1) with
    | none => rfl
    | some q => simp only [Option.map_some,OrderedMap.insert_insert,Nat.add_assoc]

theorem OrderedMap.insert_comm {κ ν : Type} [LinearOrder κ] (m : OrderedMap κ ν) {k k' : κ}
    (h : k ≠ k') (a b : ν) : (m.insert k a).insert k' b = (m.insert k' b).insert k a :=
  OrderedMap.ext_lookup fun j => by
    simp only [OrderedMap.lookup_insert]
    split_ifs with hk hk'
    · exact absurd (hk'.symm.trans hk) h
    · rfl
    · rfl
    · rfl

/-- Requirements of two values do not meet. -/
theorem SegmentDicts.place_place_ne (h : id ≠ id') :
    ((d.place hashes id v req).bind fun d => d.place hashes id' w more) =
      (d.place hashes id' w more).bind fun d => d.place hashes id v req := by
  cases hp : d.limits.placed hashes v req (d.entries.lookup id) with
  | none =>
    have hnone : d.place hashes id v req = none := by rw [place,hp]; rfl
    rw [hnone]
    cases hq : d.limits.placed hashes w more (d.entries.lookup id') with
    | none =>
      rw [show d.place hashes id' w more = none by rw [place,hq]; rfl]
      rfl
    | some q =>
      rw [show d.place hashes id' w more = some _ by rw [place,hq]; rfl,Option.bind_some,place]
      dsimp only
      rw [OrderedMap.lookup_insert_of_ne _ h,hp]
      rfl
  | some p =>
    rw [show d.place hashes id v req = some _ by rw [place,hp]; rfl,Option.bind_some,place]
    dsimp only
    rw [OrderedMap.lookup_insert_of_ne _ h.symm]
    cases hq : d.limits.placed hashes w more (d.entries.lookup id') with
    | none =>
      rw [show d.place hashes id' w more = none by rw [place,hq]; rfl]
      rfl
    | some q =>
      rw [show d.place hashes id' w more = some _ by rw [place,hq]; rfl,Option.bind_some,place]
      dsimp only
      rw [OrderedMap.lookup_insert_of_ne _ h,hp,Option.map_some,Option.map_some,
        OrderedMap.insert_comm _ h,Nat.add_right_comm]

/-- One call of an order, on a run that has met no conflict. -/
def placeCall (hashes : Hashes) (d : Option SegmentDicts) (c : DictCall) : Option SegmentDicts :=
  d.bind fun d => match StrId.of hashes c.2 with
    | none => some d
    | some id => d.place hashes id c.2 c.1.req

theorem placeCall_comm {a b : DictCall}
    (h : ∀ id, StrId.of hashes a.2 = some id → StrId.of hashes b.2 = some id → a.2 = b.2)
    (d : Option SegmentDicts) :
    placeCall hashes (placeCall hashes d a) b = placeCall hashes (placeCall hashes d b) a := by
  cases d with
  | none => rfl
  | some d =>
    cases ha : StrId.of hashes a.2 with
    | none =>
      simp only [placeCall,ha,Option.bind_some,Option.bind_fun_some]
    | some id =>
      cases hb : StrId.of hashes b.2 with
      | none => simp only [placeCall,ha,hb,Option.bind_some,Option.bind_fun_some]
      | some id' =>
        simp only [placeCall,ha,hb,Option.bind_some]
        by_cases he : id = id'
        · subst he
          rw [h id ha hb,SegmentDicts.place_place_self,SegmentDicts.place_place_self,
            Requirements.merge_comm]
        · exact SegmentDicts.place_place_ne he

end Place

section Calls

variable {hashes : Hashes} {used : Bytes → Prop} {d : SegmentDicts} {v : Bytes} {id : StrId}

/-- Short of the cap, the code places a value as a dictionary without cap does. -/
theorem SegmentDicts.insert_place (h : DictInv hashes used d) (hinj : IdInjective hashes used)
    (hv : used v) (hid : StrId.of hashes v = some id) (req : Requirements) :
    (∃ e, d.insert hashes v req = (.error e,d) ∧ e.isFull = true) ∨
    d.insert hashes v req = match d.place hashes id v req with
      | none => (.error (.placementConflict id),d)
      | some next => (.ok id,next) := by
  rw [place]
  cases hs : d.entries.lookup id with
  | some s =>
    have hsame := h.lookup_eq hinj hv hid hs
    right
    rw [insert_present hid hs hsame,DictLimits.placed]
    split_ifs
    · rfl
    · rw [Option.map_some,hsame]
      rfl
  | none =>
    rw [insert_absent hid hs,DictLimits.placed]
    split_ifs with hconflict hfull
    · exact .inr rfl
    · exact .inl ⟨_,rfl,rfl⟩
    · exact .inr rfl

theorem answeredFull_of_isFull {e : DictError} (h : e.isFull = true) :
    answeredFull (.error e) = true := h

/-- One call, short of the cap: refused for its placement and without effect, or placed. -/
theorem SegmentDicts.call_place (h : DictInv hashes used d) (hinj : IdInjective hashes used)
    {c : DictCall} (hv : used c.2) (hfull : answeredFull (d.call hashes c.2 c.1).1 = false) :
    match placeCall hashes (some d) c with
    | none => ∃ id, (d.call hashes c.2 c.1).1 = .error (.placementConflict id)
    | some next => (d.call hashes c.2 c.1).2 = next ∧
        ∀ id, (d.call hashes c.2 c.1).1 ≠ .error (.placementConflict id) := by
  rw [placeCall,Option.bind_some]
  cases hid : StrId.of hashes c.2 with
  | none =>
    have hcall := (call_zero hid (.new d.limits) d c.1).2
    dsimp only
    rw [hcall]
    exact ⟨rfl,fun id he => by cases he⟩
  | some id =>
    dsimp only
    rcases insert_place h hinj hv hid c.1.req with ⟨e,he,hisFull⟩ | hplace
    · rw [call_error he,answeredFull_of_isFull hisFull] at hfull
      cases hfull
    · cases hnext : d.place hashes id c.2 c.1.req with
      | none =>
        rw [hnext] at hplace
        exact ⟨id,congrArg Prod.fst (call_error hplace)⟩
      | some next =>
        rw [hnext] at hplace
        rw [call_ok hplace]
        exact ⟨rfl,fun id he => by cases he⟩

theorem foldl_placeCall_none (cs : List DictCall) : cs.foldl (placeCall hashes) none = none := by
  induction cs with
  | nil => rfl
  | cons c cs ih => exact ih

/-- A run short of the cap meets a conflict exactly when the placements do, and else ends where they
end. -/
theorem SegmentDicts.calls_place (h : DictInv hashes used d) (hinj : IdInjective hashes used)
    {cs : List DictCall} (hused : ∀ c ∈ cs, used c.2)
    (hfull : NoFull (SegmentDicts.calls hashes cs d).1) :
    match cs.foldl (placeCall hashes) (some d) with
    | none => Conflicted (SegmentDicts.calls hashes cs d).1
    | some final => (SegmentDicts.calls hashes cs d).2 = final ∧
        ¬ Conflicted (SegmentDicts.calls hashes cs d).1 := by
  induction cs generalizing d with
  | nil => exact ⟨rfl,fun ⟨id,hid⟩ => by cases hid⟩
  | cons c cs ih =>
    have hv := hused c List.mem_cons_self
    have hcall := call_place h hinj hv (hfull _ List.mem_cons_self)
    have hrest := ih (h.call hv) (fun c' hc' => hused c' (List.mem_cons_of_mem _ hc'))
      fun a ha => hfull a (List.mem_cons_of_mem _ ha)
    rw [List.foldl_cons]
    cases hplaced : placeCall hashes (some d) c with
    | none =>
      rw [hplaced] at hcall
      rw [foldl_placeCall_none]
      obtain ⟨id,hid⟩ := hcall
      exact ⟨id,by rw [calls_cons,hid]; exact List.mem_cons_self⟩
    | some next =>
      rw [hplaced] at hcall
      obtain ⟨hnext,hno⟩ := hcall
      rw [hnext] at hrest
      cases hfinal : cs.foldl (placeCall hashes) (some next) with
      | none =>
        rw [hfinal] at hrest
        obtain ⟨id,hid⟩ := hrest
        exact ⟨id,by rw [calls_cons,hnext]; exact List.mem_cons_of_mem _ hid⟩
      | some final =>
        rw [hfinal] at hrest
        obtain ⟨hend,hclean⟩ := hrest
        refine ⟨by rw [calls_cons,hnext]; exact hend,?_⟩
        rintro ⟨id,hid⟩
        rw [calls_cons,hnext] at hid
        rcases List.mem_cons.mp hid with he | hid
        · exact hno id he.symm
        · exact hclean ⟨id,hid⟩

end Calls

/-- Every order of the same calls meets a conflict or none does, and without one they all end in the
same dictionary. -/
theorem dictionary_order_independent (hashes : Hashes) (limits : DictLimits)
    (before first second : List DictCall) (hperm : first.Perm second)
    (hinj : IdInjective hashes fun v => ∃ kind, (kind,v) ∈ before ++ first)
    (hfirst : NoFull (SegmentDicts.calls hashes first
      (SegmentDicts.calls hashes before (.new limits)).2).1)
    (hsecond : NoFull (SegmentDicts.calls hashes second
      (SegmentDicts.calls hashes before (.new limits)).2).1) :
    (Conflicted (SegmentDicts.calls hashes first
        (SegmentDicts.calls hashes before (.new limits)).2).1 ↔
      Conflicted (SegmentDicts.calls hashes second
        (SegmentDicts.calls hashes before (.new limits)).2).1) ∧
    (¬ Conflicted (SegmentDicts.calls hashes first
        (SegmentDicts.calls hashes before (.new limits)).2).1 →
      (SegmentDicts.calls hashes first (SegmentDicts.calls hashes before (.new limits)).2).2 =
        (SegmentDicts.calls hashes second
          (SegmentDicts.calls hashes before (.new limits)).2).2) := by
  have hused : ∀ c ∈ before ++ first, ∃ kind, (kind,c.2) ∈ before ++ first :=
    fun c hc => ⟨c.1,hc⟩
  have hstart : DictInv hashes (fun v => ∃ kind, (kind,v) ∈ before ++ first)
      (SegmentDicts.calls hashes before (.new limits)).2 :=
    (DictInv.new hashes _ limits).calls fun c hc => hused c (List.mem_append_left _ hc)
  generalize (SegmentDicts.calls hashes before (.new limits)).2 = d at *
  have hfirst' := SegmentDicts.calls_place hstart hinj
    (fun c hc => hused c (List.mem_append_right _ hc)) hfirst
  have hsecond' := SegmentDicts.calls_place hstart hinj
    (fun c hc => hused c (List.mem_append_right _ (hperm.mem_iff.mpr hc))) hsecond
  have hsame : first.foldl (placeCall hashes) (some d) = second.foldl (placeCall hashes) (some d) := by
    refine hperm.foldl_eq' (fun a ha b hb d => placeCall_comm (fun id hida hidb => ?_) d) _
    exact hinj _ _ id (hused a (List.mem_append_right _ ha)) (hused b (List.mem_append_right _ hb))
      hida hidb
  rw [← hsame] at hsecond'
  cases hfinal : first.foldl (placeCall hashes) (some d) with
  | none =>
    rw [hfinal] at hfirst' hsecond'
    exact ⟨iff_of_true hfirst' hsecond',fun h => absurd hfirst' h⟩
  | some final =>
    rw [hfinal] at hfirst' hsecond'
    exact ⟨iff_of_false hfirst'.2 hsecond'.2,fun _ => hfirst'.1.trans hsecond'.1.symm⟩

theorem dictionary_order_independent_sample :
    (SegmentDicts.calls sampleHashes [(.internHot,[97]),(.intern,[98])]
        (SegmentDicts.calls sampleHashes [(.internHotBestEffort,[98])] (.new .default)).2).2 =
      (SegmentDicts.calls sampleHashes [(.intern,[98]),(.internHot,[97])]
        (SegmentDicts.calls sampleHashes [(.internHotBestEffort,[98])] (.new .default)).2).2 := by
  refine (dictionary_order_independent sampleHashes .default [(.internHotBestEffort,[98])]
    [(.internHot,[97]),(.intern,[98])] [(.intern,[98]),(.internHot,[97])] (.swap ..)
    (fun v w id hv hw => sampleUsed_injective v w id ?_ ?_) (by decide) (by decide)).2 ?_
  · obtain ⟨kind,hv⟩ := hv
    simp only [List.cons_append,List.nil_append,List.mem_cons,Prod.mk.injEq,List.not_mem_nil,
      or_false] at hv
    rcases hv with h | h | h <;> simp [sampleUsed,h.2]
  · obtain ⟨kind,hw⟩ := hw
    simp only [List.cons_append,List.nil_append,List.mem_cons,Prod.mk.injEq,List.not_mem_nil,
      or_false] at hw
    rcases hw with h | h | h <;> simp [sampleUsed,h.2]
  · rintro ⟨id,hid⟩
    have haccepted : ∀ a ∈ (SegmentDicts.calls sampleHashes [(.internHot,[97]),(.intern,[98])]
        (SegmentDicts.calls sampleHashes [(.internHotBestEffort,[98])] (.new .default)).2).1,
        a.isOk = true := by decide
    cases haccepted _ hid

end PgKronika
