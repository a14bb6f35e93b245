import PgKronika.QueryBudget

/-! A batch of sections over one window answers each name as a query for that name does, as long as
no limit is hit and no unit that the batch opens is stale. -/
namespace PgKronika

open CheckedArith KeptState

/-- The limits are the same and the counters, as far as they count, are at most the others. -/
instance : Preorder QueryWorkBudget where
  le b c := b.limits = c.limits ∧ min b.units u64Max ≤ min c.units u64Max ∧
    min b.catalogReadBytes u64Max ≤ min c.catalogReadBytes u64Max ∧
    min b.dictionaryReadBytes u64Max ≤ min c.dictionaryReadBytes u64Max
  le_refl b := ⟨rfl,Nat.le_refl _,Nat.le_refl _,Nat.le_refl _⟩
  le_trans b c d h h' := ⟨h.1.trans h'.1,h.2.1.trans h'.2.1,h.2.2.1.trans h'.2.2.1,
    h.2.2.2.trans h'.2.2.2⟩

instance : Preorder QueryState where
  le s t := s.budget ≤ t.budget ∧ s.usage.cells ≤ t.usage.cells ∧ s.usage.bytes ≤ t.usage.bytes
  le_refl s := ⟨le_refl _,Nat.le_refl _,Nat.le_refl _⟩
  le_trans s t u h h' := ⟨le_trans h.1 h'.1,h.2.1.trans h'.2.1,h.2.2.trans h'.2.2⟩

def GatherError.LimitHit {ε : Type} : GatherError ε → Prop
  | .resultTooLarge => True
  | .materializedBytesTooLarge => True
  | .workLimitExceeded _ _ _ => True
  | _ => False

def GatherError.NotStale {ε : Type} : GatherError ε → Prop
  | .stale => False
  | _ => True

section Steps

variable {ε : Type} {α : Type}

/-- A success is repeated with smaller counters. A failure other than a limit is repeated as well, and
is not a stale unit. -/
abbrev SteadyWork (m : Request QueryState (GatherError ε) α) : Prop :=
  Steady GatherError.LimitHit GatherError.NotStale m

theorem charge_admitted {counter : QueryWorkBudget → ℕ}
    {set : ℕ → QueryWorkBudget → QueryWorkBudget} {amount limit : ℕ} {resource : QueryWorkResource}
    {event : WorkEvent} {s : QueryState} (h : min (counter s.budget + amount) u64Max ≤ limit) :
    (charge counter set amount limit resource event : Request QueryState (GatherError ε) Unit) s =
      (.ok (),{ s with
        budget := set (min (counter s.budget + amount) u64Max) s.budget
        events := s.events ++ [event] }) := by
  have hobserved : (checkedAdd (counter s.budget) amount).getD u64Max =
      min (counter s.budget + amount) u64Max := by
    rw [checkedAdd]
    split_ifs with hle
    · simp [hle]
    · simp [Nat.le_of_not_le hle]
  simp only [charge,chargeWork,hobserved,if_neg (Nat.not_lt.mpr h)]

theorem charge_limitHit {counter : QueryWorkBudget → ℕ}
    {set : ℕ → QueryWorkBudget → QueryWorkBudget} {amount limit : ℕ} {resource : QueryWorkResource}
    {event : WorkEvent} {s t : QueryState} {error : GatherError ε}
    (h : charge counter set amount limit resource event s = (.error error,t)) : error.LimitHit := by
  rw [charge] at h
  split at h
  · next hwork =>
    cases h
    rw [chargeWork] at hwork
    split_ifs at hwork
    cases hwork
    trivial
  · cases h

/-- Counters that grow with the budgets are charged steadily. -/
theorem charge_steady {counter : QueryWorkBudget → ℕ} {set : ℕ → QueryWorkBudget → QueryWorkBudget}
    {amount : ℕ} {resource : QueryWorkResource} {event : WorkEvent} (limit : QueryWorkLimits → ℕ)
    (hcounter : ∀ b c : QueryWorkBudget, b ≤ c → min (counter b) u64Max ≤ min (counter c) u64Max)
    (hset : ∀ (b c : QueryWorkBudget) x y, b ≤ c → min x u64Max ≤ min y u64Max → set x b ≤ set y c)
    (hself : ∀ b x, min (counter b) u64Max ≤ min x u64Max → b ≤ set x b) :
    SteadyWork (fun s => charge counter set amount (limit s.budget.limits) resource event s :
      Request QueryState (GatherError ε) Unit) := by
  intro s t hst
  dsimp only
  rcases hrun : (charge counter set amount (limit t.budget.limits) resource event :
      Request QueryState (GatherError ε) Unit) t with ⟨e | _,u⟩
  · exact .inl (charge_limitHit hrun)
  · obtain ⟨rfl,hle⟩ := charge_ok hrun
    have hbelow := hcounter _ _ hst.1
    have hlimits : s.budget.limits = t.budget.limits := hst.1.1
    refine ⟨⟨hself _ _ (by omega),Nat.le_refl _,Nat.le_refl _⟩,_,charge_admitted ?_,
      hset _ _ _ _ hst.1 (by omega),hst.2⟩
    rw [hlimits]
    omega

theorem chargeUnit_steady : SteadyWork (chargeUnit : Request QueryState (GatherError ε) Unit) :=
  charge_steady (fun limits => min limits.units u64Max) (fun _ _ h => h.2.1)
    (fun _ _ _ _ h hxy => ⟨h.1,hxy,h.2.2⟩) fun _ _ h => ⟨rfl,h,Nat.le_refl _,Nat.le_refl _⟩

theorem chargeCatalogRead_steady (bytes : ℕ) :
    SteadyWork (chargeCatalogRead bytes : Request QueryState (GatherError ε) Unit) :=
  charge_steady QueryWorkLimits.catalogReadBytes (fun _ _ h => h.2.2.1)
    (fun _ _ _ _ h hxy => ⟨h.1,h.2.1,hxy,h.2.2.2⟩) fun _ _ h => ⟨rfl,Nat.le_refl _,h,Nat.le_refl _⟩

theorem chargeDictionaryRead_steady (bytes : ℕ) :
    SteadyWork (chargeDictionaryRead bytes : Request QueryState (GatherError ε) Unit) :=
  charge_steady QueryWorkLimits.dictionaryReadBytes (fun _ _ h => h.2.2.2)
    (fun _ _ _ _ h hxy => ⟨h.1,h.2.1,h.2.2.1,hxy⟩) fun _ _ h => ⟨rfl,Nat.le_refl _,Nat.le_refl _,h⟩

theorem perform_steady (event : WorkEvent) :
    SteadyWork (perform event : Request QueryState (GatherError ε) Unit) :=
  fun _ t h => ⟨⟨le_refl t.budget,Nat.le_refl _,Nat.le_refl _⟩,_,rfl,h⟩

theorem chargeCells_steady (width maxCells : ℕ) :
    SteadyWork (chargeCells width maxCells : Request QueryState (GatherError ε) Unit) := by
  intro s t hst
  rcases hrun : (chargeCells width maxCells : Request QueryState (GatherError ε) Unit) t with ⟨e | _,u⟩
  · rw [chargeCells] at hrun
    split at hrun <;> cases hrun
    exact .inl trivial
  · rw [chargeCells] at hrun
    split at hrun
    · cases hrun
    · next cells hcells =>
      cases hrun
      obtain ⟨hadd,hle⟩ := Option.filter_eq_some_iff.mp hcells
      have hle := of_decide_eq_true hle
      obtain ⟨hsum,hmax⟩ := checkedAdd_eq_some.mp hadd
      have hbelow := hst.2.1
      have hcells' : (checkedAdd s.usage.cells width).filter (fun cells => cells ≤ maxCells) =
          some (s.usage.cells + width) := by
        refine Option.filter_eq_some_iff.mpr ⟨checkedAdd_eq_some.mpr ⟨rfl,by omega⟩,?_⟩
        exact decide_eq_true (by omega)
      refine ⟨⟨le_refl _,by dsimp only; omega,Nat.le_refl _⟩,
        { s with usage := { s.usage with cells := s.usage.cells + width } },?_,hst.1,
        by dsimp only; omega,hst.2.2⟩
      simp only [chargeCells,hcells']

theorem chargeBytes_steady (rowBytes : Option ℕ) (maxBytes : ℕ) :
    SteadyWork (chargeBytes rowBytes maxBytes : Request QueryState (GatherError ε) Unit) := by
  intro s t hst
  rcases hrun : (chargeBytes rowBytes maxBytes : Request QueryState (GatherError ε) Unit) t
    with ⟨e | _,u⟩
  · rw [chargeBytes] at hrun
    split at hrun <;> cases hrun
    exact .inl trivial
  · rw [chargeBytes] at hrun
    split at hrun
    · cases hrun
    · next bytes hbytes =>
      cases hrun
      obtain ⟨row,hrow,hfilter⟩ := Option.bind_eq_some_iff.mp hbytes
      obtain ⟨hadd,hle⟩ := Option.filter_eq_some_iff.mp hfilter
      have hle := of_decide_eq_true hle
      obtain ⟨hsum,hmax⟩ := checkedAdd_eq_some.mp hadd
      have hbelow := hst.2.2
      have hbytes' : (rowBytes.bind fun rowBytes =>
          (checkedAdd s.usage.bytes rowBytes).filter fun bytes => bytes ≤ maxBytes) =
          some (s.usage.bytes + row) := by
        refine Option.bind_eq_some_iff.mpr ⟨row,hrow,Option.filter_eq_some_iff.mpr
          ⟨checkedAdd_eq_some.mpr ⟨rfl,by omega⟩,?_⟩⟩
        exact decide_eq_true (by omega)
      refine ⟨⟨le_refl _,Nat.le_refl _,by dsimp only; omega⟩,
        { s with usage := { s.usage with bytes := s.usage.bytes + row } },?_,hst.1,hst.2.1,
        by dsimp only; omega⟩
      simp only [chargeBytes,hbytes']

end Steps

section Decode

variable {ε : Type} {reader : QueryReader ε} {query : GatherQuery} {logical : RegisteredSection}
  {opened : QueryUnit ε} {dict : UnitDictionary}

theorem retainRow_steady (buffer : List OutRow) (row : Row) :
    SteadyWork (retainRow (ε := ε) query logical dict buffer row) := by
  rw [retainRow]
  by_cases hwindow : inWindow query row
  · rw [if_pos hwindow]
    exact (chargeCells_steady _ _).bind fun _ => (chargeBytes_steady _ _).bind fun _ =>
      Steady.pure _
  · rw [if_neg hwindow]
    exact Steady.pure buffer

theorem liftRead_steady {α : Type} (read : Except (ReadError ε) α) :
    SteadyWork (KeptState.lift (read.mapError GatherError.read)) :=
  Steady.lift fun e he => by
    cases read <;> cases he
    trivial

theorem decodeSection_steady (buffer : List OutRow) (entry : Entry) :
    SteadyWork (decodeSection reader query logical opened dict buffer entry) := by
  rw [decodeSection]
  split_ifs
  · exact Steady.pure buffer
  · exact (liftRead_steady _).bind fun rows => Steady.foldlM retainRow_steady rows buffer

theorem decodeLogical_steady (buffer : List OutRow) :
    SteadyWork (decodeLogical reader query opened dict buffer logical) :=
  Steady.foldlM decodeSection_steady _ buffer

/-- A unit without rows of the section leaves its buffer as it is. -/
theorem decodeLogical_idle (hnone : hasNonemptyType opened.catalog logical.typeIds = false)
    (buffer : List OutRow) (s : QueryState) :
    decodeLogical reader query opened dict buffer logical s = (.ok buffer,s) := by
  have hall : ∀ entry ∈ opened.catalog.entries, entry.rows = 0 ∨ entry.typeId ∉ logical.typeIds := by
    intro entry hentry
    by_contra hrows
    rw [not_or,not_not] at hrows
    rw [hasNonemptyType,List.any_eq_false] at hnone
    exact hnone entry hentry (decide_eq_true hrows)
  rw [decodeLogical]
  generalize opened.catalog.entries = entries at hall
  induction entries with
  | nil => rfl
  | cons entry entries ih =>
    rw [List.foldlM_cons,decodeSection,if_pos (hall entry (by simp))]
    exact ih fun entry hentry => hall entry (by simp [hentry])

theorem decodeRequestedRows_steady (buffers : List (List OutRow))
    (requested : List (String × RegisteredSection)) :
    SteadyWork (decodeRequestedRows reader query opened dict buffers requested) := by
  induction buffers generalizing requested with
  | nil => exact Steady.pure _
  | cons buffer buffers ih =>
    cases requested with
    | nil => exact Steady.pure _
    | cons section_ requested =>
      exact (decodeLogical_steady buffer).bind fun _ => (ih requested).bind fun _ => Steady.pure _

variable (reader query opened dict) in
/-- The decoding of a batch is the decoding of each of its sections. -/
theorem decodeRequestedRows_tracks {buffers : List (List OutRow)}
    {requested : List (String × RegisteredSection)} (hlen : buffers.length = requested.length)
    (t : QueryState) :
    match decodeRequestedRows reader query opened dict buffers requested t with
    | (.ok buffers',u) => t ≤ u ∧ buffers'.length = buffers.length ∧
        ∀ i : Fin requested.length, ∀ s ≤ t, ∃ r,
          decodeLogical reader query opened dict (buffers.getD i []) requested[i].2 s =
            (.ok (buffers'.getD i []),r) ∧ r ≤ u
    | (.error e,_) => e.LimitHit ∨ e.NotStale ∧ ∃ i : Fin requested.length, ∀ s ≤ t,
        Fails GatherError.NotStale
          (decodeLogical reader query opened dict (buffers.getD i []) requested[i].2) s := by
  induction requested generalizing buffers t with
  | nil =>
    obtain rfl := List.length_eq_zero_iff.mp hlen
    exact ⟨le_refl t,rfl,fun i => i.elim0⟩
  | cons section_ requested ih =>
    cases buffers with
    | nil => cases hlen
    | cons buffer buffers =>
      rw [decodeRequestedRows]
      have hlen : buffers.length = requested.length := Nat.succ.inj hlen
      have hsteady : SteadyWork (decodeLogical reader query opened dict buffer section_.2) :=
        decodeLogical_steady buffer
      rcases hfirst : decodeLogical reader query opened dict buffer section_.2 t with ⟨e | first,u⟩
      · rw [bind_of_error hfirst]
        by_cases he : e.LimitHit
        · exact .inl he
        · exact .inr ⟨(hsteady.error (le_refl t) hfirst he).1,⟨0,Nat.zero_lt_succ _⟩,fun s hs =>
            (hsteady.error hs hfirst he).2⟩
      · rw [bind_of_ok hfirst]
        obtain ⟨htu,-⟩ := hsteady.ok (le_refl t) hfirst
        have hrest := ih hlen u
        rcases hrun : decodeRequestedRows reader query opened dict buffers requested u
          with ⟨e | rest,v⟩
        · rw [bind_of_error hrun]
          rw [hrun] at hrest
          by_cases he : e.LimitHit
          · exact .inl he
          · obtain ⟨hstale,i,hi⟩ := hrest.resolve_left he
            exact .inr ⟨hstale,i.succ,fun s hs => hi s (le_trans hs htu)⟩
        · rw [bind_of_ok hrun]
          rw [hrun] at hrest
          obtain ⟨huv,hlength,hrest⟩ := hrest
          refine ⟨le_trans htu huv,congrArg Nat.succ hlength,fun i s hs => ?_⟩
          cases i using Fin.cases with
          | zero =>
            obtain ⟨-,r,hr,hru⟩ := hsteady.ok hs hfirst
            exact ⟨r,hr,le_trans hru huv⟩
          | succ i => exact hrest i s (le_trans hs htu)

end Decode

section Units

variable {ω ε : Type} {reader : QueryReader ε} {files : SnapshotFiles ε} {query : GatherQuery}

theorem mem_requestedTypeIds {requested : List (String × RegisteredSection)} {typeId : UInt32} :
    typeId ∈ requestedTypeIds requested ↔
      ∃ i : Fin requested.length, typeId ∈ requested[i].2.typeIds := by
  rw [requestedTypeIds,List.mem_dedup,List.mem_insertionSort,List.mem_flatMap]
  constructor
  · rintro ⟨section_,hmem,htype⟩
    obtain ⟨i,hi,rfl⟩ := List.getElem_of_mem hmem
    exact ⟨⟨i,hi⟩,htype⟩
  · rintro ⟨i,htype⟩
    exact ⟨_,List.getElem_mem _,htype⟩

/-- The query for one of the requested sections. -/
def GatherQuery.only (query : GatherQuery) (i : Fin query.requested.length) : GatherQuery :=
  { query with requested := [query.requested[i]] }

theorem mem_onlyTypeIds {i : Fin query.requested.length} {typeId : UInt32} :
    typeId ∈ requestedTypeIds (query.only i).requested ↔ typeId ∈ query.requested[i].2.typeIds := by
  rw [mem_requestedTypeIds]
  constructor
  · rintro ⟨⟨j,hj⟩,htype⟩
    cases j with
    | zero => exact htype
    | succ j => simp [GatherQuery.only] at hj
  · exact fun htype => ⟨⟨0,Nat.one_pos⟩,htype⟩

theorem hasNonemptyType_requested (catalog : Catalog) :
    hasNonemptyType catalog (requestedTypeIds query.requested) ↔
      ∃ i, hasNonemptyType catalog (requestedTypeIds (query.only i).requested) := by
  have hall : ∀ typeId, typeId ∈ requestedTypeIds query.requested ↔ _ := fun _ => mem_requestedTypeIds
  simp only [hasNonemptyType,List.any_eq_true,decide_eq_true_eq,mem_onlyTypeIds,hall]
  constructor
  · rintro ⟨entry,hentry,hrows,i,htype⟩
    exact ⟨i,entry,hentry,hrows,htype⟩
  · rintro ⟨i,entry,hentry,hrows,htype⟩
    exact ⟨entry,hentry,hrows,i,htype⟩

theorem mayContain_requested (unit : UnitDescriptor) :
    unit.mayContainAnyNonemptyType (requestedTypeIds query.requested) ↔
      ∃ i, unit.mayContainAnyNonemptyType (requestedTypeIds (query.only i).requested) := by
  cases hhint : unit.catalogHint with
  | active catalog =>
    simp only [UnitDescriptor.mayContainAnyNonemptyType,hhint]
    exact hasNonemptyType_requested catalog
  | sealed summary =>
    have hall : ∀ typeId, typeId ∈ requestedTypeIds query.requested ↔ _ := fun _ => mem_requestedTypeIds
    simp only [UnitDescriptor.mayContainAnyNonemptyType,hhint,
      CatalogSummary.mayContainAnyNonemptyType,List.any_eq_true,mem_onlyTypeIds,hall]
    constructor
    · rintro ⟨typeId,⟨i,htype⟩,hbloom⟩
      exact ⟨i,typeId,htype,hbloom⟩
    · rintro ⟨i,typeId,htype,hbloom⟩
      exact ⟨typeId,⟨i,htype⟩,hbloom⟩

/-- What the query for a section gathers is that section's part of the batch. -/
structure PartOf (query : GatherQuery) (i : Fin query.requested.length) (single batch : Gathered)
    (s t : QueryState) : Prop where
  part : single = ([batch.1.getD i []],batch.2)
  below : s ≤ t
  length : batch.1.length = query.requested.length

/-- A unit without rows of the section is nothing to its query. -/
theorem gatherOpened_idle {opened : QueryUnit ε}
    (hnone : ¬hasNonemptyType opened.catalog (requestedTypeIds query.requested))
    (gathered : Gathered) (s : QueryState) :
    gatherOpened reader query opened gathered s = (.ok gathered,s) := by
  rw [gatherOpened,if_neg hnone]
  rfl

theorem decodeRequestedRows_only {opened : QueryUnit ε} {dict : UnitDictionary}
    {i : Fin query.requested.length} (buffer : List OutRow) :
    decodeRequestedRows reader (query.only i) opened dict [buffer] (query.only i).requested =
      (decodeLogical reader query opened dict buffer query.requested[i].2 >>= fun rows => pure [rows]) :=
  rfl

theorem PartOf.mono {i : Fin query.requested.length} {single batch : Gathered} {s t u : QueryState}
    (h : PartOf query i single batch s t) (htu : t ≤ u) : PartOf query i single batch s u :=
  ⟨h.part,le_trans h.below htu,h.length⟩

theorem hasNonemptyType_only (catalog : Catalog) (i : Fin query.requested.length) :
    hasNonemptyType catalog (requestedTypeIds (query.only i).requested) =
      hasNonemptyType catalog query.requested[i].2.typeIds := by
  rw [Bool.eq_iff_iff]
  simp only [hasNonemptyType,List.any_eq_true,decide_eq_true_eq,mem_onlyTypeIds]

/-- The dictionary of an opened unit, behind its charge. -/
def chargedDictionary (reader : QueryReader ε) (opened : QueryUnit ε) :
    Request QueryState (GatherError ε) UnitDictionary :=
  chargeDictionaryRead (dictionaryReadBytes opened.catalog) >>= fun _ =>
  perform (.readDictionary opened.catalog) >>= fun _ =>
  KeptState.lift ((unitDictionary reader opened).mapError .read)

theorem chargedDictionary_steady (opened : QueryUnit ε) :
    SteadyWork (chargedDictionary reader opened) :=
  (chargeDictionaryRead_steady _).bind fun _ => (perform_steady _).bind fun _ => liftRead_steady _

theorem gatherOpened_charged {opened : QueryUnit ε}
    (h : hasNonemptyType opened.catalog (requestedTypeIds query.requested)) (gathered : Gathered) :
    gatherOpened reader query opened gathered = (chargedDictionary reader opened >>= fun dict =>
      decodeRequestedRows reader query opened dict gathered.1 query.requested >>= fun buffers =>
      pure (buffers,gathered.2)) := by
  rw [gatherOpened,if_pos h,chargedDictionary]
  simp only [KeptState.bind_assoc]

/-- The query for a section, behind the dictionary of a unit with rows of the section. -/
theorem gatherOpened_only {opened : QueryUnit ε} {dict : UnitDictionary}
    {i : Fin query.requested.length} {buffer : List OutRow} {covered : List TimeRange}
    {s r : QueryState}
    (hrows : hasNonemptyType opened.catalog (requestedTypeIds (query.only i).requested))
    (hdict : chargedDictionary reader opened s = (.ok dict,r)) :
    gatherOpened reader (query.only i) opened ([buffer],covered) s =
      (decodeLogical reader query opened dict buffer query.requested[i].2 >>= fun rows =>
        pure ([rows],covered)) r := by
  rw [gatherOpened_charged hrows,bind_of_ok hdict,decodeRequestedRows_only,KeptState.bind_assoc]
  rfl

variable (reader query) in
/-- The opened unit adds the same rows to a section of the batch as to its own query. -/
theorem gatherOpened_tracks (opened : QueryUnit ε) (batch : Gathered) :
    Tracks GatherError.LimitHit GatherError.NotStale (fun i single => PartOf query i single batch)
      (fun i => gatherOpened reader (query.only i) opened) (gatherOpened reader query opened batch)
      (PartOf query) := by
  intro t
  by_cases hrows : hasNonemptyType opened.catalog (requestedTypeIds query.requested)
  · obtain ⟨first,hfirst⟩ := (hasNonemptyType_requested _).mp hrows
    rw [gatherOpened_charged hrows]
    have hsteady : SteadyWork (chargedDictionary reader opened) := chargedDictionary_steady opened
    rcases hdict : chargedDictionary reader opened t with ⟨e | dict,t₁⟩
    · -- Some section has rows here, and its query fails at the dictionary as well.
      rw [bind_of_error hdict]
      by_cases he : e.LimitHit
      · exact .inl he
      · refine .inr ⟨(hsteady.error (le_refl t) hdict he).1,first,fun single s h => ?_⟩
        dsimp only
        rw [gatherOpened_charged hfirst]
        exact (hsteady.error h.below hdict he).2.bind_left _
    · rw [bind_of_ok hdict]
      obtain ⟨htt,-⟩ := hsteady.ok (le_refl t) hdict
      by_cases hlen : batch.1.length = query.requested.length
      · have hdecode := decodeRequestedRows_tracks reader query opened dict hlen t₁
        rcases hrun : decodeRequestedRows reader query opened dict batch.1 query.requested t₁
          with ⟨e | buffers,u⟩
        · rw [hrun] at hdecode
          rw [bind_of_error hrun]
          by_cases he : e.LimitHit
          · exact .inl he
          · obtain ⟨hstale,i,hi⟩ := hdecode.resolve_left he
            -- The section that fails here has rows here.
            have hrowsAt : hasNonemptyType opened.catalog
                (requestedTypeIds (query.only i).requested) := by
              by_contra hnone
              rw [hasNonemptyType_only,Bool.not_eq_true] at hnone
              obtain ⟨e,r,hfails,-⟩ := hi t₁ (le_refl t₁)
              rw [decodeLogical_idle hnone] at hfails
              cases hfails
            refine .inr ⟨hstale,i,fun single s h => ?_⟩
            obtain ⟨-,r,hr,hrt⟩ := hsteady.ok h.below hdict
            obtain ⟨e,r',hfails,hkind⟩ := hi r hrt
            refine ⟨e,r',?_,hkind⟩
            dsimp only
            rw [h.part,gatherOpened_only hrowsAt hr,bind_of_error hfails]
        · rw [hrun] at hdecode
          rw [bind_of_ok hrun]
          obtain ⟨htu,hlength,hall⟩ := hdecode
          intro i single s h
          obtain ⟨-,r,hr,hrt⟩ := hsteady.ok h.below hdict
          obtain ⟨r',hdecoded,hru⟩ := hall i r hrt
          by_cases hrowsAt : hasNonemptyType opened.catalog (requestedTypeIds (query.only i).requested)
          · refine ⟨([buffers.getD i []],batch.2),r',?_,rfl,hru,hlength.trans hlen⟩
            dsimp only
            rw [h.part,gatherOpened_only hrowsAt hr,bind_of_ok hdecoded]
            rfl
          · have hsame := hdecoded
            rw [hasNonemptyType_only,Bool.not_eq_true] at hrowsAt
            rw [decodeLogical_idle hrowsAt] at hsame
            have hbuffer : batch.1.getD i [] = buffers.getD i [] := by
              injection hsame with hok _
              exact Except.ok.inj hok
            refine ⟨single,s,gatherOpened_idle ?_ single s,?_,le_trans h.below (le_trans htt htu),
              hlength.trans hlen⟩
            · rw [hasNonemptyType_only,hrowsAt]
              exact Bool.false_ne_true
            · rw [h.part,hbuffer]
      · -- No query is related to such a batch.
        rcases hrun : (decodeRequestedRows reader query opened dict batch.1 query.requested >>=
          fun buffers => pure (buffers,batch.2)) t₁ with ⟨e | gathered,u⟩
        · by_cases he : e.LimitHit
          · exact .inl he
          · have hdecode : SteadyWork (decodeRequestedRows reader query opened dict batch.1
                query.requested >>= fun buffers => pure (buffers,batch.2)) :=
              (decodeRequestedRows_steady batch.1 query.requested).bind fun buffers => Steady.pure _
            exact .inr ⟨(hdecode.error (le_refl t₁) hrun he).1,first,fun single s h =>
              absurd h.length hlen⟩
        · exact fun i single s h => absurd h.length hlen
  · -- No section of the batch has rows here.
    have hidle : ∀ i, ¬hasNonemptyType opened.catalog (requestedTypeIds (query.only i).requested) :=
      fun i h => hrows ((hasNonemptyType_requested _).mpr ⟨i,h⟩)
    rw [gatherOpened_idle hrows]
    exact fun i single s h => ⟨single,s,gatherOpened_idle (hidle i) single s,h⟩

/-- Opening a unit, behind its catalog charge. -/
def chargedOpen (unit : UnitDescriptor) : Request QueryState (GatherError ε) Unit :=
  chargeCatalogRead unit.eagerOpenBytes >>= fun _ => perform (.openUnit unit.handle)

theorem chargedOpen_steady (unit : UnitDescriptor) :
    SteadyWork (chargedOpen unit : Request QueryState (GatherError ε) Unit) :=
  (chargeCatalogRead_steady _).bind fun _ => perform_steady _

/-- What becomes of a unit once it is charged. -/
def gatherTried (reader : QueryReader ε) (files : SnapshotFiles ε) (query : GatherQuery)
    (unit : UnitDescriptor) (gathered : Gathered) : Request QueryState (GatherError ε) Gathered :=
  match openUnitHandle reader files unit.index unit.handle with
  | .ok opened => gatherOpened reader query opened
      (gathered.1,gathered.2 ++ [(unit.unitMeta.minTs,unit.unitMeta.maxTs)])
  | .error (.staleSnapshot _) => if query.skipStale then pure gathered else Request.fail .stale
  | .error error => Request.fail (.read error)

theorem gatherUnit_charged {unit : UnitDescriptor}
    (h : unit.mayContainAnyNonemptyType (requestedTypeIds query.requested)) (gathered : Gathered) :
    gatherUnit reader files query gathered unit = (chargeUnit >>= fun _ => chargedOpen unit >>=
      fun _ => gatherTried reader files query unit gathered) := by
  rw [gatherUnit,chargedOpen]
  simp only [if_pos h,KeptState.bind_assoc]
  rfl

theorem gatherUnit_ruledOut {unit : UnitDescriptor}
    (h : ¬unit.mayContainAnyNonemptyType (requestedTypeIds query.requested)) (gathered : Gathered) :
    gatherUnit reader files query gathered unit = (chargeUnit >>= fun _ =>
      pure (gathered.1,gathered.2 ++ [(unit.unitMeta.minTs,unit.unitMeta.maxTs)])) := by
  rw [gatherUnit]
  simp only [if_neg h]

/-- No unit that the query opens in its window is stale. -/
def NoStale (reader : QueryReader ε) (files : SnapshotFiles ε) (s : LocalDirSnapshot ω)
    (query : GatherQuery) : Prop :=
  ∀ unit ∈ windowUnits s query.fromTs query.toTs,
    unit.mayContainAnyNonemptyType (requestedTypeIds query.requested) →
      ∀ index, openUnitHandle reader files unit.index unit.handle ≠ .error (.staleSnapshot index)

/-- The range of a unit that is read or ruled out. -/
def withRange (unit : UnitDescriptor) (gathered : Gathered) : Gathered :=
  (gathered.1,gathered.2 ++ [(unit.unitMeta.minTs,unit.unitMeta.maxTs)])

theorem PartOf.withRange {i : Fin query.requested.length} {single batch : Gathered}
    {s t : QueryState} (h : PartOf query i single batch s t) (unit : UnitDescriptor) :
    PartOf query i (PgKronika.withRange unit single) (PgKronika.withRange unit batch) s t :=
  ⟨by rw [h.part]; rfl,h.below,h.length⟩

/-- What the query for a section does with a unit that the batch opens. -/
def triedOrRuledOut (reader : QueryReader ε) (files : SnapshotFiles ε) (query : GatherQuery)
    (unit : UnitDescriptor) (gathered : Gathered) : Request QueryState (GatherError ε) Gathered :=
  if unit.mayContainAnyNonemptyType (requestedTypeIds query.requested) then
    gatherTried reader files query unit gathered
  else pure (withRange unit gathered)

theorem gatherTried_tracks {s : LocalDirSnapshot ω} {unit : UnitDescriptor}
    (hfresh : NoStale reader files s query) (hunit : unit ∈ windowUnits s query.fromTs query.toTs)
    (hmay : unit.mayContainAnyNonemptyType (requestedTypeIds query.requested)) (batch : Gathered) :
    Tracks GatherError.LimitHit GatherError.NotStale (fun i single => PartOf query i single batch)
      (fun i => triedOrRuledOut reader files (query.only i) unit)
      (gatherTried reader files query unit batch) (PartOf query) := by
  intro t
  cases hopen : openUnitHandle reader files unit.index unit.handle with
  | error error =>
    obtain ⟨first,hfirst⟩ := (mayContain_requested _).mp hmay
    have hread : ∀ query' gathered, gatherTried reader files query' unit gathered =
        Request.fail (.read error) := by
      intro query' gathered
      rw [gatherTried,hopen]
      cases error with
      | staleSnapshot index => exact absurd hopen (hfresh unit hunit hmay index)
      | _ => rfl
    rw [hread]
    refine .inr ⟨trivial,first,fun single s _ => ⟨.read error,s,?_,trivial⟩⟩
    dsimp only
    rw [triedOrRuledOut,if_pos hfirst,hread]
    rfl
  | ok opened =>
    have hopened : ∀ query' gathered, gatherTried reader files query' unit gathered =
        gatherOpened reader query' opened (withRange unit gathered) := by
      intro query' gathered
      rw [gatherTried,hopen]
      rfl
    -- A unit that is ruled out has no rows of the section.
    have hsingle : ∀ i single, triedOrRuledOut reader files (query.only i) unit single =
        gatherOpened reader (query.only i) opened (withRange unit single) := by
      intro i single
      rw [triedOrRuledOut]
      by_cases hmayAt : unit.mayContainAnyNonemptyType (requestedTypeIds (query.only i).requested)
      · rw [if_pos hmayAt,hopened]
      · have hnone : ¬hasNonemptyType opened.catalog (requestedTypeIds (query.only i).requested) :=
          fun hrows => hmayAt (mayContain_of_nonempty (List.mem_filter.mp hunit).1 hopen hrows)
        rw [if_neg hmayAt]
        funext r
        exact (gatherOpened_idle hnone _ r).symm
    have htracks := gatherOpened_tracks reader query opened (withRange unit batch) t
    rw [hopened]
    split at htracks
    · intro i single s h
      dsimp only
      rw [hsingle]
      exact htracks i _ s (h.withRange unit)
    · refine htracks.imp_right fun ⟨hstale,i,hi⟩ => ⟨hstale,i,fun single s h => ?_⟩
      dsimp only
      rw [hsingle]
      exact hi _ s (h.withRange unit)

theorem gatherUnit_tracks {s : LocalDirSnapshot ω} {unit : UnitDescriptor}
    (hfresh : NoStale reader files s query) (hunit : unit ∈ windowUnits s query.fromTs query.toTs)
    (batch : Gathered) :
    Tracks GatherError.LimitHit GatherError.NotStale (fun i single => PartOf query i single batch)
      (fun i single => gatherUnit reader files (query.only i) single unit)
      (gatherUnit reader files query batch unit) (PartOf query) := by
  intro t
  have hsteady : SteadyWork (chargeUnit : Request QueryState (GatherError ε) Unit) := chargeUnit_steady
  rcases hcharge : (chargeUnit : Request QueryState (GatherError ε) Unit) t with ⟨e | _,t₁⟩
  · rw [gatherUnit,bind_of_error hcharge]
    exact .inl (charge_limitHit hcharge)
  · by_cases hmay : unit.mayContainAnyNonemptyType (requestedTypeIds query.requested)
    · obtain ⟨first,hfirst⟩ := (mayContain_requested _).mp hmay
      rw [gatherUnit_charged hmay,bind_of_ok hcharge]
      have hopenSteady : SteadyWork (chargedOpen unit : Request QueryState (GatherError ε) Unit) :=
        chargedOpen_steady unit
      rcases hopen : (chargedOpen unit : Request QueryState (GatherError ε) Unit) t₁ with ⟨e | _,t₂⟩
      · rw [bind_of_error hopen]
        by_cases he : e.LimitHit
        · exact .inl he
        · refine .inr ⟨(hopenSteady.error (le_refl t₁) hopen he).1,first,fun single s h => ?_⟩
          obtain ⟨-,r,hr,hrt⟩ := hsteady.ok h.below hcharge
          dsimp only
          rw [gatherUnit_charged hfirst]
          exact Fails.bind_right hr ((hopenSteady.error hrt hopen he).2.bind_left _)
      · rw [bind_of_ok hopen]
        obtain ⟨htt,-⟩ := hopenSteady.ok (le_refl t₁) hopen
        -- Behind its charges a single query tries the unit or rules it out.
        have hsingle : ∀ i single s, PartOf query i single batch s t → ∃ r,
            PartOf query i single batch r t₂ ∧
            gatherUnit reader files (query.only i) single unit s =
              triedOrRuledOut reader files (query.only i) unit single r := by
          intro i single s h
          obtain ⟨-,r,hr,hrt⟩ := hsteady.ok h.below hcharge
          by_cases hmayAt : unit.mayContainAnyNonemptyType (requestedTypeIds (query.only i).requested)
          · obtain ⟨-,r',hr',hrt'⟩ := hopenSteady.ok hrt hopen
            refine ⟨r',⟨h.part,hrt',h.length⟩,?_⟩
            rw [gatherUnit_charged hmayAt,bind_of_ok hr,bind_of_ok hr',triedOrRuledOut,if_pos hmayAt]
          · refine ⟨r,⟨h.part,le_trans hrt htt,h.length⟩,?_⟩
            rw [gatherUnit_ruledOut hmayAt,bind_of_ok hr,triedOrRuledOut,if_neg hmayAt]
            rfl
        have htracks := gatherTried_tracks hfresh hunit hmay batch t₂
        split at htracks
        · intro i single s h
          obtain ⟨r,hr,hrun⟩ := hsingle i single s h
          dsimp only
          rw [hrun]
          exact htracks i single r hr
        · apply htracks.imp_right
          rintro ⟨hstale,i,hi⟩
          refine ⟨hstale,i,?_⟩
          intro single s h
          obtain ⟨r,hr,hrun⟩ := hsingle i single s h
          obtain ⟨e,u,hfails,hkind⟩ := hi single r hr
          exact ⟨e,u,hrun.trans hfails,hkind⟩
    · -- No section of the batch may have rows in the unit.
      have hidle : ∀ i, ¬unit.mayContainAnyNonemptyType (requestedTypeIds (query.only i).requested) :=
        fun i h => hmay ((mayContain_requested _).mpr ⟨i,h⟩)
      rw [gatherUnit_ruledOut hmay,bind_of_ok hcharge]
      intro i single s h
      obtain ⟨-,r,hr,hrt⟩ := hsteady.ok h.below hcharge
      refine ⟨withRange unit single,r,?_,PartOf.withRange ⟨h.part,hrt,h.length⟩ unit⟩
      dsimp only
      rw [gatherUnit_ruledOut (hidle i),bind_of_ok hr]
      rfl

/-- A pass over the units gathers for a section what the pass of its own query gathers. -/
theorem gather_tracks {s : LocalDirSnapshot ω} (hfresh : NoStale reader files s query) :
    Tracks GatherError.LimitHit GatherError.NotStale
      (fun (_ : Fin query.requested.length) (_ : Unit) s t => s ≤ t)
      (fun i _ => gather reader files s (query.only i)) (gather reader files s query)
      (PartOf query) := by
  have hfold := Tracks.foldlM (fun batch unit hunit => gatherUnit_tracks hfresh hunit batch)
    (List.replicate query.requested.length [],[])
  intro t
  have hstart : ∀ i s, s ≤ t → PartOf query i ([[]],[]) (List.replicate query.requested.length [],[])
      { s with usage := ⟨0,0⟩ } { t with usage := ⟨0,0⟩ } := fun i s h =>
    ⟨by simp [List.getD_eq_getElem?_getD],⟨h.1,Nat.le_refl _,Nat.le_refl _⟩,by simp⟩
  have hrun := hfold { t with usage := ⟨0,0⟩ }
  have hgather : gather reader files s query t = (windowUnits s query.fromTs query.toTs).foldlM
      (gatherUnit reader files query) (List.replicate query.requested.length [],[])
      { t with usage := ⟨0,0⟩ } := rfl
  rw [hgather]
  split at hrun
  · exact fun i _ r h => hrun i _ _ (hstart i r h)
  · exact hrun.imp_right fun ⟨hstale,i,hi⟩ => ⟨hstale,i,fun _ r h => hi _ _ (hstart i r h)⟩

end Units

section Pages

variable {ω ε : Type} {reader : QueryReader ε} {world : QueryWorld ω ε} {s : LocalDirSnapshot ω}
  {fromTs toTs : Int64} {limits : QueryLimits}

def SectionQueryError.LimitHit : SectionQueryError ε → Prop
  | .resultTooLarge _ => True
  | .materializedBytesTooLarge _ => True
  | .workLimitExceeded _ _ _ => True
  | _ => False

theorem resolveSections_error {names : List String} {error : SectionQueryError ε}
    (h : resolveSections reader names = .error error) : ∃ name ∈ names,
      (resolveSections reader [name] : Except (SectionQueryError ε) _) = .error error := by
  induction names with
  | nil => cases h
  | cons name names ih =>
    rw [resolveSections] at h
    cases hname : logicalSection reader.registry name with
    | none =>
      rw [hname] at h
      cases h
      refine ⟨name,by simp,?_⟩
      rw [resolveSections,hname]
    | some logical =>
      simp only [hname] at h
      cases hrest : (resolveSections reader names : Except (SectionQueryError ε) _) with
      | error error' =>
        rw [hrest] at h
        cases h
        obtain ⟨name',hmem,hname'⟩ := ih hrest
        exact ⟨name',by simp [hmem],hname'⟩
      | ok requested =>
        rw [hrest] at h
        cases h

theorem resolveSections_ok {names : List String} {requested : List (String × RegisteredSection)}
    (h : (resolveSections reader names : Except (SectionQueryError ε) _) = .ok requested) :
    requested.map Prod.fst = names ∧ ∀ section_ ∈ requested,
      logicalSection reader.registry section_.1 = some section_.2 := by
  induction names generalizing requested with
  | nil =>
    cases h
    simp
  | cons name names ih =>
    rw [resolveSections] at h
    cases hname : logicalSection reader.registry name with
    | none => simp [hname] at h
    | some logical =>
      simp only [hname] at h
      cases hrest : (resolveSections reader names : Except (SectionQueryError ε) _) with
      | error error' => simp [hrest,Except.map] at h
      | ok rest =>
        rw [hrest] at h
        cases h
        obtain ⟨hnames,hall⟩ := ih hrest
        refine ⟨by simp [hnames],fun section_ hmem => ?_⟩
        rcases List.mem_cons.mp hmem with rfl | hmem
        · exact hname
        · exact hall section_ hmem

theorem resolveSections_single {section_ : String × RegisteredSection}
    (h : logicalSection reader.registry section_.1 = some section_.2) :
    (resolveSections reader [section_.1] : Except (SectionQueryError ε) _) = .ok [section_] := by
  rw [resolveSections,h]
  rfl

theorem gatherAttempts_ok {query : GatherQuery} {remaining refreshed : ℕ} {state next : QueryState}
    {gathered : Gathered} (h : gather reader (world.files refreshed) s (attemptQuery query refreshed)
      state = (.ok gathered,next)) :
    gatherAttempts reader world query remaining refreshed s state = (.ok gathered,next) := by
  cases remaining <;> simp [gatherAttempts,h]

theorem gatherAttempts_retry {query : GatherQuery} {remaining refreshed : ℕ}
    {state next : QueryState} {refreshedTo : LocalDirSnapshot ω}
    (h : gather reader (world.files refreshed) s (attemptQuery query refreshed) state =
      (.error .stale,next)) (hrefresh : world.refresh refreshed s = .ok refreshedTo) :
    gatherAttempts reader world query (remaining+1) refreshed s state =
      gatherAttempts reader world query remaining (refreshed+1) refreshedTo next := by
  conv_lhs => rw [gatherAttempts]
  simp only [h,hrefresh]

theorem gatherAttempts_error {query : GatherQuery} {remaining refreshed : ℕ}
    {state next : QueryState} {error : GatherError ε} (herror : error.NotStale)
    (h : gather reader (world.files refreshed) s (attemptQuery query refreshed) state =
      (.error error,next)) :
    gatherAttempts reader world query remaining refreshed s state =
      (.error (queryErrorFromGather query.limits error),next) := by
  cases error with
  | stale => exact absurd herror id
  | _ => cases remaining <;> simp [gatherAttempts,h]

/-- The page of a single query whose pass succeeds. -/
theorem runSection_ok {section_ : String × RegisteredSection} {cursor : Option Cursor}
    {rows : List OutRow} {covered : List TimeRange} {next : QueryState}
    (hresolved : logicalSection reader.registry section_.1 = some section_.2)
    (h : gather reader (world.files 0) s
      (attemptQuery (gatherQuery fromTs toTs [section_] limits.effective) 0) (.new limits.work) =
        (.ok ([rows],covered),next)) :
    runSectionWithLimits reader world s section_.1 fromTs toTs cursor limits =
      (.ok (sectionPage section_.1 section_.2.toLogicalSection rows (coverageGaps fromTs toTs covered)
        cursor limits.rows),next) := by
  rw [runSectionWithLimits,runSectionsWithLimits,resolveSections_single hresolved]
  dsimp only
  rw [gatherAttempts_ok h]
  change (Except.ok (sectionPage section_.1 section_.2.toLogicalSection rows
    (coverageGaps fromTs toTs covered) ((cursorMap section_.1 cursor).lookup section_.1) limits.rows),
      next) = _
  rw [cursorMap_lookup]

theorem runSection_error {section_ : String × RegisteredSection} {cursor : Option Cursor}
    {error : GatherError ε} {next : QueryState} (herror : error.NotStale)
    (hresolved : logicalSection reader.registry section_.1 = some section_.2)
    (h : gather reader (world.files 0) s
      (attemptQuery (gatherQuery fromTs toTs [section_] limits.effective) 0) (.new limits.work) =
        (.error error,next)) :
    ∃ e, (runSectionWithLimits reader world s section_.1 fromTs toTs cursor limits).1 = .error e := by
  refine ⟨queryErrorFromGather limits.effective error,?_⟩
  rw [runSectionWithLimits,runSectionsWithLimits,resolveSections_single hresolved]
  dsimp only
  rw [gatherAttempts_error herror h]
  rfl

theorem queryErrorFromGather_limitHit {error : GatherError ε} (h : error.LimitHit) :
    (queryErrorFromGather limits error).LimitHit := by
  cases error <;> trivial

/-- No unit that the batch opens at first is stale. -/
def FreshBatch (reader : QueryReader ε) (world : QueryWorld ω ε) (s : LocalDirSnapshot ω)
    (fromTs toTs : Int64) (names : List String) (limits : QueryLimits) : Prop :=
  ∀ requested, (resolveSections reader names : Except (SectionQueryError ε) _) = .ok requested →
    NoStale reader (world.files 0) s (gatherQuery fromTs toTs requested limits.effective)

theorem finishPages_ofList (requested : List (String × LogicalSection))
    (buffers : List (List OutRow)) (gaps : List Gap) (cursors : OrderedMap String Cursor)
    (limit : ℕ) : finishPages requested buffers gaps cursors limit =
      OrderedMap.ofList ((requested.zip buffers).map fun entry => (entry.1.1,
        sectionPage entry.1.1 entry.1.2 entry.2 gaps (cursors.lookup entry.1.1) limit)) := by
  rw [finishPages,OrderedMap.ofList,List.foldl_map]

/-- Pages that a function of the name gives are found under their names. -/
theorem pages_lookup {requested : List (String × RegisteredSection)} {buffers : List (List OutRow)}
    {gaps : List Gap} {cursors : OrderedMap String Cursor} {limit : ℕ}
    (single : String → Except (SectionQueryError ε) SectionPage)
    (hlen : buffers.length = requested.length)
    (hsingle : ∀ i : Fin requested.length, single requested[i].1 = .ok (sectionPage requested[i].1
      requested[i].2.toLogicalSection (buffers.getD i []) gaps (cursors.lookup requested[i].1) limit))
    (i : Fin requested.length) :
    (sectionsWithLimits (asLogical requested) (buffers,gaps) cursors limit).lookup requested[i].1 =
      some (sectionPage requested[i].1 requested[i].2.toLogicalSection (buffers.getD i []) gaps
        (cursors.lookup requested[i].1) limit) := by
  rw [sectionsWithLimits,finishPages_ofList]
  have hall : ∀ name page, (name,page) ∈ (((asLogical requested).zip buffers).map fun entry =>
      (entry.1.1,sectionPage entry.1.1 entry.1.2 entry.2 gaps (cursors.lookup entry.1.1) limit)) →
      single name = .ok page := by
    intro name page hmem
    obtain ⟨entry,hentry,heq⟩ := List.mem_map.mp hmem
    obtain ⟨k,hk,rfl⟩ := List.getElem_of_mem hentry
    cases heq
    have hk' : k < requested.length := by simpa [asLogical,hlen] using hk
    have hk'' : k < buffers.length := by omega
    simpa [asLogical,hk''] using hsingle ⟨k,hk'⟩
  rw [OrderedMap.lookup_ofList]
  · refine List.mem_map.mpr ⟨((requested[i].1,requested[i].2.toLogicalSection),buffers.getD i []),?_,rfl⟩
    have hi : i.1 < buffers.length := hlen.symm ▸ i.2
    have hboth : i.1 < ((asLogical requested).zip buffers).length := by simp [asLogical,hi]
    have hzip : ((asLogical requested).zip buffers)[i.1] =
        ((requested[i].1,requested[i].2.toLogicalSection),buffers.getD i []) := by
      simp [asLogical,hi]
    rw [← hzip]
    exact List.getElem_mem _
  · intro name page page' h h'
    exact Except.ok.inj ((hall name page h).symm.trans (hall name page' h'))

/-- A batch answers each name as the query for that name does. Where it fails otherwise than at a
limit, the query for some name fails. -/
def AnsweredAlike (names : List String)
    (single : String → Except (SectionQueryError ε) SectionPage) :
    Except (SectionQueryError ε) (OrderedMap String SectionPage) → Prop
  | .ok pages => ∀ name ∈ names, ∃ page, pages.lookup name = some page ∧ single name = .ok page
  | .error e => e.LimitHit ∨ ∃ name ∈ names, ∃ e', single name = .error e'

theorem batch_single (names : List String) (cursors : OrderedMap String Cursor)
    (hfresh : FreshBatch reader world s fromTs toTs names limits) :
    AnsweredAlike names (fun name => (runSectionWithLimits reader world s name fromTs toTs
        (cursors.lookup name) limits).1)
      (runSectionsWithLimits reader world s fromTs toTs names cursors limits).1 := by
  rw [runSectionsWithLimits]
  cases hresolved : (resolveSections reader names : Except (SectionQueryError ε) _) with
  | error error =>
    obtain ⟨name,hmem,hname⟩ := resolveSections_error hresolved
    refine .inr ⟨name,hmem,error,?_⟩
    dsimp only
    rw [runSectionWithLimits,runSectionsWithLimits,hname]
  | ok requested =>
    obtain ⟨hnames,hsections⟩ := resolveSections_ok hresolved
    have hsection : ∀ i : Fin requested.length,
        logicalSection reader.registry requested[i].1 = some requested[i].2 :=
      fun i => hsections _ (List.getElem_mem _)
    set query := attemptQuery (gatherQuery fromTs toTs requested limits.effective) 0 with hquery
    have htracks := gather_tracks (show NoStale reader (world.files 0) s query from
      hfresh requested hresolved)
    dsimp only
    rcases hgather : gather reader (world.files 0) s query (.new limits.work) with ⟨error | batch,next⟩
    · by_cases hlimit : error.LimitHit
      · have hstale : error.NotStale := by cases error <;> trivial
        rw [gatherAttempts_error hstale hgather]
        exact .inl (queryErrorFromGather_limitHit hlimit)
      · obtain ⟨hstale,i,hi⟩ := htracks.error hgather hlimit
        obtain ⟨e,u,hfails,hkind⟩ := hi () (.new limits.work) (le_refl _)
        rw [gatherAttempts_error hstale hgather]
        refine .inr ⟨requested[i].1,?_,runSection_error hkind (hsection i) hfails⟩
        rw [← hnames]
        exact List.mem_map_of_mem (List.getElem_mem _)
    · rw [gatherAttempts_ok hgather]
      let page : Fin requested.length → SectionPage := fun i =>
        sectionPage requested[i].1 requested[i].2.toLogicalSection (batch.1.getD i [])
          (coverageGaps fromTs toTs batch.2) (cursors.lookup requested[i].1) limits.rows
      have hsingle : ∀ i, batch.1.length = requested.length ∧ (runSectionWithLimits reader world s
          requested[i].1 fromTs toTs (cursors.lookup requested[i].1) limits).1 = .ok (page i) := by
        intro i
        obtain ⟨single,r,hrun,hpart⟩ :=
          htracks.ok hgather (i := i) (r := ()) (le_refl (QueryState.new limits.work))
        rw [hpart.part] at hrun
        exact ⟨hpart.length,congrArg Prod.fst (runSection_ok (hsection i) hrun)⟩
      intro name hname
      rw [← hnames] at hname
      obtain ⟨section_,hmem,rfl⟩ := List.mem_map.mp hname
      obtain ⟨k,hk,rfl⟩ := List.getElem_of_mem hmem
      refine ⟨page ⟨k,hk⟩,?_,(hsingle ⟨k,hk⟩).2⟩
      exact pages_lookup (fun name => (runSectionWithLimits reader world s name fromTs toTs
        (cursors.lookup name) limits).1) (hsingle ⟨k,hk⟩).1 (fun i => (hsingle i).2) ⟨k,hk⟩

end Pages

section Budgets

variable {ω ε : Type} (reader : QueryReader ε)

/-- Windowed requests, with their retries, and sessions, with all their calls, keep their work within
the limits and charge it before it is done. What their answers retain is within the limits, and a
refused charge changes nothing. With no limit hit and no stale unit a batch answers as its names do
one by one. -/
theorem query_budgets_kept (world : QueryWorld ω ε) (s : LocalDirSnapshot ω) (limits : QueryLimits) :
    (∀ (fromTs toTs : Int64) (names : List String) (cursors : OrderedMap String Cursor),
      let run := runSectionsWithLimits reader world s fromTs toTs names cursors limits
      WorkKept limits.work run.2 ∧ ∀ pages, run.1 = .ok pages →
        RetainedWithin limits.effective.cells limits.effective.bytes pages) ∧
    (∀ calls : List (SnapshotFiles ε × SealedCall),
      let run := sealedQuerySession reader s limits calls
      WorkKept limits.work run.2.query ∧
        retainedCells (run.1.flatMap answerRows) ≤ limits.effective.cells ∧
        retainedBytes (run.1.flatMap answerRows) ≤ limits.effective.bytes) ∧
    (∀ (state next : QueryState) (error : GatherError ε) (bytes : ℕ),
      chargeUnit state = (.error error,next) ∨ chargeCatalogRead bytes state = (.error error,next) ∨
        chargeDictionaryRead bytes state = (.error error,next) → next = state) ∧
    ∀ (fromTs toTs : Int64) (names : List String) (cursors : OrderedMap String Cursor),
      FreshBatch reader world s fromTs toTs names limits →
      AnsweredAlike names (fun name => (runSectionWithLimits reader world s name fromTs toTs
          (cursors.lookup name) limits).1)
        (runSectionsWithLimits reader world s fromTs toTs names cursors limits).1 := by
  refine ⟨fun fromTs toTs names cursors => runSections_kept world fromTs toTs names cursors,
    fun calls => sealedQuerySession_kept calls,fun state next error bytes h => ?_,
    fun fromTs toTs names cursors => batch_single names cursors⟩
  rcases h with h | h | h
  · exact charge_refused h
  · exact charge_refused h
  · exact charge_refused h

end Budgets

def waitsReader : QueryReader Unit where
  registry :=
    { contracts := [⟨7,"events",["ts","n"],["ts"]⟩,⟨8,"waits",["ts","n"],["ts"]⟩]
      sortKeys := by simp
      width := by decide }
  codec := eventsReader.codec
  sha256 := eventsReader.sha256

def waitsSection : RegisteredSection := { eventsSection with typeIds := [8] }

theorem waits_resolved :
    (resolveSections waitsReader ["events","waits"] : Except (SectionQueryError Unit) _) =
      .ok [("events",eventsSection),("waits",waitsSection)] := by
  simp [resolveSections,logicalSection,SectionRegistry.versions,waitsReader,waitsSection,
    eventsSection,unionColumns,pushColumn,Except.map]

/-- The catalogs of the parts are never the scanned ones. -/
def staleWorld : QueryWorld Unit Unit where
  files := fun _ =>
    { openSealed := fun _ _ => .error (.other ())
      readActivePart := fun _ part => .ok ⟨⟨[],0,0,2,1⟩,part.part.len,fun _ => .ok []⟩ }
  refresh := fun _ s => .ok s

def wideLimits : QueryLimits := ⟨100,100,1000,⟨100,1000,1000⟩⟩

theorem eventsWorld_fresh :
    FreshBatch waitsReader eventsWorld eventsSnapshot 0 10 ["events","waits"] wideLimits := by
  intro requested _ unit hunit _ index
  have hcases : unit = describeUnit (.active (eventPart 64 9)) 0 ∨
      unit = describeUnit (.active (eventPart 200 5)) 1 := by
    simpa [LocalDirSnapshot.unitDescriptors,LocalDirSnapshot.handles,eventsSnapshot] using
      (List.mem_filter.mp hunit).1
  rcases hcases with rfl | rfl <;> simp [describeUnit,openUnitHandle,eventsWorld]

theorem query_budgets_sample :
    AnsweredAlike ["events","waits"] (fun name => (runSectionWithLimits waitsReader eventsWorld
        eventsSnapshot name 0 10 (OrderedMap.empty.lookup name) wideLimits).1)
      (runSectionsWithLimits waitsReader eventsWorld eventsSnapshot 0 10 ["events","waits"] .empty
        wideLimits).1 :=
  (query_budgets_kept waitsReader eventsWorld eventsSnapshot wideLimits).2.2.2 0 10 _ _
    eventsWorld_fresh

/-- A batch skips the stale parts that the query for the other name rules out, and its page has their
range as a gap. -/
theorem query_batch_gap : ∃ pages page,
    (runSectionsWithLimits waitsReader staleWorld eventsSnapshot 6 10 ["events","waits"] .empty
      wideLimits).1 = .ok pages ∧
    (runSectionWithLimits waitsReader staleWorld eventsSnapshot "waits" 6 10 none wideLimits).1 =
      .ok page ∧ pages.lookup "waits" ≠ some page := by
  let batch := gatherQuery 6 10 [("events",eventsSection),("waits",waitsSection)] wideLimits.effective
  let state : ℕ → QueryState := fun n =>
    ⟨⟨wideLimits.work,n,100*n,0⟩,⟨0,0⟩,(List.replicate n [.chargeUnit,.chargeCatalog 100,
      .openUnit (.active (eventPart 64 9))]).flatten⟩
  have hstale : gather waitsReader (staleWorld.files 0) eventsSnapshot (attemptQuery batch 0)
      (state 0) = (.error .stale,state 1) := rfl
  have hstale' : gather waitsReader (staleWorld.files 1) eventsSnapshot (attemptQuery batch 1)
      (state 1) = (.error .stale,state 2) := rfl
  have hskip : ∃ next, gather waitsReader (staleWorld.files 2) eventsSnapshot (attemptQuery batch 2)
      (state 2) = (.ok ([[],[]],[]),next) := ⟨_,rfl⟩
  have hsingle : ∃ next, gather waitsReader (staleWorld.files 0) eventsSnapshot
      (attemptQuery (gatherQuery 6 10 [("waits",waitsSection)] wideLimits.effective) 0)
      (.new wideLimits.work) = (.ok ([[]],[(9,9)]),next) := ⟨_,rfl⟩
  obtain ⟨next,hskip⟩ := hskip
  obtain ⟨next',hsingle⟩ := hsingle
  have hbatch : gatherAttempts waitsReader staleWorld batch maxRefresh 0 eventsSnapshot
      (.new wideLimits.work) = (.ok ([[],[]],[]),next) :=
    (gatherAttempts_retry hstale rfl).trans ((gatherAttempts_retry hstale' rfl).trans
      (gatherAttempts_ok hskip))
  have hwaits : logicalSection waitsReader.registry "waits" = some waitsSection :=
    (resolveSections_ok waits_resolved).2 ("waits",waitsSection) (by simp)
  have hpages : (runSectionsWithLimits waitsReader staleWorld eventsSnapshot 6 10 ["events","waits"]
      .empty wideLimits).1 = .ok (sectionsWithLimits (asLogical [("events",eventsSection),
        ("waits",waitsSection)]) ([[],[]],coverageGaps 6 10 []) .empty wideLimits.rows) := by
    rw [runSectionsWithLimits,waits_resolved]
    dsimp only
    rw [hbatch]
  refine ⟨_,_,hpages,congrArg Prod.fst (runSection_ok hwaits hsingle),?_⟩
  rw [sectionsWithLimits,finishPages]
  simp only [asLogical,List.map_cons,List.map_nil,List.zip_cons_cons,List.zip_nil_right,
    List.foldl_cons,List.foldl_nil,OrderedMap.lookup_insert_self]
  intro h
  have hgaps : coverageGaps 6 10 [] = coverageGaps 6 10 [(9,9)] :=
    congrArg SectionPage.gaps (Option.some.inj h)
  have hrange : ([(9,9)].map (clampRange 6 10)).filter (fun range => decide (range.1 ≤ range.2)) =
      [(9,9)] := rfl
  rw [coverageGaps,coverageGaps,windowRanges,windowRanges,List.map_nil,List.filter_nil,
    List.mergeSort_nil,hrange,List.mergeSort_singleton] at hgaps
  exact absurd (congrArg List.length hgaps) (by decide)

end PgKronika
