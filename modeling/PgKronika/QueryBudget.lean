import PgKronika.QueryWork

/-! Work and materialization stay within their limits over whole requests, stale retries and session
calls included, and each open and each read stands right behind its charges. -/
namespace PgKronika

open ByteCodec CheckedArith KeptState Utf8Text

def WorkEvent.unitsCharged : WorkEvent → ℕ
  | .chargeUnit => 1
  | _ => 0

def WorkEvent.catalogCharged : WorkEvent → ℕ
  | .chargeCatalog bytes => bytes
  | _ => 0

def WorkEvent.dictionaryCharged : WorkEvent → ℕ
  | .chargeDictionary bytes => bytes
  | _ => 0

/-- All that was charged for some resource. -/
def totalCharged (cost : WorkEvent → ℕ) (events : List WorkEvent) : ℕ := (events.map cost).sum

/-- The charges that stand right before an event. -/
def chargesBefore : WorkEvent → List WorkEvent
  | .openUnit handle => [.chargeUnit,.chargeCatalog (eagerOpenBytes handle)]
  | .readDictionary catalog => [.chargeDictionary (dictionaryReadBytes catalog)]
  | _ => []

/-- Each open and each read stands right behind its charges. -/
def ChargedFirst (events : List WorkEvent) : Prop :=
  ∀ before event after, events = before ++ event :: after → chargesBefore event <:+ before

/-- The counters are what was charged, capped at the greatest 64-bit number, and within the
limits. -/
structure WorkKept (limits : QueryWorkLimits) (s : QueryState) : Prop where
  sameLimits : s.budget.limits = limits
  units : s.budget.units = min (totalCharged WorkEvent.unitsCharged s.events) u64Max
  catalogBytes : s.budget.catalogReadBytes =
    min (totalCharged WorkEvent.catalogCharged s.events) u64Max
  dictionaryBytes : s.budget.dictionaryReadBytes =
    min (totalCharged WorkEvent.dictionaryCharged s.events) u64Max
  unitsWithin : s.budget.units ≤ limits.units
  catalogWithin : s.budget.catalogReadBytes ≤ limits.catalogReadBytes
  dictionaryWithin : s.budget.dictionaryReadBytes ≤ limits.dictionaryReadBytes
  chargedFirst : ChargedFirst s.events

section Charges

variable {ε : Type} {limits : QueryWorkLimits} {s t : QueryState}

theorem WorkKept.new (limits : QueryWorkLimits) : WorkKept limits (.new limits) where
  sameLimits := rfl
  units := rfl
  catalogBytes := rfl
  dictionaryBytes := rfl
  unitsWithin := Nat.zero_le _
  catalogWithin := Nat.zero_le _
  dictionaryWithin := Nat.zero_le _
  chargedFirst := fun before event after h => by simp [QueryState.new] at h

/-- Below the greatest number a counter is the exact total. -/
theorem total_le_of_counter {total counter limit : ℕ} (h : counter = min total u64Max)
    (hle : counter ≤ limit) (hlimit : limit < u64Max) : total ≤ limit := by omega

@[simp] theorem totalCharged_append (cost : WorkEvent → ℕ) (events : List WorkEvent)
    (event : WorkEvent) : totalCharged cost (events ++ [event]) =
      totalCharged cost events + cost event := by
  simp [totalCharged]

theorem ChargedFirst.append {events : List WorkEvent} {event : WorkEvent} (h : ChargedFirst events)
    (hevent : chargesBefore event <:+ events) : ChargedFirst (events ++ [event]) := by
  intro before e after heq
  rcases List.append_eq_append_iff.mp heq with ⟨middle,hbefore,hmiddle⟩ | ⟨middle,hbefore,hmiddle⟩
  · -- The event is the new one.
    cases middle with
    | nil =>
      obtain ⟨rfl,-⟩ := List.cons.inj hmiddle
      rw [hbefore,List.append_nil]
      exact hevent
    | cons m middle => simp at hmiddle
  · cases middle with
    | nil =>
      obtain ⟨rfl,-⟩ := List.cons.inj hmiddle.symm
      rw [List.append_nil] at hbefore
      rw [← hbefore]
      exact hevent
    | cons m middle =>
      obtain ⟨rfl,hafter⟩ := List.cons.inj hmiddle
      exact h before e middle hbefore

theorem chargeWork_ok {current amount limit observed : ℕ} {resource : QueryWorkResource}
    (h : (chargeWork current amount limit resource : Except (GatherError ε) ℕ) = .ok observed) :
    observed = min (current + amount) u64Max ∧ observed ≤ limit := by
  rw [chargeWork] at h
  have hobserved : (checkedAdd current amount).getD u64Max = min (current + amount) u64Max := by
    rw [checkedAdd]
    split_ifs with hle
    · simp [hle]
    · simp [Nat.le_of_not_le hle]
  rw [hobserved] at h
  split_ifs at h with hlimit
  have heq := Except.ok.inj h
  omega

theorem charge_ok {counter : QueryWorkBudget → ℕ} {set : ℕ → QueryWorkBudget → QueryWorkBudget}
    {amount limit : ℕ} {resource : QueryWorkResource} {event : WorkEvent}
    (h : (charge counter set amount limit resource event :
      Request QueryState (GatherError ε) Unit) s = (.ok (),t)) :
    t = { s with
      budget := set (min (counter s.budget + amount) u64Max) s.budget
      events := s.events ++ [event] } ∧ min (counter s.budget + amount) u64Max ≤ limit := by
  rw [charge] at h
  split at h
  · cases h
  · next observed hobserved =>
    obtain ⟨rfl,hle⟩ := chargeWork_ok hobserved
    cases h
    exact ⟨rfl,hle⟩

/-- A refused charge leaves the state as it is. -/
theorem charge_refused {counter : QueryWorkBudget → ℕ}
    {set : ℕ → QueryWorkBudget → QueryWorkBudget} {amount limit : ℕ} {resource : QueryWorkResource}
    {event : WorkEvent} {error : GatherError ε}
    (h : charge counter set amount limit resource event s = (.error error,t)) : t = s := by
  rw [charge] at h
  split at h <;> cases h
  rfl

/-- The work is kept, and what is retained satisfies some condition. -/
def Kept (limits : QueryWorkLimits) (U : MaterializationUsage → Prop) (s : QueryState) : Prop :=
  WorkKept limits s ∧ U s.usage

variable {U : MaterializationUsage → Prop}

theorem chargeUnit_kept : Triple (Kept limits U) (chargeUnit (ε := ε))
    (fun _ t => Kept limits U t ∧ [.chargeUnit] <:+ t.events) (Kept limits U) := by
  rintro s ⟨h,hU⟩
  rcases hrun : (chargeUnit : Request QueryState (GatherError ε) Unit) s with ⟨_ | _,t⟩
  · rw [charge_refused hrun]
    exact ⟨h,hU⟩
  · obtain ⟨rfl,hle⟩ := charge_ok hrun
    have hlimit := h.sameLimits ▸ (le_min_iff.mp hle).1
    refine ⟨⟨⟨h.sameLimits,?_,?_,?_,hlimit,h.catalogWithin,h.dictionaryWithin,
      h.chargedFirst.append (by simp [chargesBefore])⟩,hU⟩,by simp⟩
    · simp only [totalCharged_append,WorkEvent.unitsCharged,h.units]
      omega
    · simpa [WorkEvent.catalogCharged] using h.catalogBytes
    · simpa [WorkEvent.dictionaryCharged] using h.dictionaryBytes

theorem chargeCatalogRead_kept {bytes : ℕ} {l : List WorkEvent} :
    Triple (fun s => Kept limits U s ∧ l <:+ s.events) (chargeCatalogRead (ε := ε) bytes)
      (fun _ t => Kept limits U t ∧ l ++ [.chargeCatalog bytes] <:+ t.events) (Kept limits U) := by
  rintro s ⟨⟨h,hU⟩,earlier,hl⟩
  rcases hrun : (chargeCatalogRead bytes : Request QueryState (GatherError ε) Unit) s with ⟨_ | _,t⟩
  · rw [charge_refused hrun]
    exact ⟨h,hU⟩
  · obtain ⟨rfl,hle⟩ := charge_ok hrun
    refine ⟨⟨⟨h.sameLimits,?_,?_,?_,h.unitsWithin,h.sameLimits ▸ hle,h.dictionaryWithin,
      h.chargedFirst.append (by simp [chargesBefore])⟩,hU⟩,earlier,?_⟩
    · simpa [WorkEvent.unitsCharged] using h.units
    · simp only [totalCharged_append,WorkEvent.catalogCharged,h.catalogBytes]
      omega
    · simpa [WorkEvent.dictionaryCharged] using h.dictionaryBytes
    · rw [← hl,List.append_assoc]

theorem chargeDictionaryRead_kept {bytes : ℕ} :
    Triple (Kept limits U) (chargeDictionaryRead (ε := ε) bytes)
      (fun _ t => Kept limits U t ∧ [.chargeDictionary bytes] <:+ t.events) (Kept limits U) := by
  rintro s ⟨h,hU⟩
  rcases hrun : (chargeDictionaryRead bytes : Request QueryState (GatherError ε) Unit) s
    with ⟨_ | _,t⟩
  · rw [charge_refused hrun]
    exact ⟨h,hU⟩
  · obtain ⟨rfl,hle⟩ := charge_ok hrun
    refine ⟨⟨⟨h.sameLimits,?_,?_,?_,h.unitsWithin,h.catalogWithin,h.sameLimits ▸ hle,
      h.chargedFirst.append (by simp [chargesBefore])⟩,hU⟩,by simp⟩
    · simpa [WorkEvent.unitsCharged] using h.units
    · simpa [WorkEvent.catalogCharged] using h.catalogBytes
    · simp only [totalCharged_append,WorkEvent.dictionaryCharged,h.dictionaryBytes]
      omega

/-- An open or a read behind its charges. -/
theorem perform_kept (event : WorkEvent)
    (hfree : event.unitsCharged = 0 ∧ event.catalogCharged = 0 ∧ event.dictionaryCharged = 0) :
    Triple (fun s => Kept limits U s ∧ chargesBefore event <:+ s.events) (perform (ε := ε) event)
      (fun _ t => Kept limits U t) (Kept limits U) := by
  rintro s ⟨⟨h,hU⟩,hbefore⟩
  refine ⟨⟨h.sameLimits,?_,?_,?_,h.unitsWithin,h.catalogWithin,h.dictionaryWithin,
    h.chargedFirst.append hbefore⟩,hU⟩
  · simpa [hfree.1] using h.units
  · simpa [hfree.2.1] using h.catalogBytes
  · simpa [hfree.2.2] using h.dictionaryBytes

end Charges

/-- The owned bytes of a value. -/
def valuePayload : Value → ℕ
  | .str text => (utf8 text).length
  | .blob text _ _ => (utf8 text).length
  | .listI32 items => items.length*4
  | _ => 0

def rowPayload (row : OutRow) : ℕ :=
  (row.map fun cell => (utf8 cell.1).length + valuePayload cell.2).sum

def retainedCells (rows : List OutRow) : ℕ := (rows.map List.length).sum

def retainedBytes (rows : List OutRow) : ℕ := (rows.map rowPayload).sum

@[simp] theorem retainedCells_append (xs ys : List OutRow) :
    retainedCells (xs ++ ys) = retainedCells xs + retainedCells ys := by
  simp [retainedCells]

@[simp] theorem retainedBytes_append (xs ys : List OutRow) :
    retainedBytes (xs ++ ys) = retainedBytes xs + retainedBytes ys := by
  simp [retainedBytes]

theorem invalidPrefix_pos (b : Bytes) : 0 < invalidPrefix b := by
  unfold invalidPrefix
  split
  · split
    · exact Nat.one_pos
    · split_ifs <;> omega
  · exact Nat.one_pos

/-- Lossy decoding makes at most three bytes of one. -/
theorem lossyChars_length (fuel : ℕ) (b : Bytes) :
    (utf8Chars (lossyChars fuel b)).length ≤ 3*b.length := by
  induction fuel generalizing b with
  | zero => simp [lossyChars,utf8Chars]
  | succ fuel ih =>
    cases b with
    | nil => simp [lossyChars,utf8Chars]
    | cons head b =>
      rw [lossyChars]
      split
      · next c hc =>
        have hsize := ByteArray.le_size_of_utf8DecodeChar?_eq_some hc
        have hrest := ih ((head::b).drop c.utf8Size)
        rw [List.length_drop] at hrest
        rw [utf8Chars_cons,List.length_append,String.length_utf8EncodeChar]
        simp only [List.size_toByteArray,Nat.zero_add] at hsize
        omega
      · have hpos := invalidPrefix_pos (head::b)
        have hrest := ih ((head::b).drop (invalidPrefix (head::b)))
        rw [List.length_drop] at hrest
        have hreplacement : (Char.ofNat 0xFFFD).utf8Size = 3 := by decide
        rw [utf8Chars_cons,List.length_append,String.length_utf8EncodeChar,hreplacement]
        simp only [List.length_cons] at hrest ⊢
        omega

theorem fromUtf8Lossy_length (b : Bytes) : (utf8 (fromUtf8Lossy b)).length ≤ 3*b.length := by
  rw [utf8,fromUtf8Lossy,String.toList_ofList]
  exact lossyChars_length _ _

/-- A value is charged at least what it owns. -/
theorem valuePayload_le {dict : UnitDictionary} {cell : Cell}
    (h : materializedValueBytes dict cell < u64Max) :
    valuePayload (cellToValue dict cell).1 ≤ materializedValueBytes dict cell := by
  cases cell with
  | strId id =>
    rw [materializedValueBytes] at h ⊢
    rw [cellToValue]
    split_ifs at h ⊢ with hid
    · exact Nat.le_refl _
    · cases hresolve : dict.resolve id with
      | none => exact Nat.zero_le _
      | some value =>
        cases value with
        | string bytes =>
          have hlossy := fromUtf8Lossy_length bytes
          simp only [hresolve,saturatingMul,valuePayload] at h ⊢
          omega
        | blob bytes fullLen truncated =>
          have hlossy := fromUtf8Lossy_length bytes
          simp only [hresolve,saturatingMul,valuePayload] at h ⊢
          omega
  | listI32 items =>
    simp only [materializedValueBytes,cellToValue,saturatingMul,valuePayload] at h ⊢
    omega
  | _ => exact Nat.zero_le _

theorem columnBytes_foldlM {columns : List String} {dict : UnitDictionary} {row : Row}
    {start total : ℕ}
    (h : columns.foldlM (fun total name => (checkedAdd total (utf8 name).length).bind fun sum =>
      checkedAdd sum (columnBytes dict row name)) start = some total) :
    total = start + (columns.map fun name => (utf8 name).length + columnBytes dict row name).sum := by
  induction columns generalizing start with
  | nil =>
    obtain rfl := Option.some.inj h
    rfl
  | cons name columns ih =>
    rw [List.foldlM_cons] at h
    obtain ⟨next,hnext,hrest⟩ := Option.bind_eq_some_iff.mp h
    obtain ⟨sum,hsum,hvalue⟩ := Option.bind_eq_some_iff.mp hnext
    have hname := (checkedAdd_eq_some.mp hsum).1
    have hcolumn := (checkedAdd_eq_some.mp hvalue).1
    rw [ih hrest,List.map_cons,List.sum_cons]
    omega

/-- A row is charged at least what its output owns. -/
theorem rowPayload_le {columns : List String} {dict : UnitDictionary} {row : Row} {total : ℕ}
    (h : materializedRowBytes columns dict row = some total) (htotal : total < u64Max) :
    rowPayload (row.output columns dict) ≤ total := by
  have hsum := columnBytes_foldlM h
  rw [Nat.zero_add] at hsum
  have hpayload : rowPayload (row.output columns dict) =
      (columns.map fun name => (utf8 name).length +
        valuePayload (((row.get name).map fun cell => (cellToValue dict cell).1).getD .null)).sum := by
    simp [rowPayload,Row.output,Function.comp_def]
  rw [hpayload,hsum]
  refine List.sum_le_sum fun name hname => Nat.add_le_add_left ?_ _
  have hcolumn : columnBytes dict row name < u64Max := by
    have hmem := List.single_le_sum (fun _ _ => Nat.zero_le _) _ (List.mem_map_of_mem (f := fun name =>
      (utf8 name).length + columnBytes dict row name) hname)
    omega
  rw [columnBytes] at hcolumn ⊢
  cases hget : row.get name with
  | none => exact Nat.zero_le _
  | some cell =>
    rw [hget] at hcolumn
    exact valuePayload_le hcolumn

/-- At least these cells and bytes are charged, and at most the limits. -/
structure Holds (limits : QueryLimits) (cells bytes : ℕ) (u : MaterializationUsage) : Prop where
  cells : cells ≤ u.cells
  bytes : bytes ≤ u.bytes
  cellsWithin : u.cells ≤ limits.cells
  bytesWithin : u.bytes ≤ limits.bytes

section Retained

variable {ω ε : Type} {reader : QueryReader ε} {files : SnapshotFiles ε} {work : QueryWorkLimits}
  {query : GatherQuery} {logical : RegisteredSection} {opened : QueryUnit ε} {dict : UnitDictionary}
  {cells bytes : ℕ}

/-- The work is kept, and what is retained is charged on top of what was before. -/
def KeptRows (work : QueryWorkLimits) (limits : QueryLimits) (cells bytes : ℕ)
    (rows : List OutRow) : QueryState → Prop :=
  Kept work (Holds limits (cells + retainedCells rows) (bytes + retainedBytes rows))

theorem Holds.weaken {limits : QueryLimits} {cells' bytes' : ℕ} {u : MaterializationUsage}
    (h : Holds limits cells bytes u) (hcells : cells' ≤ cells) (hbytes : bytes' ≤ bytes) :
    Holds limits cells' bytes' u :=
  ⟨hcells.trans h.cells,hbytes.trans h.bytes,h.cellsWithin,h.bytesWithin⟩

theorem Kept.forget {limits : QueryLimits} {cells' bytes' : ℕ} {s : QueryState}
    (h : Kept work (Holds limits cells' bytes') s) (hcells : cells ≤ cells')
    (hbytes : bytes ≤ bytes') : KeptRows work limits cells bytes [] s :=
  ⟨h.1,h.2.weaken hcells hbytes⟩

theorem KeptRows.forget {limits : QueryLimits} {rows : List OutRow} (s : QueryState)
    (h : KeptRows work limits cells bytes rows s) : KeptRows work limits cells bytes [] s :=
  Kept.forget h (Nat.le_add_right _ _) (Nat.le_add_right _ _)

theorem chargeCells_kept {limits : QueryLimits} {width : ℕ} :
    Triple (Kept work (Holds limits cells bytes)) (chargeCells (ε := ε) width limits.cells)
      (fun _ => Kept work (Holds limits (cells + width) bytes)) (Kept work (Holds limits cells bytes)) := by
  rintro s ⟨h,hU⟩
  rw [chargeCells]
  split
  · next _ hrun =>
    split at hrun
    · cases hrun
    · next total htotal =>
      cases hrun
      obtain ⟨hadd,hle⟩ := Option.filter_eq_some_iff.mp htotal
      have hsum := (checkedAdd_eq_some.mp hadd).1
      have hbefore := hU.cells
      exact ⟨⟨h.1,h.2,h.3,h.4,h.5,h.6,h.7,h.8⟩,⟨by dsimp only; omega,hU.bytes,of_decide_eq_true hle,
        hU.bytesWithin⟩⟩
  · next hrun =>
    split at hrun
    · cases hrun
      exact ⟨h,hU⟩
    · cases hrun

theorem chargeBytes_kept {limits : QueryLimits} {rowBytes : Option ℕ} {payload : ℕ}
    (hpayload : ∀ total, rowBytes = some total → total ≤ limits.bytes → payload ≤ total) :
    Triple (Kept work (Holds limits cells bytes)) (chargeBytes (ε := ε) rowBytes limits.bytes)
      (fun _ => Kept work (Holds limits cells (bytes + payload)))
      (Kept work (Holds limits cells bytes)) := by
  rintro s ⟨h,hU⟩
  rw [chargeBytes]
  split
  · next _ hrun =>
    split at hrun
    · cases hrun
    · next total htotal =>
      cases hrun
      obtain ⟨row,hrow,hfilter⟩ := Option.bind_eq_some_iff.mp htotal
      obtain ⟨hadd,hle⟩ := Option.filter_eq_some_iff.mp hfilter
      have hle := of_decide_eq_true hle
      have hsum := (checkedAdd_eq_some.mp hadd).1
      have hbefore := hU.bytes
      have hown := hpayload row hrow (by omega)
      exact ⟨⟨h.1,h.2,h.3,h.4,h.5,h.6,h.7,h.8⟩,⟨hU.cells,by dsimp only; omega,hU.cellsWithin,hle⟩⟩
  · next hrun =>
    split at hrun
    · cases hrun
      exact ⟨h,hU⟩
    · cases hrun

theorem retainRow_kept (hbytes : query.limits.bytes < u64Max) (buffer : List OutRow) (row : Row) :
    Triple (KeptRows work query.limits cells bytes buffer) (retainRow (ε := ε) query logical dict buffer row)
      (KeptRows work query.limits cells bytes) (KeptRows work query.limits cells bytes []) := by
  rw [retainRow]
  by_cases hwindow : inWindow query row
  · rw [if_pos hwindow]
    have hcells : Triple (KeptRows work query.limits cells bytes buffer)
        (chargeCells (ε := ε) logical.columns.length query.limits.cells) _ _ :=
      chargeCells_kept.weaken (fun _ => id) (fun _ _ => id) KeptRows.forget
    refine hcells.bind fun _ => ?_
    have hrow : ∀ total, materializedRowBytes logical.columns dict row = some total →
        total ≤ query.limits.bytes → rowPayload (row.output logical.columns dict) ≤ total :=
      fun total htotal hle => rowPayload_le htotal (by omega)
    refine ((chargeBytes_kept hrow).weaken (fun _ => id) (fun _ _ => id) fun _ h =>
      Kept.forget h (by omega) (Nat.le_add_right _ _)).bind fun _ => ?_
    refine Triple.pure.weaken (fun s h => ?_) (fun _ _ => id) fun _ => id
    simpa [KeptRows,retainedCells,retainedBytes,Row.output,Nat.add_assoc] using h
  · rw [if_neg hwindow]
    exact (Triple.pure (Q := KeptRows work query.limits cells bytes)).weaken (fun _ => id)
      (fun _ _ => id) fun _ => id

theorem decodeSection_kept (hbytes : query.limits.bytes < u64Max) (buffer : List OutRow)
    (entry : Entry) : Triple (KeptRows work query.limits cells bytes buffer)
      (decodeSection reader query logical opened dict buffer entry)
      (KeptRows work query.limits cells bytes) (KeptRows work query.limits cells bytes []) := by
  rw [decodeSection]
  split_ifs
  · exact Triple.pure
  · exact (Triple.lift fun s hs => ⟨hs.forget,fun _ _ => hs⟩).bind fun rows =>
      Triple.foldlM (fun buffer row _ => retainRow_kept hbytes buffer row) buffer

theorem decodeLogical_kept (hbytes : query.limits.bytes < u64Max) (buffer : List OutRow) :
    Triple (KeptRows work query.limits cells bytes buffer)
      (decodeLogical reader query opened dict buffer logical)
      (KeptRows work query.limits cells bytes) (KeptRows work query.limits cells bytes []) :=
  Triple.foldlM (fun buffer entry _ => decodeSection_kept hbytes buffer entry) buffer

theorem keptRows_append {limits : QueryLimits} {xs ys : List OutRow} :
    KeptRows work limits cells bytes (xs ++ ys) =
      KeptRows work limits (cells + retainedCells xs) (bytes + retainedBytes xs) ys := by
  simp [KeptRows,retainedCells,retainedBytes,Nat.add_assoc]

theorem keptRows_comm {limits : QueryLimits} {xs ys : List OutRow} :
    KeptRows work limits cells bytes (xs ++ ys) = KeptRows work limits cells bytes (ys ++ xs) := by
  simp [KeptRows,retainedCells,retainedBytes,Nat.add_comm]

theorem decodeRequestedRows_kept (hbytes : query.limits.bytes < u64Max)
    (buffers : List (List OutRow)) (requested : List (String × RegisteredSection)) :
    Triple (KeptRows work query.limits cells bytes buffers.flatten)
      (decodeRequestedRows reader query opened dict buffers requested)
      (fun buffers => KeptRows work query.limits cells bytes buffers.flatten)
      (KeptRows work query.limits cells bytes []) := by
  induction buffers generalizing requested cells bytes with
  | nil => exact fun _ => id
  | cons buffer buffers ih =>
    cases requested with
    | nil => exact fun _ => id
    | cons section_ requested =>
      -- The other buffers are charged already, then the first one is.
      have hforget : ∀ c b, ∀ s, KeptRows work query.limits (cells + c) (bytes + b) [] s →
          KeptRows work query.limits cells bytes [] s := fun c b s h =>
        Kept.forget h (by omega) (by omega)
      rw [decodeRequestedRows,List.flatten_cons,keptRows_comm,keptRows_append]
      refine ((decodeLogical_kept hbytes buffer).weaken (fun _ => id) (fun _ _ => id)
        (hforget _ _)).bind fun first => ?_
      rw [← keptRows_append,keptRows_comm,keptRows_append]
      refine ((ih requested).weaken (fun _ => id) (fun _ _ => id) (hforget _ _)).bind fun rest => ?_
      refine Triple.pure.weaken (fun s h => ?_) (fun _ _ => id) fun _ => id
      rwa [List.flatten_cons,keptRows_append]

/-- The unit is read right behind its dictionary charge. -/
theorem gatherOpened_kept (hbytes : query.limits.bytes < u64Max) (gathered : Gathered) :
    Triple (KeptRows work query.limits cells bytes gathered.1.flatten)
      (gatherOpened reader query opened gathered)
      (fun gathered => KeptRows work query.limits cells bytes gathered.1.flatten)
      (KeptRows work query.limits cells bytes []) := by
  rw [gatherOpened]
  split_ifs
  · refine (chargeDictionaryRead_kept.weaken (fun _ => id) (fun _ _ => id) KeptRows.forget).bind
      fun _ => ?_
    refine ((perform_kept (.readDictionary _) ⟨rfl,rfl,rfl⟩).weaken (fun _ => id) (fun _ _ => id)
      KeptRows.forget).bind fun _ => ?_
    refine (Triple.lift fun s hs => ⟨KeptRows.forget s hs,fun _ _ => hs⟩).bind fun dict => ?_
    exact (decodeRequestedRows_kept hbytes _ _).bind fun buffers => fun _ => id
  · exact fun _ => id

theorem gatherUnit_kept (hbytes : query.limits.bytes < u64Max) (gathered : Gathered)
    {unit : UnitDescriptor} (hunit : unit.eagerOpenBytes = eagerOpenBytes unit.handle) :
    Triple (KeptRows work query.limits cells bytes gathered.1.flatten)
      (gatherUnit reader files query gathered unit)
      (fun gathered => KeptRows work query.limits cells bytes gathered.1.flatten)
      (KeptRows work query.limits cells bytes []) := by
  rw [gatherUnit]
  refine (chargeUnit_kept.weaken (fun _ => id) (fun _ _ => id) KeptRows.forget).bind fun _ => ?_
  dsimp only
  by_cases hmay : unit.mayContainAnyNonemptyType (requestedTypeIds query.requested)
  · rw [if_pos hmay,hunit]
    refine (chargeCatalogRead_kept.weaken (fun _ => id) (fun _ _ => id) KeptRows.forget).bind
      fun _ => ?_
    refine ((perform_kept (.openUnit _) ⟨rfl,rfl,rfl⟩).weaken (fun _ => id) (fun _ _ => id)
      KeptRows.forget).bind fun _ => ?_
    split
    · exact (gatherOpened_kept hbytes _).weaken (fun _ h => h) (fun _ _ => id) fun _ => id
    · split_ifs
      · exact fun _ => id
      · exact KeptRows.forget
    · exact KeptRows.forget
  · rw [if_neg hmay]
    exact fun _ h => h.1

theorem eagerOpenBytes_of_mem {s : LocalDirSnapshot ω} {unit : UnitDescriptor} {fromTs toTs : Int64}
    (h : unit ∈ windowUnits s fromTs toTs) : unit.eagerOpenBytes = eagerOpenBytes unit.handle :=
  congrArg UnitDescriptor.eagerOpenBytes
    (LocalDirSnapshot.mem_unitDescriptors (List.mem_filter.mp h).1)

theorem gather_kept (hbytes : query.limits.bytes < u64Max) (s : LocalDirSnapshot ω) :
    Triple (WorkKept work) (gather reader files s query)
      (fun gathered => KeptRows work query.limits 0 0 gathered.1.flatten) (WorkKept work) := by
  rw [gather]
  refine Triple.bind (Q := fun _ => KeptRows work query.limits 0 0 []) (fun state hstate => ?_)
    fun _ => ?_
  · exact ⟨⟨hstate.1,hstate.2,hstate.3,hstate.4,hstate.5,hstate.6,hstate.7,hstate.8⟩,
      ⟨Nat.le_refl _,Nat.le_refl _,Nat.zero_le _,Nat.zero_le _⟩⟩
  · refine (Triple.foldlM (fun gathered unit hunit =>
      gatherUnit_kept hbytes gathered (eagerOpenBytes_of_mem hunit)) _).weaken (fun state h => ?_)
        (fun _ _ => id) fun _ h => h.1
    simpa using h

theorem attemptQuery_limits (refreshed : ℕ) :
    (attemptQuery query refreshed).limits = query.limits := rfl

/-- One attempt leaves the work within its limits, whatever it finds. -/
theorem attempt_kept {world : QueryWorld ω ε} (hbytes : query.limits.bytes < u64Max)
    (refreshed : ℕ) (s : LocalDirSnapshot ω) :
    Triple (WorkKept work) (gather reader (world.files refreshed) s (attemptQuery query refreshed))
      (fun gathered => KeptRows work query.limits 0 0 gathered.1.flatten) (WorkKept work) := by
  rw [← attemptQuery_limits refreshed] at hbytes ⊢
  exact gather_kept hbytes s

theorem gatherAttempts_kept {world : QueryWorld ω ε} (hbytes : query.limits.bytes < u64Max)
    (remaining refreshed : ℕ) (s : LocalDirSnapshot ω) :
    Triple (WorkKept work) (gatherAttempts reader world query remaining refreshed s)
      (fun gathered => KeptRows work query.limits 0 0 gathered.1.flatten) (WorkKept work) := by
  induction remaining generalizing refreshed s with
  | zero =>
    intro state hstate
    have hattempt : Triple (WorkKept work)
        (gather reader (world.files refreshed) s (attemptQuery query refreshed)) _ _ :=
      attempt_kept hbytes refreshed s
    have hrun := hattempt state hstate
    rw [gatherAttempts]
    rcases h : gather reader (world.files refreshed) s (attemptQuery query refreshed) state
      with ⟨error | gathered,next⟩
    · rw [h] at hrun
      cases error <;> simpa [h] using hrun
    · rw [h] at hrun
      simpa [h] using hrun
  | succ remaining ih =>
    intro state hstate
    have hattempt : Triple (WorkKept work)
        (gather reader (world.files refreshed) s (attemptQuery query refreshed)) _ _ :=
      attempt_kept hbytes refreshed s
    have hrun := hattempt state hstate
    rw [gatherAttempts]
    rcases h : gather reader (world.files refreshed) s (attemptQuery query refreshed) state
      with ⟨error | gathered,next⟩
    · rw [h] at hrun
      cases error with
      | stale =>
        cases hrefresh : world.refresh refreshed s with
        | error error => simpa [h,hrefresh] using hrun
        | ok refreshedTo => simpa [h,hrefresh] using ih (refreshed+1) refreshedTo next hrun
      | _ => simpa [h] using hrun
    · rw [h] at hrun
      simpa [h] using hrun

end Retained

/-- The rows of all pages. -/
def pagesRows (pages : OrderedMap String SectionPage) : List OutRow :=
  pages.entries.flatMap fun page => page.2.rows

section Pages

variable {f : OutRow → ℕ}

def rowsTotal (f : OutRow → ℕ) (rows : List OutRow) : ℕ := (rows.map f).sum

theorem rowsTotal_sublist {xs ys : List OutRow} (h : xs.Sublist ys) :
    rowsTotal f xs ≤ rowsTotal f ys := by
  exact (h.map f).sum_le_sum fun _ _ => Nat.zero_le _

theorem sectionPage_total (name : String) (logical : LogicalSection) (rows : List OutRow)
    (gaps : List Gap) (cursor : Option Cursor) (limit : ℕ) :
    rowsTotal f (sectionPage name logical rows gaps cursor limit).rows ≤ rowsTotal f rows := by
  have hsort : rowsTotal f (logical.sort rows) = rowsTotal f rows :=
    ((List.mergeSort_perm _ _).map f).sum_eq
  rw [← hsort]
  apply rowsTotal_sublist
  cases cursor with
  | none => exact List.take_sublist _ _
  | some cursor => exact (List.take_sublist _ _).trans (List.dropWhile_sublist _)

theorem insertEntry_total (g : SectionPage → ℕ) {name : String} {page : SectionPage}
    {entries : List (String × SectionPage)} :
    ((OrderedMap.insertEntry name page entries).map fun e => g e.2).sum ≤
      (entries.map fun e => g e.2).sum + g page := by
  induction entries with
  | nil => simp [OrderedMap.insertEntry]
  | cons e entries ih =>
    rw [OrderedMap.insertEntry]
    split_ifs
    · simp only [List.map_cons,List.sum_cons]
      omega
    · simp only [List.map_cons,List.sum_cons]
      omega
    · simp only [List.map_cons,List.sum_cons] at ih ⊢
      omega

theorem map_snd_zip_sublist {α β : Type} (xs : List α) (ys : List β) :
    ((xs.zip ys).map Prod.snd).Sublist ys := by
  induction xs generalizing ys with
  | nil => simp
  | cons x xs ih =>
    cases ys with
    | nil => simp
    | cons y ys => exact (ih ys).cons_cons y

/-- The pages hold no more than the buffers. -/
theorem finishPages_total (requested : List (String × LogicalSection)) (buffers : List (List OutRow))
    (gaps : List Gap) (cursors : OrderedMap String Cursor) (limit : ℕ) :
    rowsTotal f (pagesRows (finishPages requested buffers gaps cursors limit)) ≤
      rowsTotal f buffers.flatten := by
  have htotal : ∀ pages : OrderedMap String SectionPage, rowsTotal f (pagesRows pages) =
      (pages.entries.map fun e => rowsTotal f e.2.rows).sum := fun pages => by
    simp [rowsTotal,pagesRows,List.flatMap_def,List.map_flatten,List.sum_flatten,Function.comp_def]
  have hfold : ∀ (zipped : List ((String × LogicalSection) × List OutRow))
      (pages : OrderedMap String SectionPage),
      rowsTotal f (pagesRows (zipped.foldl (fun pages (page : (String × LogicalSection) × List OutRow) =>
        pages.insert page.1.1 (sectionPage page.1.1 page.1.2 page.2 gaps (cursors.lookup page.1.1)
          limit)) pages)) ≤
      rowsTotal f (pagesRows pages) + rowsTotal f (zipped.map Prod.snd).flatten := by
    intro zipped
    induction zipped with
    | nil => intro pages; simp
    | cons first zipped ih =>
      intro pages
      obtain ⟨⟨name,logical⟩,rows⟩ := first
      have hpage := sectionPage_total (f := f) name logical rows gaps (cursors.lookup name) limit
      have hinsert : rowsTotal f (pagesRows (pages.insert name (sectionPage name logical rows gaps
          (cursors.lookup name) limit))) ≤ rowsTotal f (pagesRows pages) + rowsTotal f rows := by
        rw [htotal,htotal]
        exact (insertEntry_total fun page => rowsTotal f page.rows).trans (Nat.add_le_add_left hpage _)
      have hrest := ih (pages.insert name (sectionPage name logical rows gaps
        (cursors.lookup name) limit))
      have hsplit : rowsTotal f (((((name,logical),rows) :: zipped).map Prod.snd).flatten) =
          rowsTotal f rows + rowsTotal f (zipped.map Prod.snd).flatten := by simp [rowsTotal]
      rw [List.foldl_cons,hsplit]
      dsimp only at hrest ⊢
      omega
  refine (hfold (requested.zip buffers) .empty).trans ?_
  have hempty : rowsTotal f (pagesRows (.empty : OrderedMap String SectionPage)) = 0 := rfl
  rw [hempty,Nat.zero_add]
  exact rowsTotal_sublist (List.Sublist.flatten (map_snd_zip_sublist requested buffers))

end Pages

section Requests

variable {ω ε : Type} {reader : QueryReader ε} {files : SnapshotFiles ε} {s : LocalDirSnapshot ω}
  {limits : QueryLimits}

/-- The retained cells and bytes of an answer. -/
def RetainedWithin (cells bytes : ℕ) (pages : OrderedMap String SectionPage) : Prop :=
  retainedCells (pagesRows pages) ≤ cells ∧ retainedBytes (pagesRows pages) ≤ bytes

theorem effective_bytes (limits : QueryLimits) : limits.effective.bytes < u64Max := by
  have hcap : limits.effective.bytes ≤ maxMaterializedBytes := Nat.min_le_right _ _
  rw [maxMaterializedBytes] at hcap
  rw [u64Max]
  omega

/-- A windowed request keeps its work and its answer within the limits. -/
theorem runSections_kept (world : QueryWorld ω ε) (fromTs toTs : Int64) (names : List String)
    (cursors : OrderedMap String Cursor) :
    let run := runSectionsWithLimits reader world s fromTs toTs names cursors limits
    WorkKept limits.work run.2 ∧ ∀ pages, run.1 = .ok pages →
      RetainedWithin limits.effective.cells limits.effective.bytes pages := by
  dsimp only
  rw [runSectionsWithLimits]
  cases resolveSections reader names with
  | error error => exact ⟨.new _,fun _ h => (by cases h)⟩
  | ok requested =>
    have hquery : (gatherQuery fromTs toTs requested limits.effective).limits.bytes < u64Max :=
      effective_bytes limits
    have hattempts : Triple (WorkKept limits.work) (gatherAttempts reader world
        (gatherQuery fromTs toTs requested limits.effective) maxRefresh 0 s) _ _ :=
      gatherAttempts_kept hquery maxRefresh 0 s
    have hrun := hattempts _ (.new limits.work)
    rcases h : gatherAttempts reader world (gatherQuery fromTs toTs requested limits.effective)
      maxRefresh 0 s (.new limits.work) with ⟨error | gathered,state⟩
    · rw [h] at hrun
      simp only [h]
      exact ⟨hrun,fun _ h => (by cases h)⟩
    · rw [h] at hrun
      obtain ⟨hwork,hholds⟩ := hrun
      simp only [h]
      refine ⟨hwork,fun pages hpages => ?_⟩
      obtain rfl := Except.ok.inj hpages
      have hcells := hholds.cells.trans hholds.cellsWithin
      have hbytes := hholds.bytes.trans hholds.bytesWithin
      rw [Nat.zero_add] at hcells hbytes
      exact ⟨(finishPages_total _ _ _ _ _).trans hcells,(finishPages_total _ _ _ _ _).trans hbytes⟩

/-- The session keeps its work, and has charged what its answers retain. -/
def SessionKept (limits : QueryLimits) (cells bytes : ℕ) (state : SessionState ε) : Prop :=
  Kept limits.work (Holds limits cells bytes) state.query

variable {cells bytes : ℕ}

theorem onQuery_kept {α : Type} {m : Request QueryState (GatherError ε) α}
    {P E : QueryState → Prop} {Q : α → QueryState → Prop} (h : Triple P m Q E) :
    Triple (fun state : SessionState ε => P state.query) (onQuery limits m)
      (fun a state => Q a state.query) fun state => E state.query :=
  (h.zoom fun _ _ => rfl).mapError

theorem openNewDescriptor_kept (descriptor : SealedDescriptor) :
    Triple (SessionKept limits cells bytes) (openNewDescriptor reader files s limits descriptor)
      (fun _ => SessionKept limits cells bytes) (SessionKept limits cells bytes) := by
  rw [openNewDescriptor]
  refine (onQuery_kept chargeUnit_kept).bind fun _ => ?_
  cases hfound : (findSealed s descriptor : Except (SealedFactError ε) _) with
  | error error =>
    rw [sealedQueryEagerOpenBytes,hfound]
    exact fun _ h => h.1
  | ok unit =>
    rw [sealedQueryEagerOpenBytes,hfound]
    simp only [Except.map,Except.mapError,lift_ok_bind]
    refine (onQuery_kept chargeCatalogRead_kept).bind fun _ => ?_
    refine (onQuery_kept (perform_kept (.openUnit _) ⟨rfl,rfl,rfl⟩)).bind fun _ => ?_
    exact (Triple.lift fun _ h => ⟨h,fun _ _ => h⟩).bind fun opened => fun _ => id

/-- Pinning a unit does not change what is charged. -/
theorem pin_kept {α : Type} (pin : SessionState ε → List (OpenedSealedQuery ε))
    (a : SessionState ε → α) :
    Triple (SessionKept limits cells bytes)
      ((fun state => (.ok (a state),{ state with opened := pin state })) :
        Request (SessionState ε) (SectionQueryError ε) α)
      (fun _ => SessionKept limits cells bytes) (SessionKept limits cells bytes) := fun _ => id

theorem openDescriptor_kept (descriptor : SealedDescriptor) :
    Triple (SessionKept limits cells bytes) (openDescriptor reader files s limits descriptor)
      (fun _ => SessionKept limits cells bytes) (SessionKept limits cells bytes) := by
  intro state hstate
  rw [openDescriptor]
  cases hpinned : state.opened.zipIdx.find? fun opened => opened.1.descriptor = descriptor with
  | some opened => exact hstate
  | none =>
    by_cases hfull : state.opened.length = maxExactQueryDescriptors
    · simpa only [if_pos hfull] using hstate
    · simp only [if_neg hfull]
      exact ((openNewDescriptor_kept descriptor).bind fun opened =>
        pin_kept (fun state => state.opened ++ [opened]) fun _ => (state.opened.length,opened))
          state hstate

theorem loadDictionary_kept (opened : ℕ × OpenedSealedQuery ε) :
    Triple (SessionKept limits cells bytes) (loadDictionary reader limits opened)
      (fun _ => SessionKept limits cells bytes) (SessionKept limits cells bytes) := by
  rw [loadDictionary]
  split
  · exact fun _ => id
  · refine (onQuery_kept chargeDictionaryRead_kept).bind fun _ => ?_
    refine (onQuery_kept (perform_kept (.readDictionary _) ⟨rfl,rfl,rfl⟩)).bind fun _ => ?_
    refine (Triple.lift fun _ h => ⟨h,fun _ _ => h⟩).bind fun dict => ?_
    exact pin_kept _ fun _ => dict

/-- What the buffers retain is charged on top of the session. -/
theorem sealedRows_kept (hlimits : limits.bytes < u64Max) (call : SealedCall)
    (requested : List (String × RegisteredSection)) :
    Triple (SessionKept limits cells bytes) (sealedRows reader files s limits call requested)
      (fun buffers => SessionKept limits (cells + retainedCells buffers.flatten)
        (bytes + retainedBytes buffers.flatten)) (SessionKept limits cells bytes) := by
  have hempty : ∀ state : SessionState ε, SessionKept limits cells bytes state →
      SessionKept limits
        (cells + retainedCells (List.replicate requested.length ([] : List OutRow)).flatten)
        (bytes + retainedBytes (List.replicate requested.length ([] : List OutRow)).flatten) state :=
    fun state hstate => by simpa [retainedCells,retainedBytes] using hstate
  rw [sealedRows]
  refine (openDescriptor_kept call.descriptor).bind fun opened => ?_
  split_ifs
  · refine (loadDictionary_kept opened).bind fun dict => ?_
    have hquery : (gatherQuery call.fromTs call.toTs requested limits).limits.bytes < u64Max := hlimits
    exact (onQuery_kept (decodeRequestedRows_kept hquery _ requested)).weaken hempty (fun _ _ => id)
      fun _ => id
  · exact fun state => hempty state

def answerRows : Except (SectionQueryError ε) (OrderedMap String SectionPage) → List OutRow
  | .ok pages => pagesRows pages
  | .error _ => []

theorem sealedSections_kept (hlimits : limits.bytes < u64Max) (call : SealedCall)
    {state : SessionState ε} (hstate : SessionKept limits cells bytes state) :
    let answered := sealedSections reader files s limits call state
    SessionKept limits (cells + retainedCells (answerRows answered.1))
      (bytes + retainedBytes (answerRows answered.1)) answered.2 := by
  have htriple : Triple (SessionKept limits cells bytes) (sealedSections reader files s limits call)
      (fun pages => SessionKept limits (cells + retainedCells (pagesRows pages))
        (bytes + retainedBytes (pagesRows pages))) (SessionKept limits cells bytes) := by
    rw [sealedSections]
    refine (Triple.lift fun _ h => ⟨h,fun _ _ => h⟩).bind fun requested => ?_
    refine (sealedRows_kept hlimits call requested).bind fun buffers => fun next hnext => ?_
    exact ⟨hnext.1,hnext.2.weaken (Nat.add_le_add_left (finishPages_total _ _ _ _ _) _)
      (Nat.add_le_add_left (finishPages_total _ _ _ _ _) _)⟩
  have hrun := htriple state hstate
  dsimp only
  rcases h : sealedSections reader files s limits call state with ⟨error | pages,next⟩
  · rw [h] at hrun
    exact hrun
  · rw [h] at hrun
    exact hrun

/-- The answers of a session together stay within the limits. -/
theorem runSession_kept (hlimits : limits.bytes < u64Max)
    (calls : List (SnapshotFiles ε × SealedCall)) {state : SessionState ε}
    (hstate : SessionKept limits cells bytes state) :
    let run := runSession reader s limits calls state
    SessionKept limits (cells + retainedCells (run.1.flatMap answerRows))
      (bytes + retainedBytes (run.1.flatMap answerRows)) run.2 := by
  induction calls generalizing cells bytes state with
  | nil => exact hstate
  | cons call calls ih =>
    obtain ⟨files,call⟩ := call
    have hcall : SessionKept limits _ _ (sealedSections reader files s limits call state).2 :=
      sealedSections_kept hlimits call hstate
    have hrest := ih hcall
    rw [runSession]
    simp only [List.flatMap_cons,retainedCells_append,retainedBytes_append]
    rwa [← Nat.add_assoc,← Nat.add_assoc]

theorem SessionKept.new (limits : QueryLimits) :
    SessionKept limits 0 0 (.new limits : SessionState ε) :=
  ⟨.new _,⟨Nat.le_refl _,Nat.le_refl _,Nat.zero_le _,Nat.zero_le _⟩⟩

/-- A session keeps its work and all of its answers within the limits. -/
theorem sealedQuerySession_kept (calls : List (SnapshotFiles ε × SealedCall)) :
    let run := sealedQuerySession reader s limits calls
    WorkKept limits.work run.2.query ∧
      retainedCells (run.1.flatMap answerRows) ≤ limits.effective.cells ∧
      retainedBytes (run.1.flatMap answerRows) ≤ limits.effective.bytes := by
  have hrun : SessionKept limits.effective _ _
      (runSession reader s limits.effective calls (.new limits.effective)).2 :=
    runSession_kept (effective_bytes limits) calls (.new limits.effective)
  rw [Nat.zero_add,Nat.zero_add] at hrun
  exact ⟨hrun.1,hrun.2.cells.trans hrun.2.cellsWithin,hrun.2.bytes.trans hrun.2.bytesWithin⟩

end Requests

end PgKronika
