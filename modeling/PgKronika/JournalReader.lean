import PgKronika.JournalRuns

/-! The reader's scan of `active.parts`: the plan that the header and a committed reset
marker admit, the strict frame scan behind it, and the budget of the retained metadata.
The file does not change during one scan. -/
namespace PgKronika

open ByteCodec CheckedArith StateLogic

def maxMetadataBytes : ℕ := 128*1024*1024

-- Sizes of the accounted structures on a 64-bit target.
def entrySize : ℕ := 32
def partRefSize : ℕ := 16
def damageRegionSize : ℕ := 24
def activePartSize : ℕ := 104
def activeArcAllocationBytes : ℕ := 40

inductive JournalReadError
  | io (error : IoError)
  /-- The journal shrank or vanished during the scan. -/
  | interrupted
  | journalTooLong (len : ℕ)
  | tornHeader (len : ℕ)
  | header (error : JournalHeaderError)
  | bodyLengthMismatch (recorded actual : ℕ)
  | emptyWithFrames
  | activeWithoutFirstFrame
  | layout (error : LayoutError)
  | partLimit (limit : ℕ)
  | damagedFrames
  | partTooLong (offset : ℕ)
  | partTooShort (offset : ℕ)
  | invalidTail (offset : ℕ) (error : DecodeError)
  | invalidCatalogLength (offset : ℕ)
  | catalog (offset : ℕ) (error : PartError)
  | metadataSizeOverflow
  | metadataLimit (limit : ℕ)
  deriving DecidableEq

/-- A refusal by the accounting of retained metadata. -/
def JournalReadError.isMetadata : JournalReadError → Bool
  | .metadataSizeOverflow => true
  | .metadataLimit _ => true
  | _ => false

structure JournalReadPlan where
  segmentId : Option SegmentId
  /-- Prefix containing the old frames that must validate. -/
  scanLen : UInt64
  /-- Complete physical state proven valid by this plan. -/
  validLen : ℕ
  committedReset : Bool
  deriving DecidableEq

/-- The plan of a file that ends in a marker for the bytes in front of it. -/
def committedResetPlan (file : Bytes) (headerBytes : Bytes) : Option JournalReadPlan :=
  match checkedSub file.length resetMarkerLen with
  | none => none
  | some markerAt =>
    if markerAt ≤ journalHeaderLen then none
    else
      match ResetMarker.decode (slice file markerAt resetMarkerLen) with
      | none => none
      | some marker =>
        if marker.previousLen.toNat ≠ markerAt ∨ marker.expectedPreviousHeader.isNone ∨
            (marker.classifyHeaderTransition headerBytes).isNone then none
        else
          match SegmentId.new marker.previousSegmentId with
          | .error _ => none
          | .ok segmentId => some ⟨some segmentId,marker.previousLen,file.length,true⟩

def readJournalPlan (file : Bytes) : Except JournalReadError JournalReadPlan :=
  if maxJournalLen < file.length then .error (.journalTooLong file.length)
  else if file.length = 0 then
    -- A crash before the first header write: the file provably holds no frames.
    .ok ⟨none,0,0,false⟩
  else if file.length < journalHeaderLen then .error (.tornHeader file.length)
  else
    match committedResetPlan file (slice file 0 journalHeaderLen) with
    | some plan => .ok plan
    | none =>
      match JournalHeader.decode (slice file 0 journalHeaderLen) with
      | .error e => .error (.header e)
      | .ok header =>
        let actual := file.length - journalHeaderLen
        if header.bodyLen.toNat ≠ actual then
          .error (.bodyLengthMismatch header.bodyLen.toNat actual)
        else
          match header.state with
          | .empty =>
            if actual = 0 then .ok ⟨none,UInt64.ofNat file.length,file.length,false⟩
            else .error .emptyWithFrames
          | .active segmentId =>
            if actual = 0 then .error .activeWithoutFirstFrame
            else
              match SegmentId.new segmentId with
              | .error e => .error (.layout e)
              | .ok segmentId =>
                .ok ⟨some segmentId,UInt64.ofNat file.length,file.length,false⟩

def scanJournalFrames (reader : PrefixReader) (startAt : UInt64)
    (remainingParts totalPartLimit : ℕ) : Except JournalReadError ScanReport :=
  match scanJournalStreamingStrictFrom startAt JournalConfig.default.limits remainingParts
      reader with
  | .ok (report,_) => .ok report
  | .error (.io error) =>
    if error.kind = .unexpectedEof then .error .interrupted else .error (.io error)
  | .error (.partLimitExceeded _) => .error (.partLimit totalPartLimit)

/-- Capacities that an allocator gives to a growing vector of `n` items, to one that
collects `n` items, and to one that reserves room for exactly `n`. -/
structure VecGrowth where
  pushed : ℕ → ℕ
  collected : ℕ → ℕ
  reserved : ℕ → ℕ
  le_pushed : ∀ n, n ≤ pushed n
  le_collected : ∀ n, n ≤ collected n
  le_reserved : ∀ n, n ≤ reserved n

/-- One validated part of the journal. -/
structure ActivePart where
  segmentId : SegmentId
  part : PartRef
  catalog : Catalog
  deriving DecidableEq

structure ActiveVec where
  parts : List ActivePart
  capacity : ℕ
  fits : parts.length ≤ capacity
  deriving DecidableEq

def ActiveVec.new : ActiveVec := ⟨[],0,le_refl _⟩

/-- The exclusive copy of a vector; one that others hold is cloned. -/
def ActiveVec.makeMut (v : ActiveVec) (growth : VecGrowth) (shared : Bool) : ActiveVec :=
  if shared then ⟨v.parts,growth.collected v.parts.length,growth.le_collected _⟩ else v

def ActiveVec.reserveExact (v : ActiveVec) (growth : VecGrowth) (additional : ℕ) : ActiveVec :=
  if v.parts.length+additional ≤ v.capacity then v
  else ⟨v.parts,growth.reserved (v.parts.length+additional),
    le_trans (Nat.le_add_right _ _) (growth.le_reserved _)⟩

def ActiveVec.push (v : ActiveVec) (growth : VecGrowth) (part : ActivePart) : ActiveVec :=
  if h : v.parts.length+1 ≤ v.capacity then
    ⟨v.parts ++ [part],v.capacity,by rwa [List.length_append,List.length_singleton]⟩
  else ⟨v.parts ++ [part],growth.pushed (v.parts.length+1),by
    rw [List.length_append,List.length_singleton]
    exact growth.le_pushed _⟩

def orSizeOverflow {α : Type} : Option α → Except JournalReadError α
  | none => .error .metadataSizeOverflow
  | some a => .ok a

def orMetadataLimit {α : Type} (limit : ℕ) : Option α → Except JournalReadError α
  | none => .error (.metadataLimit limit)
  | some a => .ok a

/-- The sum of the amounts held at once, within the limit. -/
def peakWithin (limit : ℕ) (amounts : List ℕ) : Bool :=
  (checkedSum 0 amounts).any fun peak => peak ≤ limit

def admitPeak (limit : ℕ) (amounts : List ℕ) : Except JournalReadError Unit :=
  if peakWithin limit amounts then .ok () else .error (.metadataLimit limit)

/-- Catalog entries of retained parts, added to a running total. -/
def entriesBytes (growth : VecGrowth) : ℕ → List ActivePart → Option ℕ
  | total, [] => some total
  | total, part::rest =>
    (checkedMul (growth.collected part.catalog.entries.length) entrySize).bind fun entries =>
      (checkedAdd total entries).bind fun next => entriesBytes growth next rest

def activeMetadataBytes (growth : VecGrowth) (v : ActiveVec) : Except JournalReadError ℕ :=
  orSizeOverflow ((checkedMul v.capacity activePartSize).bind fun bytes =>
    (checkedAdd bytes activeArcAllocationBytes).bind fun structBytes =>
      entriesBytes growth structBytes v.parts)

def scanReportMetadataBytes (growth : VecGrowth) (report : ScanReport) :
    Except JournalReadError ℕ :=
  orSizeOverflow ((checkedMul (growth.pushed report.parts.length) partRefSize).bind fun parts =>
    (checkedMul (growth.pushed report.damages.length) damageRegionSize).bind fun damages =>
      checkedAdd parts damages)

/-- Room for the parts of one report, every allocation admitted before it is made. -/
def reserveActiveSlots (growth : VecGrowth) (active : ActiveVec) (shared : Bool)
    (additional retained report previous limit : ℕ) : Except JournalReadError ActiveVec :=
  orSizeOverflow (checkedAdd active.parts.length additional) >>= fun finalLen =>
  (if additional ≠ 0 then admitPeak limit [previous,retained,report] else .ok ()) >>= fun () =>
  let active := if additional ≠ 0 then active.makeMut growth shared else active
  (if active.capacity < finalLen then
    orSizeOverflow (checkedMul finalLen activePartSize) >>= fun replacement =>
    admitPeak limit [previous,retained,report,replacement] >>= fun () =>
    .ok (active.reserveExact growth additional)
  else .ok active) >>= fun active =>
  activeMetadataBytes growth active >>= fun retainedAfter =>
  admitPeak limit [previous,retainedAfter,report] >>= fun () =>
  .ok active

def readBody (body : Bytes) (offset len : ℕ) : Except JournalReadError Bytes :=
  if body.length < offset+len then .error .interrupted else .ok (slice body offset len)

/-- The allocation that decoding a part's catalog will take, from its tail index. -/
def activePartCatalogMetadataBytes (body : Bytes) (part : PartRef) :
    Except JournalReadError ℕ :=
  if part.len < minPartLen then .error (.partTooShort part.offset)
  else
    orSizeOverflow (checkedAdd part.offset (part.len - tailIndexLen)) >>= fun tailOffset =>
    readBody body tailOffset tailIndexLen >>= fun tailBytes =>
    match TailIndex.decode tailBytes with
    | .error e => .error (.invalidTail part.offset e)
    | .ok tail =>
      match checkedSub tail.catalogLen.toNat metaLen with
      | none => .error (.invalidCatalogLength part.offset)
      | some entriesBytes =>
        if entriesBytes % entryLen ≠ 0 ∨
            (checkedAdd tail.catalogLen.toNat (tailIndexLen+magic.length)).all
              (fun minimum => part.len < minimum) then
          .error (.invalidCatalogLength part.offset)
        else orSizeOverflow (checkedMul (entriesBytes/entryLen) entrySize)

/-- The amounts a scan holds besides the parts it returns. -/
structure ScanBudget where
  growth : VecGrowth
  limit : ℕ
  previous : ℕ
  report : ℕ

/-- Validate one reported part; `none` for the identity keeps nothing of it. -/
def admitPart (budget : ScanBudget) (body : Bytes) (segmentId : Option SegmentId)
    (state : ActiveVec × ℕ) (part : PartRef) : Except JournalReadError (ActiveVec × ℕ) :=
  if maxPartLen.toNat < part.len then .error (.partTooLong part.offset)
  else
    activePartCatalogMetadataBytes body part >>= fun partMetadata =>
    orMetadataLimit budget.limit (checkedSum 0 [budget.previous,state.2,budget.report]) >>=
      fun retained =>
    admitPeak budget.limit [retained,partMetadata,part.len] >>= fun () =>
    readBody body part.offset part.len >>= fun bytes =>
    match decodeAndBound bytes with
    | .error e => .error (.catalog part.offset e)
    | .ok catalog =>
      match segmentId with
      | none => .ok state
      | some segmentId =>
        let active := state.1.push budget.growth ⟨segmentId,part,catalog⟩
        activeMetadataBytes budget.growth active >>= fun activeMetadata =>
        admitPeak budget.limit [budget.previous,activeMetadata,budget.report] >>= fun () =>
        .ok (active,activeMetadata)

def admitParts (budget : ScanBudget) (body : Bytes) (segmentId : Option SegmentId) :
    ActiveVec × ℕ → List PartRef → Except JournalReadError (ActiveVec × ℕ)
  | state, [] => .ok state
  | state, part::rest =>
    admitPart budget body segmentId state part >>= fun state =>
    admitParts budget body segmentId state rest

/-- A complete, internally consistent scan of `active.parts`. -/
structure JournalScan where
  active : ActiveVec
  damages : List DamageRegion
  validLen : ℕ
  committedReset : Bool
  metadataBytes : ℕ
  deriving DecidableEq

/-- Keep the reported parts behind the retained ones. `shared` says that the caller
holds the retained vector as well. -/
def retainReport (growth : VecGrowth) (limit : ℕ) (file : Bytes) (plan : JournalReadPlan)
    (segmentId : SegmentId) (active : ActiveVec) (shared : Bool) (report : ScanReport) :
    Except JournalReadError JournalScan :=
  activeMetadataBytes growth active >>= fun activeMetadata =>
  scanReportMetadataBytes growth report >>= fun reportMetadata =>
  admitPeak limit [activeMetadata,reportMetadata] >>= fun () =>
  if ¬ report.damages.isEmpty ∨ report.validLen ≠ plan.scanLen.toNat then .error .damagedFrames
  else
    let previous :=
      if ¬ plan.committedReset ∧ ¬ report.parts.isEmpty ∧ shared then activeMetadata else 0
    (if plan.committedReset then .ok (active,activeMetadata)
    else
      reserveActiveSlots growth active shared report.parts.length activeMetadata reportMetadata
        previous limit >>= fun active =>
      activeMetadataBytes growth active >>= fun activeMetadata =>
      .ok (active,activeMetadata)) >>= fun state =>
    admitParts ⟨growth,limit,previous,reportMetadata⟩ (file.take plan.scanLen.toNat)
      (if plan.committedReset then none else some segmentId) state report.parts >>= fun state =>
    orMetadataLimit limit (checkedAdd previous state.2) >>= fun metadataBytes =>
    .ok ⟨state.1,[],plan.validLen,plan.committedReset,metadataBytes⟩

def scanJournalReaderBoundedFrom (growth : VecGrowth) (limit : ℕ) (file : Bytes)
    (startAt : UInt64) (previous : ActiveVec) (shared : Bool) (maxParts : ℕ) :
    Except JournalReadError JournalScan :=
  readJournalPlan file >>= fun plan =>
  match plan.segmentId with
  | none =>
    if limit < activeArcAllocationBytes then .error (.metadataLimit limit)
    else .ok ⟨.new,[],plan.validLen,false,activeArcAllocationBytes⟩
  | some segmentId =>
    let previousMatches := previous.parts.head?.all fun part => part.segmentId = segmentId
    let canResume := !plan.committedReset && previousMatches &&
      decide (journalHeaderLen ≤ startAt.toNat) && decide (startAt ≤ plan.scanLen)
    let startAt := if canResume then startAt else UInt64.ofNat journalHeaderLen
    let active := if canResume then previous else .new
    match checkedSub maxParts active.parts.length with
    | none => .error (.partLimit maxParts)
    | some remainingParts =>
      scanJournalFrames ⟨file,plan.scanLen⟩ startAt remainingParts maxParts >>= fun report =>
      retainReport growth limit file plan segmentId active (canResume && shared) report

/-- A full scan under the default limits. -/
def scanJournalReader (growth : VecGrowth) (file : Bytes) : Except JournalReadError JournalScan :=
  scanJournalReaderBoundedFrom growth maxMetadataBytes file (UInt64.ofNat journalHeaderLen) .new
    false maxJournalParts

theorem admitPeak_ok {limit : ℕ} {amounts : List ℕ} {u : Unit}
    (h : admitPeak limit amounts = .ok u) : amounts.sum ≤ limit := by
  unfold admitPeak peakWithin at h
  split_ifs at h with hpeak
  obtain ⟨peak,hsum,hle⟩ := (Option.any_eq_true _ _).mp hpeak
  have htotal := checkedSum_eq_some hsum
  have hle := of_decide_eq_true hle
  omega

/-- A computation that fails only by the accounting of metadata. -/
def OnlyMetadata {α : Type} (x : Except JournalReadError α) : Prop :=
  ∀ e, x = .error e → e.isMetadata = true

section OnlyMetadata

variable {α β : Type} {x : Except JournalReadError α} {growth : VecGrowth}

theorem OnlyMetadata.ok (a : α) : OnlyMetadata (.ok a) := by
  rintro e ⟨⟩

theorem OnlyMetadata.bind {f : α → Except JournalReadError β} (hx : OnlyMetadata x)
    (hf : ∀ a, x = .ok a → OnlyMetadata (f a)) : OnlyMetadata (x >>= f) := by
  cases x with
  | error e =>
    rintro e' ⟨⟩
    exact hx e rfl
  | ok a => exact hf a rfl

theorem OnlyMetadata.ite {p : Prop} [Decidable p] {y : Except JournalReadError α}
    (hx : p → OnlyMetadata x) (hy : ¬ p → OnlyMetadata y) : OnlyMetadata (if p then x else y) := by
  split_ifs with h
  · exact hx h
  · exact hy h

theorem orSizeOverflow_only (o : Option α) : OnlyMetadata (orSizeOverflow o) := by
  cases o <;> rintro e ⟨⟩
  rfl

theorem orMetadataLimit_only (limit : ℕ) (o : Option α) :
    OnlyMetadata (orMetadataLimit limit o) := by
  cases o <;> rintro e ⟨⟩
  rfl

theorem admitPeak_only (limit : ℕ) (amounts : List ℕ) : OnlyMetadata (admitPeak limit amounts) :=
  .ite (fun _ => .ok _) fun _ => by rintro e ⟨⟩; rfl

theorem activeMetadataBytes_only (v : ActiveVec) : OnlyMetadata (activeMetadataBytes growth v) :=
  orSizeOverflow_only _

theorem reserveActiveSlots_only (active : ActiveVec) (shared : Bool)
    (additional retained report previous limit : ℕ) :
    OnlyMetadata (reserveActiveSlots growth active shared additional retained report previous
      limit) := by
  refine (orSizeOverflow_only _).bind fun finalLen _ => ?_
  refine OnlyMetadata.bind (.ite (fun _ => admitPeak_only _ _) fun _ => .ok _) fun _ _ => ?_
  refine OnlyMetadata.bind (.ite (fun _ => ?_) fun _ => .ok _) fun _ _ => ?_
  · refine (orSizeOverflow_only _).bind fun replacement _ => ?_
    exact (admitPeak_only _ _).bind fun _ _ => .ok _
  · refine (activeMetadataBytes_only _).bind fun retainedAfter _ => ?_
    exact (admitPeak_only _ _).bind fun _ _ => .ok _

theorem readBody_of_fits {body : Bytes} {offset len : ℕ} (h : offset+len ≤ body.length) :
    readBody body offset len = .ok (slice body offset len) := if_neg (by omega)

/-- A bounded part passes every check of its tail index. -/
theorem activePartCatalogMetadataBytes_only {body : Bytes} {part : PartRef}
    (hfit : part.offset+part.len ≤ body.length) {c : Catalog}
    (hc : decodeAndBound (slice body part.offset part.len) = .ok c) :
    OnlyMetadata (activePartCatalogMetadataBytes body part) := by
  have hlen := slice_length_of_le hfit
  have hmin := (decodeAndBound_ok hc).1
  have hml : minPartLen = magic.length + metaLen + tailIndexLen := rfl
  rw [hlen] at hmin
  obtain ⟨tail,htail,hcatalog,htotal⟩ := decodeAndBound_tail hc
  rw [hlen] at htail htotal
  rw [slice_slice (by omega)] at htail
  unfold activePartCatalogMetadataBytes
  rw [if_neg (by omega)]
  refine (orSizeOverflow_only _).bind fun tailOffset hoffset => ?_
  have hoffset : part.offset + (part.len - tailIndexLen) = tailOffset := by
    unfold orSizeOverflow at hoffset
    split at hoffset
    · cases hoffset
    · rename_i sum hsum
      cases hoffset
      exact (checkedAdd_eq_some.mp hsum).1
  rw [← hoffset,readBody_of_fits (by omega)]
  change OnlyMetadata (match TailIndex.decode (slice body (part.offset+(part.len-tailIndexLen))
    tailIndexLen) with | .error e => _ | .ok tail => _)
  rw [htail]
  dsimp only
  rw [hcatalog,checkedSub_of_le (by omega),Nat.add_sub_cancel]
  dsimp only
  rw [if_neg ?_]
  · exact orSizeOverflow_only _
  · rw [Nat.mul_mod_left]
    intro hbad
    rcases hbad with hbad | hbad
    · exact hbad rfl
    · have hlt := tail.catalogLen.toNat_lt
      have hcap : tailIndexLen + magic.length = 12 := rfl
      rw [checkedAdd_of_le (by rw [u64Max]; omega)] at hbad
      have hshort := of_decide_eq_true hbad
      omega

/-- A valid part is refused only for the metadata it takes. -/
theorem admitPart_only {budget : ScanBudget} {body : Bytes} {part : PartRef}
    (hfit : part.offset+part.len ≤ body.length) (hlen : part.len ≤ maxPartLen.toNat) {c : Catalog}
    (hc : decodeAndBound (slice body part.offset part.len) = .ok c)
    (segmentId : Option SegmentId) (state : ActiveVec × ℕ) :
    OnlyMetadata (admitPart budget body segmentId state part) := by
  unfold admitPart
  rw [if_neg (not_lt.mpr hlen)]
  refine (activePartCatalogMetadataBytes_only hfit hc).bind fun _ _ => ?_
  refine (orMetadataLimit_only _ _).bind fun _ _ => ?_
  refine (admitPeak_only _ _).bind fun _ _ => ?_
  rw [readBody_of_fits hfit]
  change OnlyMetadata (match decodeAndBound (slice body part.offset part.len) with
    | .error e => _ | .ok catalog => _)
  rw [hc]
  cases segmentId with
  | none => exact .ok _
  | some segmentId =>
    refine (activeMetadataBytes_only _).bind fun _ _ => ?_
    exact (admitPeak_only _ _).bind fun _ _ => .ok _

theorem admitParts_only {budget : ScanBudget} {body : Bytes} {parts : List PartRef}
    (hparts : ∀ p ∈ parts, p.offset+p.len ≤ body.length ∧ p.len ≤ maxPartLen.toNat ∧
      ValidPart (slice body p.offset p.len))
    (segmentId : Option SegmentId) (state : ActiveVec × ℕ) :
    OnlyMetadata (admitParts budget body segmentId state parts) := by
  induction parts generalizing state with
  | nil => exact .ok _
  | cons part rest ih =>
    obtain ⟨hfit,hlen,c,hv⟩ := hparts part (by simp)
    refine (admitPart_only hfit hlen (validatePart_ok hv).1 segmentId state).bind fun _ _ => ?_
    exact ih (fun p hp => hparts p (List.mem_cons_of_mem _ hp)) _

end OnlyMetadata

section Retained

variable {budget : ScanBudget} {body : Bytes} {segmentId : SegmentId}

/-- A retained vector whose accounted size is known and admitted. -/
def Accounted (growth : VecGrowth) (limit : ℕ) (state : ActiveVec × ℕ) : Prop :=
  activeMetadataBytes growth state.1 = .ok state.2 ∧ state.2 ≤ limit

theorem entriesBytes_ge {growth : VecGrowth} {parts : List ActivePart} {total result : ℕ}
    (h : entriesBytes growth total parts = some result) :
    total + (parts.map fun p => p.catalog.entries.length*entrySize).sum ≤ result := by
  induction parts generalizing total with
  | nil => exact le_of_eq (Option.some.inj h)
  | cons part rest ih =>
    obtain ⟨entries,hentries,h⟩ := Option.bind_eq_some_iff.mp h
    obtain ⟨next,hnext,h⟩ := Option.bind_eq_some_iff.mp h
    obtain ⟨rfl,_⟩ := checkedMul_eq_some.mp hentries
    obtain ⟨rfl,_⟩ := checkedAdd_eq_some.mp hnext
    have hmul := Nat.mul_le_mul_right entrySize (growth.le_collected part.catalog.entries.length)
    have hrest := ih h
    rw [List.map_cons,List.sum_cons]
    omega

/-- The accounted size covers every retained part and every entry of its catalog. -/
theorem Accounted.ge {growth : VecGrowth} {limit : ℕ} {state : ActiveVec × ℕ}
    (h : Accounted growth limit state) : state.1.parts.length*activePartSize +
      (state.1.parts.map fun p => p.catalog.entries.length*entrySize).sum ≤ limit := by
  obtain ⟨hbytes,hle⟩ := h
  unfold activeMetadataBytes orSizeOverflow at hbytes
  split at hbytes
  · cases hbytes
  · rename_i bytes hsome
    obtain ⟨capacity,hcapacity,hsome⟩ := Option.bind_eq_some_iff.mp hsome
    obtain ⟨structBytes,hstruct,hsome⟩ := Option.bind_eq_some_iff.mp hsome
    obtain ⟨rfl,_⟩ := checkedMul_eq_some.mp hcapacity
    obtain ⟨rfl,_⟩ := checkedAdd_eq_some.mp hstruct
    have hentries := entriesBytes_ge hsome
    have hmul := Nat.mul_le_mul_right activePartSize state.1.fits
    cases hbytes
    omega

theorem ActiveVec.push_parts (v : ActiveVec) (growth : VecGrowth) (part : ActivePart) :
    (v.push growth part).parts = v.parts ++ [part] := by
  unfold push
  split_ifs <;> rfl

/-- Admitting a part appends it, under the identity of the plan. -/
theorem admitPart_ok {state next : ActiveVec × ℕ} {part : PartRef}
    (h : admitPart budget body (some segmentId) state part = .ok next) :
    (∃ catalog, decodeAndBound (slice body part.offset part.len) = .ok catalog ∧
      next.1.parts = state.1.parts ++ [⟨segmentId,part,catalog⟩]) ∧
      Accounted budget.growth budget.limit next := by
  unfold admitPart at h
  split_ifs at h with hlen
  obtain ⟨_,_,h⟩ := bind_ok h
  obtain ⟨_,_,h⟩ := bind_ok h
  obtain ⟨_,_,h⟩ := bind_ok h
  obtain ⟨bytes,hbytes,h⟩ := bind_ok h
  unfold readBody at hbytes
  split_ifs at hbytes with hfit
  cases hbytes
  split at h
  · cases h
  · rename_i catalog hc
    dsimp only at h
    obtain ⟨bytes,hactive,h⟩ := bind_ok h
    obtain ⟨_,hpeak,h⟩ := bind_ok h
    cases h
    have hsum := admitPeak_ok hpeak
    simp only [List.sum_cons,List.sum_nil] at hsum
    exact ⟨⟨catalog,hc,ActiveVec.push_parts _ _ _⟩,hactive,by dsimp only; omega⟩

/-- The parts that a scan keeps of a list of references. -/
def Keeps (body : Bytes) (segmentId : SegmentId) (p : PartRef) (part : ActivePart) : Prop :=
  part.segmentId = segmentId ∧ part.part = p ∧
    decodeAndBound (slice body p.offset p.len) = .ok part.catalog

theorem admitParts_ok {state next : ActiveVec × ℕ} {parts : List PartRef}
    (h : admitParts budget body (some segmentId) state parts = .ok next)
    (hstate : Accounted budget.growth budget.limit state) :
    (∃ more, next.1.parts = state.1.parts ++ more ∧
      List.Forall₂ (Keeps body segmentId) parts more) ∧
      Accounted budget.growth budget.limit next := by
  induction parts generalizing state with
  | nil =>
    cases h
    exact ⟨⟨[],by simp,.nil⟩,hstate⟩
  | cons part rest ih =>
    obtain ⟨mid,hmid,h⟩ := bind_ok h
    obtain ⟨⟨catalog,hc,hparts⟩,haccounted⟩ := admitPart_ok hmid
    obtain ⟨⟨more,hnext,hkeeps⟩,hfinal⟩ := ih h haccounted
    refine ⟨⟨⟨segmentId,part,catalog⟩::more,?_,.cons ⟨rfl,rfl,hc⟩ hkeeps⟩,hfinal⟩
    rw [hnext,hparts,List.append_assoc]
    rfl

theorem admitParts_none {state next : ActiveVec × ℕ} {parts : List PartRef}
    (h : admitParts budget body none state parts = .ok next) : next = state := by
  induction parts generalizing state with
  | nil => exact (Except.ok.inj h).symm
  | cons part rest ih =>
    obtain ⟨mid,hmid,h⟩ := bind_ok h
    have hsame : mid = state := by
      unfold admitPart at hmid
      split_ifs at hmid with hlen
      obtain ⟨_,_,hmid⟩ := bind_ok hmid
      obtain ⟨_,_,hmid⟩ := bind_ok hmid
      obtain ⟨_,_,hmid⟩ := bind_ok hmid
      obtain ⟨_,_,hmid⟩ := bind_ok hmid
      split at hmid
      · cases hmid
      · exact (Except.ok.inj hmid).symm
    rw [ih h,hsame]

theorem reserveActiveSlots_ok {growth : VecGrowth} {active next : ActiveVec} {shared : Bool}
    {additional retained report previous limit : ℕ}
    (h : reserveActiveSlots growth active shared additional retained report previous limit =
      .ok next) : next.parts = active.parts ∧
        ∃ bytes, activeMetadataBytes growth next = .ok bytes ∧ bytes ≤ limit := by
  unfold reserveActiveSlots at h
  obtain ⟨finalLen,_,h⟩ := bind_ok h
  obtain ⟨_,_,h⟩ := bind_ok h
  obtain ⟨reserved,hreserved,h⟩ := bind_ok h
  obtain ⟨bytes,hbytes,h⟩ := bind_ok h
  obtain ⟨_,hpeak,h⟩ := bind_ok h
  cases h
  have hsum := admitPeak_ok hpeak
  simp only [List.sum_cons,List.sum_nil] at hsum
  have hmut : ∀ v : ActiveVec, (v.makeMut growth shared).parts = v.parts := by
    intro v
    unfold ActiveVec.makeMut
    split_ifs <;> rfl
  have hexact : ∀ v : ActiveVec, (v.reserveExact growth additional).parts = v.parts := by
    intro v
    unfold ActiveVec.reserveExact
    split_ifs <;> rfl
  refine ⟨?_,bytes,hbytes,by omega⟩
  split_ifs at hreserved with hadd hroom hroom
  · obtain ⟨_,_,hreserved⟩ := bind_ok hreserved
    obtain ⟨_,_,hreserved⟩ := bind_ok hreserved
    cases hreserved
    rw [hexact,hmut]
  · cases hreserved
    exact hmut _
  · obtain ⟨_,_,hreserved⟩ := bind_ok hreserved
    obtain ⟨_,_,hreserved⟩ := bind_ok hreserved
    cases hreserved
    exact hexact _
  · cases hreserved
    rfl

end Retained

end PgKronika
