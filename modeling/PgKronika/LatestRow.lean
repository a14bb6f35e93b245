import PgKronika.SnapshotUnits

/-! The latest row of a logical section. Units are opened by decreasing maximal time, and the scan
stops when all others are older than the best row. -/
namespace PgKronika

open CheckedArith

/-- A row with its time. -/
abbrev TimedRow := Int64 × OutRow

inductive LatestError (ε : Type)
  | stale (unitIdx : ℕ)
  | read (error : ReadError ε)

def LatestError.ofRead {ε : Type} : ReadError ε → LatestError ε
  | .staleSnapshot unitIdx => .stale unitIdx
  | error => .read error

/-- Later units first, live ones before sealed ones. -/
def candidateOrder (left right : UnitDescriptor) : Ordering :=
  ((compare right.unitMeta.maxTs left.unitMeta.maxTs).then
    (compare right.unitMeta.live left.unitMeta.live)).then (compare right.index left.index)

def latestCandidates {ω : Type} (s : LocalDirSnapshot ω) (typeIds : List UInt32) :
    List UnitDescriptor :=
  (s.unitDescriptors.filter fun unit => unit.mayContainAnyNonemptyType typeIds).mergeSort
    fun left right => (candidateOrder left right).isLE

section Scan

variable {ω ε : Type} (reader : QueryReader ε) (files : SnapshotFiles ε)
  (logical : RegisteredSection)

/-- The output of a row, when it has a time. -/
def timedRow (dict : UnitDictionary) (row : Row) : Option TimedRow :=
  row.ts.map fun t => (t,row.output logical.columns dict)

/-- Whether a row replaces the best one. -/
def replacesBest (row best : TimedRow) : Prop :=
  best.1 < row.1 ∨ row.1 = best.1 ∧ logical.compare row.2 best.2 = .gt

instance (row best : TimedRow) : Decidable (replacesBest logical row best) :=
  inferInstanceAs (Decidable (_ ∨ _))

def betterRow (best : Option TimedRow) (row : TimedRow) : Option TimedRow :=
  match best with
  | none => some row
  | some b => if replacesBest logical row b then some row else some b

def considerRow (dict : UnitDictionary) (best : Option TimedRow) (row : Row) : Option TimedRow :=
  match timedRow logical dict row with
  | none => best
  | some timed => betterRow logical best timed

def scanSection (opened : QueryUnit ε) (dict : UnitDictionary) (best : Option TimedRow)
    (entry : Entry) : Except (ReadError ε) (Option TimedRow) :=
  if entry.rows ≠ 0 ∧ entry.typeId ∈ logical.typeIds then
    decodeRows reader opened entry >>= fun rows =>
    .ok (rows.foldl (considerRow logical dict) best)
  else .ok best

def scanUnit (opened : QueryUnit ε) (best : Option TimedRow) :
    Except (ReadError ε) (Option TimedRow) :=
  if ¬hasNonemptyType opened.catalog logical.typeIds then .ok best
  else
    unitDictionary reader opened >>= fun dict =>
    opened.catalog.entries.foldlM (scanSection reader logical opened dict) best

def scanCandidates : Option TimedRow → List UnitDescriptor →
    Except (LatestError ε) (Option TimedRow)
  | best,[] => .ok best
  | best,unit::candidates =>
    if best.any fun b => unit.unitMeta.maxTs < b.1 then .ok best
    else
      match openUnitHandle reader files unit.index unit.handle with
      | .error error => .error (.ofRead error)
      | .ok opened =>
        match scanUnit reader logical opened best with
        | .error error => .error (.read error)
        | .ok best => scanCandidates best candidates

def latestOnce (s : LocalDirSnapshot ω) : Except (LatestError ε) (Option OutRow) :=
  (scanCandidates reader files logical none (latestCandidates s logical.typeIds)).map
    (Option.map Prod.snd)

/-- The files during each attempt, and what a refresh after it finds. -/
structure QueryWorld (ω ε : Type) where
  files : ℕ → SnapshotFiles ε
  refresh : ℕ → LocalDirSnapshot ω → Except ε (LocalDirSnapshot ω)

def maxRefresh : ℕ := 2

/-- Attempts until one of them is not stale, with the snapshot that the last one has read. -/
def latestAttempts (world : QueryWorld ω ε) : ℕ → ℕ → LocalDirSnapshot ω →
    Except (SectionQueryError ε) (Option OutRow) × LocalDirSnapshot ω
  | remaining,refreshed,s =>
    match latestOnce reader (world.files refreshed) logical s with
    | .ok row => (.ok row,s)
    | .error (.read error) => (.error (.read error),s)
    | .error (.stale unitIdx) =>
      match remaining with
      | 0 => (.error (.read (.staleSnapshot unitIdx)),s)
      | remaining+1 =>
        match world.refresh refreshed s with
        | .error error => (.error (.read (.io error)),s)
        | .ok next => latestAttempts world remaining (refreshed+1) next

def latestSectionRow (world : QueryWorld ω ε) (s : LocalDirSnapshot ω) (name : String) :
    Except (SectionQueryError ε) (Option OutRow) × LocalDirSnapshot ω :=
  match logicalSection reader.registry name with
  | none => (.error (.unknownSection name),s)
  | some logical => latestAttempts reader logical world maxRefresh 0 s

/-- A row that stands in a unit: its section decodes there, and it has a time. -/
def UnitRow (unit : UnitDescriptor) (row : TimedRow) : Prop :=
  ∃ opened, openUnitHandle reader files unit.index unit.handle = .ok opened ∧
  ∃ dict, unitDictionary reader opened = .ok dict ∧
  ∃ entry ∈ opened.catalog.entries, entry.typeId ∈ logical.typeIds ∧
  ∃ rows, decodeRows reader opened entry = .ok rows ∧
  ∃ decoded ∈ rows, timedRow logical dict decoded = some row

/-- The rows of a section in all units of a snapshot. -/
def SectionRow (s : LocalDirSnapshot ω) (row : TimedRow) : Prop :=
  ∃ unit ∈ s.unitDescriptors, UnitRow reader files logical unit row

/-- The metadata of each unit bound the times of its rows. -/
def MetadataBound (s : LocalDirSnapshot ω) : Prop :=
  ∀ unit ∈ s.unitDescriptors, ∀ row, UnitRow reader files logical unit row →
    unit.unitMeta.minTs ≤ row.1 ∧ row.1 ≤ unit.unitMeta.maxTs

/-- Each unit opens, and its dictionary and its sections of these types decode. -/
def UnitsReadable (s : LocalDirSnapshot ω) : Prop :=
  ∀ unit ∈ s.unitDescriptors, ∃ opened,
    openUnitHandle reader files unit.index unit.handle = .ok opened ∧
    (∃ dict, unitDictionary reader opened = .ok dict) ∧
    ∀ entry ∈ opened.catalog.entries, entry.typeId ∈ logical.typeIds →
      ∃ rows, decodeRows reader opened entry = .ok rows

/-- Rows by their time, then by the order of the section. -/
def rowLe (a b : TimedRow) : Prop :=
  a.1 < b.1 ∨ a.1 = b.1 ∧ (logical.compare a.2 b.2).isLE

/-- The greatest of some rows, or none where there are none. -/
structure BestOf (rows : TimedRow → Prop) (best : Option TimedRow) : Prop where
  mem : ∀ b, best = some b → rows b
  greatest : ∀ b, best = some b → ∀ row, rows row → rowLe logical row b
  absent : best = none → ∀ row, ¬rows row

/-- What the latest row is: the row of the greatest time and order. -/
def IsLatestRow (s : LocalDirSnapshot ω) (row : Option OutRow) : Prop :=
  ∃ best, row = best.map Prod.snd ∧ BestOf logical (SectionRow reader files logical s) best

end Scan

instance : Std.TransCmp candidateOrder := by
  have h : candidateOrder = compareLex (compareLex
      (fun left right => compare right.unitMeta.maxTs left.unitMeta.maxTs)
      fun left right => compare right.unitMeta.live left.unitMeta.live)
      fun left right => compare right.index left.index := rfl
  have hts : Std.TransCmp fun left right : UnitDescriptor =>
      compare right.unitMeta.maxTs left.unitMeta.maxTs :=
    { eq_swap := Std.OrientedCmp.eq_swap
      isLE_trans := fun hab hbc => Std.TransCmp.isLE_trans hbc hab }
  have hlive : Std.TransCmp fun left right : UnitDescriptor =>
      compare right.unitMeta.live left.unitMeta.live :=
    { eq_swap := Std.OrientedCmp.eq_swap
      isLE_trans := fun hab hbc => Std.TransCmp.isLE_trans hbc hab }
  have hindex : Std.TransCmp fun left right : UnitDescriptor => compare right.index left.index :=
    { eq_swap := Std.OrientedCmp.eq_swap
      isLE_trans := fun hab hbc => Std.TransCmp.isLE_trans hbc hab }
  rw [h]
  infer_instance

theorem candidateOrder_total (a b : UnitDescriptor) :
    ((candidateOrder a b).isLE || (candidateOrder b a).isLE) = true := by
  have hswap : candidateOrder a b = (candidateOrder b a).swap := Std.OrientedCmp.eq_swap
  rw [hswap]
  cases candidateOrder b a <;> rfl

/-- The candidates come by decreasing maximal time. -/
theorem latestCandidates_sorted {ω : Type} (s : LocalDirSnapshot ω) (typeIds : List UInt32) :
    (latestCandidates s typeIds).Pairwise fun a b => b.unitMeta.maxTs ≤ a.unitMeta.maxTs := by
  have hsorted := List.pairwise_mergeSort (fun _ _ _ => Std.TransCmp.isLE_trans)
    candidateOrder_total (s.unitDescriptors.filter fun unit => unit.mayContainAnyNonemptyType typeIds)
  refine hsorted.imp fun {a b} hab => ?_
  by_contra hlt
  have hgt : compare b.unitMeta.maxTs a.unitMeta.maxTs = .gt :=
    Std.compare_eq_gt.mpr (Int64.not_le.mp hlt)
  rw [candidateOrder,hgt] at hab
  cases hab

section Best

variable {logical : RegisteredSection} {rows : TimedRow → Prop} {best : Option TimedRow}
  {a b c : TimedRow}

theorem rowLe.refl (a : TimedRow) : rowLe logical a a :=
  .inr ⟨rfl,by simp [show logical.compare a.2 a.2 = .eq from Std.ReflCmp.compare_self]⟩

theorem rowLe.trans (hab : rowLe logical a b) (hbc : rowLe logical b c) : rowLe logical a c := by
  rcases hab with hab | ⟨hab,hle⟩
  · rcases hbc with hbc | ⟨hbc,-⟩
    · exact .inl (Int64.lt_trans hab hbc)
    · exact .inl (hbc ▸ hab)
  · rcases hbc with hbc | ⟨hbc,hle'⟩
    · exact .inl (hab ▸ hbc)
    · exact .inr ⟨hab.trans hbc,Std.TransCmp.isLE_trans hle hle'⟩

theorem rowLe_of_replaces (h : replacesBest logical b a) : rowLe logical a b := by
  rcases h with h | ⟨heq,hgt⟩
  · exact .inl h
  · refine .inr ⟨heq.symm,?_⟩
    have hswap : logical.compare a.2 b.2 = (logical.compare b.2 a.2).swap := Std.OrientedCmp.eq_swap
    rw [hswap,hgt]
    rfl

theorem rowLe_of_not_replaces (h : ¬replacesBest logical b a) : rowLe logical b a := by
  rw [replacesBest,not_or,not_and] at h
  by_cases heq : b.1 = a.1
  · exact .inr ⟨heq,Ordering.ne_gt_iff_isLE.mp (h.2 heq)⟩
  · refine .inl (Int64.lt_iff_le_and_ne.mpr ⟨Int64.not_lt.mp h.1,heq⟩)

/-- On rows over the union columns the order has one greatest row. -/
theorem rowLe.antisymm (hab : rowLe logical a b) (hba : rowLe logical b a)
    (ha : a.2.map Prod.fst = logical.columns) (hb : b.2.map Prod.fst = logical.columns) : a = b := by
  rcases hab with hab | ⟨heq,hle⟩
  · rcases hba with hba | ⟨heq,-⟩
    · exact absurd hba (Int64.lt_asymm hab)
    · exact (Int64.lt_irrefl (heq ▸ hab)).elim
  · rcases hba with hba | ⟨-,hle'⟩
    · exact (Int64.lt_irrefl (heq ▸ hba)).elim
    · have hcompare := Std.OrientedCmp.isLE_antisymm hle hle'
      exact Prod.ext heq ((logical.compare_eq_iff ha hb).mp hcompare)

theorem BestOf.congr {rows' : TimedRow → Prop} (h : BestOf logical rows best)
    (hrows : ∀ row, rows row ↔ rows' row) : BestOf logical rows' best := by
  obtain rfl : rows = rows' := funext fun row => propext (hrows row)
  exact h

theorem BestOf.better (h : BestOf logical rows best) (row : TimedRow) :
    BestOf logical (fun r => rows r ∨ r = row) (betterRow logical best row) := by
  cases best with
  | none =>
    have hnone := h.absent rfl
    refine ⟨fun b hb => .inr (Option.some.inj hb).symm,fun b hb r hr => ?_,fun hb => by cases hb⟩
    obtain rfl := Option.some.inj hb
    rw [hr.resolve_left (hnone r)]
    exact rowLe.refl _
  | some b =>
    rw [betterRow]
    by_cases hreplaces : replacesBest logical row b
    · rw [if_pos hreplaces]
      refine ⟨fun _ hb => .inr (Option.some.inj hb).symm,fun _ hb r hr => ?_,fun hb => by cases hb⟩
      obtain rfl := Option.some.inj hb
      rcases hr with hr | rfl
      · exact (h.greatest b rfl r hr).trans (rowLe_of_replaces hreplaces)
      · exact rowLe.refl _
    · rw [if_neg hreplaces]
      refine ⟨fun c hc => .inl (h.mem c hc),fun c hc r hr => ?_,fun hb => by cases hb⟩
      obtain rfl := Option.some.inj hc
      rcases hr with hr | rfl
      · exact h.greatest _ rfl r hr
      · exact rowLe_of_not_replaces hreplaces

theorem BestOf.foldl (h : BestOf logical rows best) (dict : UnitDictionary) (decoded : List Row) :
    BestOf logical (fun r => rows r ∨ ∃ row ∈ decoded, timedRow logical dict row = some r)
      (decoded.foldl (considerRow logical dict) best) := by
  induction decoded generalizing rows best with
  | nil => exact h.congr (by simp)
  | cons row decoded ih =>
    rw [List.foldl_cons,considerRow]
    cases htimed : timedRow logical dict row with
    | none => exact (ih h).congr (by simp [htimed])
    | some timed =>
      refine (ih (h.better timed)).congr fun r => ?_
      simp [htimed,or_assoc,eq_comm]

end Best

section Run

variable {ω ε : Type} {reader : QueryReader ε} {files : SnapshotFiles ε}
  {logical : RegisteredSection} {s : LocalDirSnapshot ω} {opened : QueryUnit ε}
  {dict : UnitDictionary} {rows : TimedRow → Prop} {best result : Option TimedRow}

/-- The rows of one section of an opened unit. -/
def EntryRow (reader : QueryReader ε) (logical : RegisteredSection) (opened : QueryUnit ε)
    (dict : UnitDictionary) (entry : Entry) (row : TimedRow) : Prop :=
  entry.typeId ∈ logical.typeIds ∧ ∃ rows, decodeRows reader opened entry = .ok rows ∧
    ∃ decoded ∈ rows, timedRow logical dict decoded = some row

/-- A section without rows in the catalog decodes to none. -/
theorem EntryRow.nonempty {entry : Entry} {row : TimedRow}
    (h : EntryRow reader logical opened dict entry row) : entry.rows ≠ 0 := by
  obtain ⟨-,decoded,hdecode,r,hr,-⟩ := h
  intro hzero
  have hlen := decodeRows_length hdecode
  rw [hzero] at hlen
  have hnil : decoded = [] := List.length_eq_zero_iff.mp hlen
  rw [hnil] at hr
  cases hr

theorem scanSection_best {entry : Entry} (h : BestOf logical rows best)
    (hscan : scanSection reader logical opened dict best entry = .ok result) :
    BestOf logical (fun r => rows r ∨ EntryRow reader logical opened dict entry r) result := by
  rw [scanSection] at hscan
  by_cases hentry : entry.rows ≠ 0 ∧ entry.typeId ∈ logical.typeIds
  · rw [if_pos hentry] at hscan
    obtain ⟨decoded,hdecode,hfold⟩ := bind_ok hscan
    rw [← Except.ok.inj hfold]
    refine (h.foldl dict decoded).congr fun r => or_congr_right ?_
    simp [EntryRow,hentry.2,hdecode]
  · rw [if_neg hentry] at hscan
    obtain rfl := Except.ok.inj hscan
    refine h.congr fun r => ⟨.inl,fun hr => hr.resolve_right fun hrow => ?_⟩
    exact hentry ⟨hrow.nonempty,hrow.1⟩

theorem scanSections_best {entries : List Entry} (h : BestOf logical rows best)
    (hscan : entries.foldlM (scanSection reader logical opened dict) best = .ok result) :
    BestOf logical (fun r => rows r ∨ ∃ entry ∈ entries, EntryRow reader logical opened dict entry r)
      result := by
  induction entries generalizing rows best with
  | nil =>
    obtain rfl := Except.ok.inj hscan
    exact h.congr (by simp)
  | cons entry entries ih =>
    rw [List.foldlM_cons] at hscan
    obtain ⟨next,hone,hrest⟩ := bind_ok hscan
    exact (ih (scanSection_best h hone) hrest).congr (by simp [or_assoc])

/-- The rows of an opened unit. -/
def OpenedRow (reader : QueryReader ε) (logical : RegisteredSection) (opened : QueryUnit ε)
    (row : TimedRow) : Prop :=
  ∃ dict, unitDictionary reader opened = .ok dict ∧
    ∃ entry ∈ opened.catalog.entries, EntryRow reader logical opened dict entry row

theorem OpenedRow.nonempty {row : TimedRow} (h : OpenedRow reader logical opened row) :
    hasNonemptyType opened.catalog logical.typeIds := by
  obtain ⟨dict,-,entry,hentry,hrow⟩ := h
  rw [hasNonemptyType,List.any_eq_true]
  exact ⟨entry,hentry,by simpa using ⟨hrow.nonempty,hrow.1⟩⟩

theorem scanUnit_best (h : BestOf logical rows best)
    (hscan : scanUnit reader logical opened best = .ok result) :
    BestOf logical (fun r => rows r ∨ OpenedRow reader logical opened r) result := by
  rw [scanUnit] at hscan
  by_cases hnonempty : hasNonemptyType opened.catalog logical.typeIds
  · rw [if_neg (not_not.mpr hnonempty)] at hscan
    obtain ⟨dict,hdict,hfold⟩ := bind_ok hscan
    refine (scanSections_best h hfold).congr fun r => or_congr_right ?_
    simp [OpenedRow,hdict]
  · rw [if_pos hnonempty] at hscan
    obtain rfl := Except.ok.inj hscan
    exact h.congr fun r => ⟨.inl,fun hr => hr.resolve_right fun hrow => hnonempty hrow.nonempty⟩

theorem unitRow_iff {unit : UnitDescriptor}
    (hopen : openUnitHandle reader files unit.index unit.handle = .ok opened) {row : TimedRow} :
    UnitRow reader files logical unit row ↔ OpenedRow reader logical opened row := by
  simp [UnitRow,OpenedRow,EntryRow,hopen]

/-- The units behind the early stop hold only older rows. -/
theorem scanCandidates_best {candidates : List UnitDescriptor} (h : BestOf logical rows best)
    (hsorted : candidates.Pairwise fun a b => b.unitMeta.maxTs ≤ a.unitMeta.maxTs)
    (hbound : ∀ unit ∈ candidates, ∀ row, UnitRow reader files logical unit row →
      row.1 ≤ unit.unitMeta.maxTs)
    (hscan : scanCandidates reader files logical best candidates = .ok result) :
    BestOf logical (fun r => rows r ∨ ∃ unit ∈ candidates, UnitRow reader files logical unit r)
      result := by
  induction candidates generalizing rows best with
  | nil =>
    obtain rfl := Except.ok.inj hscan
    exact h.congr (by simp)
  | cons unit candidates ih =>
    obtain ⟨hlater,hrest⟩ := List.pairwise_cons.mp hsorted
    rw [scanCandidates] at hscan
    by_cases hstop : best.any fun b => unit.unitMeta.maxTs < b.1
    · rw [if_pos hstop] at hscan
      obtain rfl := Except.ok.inj hscan
      obtain ⟨b,rfl,hb⟩ : ∃ b, best = some b ∧ unit.unitMeta.maxTs < b.1 := by
        cases best with
        | none => cases hstop
        | some b => exact ⟨b,rfl,of_decide_eq_true hstop⟩
      have holder : ∀ u ∈ unit::candidates, ∀ row, UnitRow reader files logical u row →
          row.1 < b.1 := by
        intro u hu row hrow
        refine Int64.lt_of_le_of_lt (Int64.le_trans (hbound u hu row hrow) ?_) hb
        rcases List.mem_cons.mp hu with rfl | hu
        · exact Int64.le_refl _
        · exact hlater u hu
      refine ⟨fun c hc => .inl (h.mem c hc),fun c hc r hr => ?_,fun hb => by cases hb⟩
      obtain rfl := Option.some.inj hc
      rcases hr with hr | ⟨u,hu,hr⟩
      · exact h.greatest _ rfl r hr
      · exact .inl (holder u hu r hr)
    · rw [if_neg hstop] at hscan
      split at hscan
      · cases hscan
      · next opened hopen =>
        split at hscan
        · cases hscan
        · next next_ hunit =>
          have hbest := ih (scanUnit_best h hunit) hrest
            (fun u hu => hbound u (List.mem_cons_of_mem _ hu)) hscan
          refine hbest.congr fun r => ?_
          rw [← unitRow_iff hopen]
          simp [or_assoc]

theorem mem_latestCandidates {unit : UnitDescriptor} {typeIds : List UInt32}
    (h : unit ∈ latestCandidates s typeIds) : unit ∈ s.unitDescriptors := by
  simp only [latestCandidates,List.mem_mergeSort,List.mem_filter] at h
  exact h.1

/-- The filter leaves out no unit with rows of the section. -/
theorem sectionRow_iff {row : TimedRow} : SectionRow reader files logical s row ↔
    ∃ unit ∈ latestCandidates s logical.typeIds, UnitRow reader files logical unit row := by
  constructor
  · rintro ⟨unit,hunit,hrow⟩
    refine ⟨unit,?_,hrow⟩
    have hopened := hrow
    obtain ⟨opened,hopen,-⟩ := hopened
    have hnonempty := ((unitRow_iff hopen).mp hrow).nonempty
    simp [latestCandidates,hunit,mayContain_of_nonempty hunit hopen hnonempty]
  · rintro ⟨unit,hunit,hrow⟩
    exact ⟨unit,mem_latestCandidates hunit,hrow⟩

theorem latestOnce_best {row : Option OutRow} (hbound : MetadataBound reader files logical s)
    (h : latestOnce reader files logical s = .ok row) : IsLatestRow reader files logical s row := by
  obtain ⟨best,hscan,rfl⟩ := map_ok h
  have hempty : BestOf logical (fun _ => False) none :=
    ⟨fun _ hb => (by cases hb),fun _ hb => (by cases hb),fun _ _ => id⟩
  have hbest := scanCandidates_best hempty (latestCandidates_sorted s logical.typeIds)
    (fun unit hunit row hrow => (hbound unit (mem_latestCandidates hunit) row hrow).2) hscan
  exact ⟨best,rfl,hbest.congr fun r => by rw [false_or,sectionRow_iff]⟩

theorem scanSections_isOk {entries : List Entry} (dict : UnitDictionary) (best : Option TimedRow)
    (hdecode : ∀ entry ∈ entries, entry.typeId ∈ logical.typeIds →
      ∃ rows, decodeRows reader opened entry = .ok rows) :
    ∃ result, entries.foldlM (scanSection reader logical opened dict) best = .ok result := by
  induction entries generalizing best with
  | nil => exact ⟨best,rfl⟩
  | cons entry entries ih =>
    obtain ⟨next,hnext⟩ : ∃ next, scanSection reader logical opened dict best entry = .ok next := by
      rw [scanSection]
      by_cases hentry : entry.rows ≠ 0 ∧ entry.typeId ∈ logical.typeIds
      · obtain ⟨rows,hrows⟩ := hdecode entry (by simp) hentry.2
        exact ⟨_,by rw [if_pos hentry,hrows]; rfl⟩
      · exact ⟨best,if_neg hentry⟩
    obtain ⟨result,hresult⟩ := ih next fun e he => hdecode e (by simp [he])
    exact ⟨result,by rw [List.foldlM_cons,hnext]; exact hresult⟩

theorem scanUnit_isOk (hdict : unitDictionary reader opened = .ok dict)
    (hdecode : ∀ entry ∈ opened.catalog.entries, entry.typeId ∈ logical.typeIds →
      ∃ rows, decodeRows reader opened entry = .ok rows) (best : Option TimedRow) :
    ∃ result, scanUnit reader logical opened best = .ok result := by
  rw [scanUnit]
  by_cases hnonempty : hasNonemptyType opened.catalog logical.typeIds
  · rw [if_neg (not_not.mpr hnonempty),hdict]
    exact scanSections_isOk dict best hdecode
  · exact ⟨best,if_pos hnonempty⟩

theorem scanCandidates_isOk {candidates : List UnitDescriptor} (best : Option TimedRow)
    (h : UnitsReadable reader files logical s)
    (hmem : ∀ unit ∈ candidates, unit ∈ s.unitDescriptors) :
    ∃ result, scanCandidates reader files logical best candidates = .ok result := by
  induction candidates generalizing best with
  | nil => exact ⟨best,rfl⟩
  | cons unit candidates ih =>
    rw [scanCandidates]
    by_cases hstop : best.any fun b => unit.unitMeta.maxTs < b.1
    · exact ⟨best,if_pos hstop⟩
    · obtain ⟨opened,hopen,⟨dict,hdict⟩,hdecode⟩ := h unit (hmem unit (by simp))
      obtain ⟨next,hnext⟩ := scanUnit_isOk hdict hdecode best
      simp only [if_neg hstop,hopen,hnext]
      exact ih next fun u hu => hmem u (by simp [hu])

/-- Where all units are readable the scan succeeds. -/
theorem latestOnce_isOk (h : UnitsReadable reader files logical s) :
    ∃ row, latestOnce reader files logical s = .ok row := by
  obtain ⟨result,hresult⟩ := scanCandidates_isOk none h fun _ => mem_latestCandidates
  exact ⟨_,by rw [latestOnce,hresult]; rfl⟩

/-- The snapshot after some refreshes. -/
inductive RefreshedTo (world : QueryWorld ω ε) (s : LocalDirSnapshot ω) :
    ℕ → LocalDirSnapshot ω → Prop
  | start : RefreshedTo world s 0 s
  | step {n : ℕ} {t u : LocalDirSnapshot ω} (h : RefreshedTo world s n t)
      (hrefresh : world.refresh n t = .ok u) : RefreshedTo world s (n+1) u

theorem latestAttempts_ok {world : QueryWorld ω ε} {remaining n : ℕ} {t s' : LocalDirSnapshot ω}
    {row : Option OutRow} (ht : RefreshedTo world s n t)
    (h : latestAttempts reader logical world remaining n t = (.ok row,s')) :
    ∃ m ≤ n + remaining, RefreshedTo world s m s' ∧
      latestOnce reader (world.files m) logical s' = .ok row := by
  induction remaining generalizing n t with
  | zero =>
    rw [latestAttempts] at h
    split at h
    · next row' hok =>
      cases h
      exact ⟨n,le_refl _,ht,hok⟩
    · cases h
    · cases h
  | succ remaining ih =>
    rw [latestAttempts] at h
    split at h
    · next row' hok =>
      cases h
      exact ⟨n,by omega,ht,hok⟩
    · cases h
    · cases hrefresh : world.refresh n t with
      | error error => simp [hrefresh] at h
      | ok u =>
        simp only [hrefresh] at h
        obtain ⟨m,hm,hreached⟩ := ih (ht.step hrefresh) h
        exact ⟨m,by omega,hreached⟩

/-- There is one latest row. -/
theorem IsLatestRow.unique {row row' : Option OutRow}
    (h : IsLatestRow reader files logical s row) (h' : IsLatestRow reader files logical s row') :
    row = row' := by
  have hcolumns : ∀ r, SectionRow reader files logical s r → r.2.map Prod.fst = logical.columns := by
    rintro r ⟨_,_,_,_,dict,_,_,_,_,_,_,decoded,_,htimed⟩
    obtain ⟨t,-,rfl⟩ := Option.map_eq_some_iff.mp htimed
    exact decoded.output_columns _ _
  obtain ⟨best,rfl,hbest⟩ := h
  obtain ⟨best',rfl,hbest'⟩ := h'
  cases best with
  | none =>
    cases best' with
    | none => rfl
    | some b' => exact absurd (hbest'.mem b' rfl) (hbest.absent rfl b')
  | some b =>
    cases best' with
    | none => exact absurd (hbest.mem b rfl) (hbest'.absent rfl b)
    | some b' =>
      have hmem := hbest.mem b rfl
      have hmem' := hbest'.mem b' rfl
      rw [rowLe.antisymm (hbest'.greatest b' rfl b hmem) (hbest.greatest b rfl b' hmem')
        (hcolumns b hmem) (hcolumns b' hmem')]

/-- The latest row of a registered section is the greatest of its rows in all units of the snapshot
that was read last: its own one when no unit was stale, else one after a refresh. -/
theorem latest_section_row_maximum {world : QueryWorld ω ε} {name : String}
    (hname : logicalSection reader.registry name = some logical) :
    (UnitsReadable reader (world.files 0) logical s →
      ∃ row, latestSectionRow reader world s name = (.ok row,s)) ∧
    ∀ row s', latestSectionRow reader world s name = (.ok row,s') →
      ∃ n ≤ maxRefresh, RefreshedTo world s n s' ∧
        (MetadataBound reader (world.files n) logical s' →
          IsLatestRow reader (world.files n) logical s' row ∧
          (∀ row', IsLatestRow reader (world.files n) logical s' row' → row' = row) ∧
          (row = none ↔ ∀ r, ¬SectionRow reader (world.files n) logical s' r)) := by
  have hsection : latestSectionRow reader world s name =
      latestAttempts reader logical world maxRefresh 0 s := by
    rw [latestSectionRow,hname]
  rw [hsection]
  constructor
  · intro hreadable
    obtain ⟨row,hrow⟩ := latestOnce_isOk hreadable
    exact ⟨row,by rw [maxRefresh,latestAttempts,hrow]⟩
  · intro row s' h
    obtain ⟨n,hn,hreached,hrow⟩ := latestAttempts_ok .start h
    refine ⟨n,by omega,hreached,fun hbound => ?_⟩
    have hlatest := latestOnce_best hbound hrow
    refine ⟨hlatest,fun row' hrow' => hrow'.unique hlatest,?_⟩
    obtain ⟨best,rfl,hbest⟩ := hlatest
    cases best with
    | none => exact ⟨fun _ => hbest.absent rfl,fun _ => rfl⟩
    | some b => exact ⟨fun hb => (by cases hb),fun hnone => absurd (hbest.mem b rfl) (hnone b)⟩

end Run

def eventsRegistry : SectionRegistry where
  contracts := [⟨7,"events",["ts","n"],["ts"]⟩]
  sortKeys := by simp
  width := by decide

/-- Two cells in a body: the time and a number. -/
def eventsReader : QueryReader Unit where
  registry := eventsRegistry
  codec :=
    { cells := fun _ body => .ok [[.ts (Int64.ofNat (body.getD 0 0).toNat),
        .i64 (Int64.ofNat (body.getD 1 0).toNat)]]
      dictionary := fun _ _ => .ok ([],0) }
  sha256 := fun _ => ⟨.replicate 32 0⟩

/-- A part with one row of the section. -/
def eventPart (offset : ℕ) (t : Int64) : ActivePart where
  segmentId := ⟨0,segmentIdInRange_zero⟩
  part := ⟨offset,100⟩
  catalog := ⟨[⟨7,0,4,2,1,0⟩],t,t,2,1⟩

/-- Two parts, the later time in the first. -/
def eventsSnapshot : LocalDirSnapshot Unit where
  scan := ⟨[],⟨[eventPart 64 9,eventPart 200 5],2,by decide⟩,[],[],300,false⟩
  lastValidLen := 300
  viewGeneration := 0
  journalGeneration := 0
  journalIdentity := none
  journalPrefixDigest := ⟨.replicate 32 0⟩
  prefixDigestState := none
  journalDescriptorsComplete := true
  deltaInitialized := true
  tailPending := none
  sealedActiveGenerationMatch := false

def eventsWorld : QueryWorld Unit Unit where
  files := fun _ =>
    { openSealed := fun _ _ => .error (.other ())
      readActivePart := fun _ part => .ok ⟨part.catalog,part.part.len,fun _ =>
        .ok [UInt8.ofNat part.catalog.maxTs.toInt.toNat,3]⟩ }
  refresh := fun _ s => .ok s

def eventsSection : RegisteredSection where
  columns := ["ts","n"]
  sortKey := ["ts"]
  nodup := by decide
  width := by decide
  typeIds := [7]

theorem eventsSection_registered :
    logicalSection eventsRegistry "events" = some eventsSection := by
  simp [logicalSection,SectionRegistry.versions,eventsRegistry,eventsSection,unionColumns,pushColumn]

theorem eventsSnapshot_readable :
    UnitsReadable eventsReader (eventsWorld.files 0) eventsSection eventsSnapshot := by
  intro unit hunit
  have hcases : unit = describeUnit (.active (eventPart 64 9)) 0 ∨
      unit = describeUnit (.active (eventPart 200 5)) 1 := by
    simpa [LocalDirSnapshot.unitDescriptors,LocalDirSnapshot.handles,eventsSnapshot] using hunit
  rcases hcases with rfl | rfl
  · refine ⟨_,rfl,⟨_,rfl⟩,fun entry hentry _ => ?_⟩
    obtain rfl := List.mem_singleton.mp hentry
    exact ⟨_,rfl⟩
  · refine ⟨_,rfl,⟨_,rfl⟩,fun entry hentry _ => ?_⟩
    obtain rfl := List.mem_singleton.mp hentry
    exact ⟨_,rfl⟩

theorem latest_section_row_sample : ∃ row,
    latestSectionRow eventsReader eventsWorld eventsSnapshot "events" = (.ok row,eventsSnapshot) :=
  (latest_section_row_maximum eventsSection_registered).1 eventsSnapshot_readable

end PgKronika
