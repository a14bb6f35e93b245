import Mathlib
import PgKronika.CoverageGaps
import PgKronika.OrderedMap
import PgKronika.QueryValue

/-! Section rows as diffs: grouped by identity, sorted by time, and folded pair by pair. -/
namespace PgKronika

open ByteCodec Utf8Text

inductive Scalar
  | int (v : ℤ)
  | float (v : Float)
  deriving DecidableEq

inductive Reason
  | reset | gap | firstPoint | anomaly | notCollected
  deriving DecidableEq

inductive DiffPoint
  | value (delta : Scalar) (rate : Float) (dtMicros : Int64)
  | noData (reason : Reason)
  deriving DecidableEq

structure DiffAt where
  ts : Int64
  point : DiffPoint
  deriving DecidableEq

structure ColumnDiff where
  name : String
  points : List DiffAt
  deriving DecidableEq

structure SeriesDiff where
  key : List Value
  columns : List ColumnDiff
  deriving DecidableEq

/-- The nearest float. -/
def floatOfInt (v : ℤ) : Float := .ofModel (.ofInt v)

/-- One pair of samples; the time difference wraps. -/
def diffPair (prev cur : Scalar) (prevTs curTs : Int64) : DiffPoint :=
  let dtMicros := curTs - prevTs
  if dtMicros ≤ 0 then .noData .anomaly
  else
    let dtSecs := floatOfInt dtMicros.toInt / floatOfInt 1000000
    match prev, cur with
    | .int a, .int b =>
      let delta := b - a
      if delta < 0 then .noData .reset
      else .value (.int delta) (floatOfInt delta / dtSecs) dtMicros
    | .float a, .float b =>
      let delta := b - a
      if delta < floatOfInt 0 then .noData .reset
      else .value (.float delta) (delta / dtSecs) dtMicros
    | _, _ => .noData .anomaly

/-- What orders an identity value. -/
inductive KeyPart
  | null
  | int (v : ℤ)
  | bool (v : Bool)
  | text (s : String)
  | other

/-- The kind first, then what it holds. -/
def KeyPart.rank : KeyPart → ℕ ×ₗ ℤ ×ₗ List ℕ
  | .null => toLex (0,toLex (0,[]))
  | .int v => toLex (1,toLex (v,[]))
  | .bool v => toLex (2,toLex (v.toNat,[]))
  | .text s => toLex (3,toLex (0,(utf8 s).map UInt8.toNat))
  | .other => toLex (4,toLex (0,[]))

theorem KeyPart.rank_injective : Function.Injective KeyPart.rank := by
  intro a b h
  cases a <;> cases b <;> simp only [rank,toLex_inj,Prod.mk.injEq] at h <;> try simp_all
  · rename_i v w
    cases v <;> cases w <;> simp_all
  · exact utf8_injective (List.map_injective_iff.mpr (fun _ _ => UInt8.toNat.inj) h)

instance : LinearOrder KeyPart := LinearOrder.lift' KeyPart.rank KeyPart.rank_injective

def keyPart : Value → KeyPart
  | .null => .null
  | .i64 v => .int v.toInt
  | .u64 v => .int v.toNat
  | .ts v => .int v.toInt
  | .bool v => .bool v
  | .str s => .text s
  | .blob text _ _ => .text text
  | .f64 _ => .other
  | .listI32 _ => .other

def column (row : OutRow) (name : String) : Option Value :=
  (row.find? fun cell => cell.1 = name).map Prod.snd

def rowTs (row : OutRow) : Option Int64 :=
  match column row "ts" with
  | some (.ts v) => some v
  | _ => none

def scalar : Value → Option Scalar
  | .i64 v => some (.int v.toInt)
  | .u64 v => some (.int v.toNat)
  | .f64 bits => some (.float (.ofBits bits))
  | _ => none

def spansGap (prevTs curTs : Int64) (gaps : List Gap) : Bool :=
  gaps.any fun g => decide (g.fromTs < curTs) && decide (prevTs < g.toTs)

def identityKey (identity : List String) (row : OutRow) : List KeyPart :=
  identity.map fun name => (column row name).elim .null keyPart

/-- The time a row is sorted by: one without a readable time comes first. -/
def sortTs (row : OutRow) : Int64 := (rowTs row).getD Int64.minValue

abbrev GroupedSeries := List Value × List (Int64 × OutRow)

def addToGroup (identity : List String) (groups : OrderedMap (List KeyPart) (List OutRow))
    (row : OutRow) : OrderedMap (List KeyPart) (List OutRow) :=
  let key := identityKey identity row
  groups.insert key ((groups.lookup key).getD [] ++ [row])

def identityValues (identity : List String) (series : List (Int64 × OutRow)) : List Value :=
  match series with
  | [] => []
  | first::_ => identity.map fun name => (column first.2 name).getD .null

def sortSeries (rows : List OutRow) : List (Int64 × OutRow) :=
  (rows.map fun row => (sortTs row,row)).insertionSort fun a b => a.1 ≤ b.1

/-- The rows of each identity by time, in the order of the identities. -/
def groupSeries (identity : List String) (rows : List OutRow) : List GroupedSeries :=
  (rows.foldl (addToGroup identity) .empty).entries.map fun group =>
    let series := sortSeries group.2
    (identityValues identity series,series)

def foldPair (prevTs : Int64) (prev : OutRow) (curTs : Int64) (cur : OutRow) (name : String)
    (gaps : List Gap) : DiffPoint :=
  if spansGap prevTs curTs gaps then .noData .gap
  else
    match (column prev name).bind scalar, (column cur name).bind scalar with
    | some p, some c => diffPair p c prevTs curTs
    | _, _ => .noData .anomaly

def foldPairs (name : String) (gaps : List Gap) (prev : Int64 × OutRow) :
    List (Int64 × OutRow) → List DiffAt
  | [] => []
  | cur::series =>
    ⟨cur.1,foldPair prev.1 prev.2 cur.1 cur.2 name gaps⟩ :: foldPairs name gaps cur series

def foldColumn (series : List (Int64 × OutRow)) (name : String) (gaps : List Gap) : List DiffAt :=
  match series with
  | [] => []
  | first::rest => ⟨first.1,.noData .firstPoint⟩ :: foldPairs name gaps first rest

def diffSection (identity cumulative : List String) (rows : List OutRow) (gaps : List Gap) :
    List SeriesDiff :=
  (groupSeries identity rows).map fun series =>
    ⟨series.1,cumulative.map fun name => ⟨name,foldColumn series.2 name gaps⟩⟩

section Groups

variable {identity : List String} {rows rows' : List OutRow} {k : List KeyPart}

/-- The rows of one identity. -/
def rowsOf (identity : List String) (rows : List OutRow) (k : List KeyPart) : List OutRow :=
  rows.filter fun row => decide (identityKey identity row = k)

def grouped (identity : List String) (rows : List OutRow) : OrderedMap (List KeyPart) (List OutRow) :=
  rows.foldl (addToGroup identity) .empty

theorem lookup_addToGroups (groups : OrderedMap (List KeyPart) (List OutRow)) :
    (rows.foldl (addToGroup identity) groups).lookup k =
      if rowsOf identity rows k = [] then groups.lookup k
      else some ((groups.lookup k).getD [] ++ rowsOf identity rows k) := by
  induction rows generalizing groups with
  | nil => rfl
  | cons row rows ih =>
    rw [List.foldl_cons,ih,addToGroup,OrderedMap.lookup_insert]
    by_cases hk : k = identityKey identity row
    · subst hk
      have hcons : rowsOf identity (row::rows) (identityKey identity row) =
          row :: rowsOf identity rows (identityKey identity row) := by simp [rowsOf]
      rw [if_pos rfl,hcons,if_neg (List.cons_ne_nil _ _)]
      by_cases hnil : rowsOf identity rows (identityKey identity row) = []
      · rw [if_pos hnil,hnil]
      · rw [if_neg hnil,Option.getD_some,List.append_assoc,List.singleton_append]
    · have hskip : rowsOf identity (row::rows) k = rowsOf identity rows k := by
        simp [rowsOf,Ne.symm hk]
      rw [if_neg hk,hskip]

theorem lookup_grouped : (grouped identity rows).lookup k =
    if rowsOf identity rows k = [] then none else some (rowsOf identity rows k) := by
  rw [grouped,lookup_addToGroups]
  rfl

/-- The identities of the rows, ascending. -/
def sectionKeys (identity : List String) (rows : List OutRow) : List (List KeyPart) :=
  (grouped identity rows).entries.map Prod.fst

theorem sectionKeys_ascending : (sectionKeys identity rows).Pairwise (· < ·) :=
  List.pairwise_map.mpr (grouped identity rows).ascending

theorem mem_sectionKeys : k ∈ sectionKeys identity rows ↔ ∃ row ∈ rows, identityKey identity row = k := by
  have hmem : k ∈ sectionKeys identity rows ↔ ∃ g, (grouped identity rows).lookup k = some g := by
    simp [sectionKeys,← OrderedMap.mem_entries_iff]
  rw [hmem,lookup_grouped]
  by_cases hnil : rowsOf identity rows k = []
  · rw [if_pos hnil]
    simpa [rowsOf] using hnil
  · rw [if_neg hnil]
    simpa [rowsOf] using hnil

theorem grouped_entries : (grouped identity rows).entries =
    (sectionKeys identity rows).map fun k => (k,rowsOf identity rows k) := by
  rw [sectionKeys,List.map_map]
  refine (List.map_id _).symm.trans (List.map_congr_left fun group hgroup => ?_)
  have hlookup := OrderedMap.mem_entries_iff.mp hgroup
  rw [lookup_grouped] at hlookup
  split_ifs at hlookup
  exact Prod.ext rfl (Option.some.inj hlookup).symm

theorem sectionKeys_perm (h : rows.Perm rows') : sectionKeys identity rows = sectionKeys identity rows' :=
  List.Pairwise.eq_of_mem_iff sectionKeys_ascending sectionKeys_ascending fun k => by
    simp only [mem_sectionKeys,h.mem_iff]

end Groups

/-- No two rows of one identity share a time. -/
def UniqueTimes (identity : List String) (rows : List OutRow) : Prop :=
  rows.Pairwise fun a b => identityKey identity a = identityKey identity b → sortTs a ≠ sortTs b

section Sorting

instance : Std.Total fun a b : Int64 × OutRow => a.1 ≤ b.1 :=
  ⟨fun a b => by
    simp only [Int64.le_iff_toInt_le]
    omega⟩

instance : IsTrans (Int64 × OutRow) fun a b => a.1 ≤ b.1 :=
  ⟨fun a b c hab hbc => by
    simp only [Int64.le_iff_toInt_le] at *
    omega⟩

/-- The rows of one identity by time. -/
def timeOrdered (rows : List OutRow) : List OutRow := (sortSeries rows).map Prod.snd

variable {identity : List String} {rows rows' : List OutRow} {k : List KeyPart}

theorem mem_sortSeries {p : Int64 × OutRow} (h : p ∈ sortSeries rows) : p.1 = sortTs p.2 := by
  obtain ⟨row,_,rfl⟩ := List.mem_map.mp ((List.mem_insertionSort _).mp h)
  rfl

theorem sortSeries_eq (rows : List OutRow) :
    sortSeries rows = (timeOrdered rows).map fun row => (sortTs row,row) := by
  rw [timeOrdered,List.map_map]
  exact (List.map_id _).symm.trans (List.map_congr_left fun p hp => Prod.ext (mem_sortSeries hp) rfl)

theorem timeOrdered_perm (rows : List OutRow) : (timeOrdered rows).Perm rows := by
  have h := (List.perm_insertionSort (fun a b : Int64 × OutRow => a.1 ≤ b.1)
    (rows.map fun row => (sortTs row,row))).map Prod.snd
  simpa [timeOrdered,sortSeries,Function.comp_def] using h

theorem UniqueTimes.rowsOf (h : UniqueTimes identity rows) (k : List KeyPart) :
    (rowsOf identity rows k).Pairwise fun a b => sortTs a ≠ sortTs b := by
  have hfilter := h.filter fun row => decide (identityKey identity row = k)
  refine hfilter.imp_of_mem fun ha hb hab => ?_
  have hka := of_decide_eq_true (List.mem_filter.mp ha).2
  have hkb := of_decide_eq_true (List.mem_filter.mp hb).2
  exact hab (hka.trans hkb.symm)

/-- With distinct times the order is strict. -/
theorem timeOrdered_ascending (h : rows.Pairwise fun a b => sortTs a ≠ sortTs b) :
    (timeOrdered rows).Pairwise fun a b => sortTs a < sortTs b := by
  have hle : (timeOrdered rows).Pairwise fun a b => sortTs a ≤ sortTs b := by
    have hsorted := List.pairwise_insertionSort (fun a b : Int64 × OutRow => a.1 ≤ b.1)
      (rows.map fun row => (sortTs row,row))
    change (sortSeries rows).Pairwise _ at hsorted
    rw [sortSeries_eq,List.pairwise_map] at hsorted
    exact hsorted
  have hne := (timeOrdered_perm rows).symm.pairwise h fun hab hba => hab hba.symm
  refine hle.imp₂ (fun a b hab hne => ?_) hne
  simp only [Int64.lt_iff_toInt_lt,Int64.le_iff_toInt_le,ne_eq,← Int64.toInt_inj] at hab hne ⊢
  omega

theorem timeOrdered_congr (hperm : rows.Perm rows')
    (h : rows.Pairwise fun a b => sortTs a ≠ sortTs b) : timeOrdered rows = timeOrdered rows' := by
  have h' := hperm.pairwise h fun hab hba => hab hba.symm
  refine List.Perm.eq_of_pairwise (fun a b _ _ hab hba => ?_) (timeOrdered_ascending h)
    (timeOrdered_ascending h') ((timeOrdered_perm rows).trans (hperm.trans (timeOrdered_perm rows').symm))
  simp only [Int64.lt_iff_toInt_lt] at hab hba
  omega

end Sorting

/-- The gap overlaps the time between two samples. -/
def Overlaps (gap : Gap) (prevTs curTs : Int64) : Prop := gap.fromTs < curTs ∧ prevTs < gap.toTs

/-- Where the gap is not reversed and time advances, both have a point of time in common. -/
theorem overlaps_iff {gap : Gap} {prevTs curTs : Int64} (hgap : gap.fromTs ≤ gap.toTs)
    (hlt : prevTs < curTs) : Overlaps gap prevTs curTs ↔
      ∃ t, (instant gap.fromTs ≤ t ∧ t ≤ instant gap.toTs) ∧ instant prevTs < t ∧ t < instant curTs := by
  rw [← instant_le] at hgap
  rw [← instant_lt] at hlt
  rw [Overlaps,← instant_lt,← instant_lt]
  constructor
  · intro ⟨hfrom,hto⟩
    by_cases hle : instant gap.fromTs ≤ instant prevTs
    · have hmin := lt_min hto hlt
      have hleft := min_le_left (instant gap.toTs) (instant curTs)
      have hright := min_le_right (instant gap.toTs) (instant curTs)
      refine ⟨(instant prevTs + min (instant gap.toTs) (instant curTs))/2,⟨?_,?_⟩,?_,?_⟩ <;> linarith
    · exact ⟨instant gap.fromTs,⟨le_refl _,hgap⟩,not_le.mp hle,hfrom⟩
  · rintro ⟨t,⟨hfrom,hto⟩,hprev,hcur⟩
    exact ⟨hfrom.trans_lt hcur,hprev.trans_le hto⟩

theorem spansGap_iff {prevTs curTs : Int64} {gaps : List Gap} :
    spansGap prevTs curTs gaps = true ↔ ∃ gap ∈ gaps, Overlaps gap prevTs curTs := by
  simp [spansGap,Overlaps]

/-- The numeric reading of a column. -/
def reading (row : OutRow) (name : String) : Option Scalar := (column row name).bind scalar

/-- The difference of the two times fits. -/
def ExactDifference (prev cur : OutRow) : Prop :=
  (sortTs cur - sortTs prev).toInt = (sortTs cur).toInt - (sortTs prev).toInt

/-- What a later point of a column says about its row and the row before. -/
structure LaterPoint (gaps : List Gap) (name : String) (prev cur : OutRow) (point : DiffPoint) :
    Prop where
  gap : (∃ gap ∈ gaps, Overlaps gap (sortTs prev) (sortTs cur)) → point = .noData .gap
  pair : (¬∃ gap ∈ gaps, Overlaps gap (sortTs prev) (sortTs cur)) → ∀ p c, reading prev name = some p →
    reading cur name = some c → point = diffPair p c (sortTs prev) (sortTs cur)
  anomaly : (¬∃ gap ∈ gaps, Overlaps gap (sortTs prev) (sortTs cur)) →
    reading prev name = none ∨ reading cur name = none → point = .noData .anomaly

/-- One point for each row: none computed for the first, later ones against the row before. -/
structure PointsOf (gaps : List Gap) (ordered : List OutRow) (name : String) (points : List DiffAt) :
    Prop where
  length : points.length = ordered.length
  first : ∀ row, ordered[0]? = some row → points[0]? = some ⟨sortTs row,.noData .firstPoint⟩
  later : ∀ i prev cur, ordered[i]? = some prev → ordered[i+1]? = some cur →
    ∃ point, points[i+1]? = some ⟨sortTs cur,point⟩ ∧ LaterPoint gaps name prev cur point

section Points

variable {gaps : List Gap} {name : String}

theorem foldPair_later (prev cur : OutRow) :
    LaterPoint gaps name prev cur (foldPair (sortTs prev) prev (sortTs cur) cur name gaps) := by
  have hspans := @spansGap_iff (sortTs prev) (sortTs cur) gaps
  constructor
  · intro h
    rw [foldPair,if_pos (hspans.mpr h)]
  · intro h p c hp hc
    rw [foldPair,if_neg (mt hspans.mp h)]
    change (match reading prev name,reading cur name with
      | some p,some c => diffPair p c _ _
      | _,_ => _) = _
    rw [hp,hc]
  · intro h hnone
    rw [foldPair,if_neg (mt hspans.mp h)]
    change (match reading prev name,reading cur name with
      | some p,some c => diffPair p c _ _
      | _,_ => _) = _
    rcases hnone with hnone | hnone
    · rw [hnone]
    · rw [hnone]
      cases reading prev name <;> rfl

theorem foldPairs_get {series : List (Int64 × OutRow)} {prev a b : Int64 × OutRow} {i : ℕ}
    (ha : (prev::series)[i]? = some a) (hb : series[i]? = some b) :
    (foldPairs name gaps prev series)[i]? = some ⟨b.1,foldPair a.1 a.2 b.1 b.2 name gaps⟩ := by
  induction series generalizing prev i with
  | nil => simp at hb
  | cons cur series ih =>
    cases i with
    | zero =>
      obtain rfl := Option.some.inj ha
      obtain rfl := Option.some.inj hb
      rfl
    | succ i => exact ih ha hb

theorem length_foldPairs (prev : Int64 × OutRow) (series : List (Int64 × OutRow)) :
    (foldPairs name gaps prev series).length = series.length := by
  induction series generalizing prev with
  | nil => rfl
  | cons cur series ih => simp [foldPairs,ih]

theorem foldColumn_points (ordered : List OutRow) :
    PointsOf gaps ordered name (foldColumn (ordered.map fun row => (sortTs row,row)) name gaps) := by
  cases ordered with
  | nil => exact ⟨rfl,by simp,by simp⟩
  | cons first rest =>
    refine ⟨by simp [foldColumn,length_foldPairs],fun row hrow => ?_,fun i prev cur hprev hcur =>
      ⟨_,?_,foldPair_later prev cur⟩⟩
    · obtain rfl := Option.some.inj hrow
      rfl
    · have hprev' : ((sortTs first,first) :: rest.map fun row => (sortTs row,row))[i]? =
          some (sortTs prev,prev) := by
        have h := congrArg (Option.map fun row => (sortTs row,row)) hprev
        rwa [← List.getElem?_map] at h
      have hcur' : (rest.map fun row => (sortTs row,row))[i]? = some (sortTs cur,cur) := by
        have h := congrArg (Option.map fun row => (sortTs row,row)) hcur
        rwa [List.getElem?_cons_succ,← List.getElem?_map] at h
      exact foldPairs_get hprev' hcur'

end Points

/-- The one series of an identity: every row of the identity in time order gives a point of each
cumulative column, and each difference that is computed is exact. -/
structure SeriesFor (identity cumulative : List String) (rows : List OutRow) (gaps : List Gap)
    (k : List KeyPart) (series : SeriesDiff) (ordered : List OutRow) : Prop where
  rows : ordered.Perm (rows.filter fun row => decide (identityKey identity row = k))
  ascending : ordered.Pairwise fun a b => sortTs a < sortTs b
  key : ∃ first, ordered[0]? = some first ∧
    series.key = identity.map fun name => (column first name).getD .null
  names : series.columns.map ColumnDiff.name = cumulative
  points : ∀ column ∈ series.columns, PointsOf gaps ordered column.name column.points

/-- The differences of neighbours that are computed do not overflow. -/
def DifferencesExact (cumulative : List String) (gaps : List Gap) (ordered : List OutRow) : Prop :=
  ∀ i prev cur, ordered[i]? = some prev → ordered[i+1]? = some cur →
    (¬∃ gap ∈ gaps, Overlaps gap (sortTs prev) (sortTs cur)) →
    ∀ name ∈ cumulative, (reading prev name).isSome → (reading cur name).isSome →
      ExactDifference prev cur

/-- Folding does not depend on the order of the rows, gives the series of every identity, and
computes each time difference without overflow. -/
structure FoldedDiff (identity cumulative : List String) (rows : List OutRow) (gaps : List Gap) :
    Prop where
  order : ∀ rows' : List OutRow, rows.Perm rows' →
    diffSection identity cumulative rows gaps = diffSection identity cumulative rows' gaps
  series : ∃ keys : List (List KeyPart), keys.Pairwise (· < ·) ∧
    (∀ k, k ∈ keys ↔ ∃ row ∈ rows, identityKey identity row = k) ∧
    List.Forall₂ (fun k series => ∃ ordered, SeriesFor identity cumulative rows gaps k series ordered ∧
      DifferencesExact cumulative gaps ordered) keys (diffSection identity cumulative rows gaps)

/-- Two rows of one identity, with no row of it between them. -/
structure Neighbours (identity : List String) (rows : List OutRow) (prev cur : OutRow) : Prop where
  prev_mem : prev ∈ rows
  cur_mem : cur ∈ rows
  sameIdentity : identityKey identity prev = identityKey identity cur
  lt : sortTs prev < sortTs cur
  between : ∀ row ∈ rows, identityKey identity row = identityKey identity prev →
    ¬(sortTs prev < sortTs row ∧ sortTs row < sortTs cur)

/-- Neighbours with numeric readings and no gap between them are less than 2^63 microseconds apart. -/
def NeighboursFit (identity cumulative : List String) (rows : List OutRow) (gaps : List Gap) : Prop :=
  ∀ prev cur, Neighbours identity rows prev cur →
    (¬∃ gap ∈ gaps, Overlaps gap (sortTs prev) (sortTs cur)) →
    (∃ name ∈ cumulative, (reading prev name).isSome ∧ (reading cur name).isSome) →
      (sortTs cur).toInt - (sortTs prev).toInt < 2^63

section Fold

variable {identity cumulative : List String} {rows : List OutRow} {gaps : List Gap} {k : List KeyPart}
  {prev cur : OutRow}

theorem diffSection_eq : diffSection identity cumulative rows gaps =
    (sectionKeys identity rows).map fun k =>
      let ordered := timeOrdered (rowsOf identity rows k)
      let series := ordered.map fun row => (sortTs row,row)
      ⟨identityValues identity series,cumulative.map fun name => ⟨name,foldColumn series name gaps⟩⟩ := by
  rw [diffSection,groupSeries,List.map_map]
  change (grouped identity rows).entries.map _ = _
  rw [grouped_entries,List.map_map]
  refine List.map_congr_left fun k _ => ?_
  simp only [Function.comp_apply,sortSeries_eq]

theorem diffSection_perm (h : UniqueTimes identity rows) {rows' : List OutRow} (hperm : rows.Perm rows') :
    diffSection identity cumulative rows gaps = diffSection identity cumulative rows' gaps := by
  rw [diffSection_eq,diffSection_eq,sectionKeys_perm hperm]
  refine List.map_congr_left fun k _ => ?_
  have hordered : timeOrdered (rowsOf identity rows k) = timeOrdered (rowsOf identity rows' k) :=
    timeOrdered_congr (hperm.filter _) (h.rowsOf k)
  rw [hordered]

/-- Neighbours stand next to each other in the time order of their identity. -/
theorem neighbours_iff {ordered : List OutRow} (hrows : ordered.Perm (rowsOf identity rows k))
    (hascending : ordered.Pairwise fun a b => sortTs a < sortTs b)
    (hk : identityKey identity prev = k) : Neighbours identity rows prev cur ↔
      ∃ i, ordered[i]? = some prev ∧ ordered[i+1]? = some cur := by
  have hmem : ∀ row, row ∈ ordered ↔ row ∈ rows ∧ identityKey identity row = k := fun row => by
    rw [hrows.mem_iff,rowsOf,List.mem_filter,decide_eq_true_eq]
  have hlt : ∀ {i j : ℕ} {a b : OutRow}, ordered[i]? = some a → ordered[j]? = some b → i < j →
      sortTs a < sortTs b := by
    intro i j a b ha hb hij
    obtain ⟨hi,rfl⟩ := List.getElem?_eq_some_iff.mp ha
    obtain ⟨hj,rfl⟩ := List.getElem?_eq_some_iff.mp hb
    exact List.pairwise_iff_getElem.mp hascending i j hi hj hij
  constructor
  · intro h
    obtain ⟨i,hi⟩ := List.mem_iff_getElem?.mp ((hmem prev).mpr ⟨h.prev_mem,hk⟩)
    obtain ⟨j,hj⟩ := List.mem_iff_getElem?.mp ((hmem cur).mpr ⟨h.cur_mem,h.sameIdentity.symm.trans hk⟩)
    have hij : i < j := by
      by_contra hle
      have hprev := h.lt
      rcases Nat.lt_or_eq_of_le (not_lt.mp hle) with hji | rfl
      · have hback := hlt hj hi hji
        simp only [Int64.lt_iff_toInt_lt] at hprev hback
        omega
      · rw [Option.some.inj (hi.symm.trans hj),Int64.lt_iff_toInt_lt] at hprev
        omega
    refine ⟨i,hi,?_⟩
    by_cases hnext : j = i+1
    · rw [← hnext]
      exact hj
    · -- Else the row after the first one stands between the two.
      obtain ⟨hjlen,-⟩ := List.getElem?_eq_some_iff.mp hj
      have hmid := List.getElem?_eq_getElem (show i+1 < ordered.length by omega)
      have hrow := (hmem _).mp (List.mem_of_getElem? hmid)
      exact absurd ⟨hlt hi hmid (by omega),hlt hmid hj (by omega)⟩
        (h.between _ hrow.1 (hrow.2.trans hk.symm))
  · rintro ⟨i,hi,hj⟩
    have hprev := (hmem prev).mp (List.mem_of_getElem? hi)
    have hcur := (hmem cur).mp (List.mem_of_getElem? hj)
    refine ⟨hprev.1,hcur.1,hprev.2.trans hcur.2.symm,hlt hi hj (by omega),fun row hrow hkey => ?_⟩
    obtain ⟨n,hn⟩ := List.mem_iff_getElem?.mp ((hmem row).mpr ⟨hrow,hkey.trans hk⟩)
    rintro ⟨hafter,hbefore⟩
    simp only [Int64.lt_iff_toInt_lt] at hafter hbefore
    rcases Nat.lt_trichotomy n i with hni | rfl | hin
    · have h := hlt hn hi hni
      rw [Int64.lt_iff_toInt_lt] at h
      omega
    · rw [Option.some.inj (hn.symm.trans hi)] at hafter
      omega
    · rcases Nat.lt_or_eq_of_le (Nat.succ_le_of_lt hin) with hnj | rfl
      · have h := hlt hj hn hnj
        rw [Int64.lt_iff_toInt_lt] at h
        omega
      · rw [Option.some.inj (hn.symm.trans hj)] at hbefore
        omega

theorem exactDifference_iff (h : sortTs prev < sortTs cur) :
    ExactDifference prev cur ↔ (sortTs cur).toInt - (sortTs prev).toInt < 2^63 := by
  rw [Int64.lt_iff_toInt_lt] at h
  rw [ExactDifference]
  constructor
  · intro heq
    rw [← heq]
    exact Int64.toInt_lt _
  · intro hfits
    rw [Int64.toInt_sub]
    exact Int.bmod_eq_of_le (by omega) (by omega)

theorem seriesFor_section (h : UniqueTimes identity rows) (hk : k ∈ sectionKeys identity rows) :
    let ordered := timeOrdered (rowsOf identity rows k)
    let series := ordered.map fun row => (sortTs row,row)
    SeriesFor identity cumulative rows gaps k
      ⟨identityValues identity series,cumulative.map fun name => ⟨name,foldColumn series name gaps⟩⟩
      ordered := by
  intro ordered series
  have hperm : ordered.Perm (rowsOf identity rows k) := timeOrdered_perm _
  refine ⟨hperm,timeOrdered_ascending (h.rowsOf k),?_,by simp [Function.comp_def],fun column hcolumn => ?_⟩
  · obtain ⟨row,hrow,hkey⟩ := mem_sectionKeys.mp hk
    have hmem : row ∈ ordered := hperm.mem_iff.mpr (List.mem_filter.mpr ⟨hrow,decide_eq_true hkey⟩)
    cases hfirst : ordered with
    | nil =>
      rw [hfirst] at hmem
      cases hmem
    | cons first rest =>
      refine ⟨first,rfl,?_⟩
      change identityValues identity (ordered.map _) = _
      rw [hfirst]
      rfl
  · obtain ⟨name,_,rfl⟩ := List.mem_map.mp hcolumn
    exact foldColumn_points ordered

/-- Exact differences are those of neighbours that fit. -/
theorem FoldedDiff.neighboursFit (h : FoldedDiff identity cumulative rows gaps) :
    NeighboursFit identity cumulative rows gaps := by
  intro prev cur hneighbours hgap ⟨name,hname,hp,hc⟩
  obtain ⟨keys,_,hkeys,hseries⟩ := h.series
  have hmem := (hkeys _).mpr ⟨prev,hneighbours.prev_mem,rfl⟩
  obtain ⟨n,hn,hget⟩ := List.mem_iff_getElem.mp hmem
  have hn' : n < (diffSection identity cumulative rows gaps).length := hseries.length_eq ▸ hn
  obtain ⟨ordered,hfor,hexact⟩ := hseries.get hn hn'
  rw [List.get_eq_getElem,hget] at hfor
  obtain ⟨i,hi,hj⟩ := (neighbours_iff hfor.rows hfor.ascending rfl).mp hneighbours
  exact (exactDifference_iff hneighbours.lt).mp (hexact i prev cur hi hj hgap name hname hp hc)

/-- Diff folding is order independent and complete; its time differences are exact where
neighbours are less than 2^63 microseconds apart, and only there. -/
theorem diff_folding_iff (h : UniqueTimes identity rows) :
    FoldedDiff identity cumulative rows gaps ↔ NeighboursFit identity cumulative rows gaps := by
  constructor
  · exact FoldedDiff.neighboursFit
  · intro hfit
    refine ⟨fun rows' hperm => diffSection_perm h hperm,sectionKeys identity rows,
      sectionKeys_ascending,fun k => mem_sectionKeys,?_⟩
    rw [diffSection_eq,List.forall₂_map_right_iff,List.forall₂_same]
    intro k hk
    have hfor : SeriesFor identity cumulative rows gaps k _ _ := seriesFor_section h hk
    refine ⟨_,hfor,fun i prev cur hi hj hgap name hname hp hc => ?_⟩
    have hprev := hfor.rows.mem_iff.mp (List.mem_of_getElem? hi)
    have hneighbours := (neighbours_iff hfor.rows hfor.ascending
      (of_decide_eq_true (List.mem_filter.mp hprev).2)).mpr ⟨i,hi,hj⟩
    exact (exactDifference_iff hneighbours.lt).mpr (hfit prev cur hneighbours hgap ⟨name,hname,hp,hc⟩)

end Fold

/-- Rows of one identity at the first and at the zero time stamp: a row without a readable time
stands at the first one. -/
def farRows : List OutRow :=
  [[("ts",.ts 0),("id",.i64 1),("n",.i64 112)],[("ts",.null),("id",.i64 1),("n",.i64 100)]]

/-- The counter grew, but the time difference overflows and the point counts as an anomaly. -/
theorem diff_folding_overflow :
    UniqueTimes ["id"] farRows ∧ ¬FoldedDiff ["id"] ["n"] farRows [] ∧
    diffSection ["id"] ["n"] farRows [] =
      [⟨[.i64 1],[⟨"n",[⟨Int64.minValue,.noData .firstPoint⟩,⟨0,.noData .anomaly⟩]⟩]⟩] := by
  refine ⟨by unfold UniqueTimes; decide,fun h => ?_,by decide⟩
  have hneighbours : Neighbours ["id"] farRows [("ts",.null),("id",.i64 1),("n",.i64 100)]
      [("ts",.ts 0),("id",.i64 1),("n",.i64 112)] :=
    ⟨by decide,by decide,by decide,by decide,by decide⟩
  have hfits := h.neighboursFit _ _ hneighbours (by simp) ⟨"n",by simp,by decide,by decide⟩
  exact absurd hfits (by decide)

theorem diff_folding_near : FoldedDiff ["id"] ["n"]
      [[("ts",.ts 2000000),("id",.i64 1),("n",.i64 112)],[("ts",.ts 0),("id",.i64 1),("n",.i64 100)]] [] ↔
    NeighboursFit ["id"] ["n"]
      [[("ts",.ts 2000000),("id",.i64 1),("n",.i64 112)],[("ts",.ts 0),("id",.i64 1),("n",.i64 100)]] [] :=
  diff_folding_iff (by unfold UniqueTimes; decide)

end PgKronika
