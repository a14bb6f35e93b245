import Mathlib
import PgKronika.KeysetPaging
import PgKronika.OrderedMap
import PgKronika.QueryCursor

/-! Pages of one logical section: rows in the total order of the section, cut behind the
row that a cursor pins. -/
namespace PgKronika

open KeysetPaging

/-- The union of all layout versions sharing one name. -/
structure LogicalSection where
  columns : List String
  sortKey : List String
  nodup : columns.Nodup
  width : columns.length < 2^64

structure SectionPage where
  sectionName : String
  rows : List OutRow
  gaps : List Gap
  nextCursor : Option Cursor
  deriving DecidableEq

def rowValue (row : OutRow) (name : String) : Value :=
  ((row.find? fun cell => cell.1 = name).map Prod.snd).getD .null

/-- The first difference of two rows in the given columns. -/
def compareColumns : List String → OutRow → OutRow → Ordering
  | [], _, _ => .eq
  | name::rest, a, b =>
    (compareValues (rowValue a name) (rowValue b name)).then (compareColumns rest a b)

def compareBySortKey (a b : OutRow) (sortKey : List String) : Ordering :=
  compareColumns sortKey a b

/-- Sort key first, then the remaining union columns. -/
def compareFull (columns sortKey : List String) (a b : OutRow) : Ordering :=
  (compareBySortKey a b sortKey).then
    (compareColumns (columns.filter fun column => ¬ column ∈ sortKey) a b)

def LogicalSection.compare (logical : LogicalSection) : OutRow → OutRow → Ordering :=
  compareFull logical.columns logical.sortKey

def LogicalSection.sort (logical : LogicalSection) (rows : List OutRow) : List OutRow :=
  rows.mergeSort fun a b => (logical.compare a b).isLE

/-- The page of one section behind a cursor. The rows are sorted, so the partition point
of the cursor is where the first greater row stands. -/
def sectionPage (name : String) (logical : LogicalSection) (rows : List OutRow)
    (gaps : List Gap) (cursor : Option Cursor) (limit : ℕ) : SectionPage :=
  let rows := logical.sort rows
  let rows := match cursor with
    | none => rows
    | some cursor =>
      let cursorRow := logical.columns.zip cursor.values
      rows.dropWhile fun row => logical.compare row cursorRow ≠ Ordering.gt
  let hasMore := limit < rows.length
  let rows := rows.take limit
  let nextCursor := if hasMore then rows.getLast?.map fun row => ⟨row.map Prod.snd⟩ else none
  ⟨name,rows,gaps,nextCursor⟩

def finishPages (requested : List (String × LogicalSection)) (buffers : List (List OutRow))
    (gaps : List Gap) (cursors : OrderedMap String Cursor) (limit : ℕ) :
    OrderedMap String SectionPage :=
  (requested.zip buffers).foldl (fun pages ((name,logical),rows) =>
    pages.insert name (sectionPage name logical rows gaps (cursors.lookup name) limit)) .empty

/-- The paging of a windowed query, once its rows and coverage gaps are gathered. -/
def sectionsWithLimits (requested : List (String × LogicalSection))
    (gathered : List (List OutRow) × List Gap) (cursors : OrderedMap String Cursor)
    (rowLimit : ℕ) : OrderedMap String SectionPage :=
  finishPages requested gathered.1 gathered.2 cursors rowLimit

def cursorMap (name : String) : Option Cursor → OrderedMap String Cursor
  | none => .empty
  | some cursor => OrderedMap.empty.insert name cursor

/-- A query for the next page, repeated with the cursor of each page until there is none.
Every cursor passes through its text form. -/
def followPages (query : Option Cursor → Option SectionPage) :
    ℕ → Option Cursor → Option (List SectionPage)
  | 0, _ => none
  | fuel+1, cursor =>
    match query cursor with
    | none => none
    | some page =>
      match page.nextCursor with
      | none => some [page]
      | some next =>
        match Cursor.decode next.encode with
        | .error _ => none
        | .ok next => (followPages query fuel (some next)).map (page :: ·)

/-- The rows that a query gathers for a section: each is built over the union columns, and
the materialization budget bounds every value. -/
structure GatheredRows (logical : LogicalSection) where
  rows : List OutRow
  onColumns : ∀ row ∈ rows, row.map Prod.fst = logical.columns
  fits : ∀ row ∈ rows, ∀ cell ∈ row, cell.2.Fits

instance compareColumns_trans (columns : List String) : Std.TransCmp (compareColumns columns) := by
  induction columns with
  | nil =>
    exact { eq_swap := rfl, isLE_trans := fun _ _ => rfl }
  | cons name rest ih =>
    have h : compareColumns (name::rest) = compareLex
        (fun a b => compareValues (rowValue a name) (rowValue b name)) (compareColumns rest) := rfl
    have hvalue : Std.TransCmp fun a b : OutRow =>
        compareValues (rowValue a name) (rowValue b name) :=
      { eq_swap := Std.OrientedCmp.eq_swap, isLE_trans := Std.TransCmp.isLE_trans }
    rw [h]
    infer_instance

instance (logical : LogicalSection) : Std.TransCmp logical.compare := by
  have h : logical.compare = compareLex (compareColumns logical.sortKey)
      (compareColumns (logical.columns.filter fun column => ¬ column ∈ logical.sortKey)) := rfl
  rw [h]
  infer_instance

theorem compareColumns_eq_iff {columns : List String} {a b : OutRow} :
    compareColumns columns a b = .eq ↔ ∀ name ∈ columns, rowValue a name = rowValue b name := by
  induction columns with
  | nil => simp [compareColumns]
  | cons name rest ih => simp [compareColumns,Ordering.then_eq_eq,compareValues_eq_iff,ih]

theorem find_cell {row : OutRow} (h : (row.map Prod.fst).Nodup) {cell : String × Value}
    (hc : cell ∈ row) : row.find? (fun c => c.1 = cell.1) = some cell := by
  induction row with
  | nil => cases hc
  | cons first rest ih =>
    obtain ⟨hnot,hrest⟩ := List.nodup_cons.mp h
    rcases List.mem_cons.mp hc with rfl | hc
    · exact List.find?_cons_of_pos (by simp)
    · have hne : first.1 ≠ cell.1 := fun he => hnot (he ▸ List.mem_map_of_mem hc)
      rw [List.find?_cons_of_neg (by simpa using hne)]
      exact ih hrest hc

/-- A row over distinct columns is its values in them. -/
theorem row_eq_map {columns : List String} {row : OutRow} (hnodup : columns.Nodup)
    (h : row.map Prod.fst = columns) : row = columns.map fun name => (name,rowValue row name) := by
  subst h
  rw [List.map_map]
  conv_lhs => rw [← List.map_id row]
  refine List.map_congr_left fun cell hcell => ?_
  simp [rowValue,find_cell hnodup hcell]

/-- On rows over the union columns the order is total: only equal rows compare equal. -/
theorem LogicalSection.compare_eq_iff (logical : LogicalSection) {a b : OutRow}
    (ha : a.map Prod.fst = logical.columns) (hb : b.map Prod.fst = logical.columns) :
    logical.compare a b = .eq ↔ a = b := by
  refine ⟨fun h => ?_,fun h => h ▸ Std.ReflCmp.compare_self⟩
  obtain ⟨hkey,hrest⟩ := Ordering.then_eq_eq.mp h
  have hkey := compareColumns_eq_iff.mp hkey
  have hrest := compareColumns_eq_iff.mp hrest
  rw [row_eq_map logical.nodup ha,row_eq_map logical.nodup hb]
  refine List.map_congr_left fun name hname => ?_
  by_cases hsort : name ∈ logical.sortKey
  · rw [hkey name hsort]
  · rw [hrest name (List.mem_filter.mpr ⟨hname,by simpa using hsort⟩)]

section Paging

variable {logical : LogicalSection} (rows : GatheredRows logical)

theorem sort_ascending (rows : List OutRow) : Ascending logical.compare (logical.sort rows) := by
  have htotal : ∀ a b, ((logical.compare a b).isLE || (logical.compare b a).isLE) = true := by
    intro a b
    rw [@Std.OrientedCmp.eq_swap _ logical.compare _ b a]
    cases logical.compare a b <;> rfl
  have h := List.pairwise_mergeSort (fun _ _ _ => Std.TransCmp.isLE_trans) htotal rows
  exact h.imp fun hle => Ordering.ne_gt_iff_isLE.mpr hle

theorem GatheredRows.mem_sort {row : OutRow} :
    row ∈ logical.sort rows.rows ↔ row ∈ rows.rows := List.mem_mergeSort

/-- What a cursor leaves of the sorted rows. -/
def remaining (logical : LogicalSection) (rows : List OutRow) : Option Cursor → List OutRow
  | none => logical.sort rows
  | some cursor => after logical.compare (logical.columns.zip cursor.values) (logical.sort rows)

theorem sectionPage_rows (name : String) (gaps : List Gap) (cursor : Option Cursor) (limit : ℕ) :
    (sectionPage name logical rows.rows gaps cursor limit).rows =
      (remaining logical rows.rows cursor).take limit := by
  cases cursor <;> rfl

theorem sectionPage_nextCursor (name : String) (gaps : List Gap) (cursor : Option Cursor)
    (limit : ℕ) : (sectionPage name logical rows.rows gaps cursor limit).nextCursor =
      if limit < (remaining logical rows.rows cursor).length then
        ((remaining logical rows.rows cursor).take limit).getLast?.map
          fun row => ⟨row.map Prod.snd⟩
      else none := by
  cases cursor <;> rfl

/-- The cursor of a gathered row is that row again, on the columns of the section. -/
theorem GatheredRows.cursorRow {row : OutRow} (h : row ∈ rows.rows) :
    logical.columns.zip (row.map Prod.snd) = row := by
  rw [← rows.onColumns row h]
  exact (List.zip_of_prod rfl rfl).symm

theorem GatheredRows.decode_cursor {row : OutRow} (h : row ∈ rows.rows) :
    Cursor.decode (Cursor.encode ⟨row.map Prod.snd⟩) = .ok ⟨row.map Prod.snd⟩ := by
  refine Cursor.decode_encode ?_ ?_
  · have hlen := congrArg List.length (rows.onColumns row h)
    rw [List.length_map] at hlen ⊢
    rw [hlen]
    exact logical.width
  · intro v hv
    obtain ⟨cell,hcell,rfl⟩ := List.mem_map.mp hv
    exact rows.fits row h cell hcell

/-- Following the cursors walks the pages of the sorted rows. -/
theorem followPages_eq (name : String) (gaps : List Gap) {limit : ℕ} (hlimit : 0 < limit)
    {fuel : ℕ} {cursor : Option Cursor}
    (hfuel : (remaining logical rows.rows cursor).length < fuel)
    (hasc : Ascending logical.compare (remaining logical rows.rows cursor))
    (hsub : (remaining logical rows.rows cursor).Sublist (logical.sort rows.rows))
    (hresume : ∀ c ∈ remaining logical rows.rows cursor,
      after logical.compare c (logical.sort rows.rows) =
        after logical.compare c (remaining logical rows.rows cursor)) :
    ∃ found, followPages (fun cursor => some (sectionPage name logical rows.rows gaps cursor limit))
        fuel cursor = some found ∧
      found.map SectionPage.rows =
        pages logical.compare limit fuel (remaining logical rows.rows cursor) := by
  induction fuel generalizing cursor with
  | zero => omega
  | succ fuel ih =>
    rw [followPages,pages]
    dsimp only
    rw [sectionPage_nextCursor]
    generalize hl : remaining logical rows.rows cursor = l at *
    by_cases hlen : l.length ≤ limit
    · rw [if_neg (by omega),if_pos hlen]
      refine ⟨_,rfl,?_⟩
      rw [List.map_singleton,sectionPage_rows,hl,List.take_of_length_le hlen]
    · have hlt : limit < l.length := by omega
      rw [if_pos hlt,if_neg hlen]
      cases hc : (l.take limit).getLast? with
      | none =>
        rw [getLast?_take hlimit hlt,List.getElem?_eq_none_iff] at hc
        omega
      | some row =>
        have hmem : row ∈ l := List.mem_of_mem_take (List.mem_of_getLast? hc)
        have hrow : row ∈ rows.rows := rows.mem_sort.mp (hsub.subset hmem)
        have hnext : remaining logical rows.rows (some ⟨row.map Prod.snd⟩) =
            after logical.compare row l := by
          rw [remaining,rows.cursorRow hrow,hresume row hmem]
        dsimp only [Option.map_some]
        rw [rows.decode_cursor hrow]
        dsimp only
        have hshort := length_after_lt hlimit hlt (after_take hasc hc)
        obtain ⟨found,hfound,hpages⟩ := @ih (some ⟨row.map Prod.snd⟩)
          (by rw [hnext]; omega) (hnext ▸ hasc.after row)
          (hnext ▸ (after_sublist row l).trans hsub)
          (by
            intro c hmore
            rw [hnext] at hmore ⊢
            rw [after_after hasc hmore]
            exact hresume c ((after_sublist row l).subset hmore))
        refine ⟨_,by rw [hfound]; rfl,?_⟩
        rw [List.map_cons,hpages,sectionPage_rows,hl,hnext]

/-- Following a query from its first page ends, with these rows in order. -/
def Tiles (query : Option Cursor → Option SectionPage) (expected : List OutRow) : Prop :=
  ∃ fuel found, followPages query fuel none = some found ∧
    found.flatMap SectionPage.rows = expected

/-- No two copies of one row stand on both sides of a page boundary. -/
def NoCopyAtBoundary (limit : ℕ) (sorted : List OutRow) : Prop :=
  ∀ i row, 0 < i → ¬ (sorted[i*limit-1]? = some row ∧ sorted[i*limit]? = some row)

theorem GatheredRows.noTie_iff {limit : ℕ} : NoTieAtBoundary logical.compare limit
    (logical.sort rows.rows) ↔ NoCopyAtBoundary limit (logical.sort rows.rows) := by
  have hcols : ∀ {i : ℕ} {row : OutRow}, (logical.sort rows.rows)[i]? = some row →
      row.map Prod.fst = logical.columns := fun h =>
    rows.onColumns _ (rows.mem_sort.mp (List.mem_of_getElem? h))
  constructor
  · rintro h i row hi ⟨ha,hb⟩
    exact h i row row hi ha hb ((logical.compare_eq_iff (hcols ha) (hcols ha)).mpr rfl)
  · intro h i a b hi ha hb htie
    rw [logical.compare_eq_iff (hcols ha) (hcols hb)] at htie
    exact h i a hi ⟨ha,htie ▸ hb⟩

/-- More fuel finds the same pages. -/
theorem followPages_mono {query : Option Cursor → Option SectionPage} {fuel : ℕ}
    {cursor : Option Cursor} {found : List SectionPage}
    (h : followPages query fuel cursor = some found) (more : ℕ) :
    followPages query (fuel+more) cursor = some found := by
  induction fuel generalizing cursor found with
  | zero => cases h
  | succ fuel ih =>
    rw [Nat.add_right_comm,followPages]
    rw [followPages] at h
    cases hq : query cursor with
    | none => rw [hq] at h; cases h
    | some page =>
      rw [hq] at h
      dsimp only at h ⊢
      cases hn : page.nextCursor with
      | none => rw [hn] at h; exact h
      | some next =>
        rw [hn] at h
        dsimp only at h ⊢
        cases hd : Cursor.decode next.encode with
        | error e => rw [hd] at h; cases h
        | ok next =>
          rw [hd] at h
          dsimp only at h ⊢
          obtain ⟨rest,hrest,hfound⟩ := Option.map_eq_some_iff.mp h
          rw [ih hrest,← hfound]
          rfl

/-- The pages of a section tile its sorted rows exactly when no page boundary falls
between two copies of one row. -/
theorem sectionPage_tiles_iff (name : String) (gaps : List Gap) {limit : ℕ}
    (hlimit : 0 < limit) :
    Tiles (fun cursor => some (sectionPage name logical rows.rows gaps cursor limit))
        (logical.sort rows.rows) ↔ NoCopyAtBoundary limit (logical.sort rows.rows) := by
  have hasc : Ascending logical.compare (logical.sort rows.rows) := sort_ascending rows.rows
  obtain ⟨found,hfound,hpages⟩ := @followPages_eq _ rows name gaps _ hlimit _ none
    (Nat.lt_succ_self _) hasc (List.Sublist.refl _) fun _ _ => rfl
  have htile := pages_tile_iff hasc hlimit (Nat.lt_succ_self _)
  have hflat : found.flatMap SectionPage.rows =
      (pages logical.compare limit (remaining logical rows.rows none).length.succ
        (logical.sort rows.rows)).flatten := by
    rw [List.flatMap_def,hpages]
    rfl
  rw [← rows.noTie_iff,← htile]
  constructor
  · rintro ⟨fuel,found',hfound',hrows⟩
    have h := followPages_mono hfound fuel
    have h' := followPages_mono hfound' (remaining logical rows.rows none).length.succ
    rw [Nat.add_comm,h] at h'
    cases h'
    exact hflat.symm.trans hrows
  · intro hall
    exact ⟨_,found,hfound,hflat.trans hall⟩

@[simp] theorem cursorMap_lookup (name : String) (cursor : Option Cursor) :
    (cursorMap name cursor).lookup name = cursor := by
  cases cursor with
  | none => rfl
  | some cursor => exact OrderedMap.lookup_insert_self _ _ _

theorem finishPages_single (name : String) (logical : LogicalSection) (rows : List OutRow)
    (gaps : List Gap) (cursor : Option Cursor) (limit : ℕ) :
    (finishPages [(name,logical)] [rows] gaps (cursorMap name cursor) limit).lookup name =
      some (sectionPage name logical rows gaps cursor limit) := by
  change ((OrderedMap.empty : OrderedMap String SectionPage).insert name _).lookup name = _
  rw [OrderedMap.lookup_insert_self,cursorMap_lookup]

/-- Keyset pages, of a window or of a sealed descriptor, are the rows of the unlimited
query exactly when no page boundary falls between two copies of one row. -/
theorem section_pages_tile_iff (name : String) (gaps : List Gap) {limit : ℕ}
    (hlimit : 0 < limit) :
    (Tiles (fun cursor => (sectionsWithLimits [(name,logical)] ([rows.rows],gaps)
        (cursorMap name cursor) limit).lookup name) (logical.sort rows.rows) ↔
      NoCopyAtBoundary limit (logical.sort rows.rows)) ∧
    (Tiles (fun cursor => (finishPages [(name,logical)] [rows.rows] gaps
        (cursorMap name cursor) limit).lookup name) (logical.sort rows.rows) ↔
      NoCopyAtBoundary limit (logical.sort rows.rows)) := by
  simp only [sectionsWithLimits,finishPages_single]
  exact ⟨sectionPage_tiles_iff rows name gaps hlimit,sectionPage_tiles_iff rows name gaps hlimit⟩

end Paging

def sampleSection : LogicalSection := ⟨["ts"],["ts"],by decide,by decide⟩

/-- Two copies of one row, as two windows of one segment may hold. -/
def sampleRows : GatheredRows sampleSection where
  rows := List.replicate 2 [("ts",.ts 1)]
  onColumns := by decide
  fits := by decide

theorem section_pages_tile_iff_sample :
    0 < 2 ∧
      (Tiles (fun cursor => (sectionsWithLimits [("s",sampleSection)] ([sampleRows.rows],[])
          (cursorMap "s" cursor) 2).lookup "s") (sampleSection.sort sampleRows.rows) ↔
        NoCopyAtBoundary 2 (sampleSection.sort sampleRows.rows)) ∧
      (Tiles (fun cursor => (finishPages [("s",sampleSection)] [sampleRows.rows] []
          (cursorMap "s" cursor) 2).lookup "s") (sampleSection.sort sampleRows.rows) ↔
        NoCopyAtBoundary 2 (sampleSection.sort sampleRows.rows)) :=
  ⟨by decide,section_pages_tile_iff sampleRows "s" [] (by decide)⟩

/-- With one row a page the second copy is skipped. -/
theorem section_pages_skip_copy :
    ¬ Tiles (fun cursor => (sectionsWithLimits [("s",sampleSection)] ([sampleRows.rows],[])
        (cursorMap "s" cursor) 1).lookup "s") (sampleSection.sort sampleRows.rows) ∧
      ¬ Tiles (fun cursor => (finishPages [("s",sampleSection)] [sampleRows.rows] []
        (cursorMap "s" cursor) 1).lookup "s") (sampleSection.sort sampleRows.rows) := by
  have hsorted : sampleSection.sort sampleRows.rows = sampleRows.rows :=
    List.perm_replicate.mp (List.mergeSort_perm _ _)
  have hcopy : ¬ NoCopyAtBoundary 1 (sampleSection.sort sampleRows.rows) := by
    rw [hsorted]
    exact fun h => h 1 [("ts",.ts 1)] one_pos ⟨rfl,rfl⟩
  have hlost := mt (sectionPage_tiles_iff sampleRows "s" [] one_pos).mp hcopy
  simp only [sectionsWithLimits,finishPages_single]
  exact ⟨hlost,hlost⟩

end PgKronika
