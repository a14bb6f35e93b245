import PgKronika.PagePreflight

/-! An admitted Parquet body: the pages the pass has walked tile the byte ranges of its columns, and
no run of the pass reads more page headers than its cap. -/
namespace PgKronika

open ByteCodec CheckedArith KeptState Tiling

/-- A page as its header describes it. -/
structure Page where
  header : PageHeader
  headerLen : ℕ

namespace Page

def compressed (page : Page) : ℕ := page.header.compressedPageSize.toInt.toNat

def uncompressed (page : Page) : ℕ := page.header.uncompressedPageSize.toInt.toNat

/-- The bytes of the page in the body. -/
def size (page : Page) : ℕ := page.headerLen+page.compressed

/-- The bytes of the page when it is decoded. -/
def decoded (page : Page) : ℕ := page.headerLen+page.uncompressed

/-- The values of a data page; other pages hold none of the column's values. -/
def values (page : Page) : ℕ :=
  if page.header.type = .dataPage then
    page.header.dataPageHeader.elim 0 fun data => data.numValues.toInt.toNat
  else if page.header.type = .dataPageV2 then
    page.header.dataPageHeaderV2.elim 0 fun data => data.numValues.toInt.toNat
  else 0

end Page

/-- The page is what the reader finds at the position, and it ends within the column. -/
structure PageAt (reader : CompactRead PageHeader) (body : Bytes) (stop offset : ℕ) (page : Page) :
    Prop where
  read : ∃ s, reader (.new (slice body offset (stop-offset))) = (.ok page.header,s) ∧
    page.headerLen+s.remainingLen = (slice body offset (stop-offset)).length ∧ s.nesting = 0
  header : 0 < page.headerLen
  compressed : (page.compressed : ℤ) = page.header.compressedPageSize.toInt
  uncompressed : (page.uncompressed : ℤ) = page.header.uncompressedPageSize.toInt
  stop : offset+page.size ≤ stop

/-- The pages follow each other from the first position to the last. -/
def Paged (reader : CompactRead PageHeader) (body : Bytes) (stop : ℕ) : ℕ → List Page → ℕ → Prop
  | offset, [], last => offset = last
  | offset, page::pages, last => PageAt reader body stop offset page ∧
    Paged reader body stop (offset+page.size) pages last

def pageSpans : ℕ → List Page → List (ℕ × ℕ)
  | _, [] => []
  | offset, page::pages => (offset,offset+page.size)::pageSpans (offset+page.size) pages

section Pages

variable {reader : CompactRead PageHeader} {body : Bytes} {stop offset last : ℕ} {pages : List Page}

theorem Paged.tiles (h : Paged reader body stop offset pages last) :
    Tiles offset (pageSpans offset pages) [] last := by
  induction pages generalizing offset with
  | nil =>
    obtain rfl : offset = last := h
    exact .nil offset
  | cons page pages ih =>
    have hpos : 0 < page.size := Nat.add_pos_left h.1.header _
    exact .left (by omega) (ih h.2)

/-- A reader that works through the protocol leaves what stands behind the header. -/
theorem PageAt.payload {page : Page} (h : PageAt reader body stop offset page)
    (hreader : DrivesProtocol reader) : ∃ s,
      reader (.new (slice body offset (stop-offset))) = (.ok page.header,s) ∧
      s.remaining = (slice body offset (stop-offset)).drop page.headerLen := by
  obtain ⟨s,hread,hlen,-⟩ := h.read
  have hwithin := hreader.within (slice body offset (stop-offset))
  rw [hread] at hwithin
  refine ⟨s,hread,(List.suffix_iff_eq_drop.mp hwithin.remaining).trans ?_⟩
  rw [BoundedCompactInput.remainingLen] at hlen
  rw [← hlen,Nat.add_sub_cancel]

theorem checkedNonnegative_ok {raw : ℤ} {n : ℕ} (h : checkedNonnegative raw = .ok n) :
    n = raw.toNat ∧ (raw.toNat : ℤ) = raw := by
  rw [checkedNonnegative] at h
  split at h
  · exact ⟨(Except.ok.inj h).symm,Int.toNat_of_nonneg ‹_›⟩
  · cases h

theorem checkedWork_ok {total add max next : ℕ} (h : checkedWork total add max = .ok next) :
    next = total+add := by
  rw [checkedWork] at h
  split at h
  · next hsum => exact (Except.ok.inj h).symm.trans (checkedAdd_eq_some.mp hsum).1.symm
  · cases h

theorem addWork_ok {total add max next : ℕ} (h : addWork total add max = .ok next) :
    next = total+add ∧ next ≤ max := by
  obtain ⟨sum,hsum,h⟩ := bind_ok h
  split at h
  · cases h
  · obtain rfl := Except.ok.inj h
    exact ⟨checkedWork_ok hsum,by omega⟩

theorem addPageValues_ok {total count : ℕ} {raw : Int32} (h : addPageValues total raw = .ok count) :
    count = total+raw.toInt.toNat := by
  obtain ⟨values,hvalues,h⟩ := bind_ok h
  obtain ⟨rfl,-⟩ := checkedNonnegative_ok hvalues
  split at h
  · next hsum =>
    rw [← Except.ok.inj h]
    exact (checkedAdd_eq_some.mp (Option.filter_eq_some_iff.mp hsum).1).1.symm
  · cases h

theorem readPageHeader_ok {bytes : Bytes} {m : MeasuredHeader}
    (h : readPageHeader reader bytes = .ok m) :
    ∃ s, reader (.new bytes) = (.ok m.header,s) ∧ m.len+s.remainingLen = bytes.length ∧
      s.nesting = 0 := by
  rw [readPageHeader] at h
  split at h
  · cases h
  · next header s hread =>
    split at h
    · cases h
    · next len hlen =>
      obtain ⟨hle,rfl⟩ := checkedSub_eq_some.mp hlen
      split at h
      · next hs =>
        cases h
        exact ⟨s,hread,Nat.sub_add_cancel hle,hs.2⟩
      · cases h

theorem validateDataPage_ok {header : PageHeader} {allowDictionary : Bool} {total next : ℕ}
    (h : validateDataPage header allowDictionary total = .ok next) :
    next = total+header.dataPageHeader.elim 0 fun data => data.numValues.toInt.toNat := by
  rw [validateDataPage] at h
  split at h
  · cases h
  · next page hpage =>
    obtain ⟨-,-,h⟩ := bind_ok h
    obtain ⟨-,-,h⟩ := bind_ok h
    obtain ⟨-,-,h⟩ := bind_ok h
    rw [(Option.filter_eq_some_iff.mp hpage).1]
    exact addPageValues_ok h

theorem validateDataPageV2_ok {header : PageHeader} {uncompressed compressed : ℕ}
    {allowDictionary : Bool} {total next : ℕ}
    (h : validateDataPageV2 header uncompressed compressed allowDictionary total = .ok next) :
    next = total+header.dataPageHeaderV2.elim 0 fun data => data.numValues.toInt.toNat := by
  rw [validateDataPageV2] at h
  split at h
  · cases h
  · next page hpage =>
    obtain ⟨-,-,h⟩ := bind_ok h
    obtain ⟨values,-,h⟩ := bind_ok h
    obtain ⟨nulls,-,h⟩ := bind_ok h
    obtain ⟨rows,-,h⟩ := bind_ok h
    obtain ⟨definition,-,h⟩ := bind_ok h
    obtain ⟨repetition,-,h⟩ := bind_ok h
    rw [(Option.filter_eq_some_iff.mp hpage).1]
    split at h
    · cases h
    · split at h
      · cases h
      · exact addPageValues_ok h

/-- A page adds its values to those of the column. -/
theorem validatePageHeader_ok {page : Page} {uncompressed compressed total : ℕ}
    {sawDictionary allowDictionary : Bool} {seen : ℕ × Bool}
    (h : validatePageHeader page.header uncompressed compressed total sawDictionary allowDictionary =
      .ok seen) : seen.1 = total+page.values := by
  rw [validatePageHeader] at h
  by_cases hdata : page.header.type = .dataPage
  · rw [if_pos hdata] at h
    obtain ⟨values,hvalues,rfl⟩ := map_ok h
    rw [Page.values,if_pos hdata]
    exact validateDataPage_ok hvalues
  · by_cases hv2 : page.header.type = .dataPageV2
    · rw [if_neg hdata,if_pos hv2] at h
      obtain ⟨values,hvalues,rfl⟩ := map_ok h
      rw [Page.values,if_neg hdata,if_pos hv2]
      exact validateDataPageV2_ok hvalues
    · rw [if_neg hdata,if_neg hv2] at h
      rw [Page.values,if_neg hdata,if_neg hv2]
      split at h
      · obtain ⟨-,-,rfl⟩ := map_ok h
        rfl
      · split at h
        · split at h
          · cases h
          · cases h
            rfl
        · cases h

theorem advancePage_ok {m : MeasuredHeader} {compressed : ℕ}
    {next : { next : ℕ // offset < next ∧ next ≤ stop }}
    (h : advancePage offset m compressed stop = .ok next) : next.1 = offset+m.len+compressed := by
  unfold advancePage at h
  split at h
  · cases h
  · next after hnext =>
    split at h
    · obtain ⟨behind,hbehind,hsum⟩ := Option.bind_eq_some_iff.mp hnext
      rw [← Except.ok.inj h,(checkedAdd_eq_some.mp hbehind).1,(checkedAdd_eq_some.mp hsum).1]
    · cases h

variable {maxDecodedBytes : ℕ} {allowDictionary : Bool} {column : ColumnRange} {c : ColumnWalk}
  {w w' : PageWalk}

theorem countPage_ok (h : countPage offset w = (.ok (),w')) : w'.pageWork = w.pageWork := by
  unfold countPage at h
  split at h <;> cases h
  rfl

theorem addPageWork_ok {decoded max : ℕ} (h : addPageWork decoded max w = (.ok (),w')) :
    w'.pageWork = w.pageWork+decoded ∧ w'.pageWork ≤ max := by
  unfold addPageWork at h
  split at h
  · next work hwork =>
    cases h
    exact addWork_ok hwork
  · cases h

/-- A round of the page loop that succeeds has found one page, and has added it up. -/
theorem walkPage_ok {next : c.Next column.stop}
    (h : walkPage reader body maxDecodedBytes allowDictionary column c w = (.ok next,w')) :
    ∃ page, PageAt reader body column.stop c.offset page ∧ next.1.offset = c.offset+page.size ∧
      next.1.columnWork = c.columnWork+page.decoded ∧
      next.1.dataValues = c.dataValues+page.values ∧ w'.pageWork = w.pageWork+page.decoded := by
  obtain ⟨_,w₁,hcount,h⟩ := bind_eq_ok.mp h
  obtain ⟨m,hread,h⟩ := lift_bind_eq_ok.mp h
  obtain ⟨compressed,hcompressed,h⟩ := lift_bind_eq_ok.mp h
  obtain ⟨uncompressed,huncompressed,h⟩ := lift_bind_eq_ok.mp h
  obtain ⟨sawData,-,h⟩ := lift_bind_eq_ok.mp h
  obtain ⟨decoded,hdecoded,h⟩ := lift_bind_eq_ok.mp h
  obtain ⟨columnWork,hcolumn,h⟩ := lift_bind_eq_ok.mp h
  obtain ⟨_,w₂,hwork,h⟩ := bind_eq_ok.mp h
  obtain ⟨seen,hseen,h⟩ := lift_bind_eq_ok.mp h
  obtain ⟨behind,hbehind,h⟩ := lift_bind_eq_ok.mp h
  cases h
  obtain ⟨rfl,hstored⟩ := checkedNonnegative_ok hcompressed
  obtain ⟨rfl,hplain⟩ := checkedNonnegative_ok huncompressed
  obtain ⟨s,hs,hlen,hnesting⟩ := readPageHeader_ok hread
  let page : Page := ⟨m.header,m.len⟩
  have hoffset : behind.1 = c.offset+page.size := by
    rw [advancePage_ok hbehind,Nat.add_assoc]
    rfl
  have hdecoded : decoded = page.decoded := checkedWork_ok hdecoded
  have hvalues : seen.1 = c.dataValues+page.values := validatePageHeader_ok hseen
  refine ⟨page,⟨⟨s,hs,hlen,hnesting⟩,Nat.pos_of_ne_zero m.len_ne_zero,hstored,hplain,?_⟩,
    hoffset,?_,hvalues,?_⟩
  · exact hoffset ▸ behind.2.2
  · rw [← hdecoded]
    exact checkedWork_ok hcolumn
  · rw [(addPageWork_ok hwork).1,countPage_ok hcount,hdecoded]

/-- The pages a loop has walked, from where it began to where it stands. -/
structure Walked (reader : CompactRead PageHeader) (body : Bytes) (stop : ℕ) (c : ColumnWalk)
    (w : PageWalk) (pages : List Page) (c' : ColumnWalk) (w' : PageWalk) : Prop where
  paged : Paged reader body stop c.offset pages c'.offset
  columnWork : c'.columnWork = c.columnWork+(pages.map Page.decoded).sum
  dataValues : c'.dataValues = c.dataValues+(pages.map Page.values).sum
  pageWork : w'.pageWork = w.pageWork+(pages.map Page.decoded).sum

theorem walkPages_ok {c' : ColumnWalk}
    (h : walkPages reader body maxDecodedBytes allowDictionary column c w = (.ok c',w')) :
    ∃ pages, Walked reader body column.stop c w pages c' w' := by
  induction c using walkPages.induct column generalizing w with
  | case1 c hlt ih =>
    rw [walkPages,if_pos hlt] at h
    obtain ⟨next,w₁,hpage,h⟩ := bind_eq_ok.mp h
    obtain ⟨page,hat,hoffset,hwork,hvalues,htotal⟩ := walkPage_ok hpage
    obtain ⟨pages,hpages⟩ := ih next h
    refine ⟨page::pages,⟨hat,hoffset ▸ hpages.paged⟩,?_,?_,?_⟩
    · rw [hpages.columnWork,hwork,List.map_cons,List.sum_cons,Nat.add_assoc]
    · rw [hpages.dataValues,hvalues,List.map_cons,List.sum_cons,Nat.add_assoc]
    · rw [hpages.pageWork,htotal,List.map_cons,List.sum_cons,Nat.add_assoc]
  | case2 c hlt =>
    rw [walkPages,if_neg hlt] at h
    cases h
    exact ⟨[],rfl,by simp,by simp,by simp⟩

/-- The pages of a column fill its range, and hold what it declares. -/
structure ColumnPages (reader : CompactRead PageHeader) (body : Bytes) (column : ColumnRange)
    (pages : List Page) : Prop where
  paged : Paged reader body column.stop column.start pages column.stop
  decoded : (pages.map Page.decoded).sum = column.declared
  values : (pages.map Page.values).sum = column.values

theorem checkColumn_ok (h : checkColumn column c = .ok ()) :
    c.offset = column.stop ∧ c.columnWork = column.declared ∧ c.dataValues = column.values := by
  rw [checkColumn] at h
  split at h
  · cases h
  · simp_all

theorem walkColumn_ok
    (h : walkColumn reader body maxDecodedBytes allowDictionary column w = (.ok (),w')) :
    (∃ pages, ColumnPages reader body column pages) ∧ w'.pageWork = w.pageWork+column.declared := by
  obtain ⟨c,w₁,hpages,h⟩ := bind_eq_ok.mp h
  obtain ⟨pages,hwalked⟩ := walkPages_ok hpages
  cases hcheck : checkColumn column c with
  | error e =>
    rw [hcheck] at h
    cases h
  | ok =>
    rw [hcheck] at h
    cases h
    obtain ⟨hoffset,hwork,hvalues⟩ := checkColumn_ok hcheck
    have hdecoded : (pages.map Page.decoded).sum = column.declared := by
      rw [← hwork,hwalked.columnWork]
      exact (Nat.zero_add _).symm
    refine ⟨⟨pages,hoffset ▸ hwalked.paged,hdecoded,?_⟩,?_⟩
    · rw [← hvalues,hwalked.dataValues]
      exact (Nat.zero_add _).symm
    · rw [hwalked.pageWork,hdecoded]

theorem walkColumns_ok {ranges : List ColumnRange}
    (h : walkColumns reader body maxDecodedBytes allowDictionary ranges w = (.ok (),w')) :
    (∀ column ∈ ranges, ∃ pages, ColumnPages reader body column pages) ∧
      w'.pageWork = w.pageWork+(ranges.map ColumnRange.declared).sum := by
  induction ranges generalizing w with
  | nil =>
    cases h
    simp
  | cons column ranges ih =>
    rw [walkColumns,List.foldlM_cons] at h
    obtain ⟨_,w₁,hcolumn,h⟩ := bind_eq_ok.mp h
    obtain ⟨hpages,hwork⟩ := walkColumn_ok hcolumn
    obtain ⟨hrest,htotal⟩ := ih h
    refine ⟨List.forall_mem_cons.mpr ⟨hpages,hrest⟩,?_⟩
    rw [htotal,hwork,List.map_cons,List.sum_cons,Nat.add_assoc]

end Pages

section Reads

/-- The headers have been read at ascending positions between the two, no more of them than the
cap. -/
structure ReadsWithin (lo hi : ℕ) (w : PageWalk) : Prop where
  count : w.reads.length = w.pageCount
  cap : w.pageCount ≤ maxSectionRows
  ascending : w.reads.Pairwise (· < ·)
  inside : ∀ offset ∈ w.reads, lo ≤ offset ∧ offset < hi

variable {reader : CompactRead PageHeader} {body : Bytes} {maxDecodedBytes lo hi : ℕ}
  {allowDictionary : Bool} {column : ColumnRange} {c : ColumnWalk}

theorem ReadsWithin.start : ReadsWithin lo hi .start :=
  ⟨rfl,Nat.zero_le _,.nil,by simp [PageWalk.start]⟩

theorem ReadsWithin.mono {hi' : ℕ} {w : PageWalk} (h : ReadsWithin lo hi w) (hle : hi ≤ hi') :
    ReadsWithin lo hi' w :=
  { h with inside := fun offset hmem => ⟨(h.inside offset hmem).1,(h.inside offset hmem).2.trans_le hle⟩ }

theorem countPage_reads {offset : ℕ} (hlo : lo ≤ offset) :
    Triple (ReadsWithin lo offset) (countPage offset) (fun _ => ReadsWithin lo (offset+1))
      (ReadsWithin lo (offset+1)) := by
  intro w hw
  unfold countPage
  cases hcount : (checkedAdd w.pageCount 1).filter (· ≤ maxSectionRows) with
  | none => exact hw.mono (Nat.le_succ offset)
  | some count =>
    obtain ⟨hsum,hcap⟩ := Option.filter_eq_some_iff.mp hcount
    refine ⟨?_,by simpa using hcap,?_,?_⟩
    · rw [List.length_append,hw.count]
      exact (checkedAdd_eq_some.mp hsum).1
    · exact List.pairwise_append.mpr ⟨hw.ascending,List.pairwise_singleton _ _,
        fun a ha b hb => List.mem_singleton.mp hb ▸ (hw.inside a ha).2⟩
    · intro position hmem
      rcases List.mem_append.mp hmem with hmem | hmem
      · exact (hw.mono (Nat.le_succ offset)).inside position hmem
      · obtain rfl := List.mem_singleton.mp hmem
        exact ⟨hlo,Nat.lt_succ_self _⟩

theorem lift_reads {α : Type} (x : Except PreflightError α) :
    Triple (ReadsWithin lo hi) (lift x) (fun _ => ReadsWithin lo hi) (ReadsWithin lo hi) :=
  Triple.lift fun _ hw => ⟨hw,fun _ _ => hw⟩

theorem addPageWork_reads (decoded max : ℕ) :
    Triple (ReadsWithin lo hi) (addPageWork decoded max) (fun _ => ReadsWithin lo hi)
      (ReadsWithin lo hi) := by
  intro w hw
  unfold addPageWork
  cases addWork w.pageWork decoded max with
  | error e => exact hw
  | ok work => exact { hw with }

/-- A round of the loop reads one header, where it stands. -/
theorem walkPage_reads (hlo : lo ≤ c.offset) :
    Triple (ReadsWithin lo c.offset) (walkPage reader body maxDecodedBytes allowDictionary column c)
      (fun next => ReadsWithin lo next.1.offset) (ReadsWithin lo (c.offset+1)) := by
  refine (countPage_reads hlo).bind fun _ => (lift_reads _).bind fun m => (lift_reads _).bind fun _ =>
    (lift_reads _).bind fun _ => (lift_reads _).bind fun _ => (lift_reads _).bind fun _ =>
    (lift_reads _).bind fun _ => (addPageWork_reads _ _).bind fun _ => (lift_reads _).bind fun seen =>
    (lift_reads _).bind fun next => ?_
  exact fun w hw => hw.mono next.2.1

theorem walkPages_reads (hlo : lo ≤ c.offset) (hstop : c.offset ≤ column.stop) :
    Triple (ReadsWithin lo c.offset) (walkPages reader body maxDecodedBytes allowDictionary column c)
      (fun _ => ReadsWithin lo column.stop) (ReadsWithin lo column.stop) := by
  induction c using walkPages.induct column with
  | case1 c hlt ih =>
    rw [walkPages,if_pos hlt]
    refine Triple.bind ((walkPage_reads hlo).weaken (fun _ => id) (fun _ _ => id)
      fun _ hw => hw.mono hlt) fun next => ?_
    exact ih next (hlo.trans next.2.1.le) next.2.2
  | case2 c hlt =>
    rw [walkPages,if_neg hlt]
    exact fun w hw => hw.mono hstop

theorem walkColumn_reads (hlo : lo ≤ column.start) (hstop : column.start ≤ column.stop) :
    Triple (ReadsWithin lo column.start)
      (walkColumn reader body maxDecodedBytes allowDictionary column)
      (fun _ => ReadsWithin lo column.stop) (ReadsWithin lo column.stop) :=
  (walkPages_reads (c := column.begin) hlo hstop).bind fun _ => lift_reads _

/-- Over columns that follow each other, the positions keep ascending. -/
theorem walkColumns_reads {ranges : List ColumnRange} {position : ℕ}
    (hapart : ranges.Pairwise fun a b => a.stop ≤ b.start)
    (hranges : ∀ column ∈ ranges, lo ≤ column.start ∧ column.start < column.stop ∧
      position ≤ column.start ∧ column.stop ≤ hi) (hposition : position ≤ hi) :
    Triple (ReadsWithin lo position)
      (walkColumns reader body maxDecodedBytes allowDictionary ranges)
      (fun _ => ReadsWithin lo hi) (ReadsWithin lo hi) := by
  induction ranges generalizing position with
  | nil => exact fun w hw => hw.mono hposition
  | cons column ranges ih =>
    obtain ⟨hlo,hlt,hbehind,hstop⟩ := hranges column (by simp)
    rw [List.pairwise_cons] at hapart
    rw [walkColumns,List.foldlM_cons]
    refine Triple.bind ((walkColumn_reads hlo hlt.le).weaken (fun w hw => hw.mono hbehind)
      (fun _ _ => id) fun w hw => hw.mono hstop) fun _ => ?_
    refine ih hapart.2 (fun next hmem => ?_) hstop
    obtain ⟨hlo',hlt',-,hstop'⟩ := hranges next (List.mem_cons_of_mem column hmem)
    exact ⟨hlo',hlt',hapart.1 next hmem,hstop'⟩

end Reads

end PgKronika
