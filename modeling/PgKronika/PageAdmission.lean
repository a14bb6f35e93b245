import Mathlib
import PgKronika.PageTiling

/-! What the footer of an admitted Parquet body declares, and that the walk bears it out. -/
namespace PgKronika

open ByteCodec CheckedArith KeptState Tiling

namespace ColumnMetaData

/-- The chunk begins with its dictionary page, when it declares one. -/
def startOffset (column : ColumnMetaData) : Int64 :=
  column.dictionaryPageOffset.getD column.dataPageOffset

def start (column : ColumnMetaData) : ℕ := column.startOffset.toInt.toNat

def stop (column : ColumnMetaData) : ℕ := column.start+column.totalCompressedSize.toInt.toNat

/-- What there is to walk of the chunk. -/
def range (column : ColumnMetaData) : Option ColumnRange :=
  if column.totalCompressedSize.toInt.toNat = 0 then none
  else some ⟨column.start,column.stop,column.dataPageOffset.toInt.toNat,
    column.totalUncompressedSize.toInt.toNat,column.numValues.toInt.toNat,
    column.dictionaryPageOffset.isSome⟩

/-- The chunk's numbers are sizes and positions, and its bytes stand before the metadata. -/
structure Admitted (metadataStart : ℕ) (column : ColumnMetaData) : Prop where
  start : (column.start : ℤ) = column.startOffset.toInt
  stop : (column.stop : ℤ) = column.start+column.totalCompressedSize.toInt
  declared : (column.totalUncompressedSize.toInt.toNat : ℤ) = column.totalUncompressedSize.toInt
  values : (column.numValues.toInt.toNat : ℤ) = column.numValues.toInt
  after : parquetMagic.length ≤ column.start
  before : column.stop ≤ metadataStart
  empty : column.totalCompressedSize.toInt.toNat = 0 →
    column.totalUncompressedSize.toInt.toNat = 0 ∧ column.numValues.toInt.toNat = 0

end ColumnMetaData

def FileMetaData.chunks (metadata : FileMetaData) : List ColumnChunk :=
  metadata.rowGroups.flatMap RowGroup.columns

/-- The chunks' metadata, none of it missing. -/
def Columns (chunks : List ColumnChunk) (columns : List ColumnMetaData) : Prop :=
  chunks.map ColumnChunk.metaData = columns.map some

section Footer

variable {maxDecodedBytes metadataStart : ℕ} {allowDictionary : Bool} {t t' t'' : FooterTotals}
  {xs ys : List ColumnMetaData}

/-- From one state of the totals to another the columns have been admitted. -/
structure Totalled (maxDecodedBytes metadataStart : ℕ) (t : FooterTotals)
    (columns : List ColumnMetaData) (t' : FooterTotals) : Prop where
  admitted : ∀ column ∈ columns, column.Admitted metadataStart
  work : t'.footerWork =
    t.footerWork+(columns.map fun column => column.totalUncompressedSize.toInt.toNat).sum
  ranges : t'.ranges = t.ranges ++ columns.filterMap ColumnMetaData.range
  cap : t.footerWork ≤ maxDecodedBytes → t'.footerWork ≤ maxDecodedBytes

theorem Totalled.refl (hwork : t'.footerWork = t.footerWork) (hranges : t'.ranges = t.ranges) :
    Totalled maxDecodedBytes metadataStart t [] t' :=
  ⟨by simp,by simp [hwork],by simp [hranges],fun h => hwork ▸ h⟩

theorem Totalled.trans (h : Totalled maxDecodedBytes metadataStart t xs t')
    (h' : Totalled maxDecodedBytes metadataStart t' ys t'') :
    Totalled maxDecodedBytes metadataStart t (xs++ys) t'' where
  admitted := fun column hmem => (List.mem_append.mp hmem).elim (h.admitted column) (h'.admitted column)
  work := by rw [h'.work,h.work,List.map_append,List.sum_append,Nat.add_assoc]
  ranges := by rw [h'.ranges,h.ranges,List.filterMap_append,List.append_assoc]
  cap := fun hle => h'.cap (h.cap hle)

theorem columnStart_ok {column : ColumnMetaData} {start : ℕ}
    (h : columnStart column.dictionaryPageOffset column.dataPageOffset.toInt.toNat = .ok start)
    (hdata : (column.dataPageOffset.toInt.toNat : ℤ) = column.dataPageOffset.toInt) :
    start = column.start ∧ (column.start : ℤ) = column.startOffset.toInt := by
  rw [ColumnMetaData.start,ColumnMetaData.startOffset]
  cases hdictionary : column.dictionaryPageOffset with
  | none =>
    rw [hdictionary] at h
    exact ⟨(Except.ok.inj h).symm,hdata⟩
  | some raw =>
    rw [hdictionary] at h
    obtain ⟨dictionaryStart,hstart,h⟩ := bind_ok h
    split at h
    · cases h
    · cases h
      exact checkedNonnegative_ok hstart

theorem columnRange_ok {start compressed dataStart declared values : ℕ} {hasDictionary : Bool}
    {range : Option ColumnRange} (h : columnRange metadataStart start compressed dataStart declared
      values hasDictionary = .ok range) :
    (range = if compressed = 0 then none
      else some ⟨start,start+compressed,dataStart,declared,values,hasDictionary⟩) ∧
    parquetMagic.length ≤ start ∧ start+compressed ≤ metadataStart ∧
    (compressed = 0 → declared = 0 ∧ values = 0) := by
  rw [columnRange] at h
  by_cases hempty : compressed = 0
  · rw [if_pos hempty] at h ⊢
    split at h
    · cases h
    · next hbad =>
      simp only [not_or,not_not,not_lt] at hbad
      obtain ⟨hdeclared,hvalues,-,-,hafter,hbefore⟩ := hbad
      exact ⟨(Except.ok.inj h).symm,hafter,by omega,fun _ => ⟨hdeclared,hvalues⟩⟩
  · rw [if_neg hempty] at h ⊢
    split at h
    · next stop hstop =>
      obtain ⟨hsum,hplace⟩ := Option.filter_eq_some_iff.mp hstop
      obtain ⟨rfl,-⟩ := checkedAdd_eq_some.mp hsum
      simp only [decide_eq_true_eq] at hplace
      exact ⟨(Except.ok.inj h).symm,hplace.1,hplace.2.2.2,fun hzero => absurd hzero hempty⟩
    · cases h

theorem admitColumn_ok {column : ColumnMetaData}
    (h : admitColumn maxDecodedBytes allowDictionary metadataStart t column = .ok t') :
    Totalled maxDecodedBytes metadataStart t [column] t' := by
  obtain ⟨declared,hdeclared,h⟩ := bind_ok h
  obtain ⟨work,hwork,h⟩ := bind_ok h
  obtain ⟨values,hvalues,h⟩ := bind_ok h
  split at h
  · cases h
  obtain ⟨compressed,hcompressed,h⟩ := bind_ok h
  obtain ⟨dataStart,hdataStart,h⟩ := bind_ok h
  split at h
  · cases h
  obtain ⟨start,hstart,h⟩ := bind_ok h
  obtain ⟨range,hrange,h⟩ := bind_ok h
  obtain rfl := Except.ok.inj h
  obtain ⟨rfl,huncompressed⟩ := checkedNonnegative_ok hdeclared
  obtain ⟨rfl,hcount⟩ := checkedNonnegative_ok hvalues
  obtain ⟨rfl,hsize⟩ := checkedNonnegative_ok hcompressed
  obtain ⟨rfl,hdata⟩ := checkedNonnegative_ok hdataStart
  obtain ⟨rfl,hfirst⟩ := columnStart_ok hstart hdata
  obtain ⟨rfl,hafter,hbefore,hempty⟩ := columnRange_ok hrange
  obtain ⟨hsum,hcap⟩ := addWork_ok hwork
  have hstop : (column.stop : ℤ) = column.start+column.totalCompressedSize.toInt := by
    rw [ColumnMetaData.stop,Nat.cast_add,hsize]
  refine ⟨List.forall_mem_singleton.mpr ⟨hfirst,hstop,huncompressed,hcount,hafter,hbefore,hempty⟩,
    by simpa using hsum,?_,fun _ => hcap⟩
  simp only [List.filterMap_cons,List.filterMap_nil,ColumnMetaData.range,ColumnMetaData.stop]
  split_ifs <;> rfl

theorem admitChunks_ok {chunks : List ColumnChunk}
    (h : chunks.foldlM (admitChunk maxDecodedBytes allowDictionary metadataStart) t = .ok t') :
    ∃ columns, Columns chunks columns ∧ Totalled maxDecodedBytes metadataStart t columns t' := by
  induction chunks generalizing t with
  | nil =>
    obtain rfl := Except.ok.inj h
    exact ⟨[],rfl,.refl rfl rfl⟩
  | cons chunk chunks ih =>
    rw [List.foldlM_cons] at h
    obtain ⟨next,hchunk,h⟩ := bind_ok h
    obtain ⟨columns,hcolumns,hrest⟩ := ih h
    rw [admitChunk] at hchunk
    split at hchunk
    · cases hchunk
    · split at hchunk
      · cases hchunk
      · next column hcolumn =>
        refine ⟨column::columns,?_,(admitColumn_ok hchunk).trans hrest⟩
        rw [Columns,List.map_cons,List.map_cons,hcolumn,← hcolumns]

theorem admitGroup_ok {group : RowGroup}
    (h : admitGroup maxDecodedBytes allowDictionary metadataStart t group = .ok t') :
    ∃ columns, Columns group.columns columns ∧
      Totalled maxDecodedBytes metadataStart t columns t' := by
  obtain ⟨groupRows,-,h⟩ := bind_ok h
  split at h
  · cases h
  obtain ⟨groupedRows,-,h⟩ := bind_ok h
  split at h
  · cases h
  obtain ⟨columns,hcolumns,htotal⟩ := admitChunks_ok h
  have hgroup : Totalled maxDecodedBytes metadataStart t [] { t with groupedRows := groupedRows } :=
    .refl rfl rfl
  exact ⟨columns,hcolumns,hgroup.trans htotal⟩

theorem admitGroups_ok {groups : List RowGroup}
    (h : groups.foldlM (admitGroup maxDecodedBytes allowDictionary metadataStart) t = .ok t') :
    ∃ columns, Columns (groups.flatMap RowGroup.columns) columns ∧
      Totalled maxDecodedBytes metadataStart t columns t' := by
  induction groups generalizing t with
  | nil =>
    obtain rfl := Except.ok.inj h
    exact ⟨[],rfl,.refl rfl rfl⟩
  | cons group groups ih =>
    rw [List.foldlM_cons] at h
    obtain ⟨next,hgroup,h⟩ := bind_ok h
    obtain ⟨columns,hcolumns,htotal⟩ := admitGroup_ok hgroup
    obtain ⟨others,hothers,hrest⟩ := ih h
    refine ⟨columns++others,?_,htotal.trans hrest⟩
    rw [Columns,List.flatMap_cons,List.map_append,List.map_append,← hcolumns,← hothers]

theorem ColumnMetaData.range_of_bytes (column : ColumnMetaData)
    (h : column.totalCompressedSize.toInt.toNat ≠ 0) : column.range =
      some ⟨column.start,column.stop,column.dataPageOffset.toInt.toNat,
        column.totalUncompressedSize.toInt.toNat,column.numValues.toInt.toNat,
        column.dictionaryPageOffset.isSome⟩ := if_neg h

theorem ColumnMetaData.range_eq_some {column : ColumnMetaData} {r : ColumnRange}
    (h : column.range = some r) : r = ⟨column.start,column.stop,column.dataPageOffset.toInt.toNat,
      column.totalUncompressedSize.toInt.toNat,column.numValues.toInt.toNat,
      column.dictionaryPageOffset.isSome⟩ ∧ column.start < column.stop := by
  rw [ColumnMetaData.range] at h
  split at h
  · cases h
  · exact ⟨(Option.some.inj h).symm,by rw [ColumnMetaData.stop]; omega⟩

/-- Ranges with bytes of which none runs into the next follow each other. -/
theorem rangesOverlap_apart {ranges : List ColumnRange} (hbytes : ∀ r ∈ ranges, r.start < r.stop)
    (h : rangesOverlap ranges = false) : ranges.Pairwise fun a b => a.stop ≤ b.start := by
  induction ranges with
  | nil => exact .nil
  | cons a rest ih =>
    cases rest with
    | nil => exact List.pairwise_singleton _ a
    | cons b rest =>
      have hsplit : rangesOverlap (a::b::rest) =
          (decide (b.start < a.stop) || rangesOverlap (b::rest)) := rfl
      rw [hsplit,Bool.or_eq_false_iff,decide_eq_false_iff_not,not_lt] at h
      have hrest := ih (List.forall_mem_cons.mp hbytes).2 h.2
      refine .cons (fun r hr => ?_) hrest
      rcases List.mem_cons.mp hr with rfl | hr
      · exact h.1
      · have hb := hbytes b (by simp)
        have hbr := (List.pairwise_cons.mp hrest).1 r hr
        omega

theorem sortRanges_perm (ranges : List ColumnRange) : (sortRanges ranges).Perm ranges :=
  List.perm_insertionSort _ ranges

theorem columns_disjoint
    (h : (sortRanges (xs.filterMap ColumnMetaData.range)).Pairwise fun a b => a.stop ≤ b.start) :
    xs.Pairwise fun a b => Disjoint (Set.Ico a.start a.stop) (Set.Ico b.start b.stop) := by
  have hapart : (xs.filterMap ColumnMetaData.range).Pairwise
      fun a b => a.stop ≤ b.start ∨ b.stop ≤ a.start :=
    ((sortRanges_perm _).pairwise_iff fun {a b} => Or.symm).mp (h.imp Or.inl)
  refine (List.pairwise_filterMap.mp hapart).imp fun {a b} hab => ?_
  rw [Set.Ico_disjoint_Ico]
  by_cases ha : a.totalCompressedSize.toInt.toNat = 0
  · have hstop : a.stop = a.start := by rw [ColumnMetaData.stop,ha,Nat.add_zero]
    omega
  · by_cases hb : b.totalCompressedSize.toInt.toNat = 0
    · have hstop : b.stop = b.start := by rw [ColumnMetaData.stop,hb,Nat.add_zero]
      omega
    · have hplaced := hab _ (a.range_of_bytes ha) _ (b.range_of_bytes hb)
      dsimp only at hplaced
      omega

theorem admitFooter_ok {metadata : FileMetaData} {footer : ℕ × FooterTotals}
    (h : admitFooter maxDecodedBytes allowDictionary metadata metadataStart = .ok footer) :
    ∃ columns, Columns metadata.chunks columns ∧
      Totalled maxDecodedBytes metadataStart ⟨0,0,[]⟩ columns footer.2 ∧
      (sortRanges footer.2.ranges).Pairwise fun a b => a.stop ≤ b.start := by
  obtain ⟨rows,-,h⟩ := bind_ok h
  split at h
  · cases h
  split at h
  · cases h
  split at h
  · cases h
  obtain ⟨totals,hgroups,h⟩ := bind_ok h
  split at h
  · cases h
  split at h
  · cases h
  next hoverlap =>
  obtain rfl := Except.ok.inj h
  obtain ⟨columns,hcolumns,htotal⟩ := admitGroups_ok hgroups
  refine ⟨columns,hcolumns,htotal,rangesOverlap_apart (fun r hr => ?_) (by simpa using hoverlap)⟩
  rw [(sortRanges_perm _).mem_iff,htotal.ranges,List.nil_append] at hr
  obtain ⟨column,-,hrange⟩ := List.mem_filterMap.mp hr
  obtain ⟨rfl,hbytes⟩ := ColumnMetaData.range_eq_some hrange
  exact hbytes

end Footer

/-- The pages of a column chunk tile the bytes it declares, and add up to what it declares. -/
structure TiledColumn (reader : CompactRead PageHeader) (body : Bytes) (column : ColumnMetaData)
    (pages : List Page) : Prop where
  start : (column.start : ℤ) = column.startOffset.toInt
  stop : (column.stop : ℤ) = column.start+column.totalCompressedSize.toInt
  paged : Paged reader body column.stop column.start pages column.stop
  tiles : Tiles column.start (pageSpans column.start pages) [] column.stop
  values : ((pages.map Page.values).sum : ℤ) = column.numValues.toInt
  decoded : ((pages.map Page.decoded).sum : ℤ) = column.totalUncompressedSize.toInt

/-- What an admitted body holds between its magic and its metadata. -/
structure TiledBody (reader : CompactRead PageHeader) (body : Bytes)
    (maxDecodedBytes metadataStart : ℕ) (columns : List ColumnMetaData)
    (profile : ParquetDecodeProfile) : Prop where
  tiled : ∀ column ∈ columns, ∃ pages, TiledColumn reader body column pages
  inside : ∀ column ∈ columns, parquetMagic.length ≤ column.start ∧ column.stop ≤ metadataStart
  disjoint : columns.Pairwise fun a b =>
    Disjoint (Set.Ico a.start a.stop) (Set.Ico b.start b.stop)
  decoded : (columns.map fun column => column.totalUncompressedSize.toInt).sum = profile.decodedBytes
  cap : profile.decodedBytes ≤ maxDecodedBytes ∧ maxDecodedBytes ≤ maxDecodedSectionBytes

section Preflight

variable {readers : MetadataReaders} {reader : CompactRead PageHeader} {body : Bytes}
  {maxDecodedBytes metadataStart : ℕ} {allowDictionary : Bool} {metadata : FileMetaData}
  {columns : List ColumnMetaData} {profile : ParquetDecodeProfile} {w : PageWalk}

theorem parseFooter_start (h : parseFooter readers body = .ok (metadata,metadataStart)) :
    parquetMagic.length ≤ metadataStart ∧ metadataStart ≤ body.length := by
  rw [parseFooter] at h
  split at h
  · cases h
  dsimp only at h
  split at h
  · cases h
  next start hstart =>
  obtain ⟨hsub,hplace⟩ := Option.filter_eq_some_iff.mp hstart
  obtain ⟨-,rfl⟩ := checkedSub_eq_some.mp hsub
  split at h
  · cases h
  split at h
  · cases h
  cases h
  exact ⟨by simpa using hplace,by omega⟩

/-- A chunk without bytes has no pages; the walk has found the pages of the others. -/
theorem ColumnMetaData.Admitted.tiled {column : ColumnMetaData}
    (h : column.Admitted metadataStart)
    (hwalked : ∀ r, column.range = some r → ∃ pages, ColumnPages reader body r pages) :
    ∃ pages, TiledColumn reader body column pages := by
  by_cases hempty : column.totalCompressedSize.toInt.toNat = 0
  · have hstop : column.start = column.stop := by rw [ColumnMetaData.stop,hempty,Nat.add_zero]
    obtain ⟨hdeclared,hvalues⟩ := h.empty hempty
    have hpaged : Paged reader body column.stop column.start [] column.stop := hstop
    refine ⟨[],h.start,h.stop,hpaged,hpaged.tiles,?_,?_⟩
    · rw [← h.values,hvalues]
      rfl
    · rw [← h.declared,hdeclared]
      rfl
  · obtain ⟨pages,hpages⟩ := hwalked _ (column.range_of_bytes hempty)
    exact ⟨pages,h.start,h.stop,hpages.paged,hpages.paged.tiles,by rw [hpages.values,h.values],
      by rw [hpages.decoded,h.declared]⟩

theorem declared_filterMap (hadmitted : ∀ column ∈ columns, column.Admitted metadataStart) :
    ((columns.filterMap ColumnMetaData.range).map ColumnRange.declared).sum =
      (columns.map fun column => column.totalUncompressedSize.toInt.toNat).sum := by
  induction columns with
  | nil => rfl
  | cons column columns ih =>
    obtain ⟨hcolumn,hrest⟩ := List.forall_mem_cons.mp hadmitted
    rw [List.map_cons,List.sum_cons,← ih hrest]
    by_cases hempty : column.totalCompressedSize.toInt.toNat = 0
    · have hnone : column.range = none := if_pos hempty
      rw [List.filterMap_cons_none hnone,(hcolumn.empty hempty).1,Nat.zero_add]
    · have hsome := column.range_of_bytes hempty
      rw [List.filterMap_cons_some hsome,List.map_cons,List.sum_cons]

theorem validateFileMetadata_ok (hcap : maxDecodedBytes ≤ maxDecodedSectionBytes)
    (h : validateFileMetadata reader body maxDecodedBytes allowDictionary metadata metadataStart
      .start = (.ok profile,w)) :
    ∃ columns, Columns metadata.chunks columns ∧
      TiledBody reader body maxDecodedBytes metadataStart columns profile := by
  obtain ⟨footer,hfooter,h⟩ := lift_bind_eq_ok.mp h
  obtain ⟨_,w₁,hwalk,h⟩ := bind_eq_ok.mp h
  obtain ⟨pageWork,w₂,hwork,h⟩ := bind_eq_ok.mp h
  cases h
  obtain ⟨columns,hcolumns,htotal,hapart⟩ := admitFooter_ok hfooter
  obtain ⟨hpages,hsum⟩ := walkColumns_ok hwalk
  have hranges : footer.2.ranges = columns.filterMap ColumnMetaData.range := htotal.ranges
  have hmatch : pageWork = footer.2.footerWork := by
    unfold checkPageWork at hwork
    split at hwork
    · cases hwork
    · cases hwork
      exact not_not.mp ‹_›
  refine ⟨columns,hcolumns,fun column hmem => ?_,fun column hmem => ?_,?_,?_,?_,hcap⟩
  · refine (htotal.admitted column hmem).tiled fun r hr => hpages r ?_
    rw [(sortRanges_perm _).mem_iff,hranges]
    exact List.mem_filterMap.mpr ⟨column,hmem,hr⟩
  · exact ⟨(htotal.admitted column hmem).after,(htotal.admitted column hmem).before⟩
  · exact columns_disjoint (hranges ▸ hapart)
  · have hdeclared : pageWork =
        (columns.map fun column => column.totalUncompressedSize.toInt.toNat).sum :=
      hmatch.trans (htotal.work.trans (Nat.zero_add _))
    rw [hdeclared,Nat.cast_list_sum,List.map_map]
    refine congrArg List.sum (List.map_congr_left fun column hmem => ?_)
    exact (htotal.admitted column hmem).declared.symm
  · exact hmatch ▸ htotal.cap (Nat.zero_le _)

theorem validateFileMetadata_reads (hafter : parquetMagic.length ≤ metadataStart) :
    ReadsWithin parquetMagic.length metadataStart (validateFileMetadata reader body maxDecodedBytes
      allowDictionary metadata metadataStart .start).2 := by
  rw [validateFileMetadata]
  cases hfooter : admitFooter maxDecodedBytes allowDictionary metadata metadataStart with
  | error e => exact .start
  | ok footer =>
    rw [lift_ok_bind]
    obtain ⟨columns,-,htotal,hapart⟩ := admitFooter_ok hfooter
    have hplaced : ∀ r ∈ sortRanges footer.2.ranges, parquetMagic.length ≤ r.start ∧
        r.start < r.stop ∧ parquetMagic.length ≤ r.start ∧ r.stop ≤ metadataStart := by
      intro r hr
      rw [(sortRanges_perm _).mem_iff,htotal.ranges,List.nil_append] at hr
      obtain ⟨column,hmem,hrange⟩ := List.mem_filterMap.mp hr
      obtain ⟨rfl,hbytes⟩ := ColumnMetaData.range_eq_some hrange
      have hadmitted := htotal.admitted column hmem
      exact ⟨hadmitted.after,hbytes,hadmitted.after,hadmitted.before⟩
    have hcheck : ∀ footerWork, Triple (ReadsWithin parquetMagic.length metadataStart)
        (checkPageWork footerWork) (fun _ => ReadsWithin parquetMagic.length metadataStart)
        (ReadsWithin parquetMagic.length metadataStart) := by
      intro footerWork w hw
      unfold checkPageWork
      split_ifs <;> exact hw
    refine Triple.after ((walkColumns_reads hapart hplaced hafter).bind fun _ =>
      (hcheck _).bind fun _ => ?_) .start
    exact fun w hw => hw

theorem admitBody_ok {footer : FileMetaData × ℕ}
    (h : admitBody readers body maxDecodedBytes = .ok footer) :
    parseFooter readers body = .ok footer ∧ maxDecodedBytes ≤ maxDecodedSectionBytes := by
  rw [admitBody] at h
  split at h
  · cases h
  split at h
  · cases h
  · exact ⟨h,by omega⟩

end Preflight

/-- Whatever the bytes and whatever the generated readers make of them, the walk reads headers at
ascending positions and no more of them than the cap. In a body it admits, the pages tile the
columns and the columns keep apart. -/
theorem page_walk_tiles (readers : MetadataReaders) (body : Bytes) (maxDecodedBytes : ℕ)
    (allowDictionary : Bool) :
    ReadsWithin parquetMagic.length body.length
      (validateParquetDecodeProfile readers body maxDecodedBytes allowDictionary .start).2 ∧
    ∀ profile, (validateParquetDecodeProfile readers body maxDecodedBytes allowDictionary .start).1 =
        .ok profile →
      ∃ metadata metadataStart columns, parseFooter readers body = .ok (metadata,metadataStart) ∧
        Columns metadata.chunks columns ∧
        TiledBody readers.pageHeader body maxDecodedBytes metadataStart columns profile := by
  rw [validateParquetDecodeProfile]
  cases hadmit : admitBody readers body maxDecodedBytes with
  | error e => exact ⟨.start,fun profile h => by cases h⟩
  | ok footer =>
    obtain ⟨metadata,metadataStart⟩ := footer
    obtain ⟨hfooter,hcap⟩ := admitBody_ok hadmit
    obtain ⟨hafter,hbefore⟩ := parseFooter_start hfooter
    rw [lift_ok_bind]
    refine ⟨(validateFileMetadata_reads hafter).mono hbefore,fun profile h => ?_⟩
    obtain ⟨columns,hcolumns,htiled⟩ := validateFileMetadata_ok hcap (Prod.ext h rfl)
    exact ⟨metadata,metadataStart,columns,hfooter,hcolumns,htiled⟩

/-- One page of one 32-bit value. -/
def samplePageHeader : Bytes :=
  [0x15,0x00,0x15,0x08,0x15,0x08,0x2c,0x15,0x02,0x15,0x00,0x15,0x06,0x15,0x06,0x00,0x00]

def sampleMetadata : Bytes :=
  [0x15,0x02,0x19,0x2c,0x48,0x04,0x72,0x6f,0x6f,0x74,0x15,0x02,0x00,0x15,0x02,0x25,0x00,0x18,0x01,
    0x76,0x00,0x16,0x02,0x19,0x1c,0x19,0x1c,0x26,0x08,0x1c,0x15,0x02,0x19,0x15,0x00,0x19,0x18,0x01,
    0x76,0x15,0x00,0x16,0x02,0x16,0x2a,0x16,0x2a,0x26,0x08,0x00,0x00,0x16,0x2a,0x16,0x02,0x00,0x00]

def sampleParquet : Bytes := parquetMagic ++ samplePageHeader ++ [7,0,0,0] ++ sampleMetadata ++
  [57,0,0,0] ++ parquetMagic

/-- What a reader makes of bytes that begin with `expected`. -/
def readsAs {α : Type} (expected : Bytes) (a : α) : CompactRead α := fun s =>
  if expected.isPrefixOf s.remaining then
    (.ok a,{ s with remaining := s.remaining.drop expected.length })
  else (.error (.endOfFile "compact metadata ended unexpectedly"),s)

def sampleReaders : MetadataReaders where
  fileMetaData := readsAs sampleMetadata
    ⟨2,1,[⟨[⟨none,some ⟨1,21,21,4,none⟩,false,false⟩],1⟩],false,false⟩
  pageHeader := readsAs samplePageHeader
    ⟨.dataPage,4,4,some ⟨1,.plain,.rle,.rle⟩,none,none,none⟩

theorem page_walk_sample : ∃ metadata metadataStart columns,
    parseFooter sampleReaders sampleParquet = .ok (metadata,metadataStart) ∧
    Columns metadata.chunks columns ∧
    TiledBody sampleReaders.pageHeader sampleParquet 21 metadataStart columns ⟨1,21⟩ :=
  (page_walk_tiles sampleReaders sampleParquet 21 false).2 ⟨1,21⟩ (by decide +kernel)

end PgKronika
