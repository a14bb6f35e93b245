import PgKronika.InternerJournal
import PgKronika.SealContent

/-! Sealing depends on what a journal holds, not on how its rows are split into parts. -/
namespace PgKronika

open ByteCodec CheckedArith SortedFront

/-- The range that a sealed file covers. -/
def plannedRange (journal : Journal) : Option (Int64 × Int64) :=
  match planSegment journal with
  | .error _ => none
  | .ok plan => some (plan.minTs,plan.maxTs)

section Parts

variable {ρ : Type} (codec : DataCodec ρ) (registry : Registry) (dicts : DictCodec)

/-- The sections that a journal is sealed to, by kind. -/
structure SealedParts (journal : Journal) where
  plan : SegmentPlan
  dictionary : NormalizedDictionary
  data : List SectionInput
  strings : List DictSection
  blobs : List DictSection
  writer : PgmWriter
  planned : planSegment journal = .ok plan
  normalized : ∀ id v, dictionary.values.lookup id = some v ↔ (id,v) ∈ journalValues dicts journal
  sealedData : List.Forall₂ (SealedGroup codec registry journal) plan.dataGroups data
  sealedStrings : DictPart dicts .strings
    (dictionary.values.entries.filter fun q => q.2.placement = .strings) strings
  sealedBlobs : DictPart dicts .blobs
    (dictionary.values.entries.filter fun q => q.2.placement = .blobs) blobs
  encoded : dictionary.sections dicts = .ok (strings ++ blobs)
  wrote : writer.Wrote (data ++ (strings ++ blobs).map DictSection.input)

/-- Equally many parts, the same range, and all in all the same rows and values. -/
structure SameContent (j j' : Journal) : Prop where
  parts : j.parts.length = j'.parts.length
  range : plannedRange j = plannedRange j'
  rows : ∀ typeId, typeId ≠ dictStringsTypeId → typeId ≠ dictBlobsTypeId →
    (journalRows codec registry j typeId).Perm (journalRows codec registry j' typeId)
  values : ∀ q, q ∈ journalValues dicts j ↔ q ∈ journalValues dicts j'

end Parts

namespace SealedParts

variable {ρ : Type} {codec : DataCodec ρ} {registry : Registry} {dicts : DictCodec} {hashes : Hashes}
  {journal : Journal} (f : SealedParts codec registry dicts journal)

def sections : List SectionInput := f.data ++ (f.strings ++ f.blobs).map DictSection.input

def catalog : Catalog := sealedCatalog f.sections f.plan.minTs f.plan.maxTs f.plan.windowCount

def bytes : Bytes := sealedBytes f.sections f.plan.minTs f.plan.maxTs f.plan.windowCount

def ofPlacement : Placement → List DictSection
  | .strings => f.strings
  | .blobs => f.blobs

theorem of_writeTmp {r : Bytes × SealSummary}
    (h : writeTmp codec registry dicts hashes journal = .ok r) :
    ∃ f : SealedParts codec registry dicts journal, r = (f.bytes,
      ⟨f.sections.length,f.bytes.length,f.plan.minTs,f.plan.maxTs⟩) := by
  obtain ⟨plan,n,data,sections,w,hplan,hn,hdata,hsections,hw,hbytes,hsummary⟩ := writeTmp_ok h
  obtain ⟨head,tail,rfl,hhead,htail⟩ := sections_parts hsections
  refine ⟨⟨plan,n,data,head,tail,w,hplan,normalizeDictionary_ok hplan hn,hdata,hhead,htail,hsections,
    hw⟩,Prod.ext hbytes ?_⟩
  rw [hsummary,hbytes]
  simp [SealedParts.sections,SealedParts.bytes]

theorem dict_part (p : Placement) : DictPart dicts p
    (f.dictionary.values.entries.filter fun q => q.2.placement = p) (f.ofPlacement p) := by
  cases p with
  | strings => exact f.sealedStrings
  | blobs => exact f.sealedBlobs

theorem mem_sections {s : SectionInput} :
    s ∈ f.sections ↔ s ∈ f.data ∨ ∃ p, ∃ d ∈ f.ofPlacement p, s = d.input := by
  have hplacements : (∃ p, ∃ d ∈ f.ofPlacement p, s = d.input) ↔
      (∃ d ∈ f.strings, s = d.input) ∨ ∃ d ∈ f.blobs, s = d.input := by
    constructor
    · rintro ⟨p,d,hd,rfl⟩
      cases p with
      | strings => exact .inl ⟨d,hd,rfl⟩
      | blobs => exact .inr ⟨d,hd,rfl⟩
    · rintro (⟨d,hd,rfl⟩ | ⟨d,hd,rfl⟩)
      · exact ⟨.strings,d,hd,rfl⟩
      · exact ⟨.blobs,d,hd,rfl⟩
  rw [hplacements,sections,List.mem_append,List.map_append,List.mem_append,List.mem_map,List.mem_map]
  simp only [eq_comm]

/-- A data section comes from a group of the plan. -/
theorem group_of_mem {s : SectionInput} (hs : s ∈ f.data) :
    ∃ group ∈ f.plan.dataGroups, SealedGroup codec registry journal group s :=
  forall₂_left f.sealedData hs

theorem data_typeId {s : SectionInput} (hs : s ∈ f.data) :
    s.typeId ≠ dictStringsTypeId ∧ s.typeId ≠ dictBlobsTypeId := by
  obtain ⟨group,hgroup,hsealed⟩ := f.group_of_mem hs
  obtain ⟨hns,hnb,_⟩ := (mem_dataGroups f.planned group).1 hgroup
  rw [hsealed.typeId]
  exact ⟨hns,hnb⟩

theorem dict_typeId {p : Placement} {d : DictSection} (hd : d ∈ f.ofPlacement p) :
    d.input.typeId = p.typeId := by
  rcases f.dict_part p with ⟨_,hnone⟩ | ⟨s,_,hone,htype,_⟩
  · rw [hnone] at hd
    cases hd
  · rw [hone,List.mem_singleton] at hd
    exact hd ▸ htype

theorem placement_typeId (p : Placement) :
    p.typeId = dictStringsTypeId ∨ p.typeId = dictBlobsTypeId := by
  cases p with
  | strings => exact .inl rfl
  | blobs => exact .inr rfl

/-- The type of a section tells its kind. -/
theorem data_of_mem {s : SectionInput} (h : s ∈ f.sections) (hs : s.typeId ≠ dictStringsTypeId)
    (hb : s.typeId ≠ dictBlobsTypeId) : s ∈ f.data := by
  rcases f.mem_sections.1 h with h | ⟨p,d,hd,rfl⟩
  · exact h
  · rcases placement_typeId p with hp | hp
    · exact absurd ((f.dict_typeId hd).trans hp) hs
    · exact absurd ((f.dict_typeId hd).trans hp) hb

theorem dict_of_mem {s : SectionInput} (h : s ∈ f.sections) {p : Placement}
    (htype : s.typeId = p.typeId) : ∃ d ∈ f.ofPlacement p, s = d.input := by
  rcases f.mem_sections.1 h with h | ⟨q,d,hd,rfl⟩
  · obtain ⟨hs,hb⟩ := f.data_typeId h
    rcases placement_typeId p with hp | hp
    · exact absurd (htype.trans hp) hs
    · exact absurd (htype.trans hp) hb
  · have hpq : q = p := by
      rw [f.dict_typeId hd] at htype
      cases p <;> cases q <;> first | rfl | exact absurd htype (by decide)
    exact ⟨d,hpq ▸ hd,rfl⟩

theorem data_ascending : f.data.Pairwise fun a b => a.typeId < b.typeId := by
  apply List.pairwise_map.1
  rw [dataGroups_typeIds f.sealedData]
  exact List.pairwise_map.2 (OrderedMap.ascending _)

theorem order : CanonicalOrder (f.sections.map SectionInput.typeId) := by
  refine ⟨f.plan.dataGroups.map Prod.fst,f.strings.map fun s => s.input.typeId,
    f.blobs.map fun s => s.input.typeId,?_,?_,?_,f.sealedStrings.typeIds,f.sealedBlobs.typeIds⟩
  · rw [sections,List.map_append,List.map_append,List.map_append,dataGroups_typeIds f.sealedData,
      List.map_map,List.map_map,List.append_assoc]
    rfl
  · intro t ht
    rw [← dataGroups_typeIds f.sealedData] at ht
    obtain ⟨s,hs,rfl⟩ := List.mem_map.1 ht
    exact f.data_typeId hs
  · rw [← dataGroups_typeIds f.sealedData]
    exact List.pairwise_map.2 f.data_ascending

section Holds

variable (hcodec : codec.Ordered)

include hcodec

theorem data_holds {s : SectionInput} (hs : s ∈ f.data) :
    HoldsRows codec registry (journalRows codec registry journal s.typeId) s := by
  obtain ⟨group,hgroup,hsealed⟩ := f.group_of_mem hs
  exact (hsealed.holds hcodec f.planned hgroup).1

/-- The types with rows are the types with a section. -/
theorem exists_data_iff {typeId : UInt32} (hs : typeId ≠ dictStringsTypeId)
    (hb : typeId ≠ dictBlobsTypeId) :
    journalRows codec registry journal typeId ≠ [] ↔ ∃ s ∈ f.data, s.typeId = typeId := by
  constructor
  · intro hne
    have hplanned : plannedSections journal typeId ≠ [] := by
      intro hn
      rw [journalRows,hn] at hne
      exact hne rfl
    have hgroup := (mem_dataGroups f.planned (typeId,plannedSections journal typeId)).2
      ⟨hs,hb,hplanned,rfl⟩
    have htypes : typeId ∈ f.data.map SectionInput.typeId := by
      rw [dataGroups_typeIds f.sealedData]
      exact List.mem_map.2 ⟨_,hgroup,rfl⟩
    exact List.mem_map.1 htypes
  · rintro ⟨s,hmem,rfl⟩ hn
    obtain ⟨group,hgroup,hsealed⟩ := f.group_of_mem hmem
    obtain ⟨⟨_,_,_,_,_,_,hcount⟩,hpos,_⟩ := hsealed.holds hcodec f.planned hgroup
    rw [hcount,hn] at hpos
    exact absurd hpos (lt_irrefl _)

/-- Every section keeps the caps of the format. -/
theorem caps (hdicts : ∀ profile table body, dicts.write profile table = .ok body → 0 < body.length)
    {s : SectionInput} (hs : s ∈ f.sections) :
    (0 < s.rows ∧ s.rows ≤ maxPhysicalSectionRows) ∧
      0 < s.body.length ∧ s.body.length ≤ maxPhysicalSectionBytes.toNat := by
  have hto : ∀ rows : UInt32, 0 < rows.toNat → rows.toNat ≤ maxSectionRows →
      0 < rows ∧ rows ≤ maxPhysicalSectionRows := fun rows hpos hle =>
    ⟨UInt32.lt_iff_toNat_lt.2 hpos,UInt32.le_iff_toNat_le.2 hle⟩
  rcases f.mem_sections.1 hs with hs | ⟨p,d,hd,rfl⟩
  · obtain ⟨group,hgroup,hsealed⟩ := f.group_of_mem hs
    obtain ⟨_,hpos,hbody,hlen⟩ := hsealed.holds hcodec f.planned hgroup
    exact ⟨hto _ hpos hsealed.rows_le,hbody,hlen⟩
  · obtain ⟨_,_,⟨hpos,hle⟩,hbody,hlen⟩ := ((f.dict_part p).holds hdicts f.normalized).2 d hd
    exact ⟨hto _ hpos hle,hbody,hlen⟩

/-- The file reads back as its sections. -/
theorem reads_back
    (hdicts : ∀ profile table body, dicts.write profile table = .ok body → 0 < body.length) :
    validatePart f.bytes = .ok f.catalog ∧ f.catalog.sectionsOf f.bytes = f.sections := by
  obtain ⟨hvalid,hmap⟩ := @validatePart_sealedBytes f.sections f.plan.minTs f.plan.maxTs
    f.plan.windowCount f.writer f.wrote f.order (fun s hs => (f.caps hcodec hdicts hs).1)
    fun s hs => (f.caps hcodec hdicts hs).2
  exact ⟨hvalid,sealedCatalog_sectionsOf hmap⟩

/-- Rows alone decide about a data section. -/
theorem data_subset {j' : Journal} (f' : SealedParts codec registry dicts j')
    (hrows : ∀ typeId, typeId ≠ dictStringsTypeId → typeId ≠ dictBlobsTypeId →
      (journalRows codec registry journal typeId).Perm (journalRows codec registry j' typeId)) :
    f.data ⊆ f'.data := by
  intro s hs
  obtain ⟨hns,hnb⟩ := f.data_typeId hs
  have hperm := hrows _ hns hnb
  have hne' : journalRows codec registry j' s.typeId ≠ [] := by
    intro hnil
    rw [hnil] at hperm
    exact (f.exists_data_iff hcodec hns hnb).2 ⟨s,hs,rfl⟩ hperm.eq_nil
  obtain ⟨s',hs',htype⟩ := (f'.exists_data_iff hcodec hns hnb).1 hne'
  obtain ⟨contract,sorted,hcontract,hp,hasc,hwrite,hcount⟩ := f.data_holds hcodec hs
  obtain ⟨contract',sorted',hcontract',hp',hasc',hwrite',hcount'⟩ := f'.data_holds hcodec hs'
  rw [htype] at hcontract' hp' hcount'
  obtain rfl := Except.ok.inj (hcontract.symm.trans hcontract')
  have hsorted : sorted = sorted' := by
    apply eq_of_canonical hcodec (hp.trans (hperm.trans hp'.symm)) _ _ hasc hasc'
    · exact fun a ha => journalRows_rowOf hcontract (hp.subset ha)
    · exact fun a ha => journalRows_rowOf hcontract (hp'.subset ha)
  have hrowsEq : s.rows = s'.rows :=
    UInt32.toNat_inj.1 (by rw [hcount,hcount',hperm.length_eq])
  have hbodyEq : s.body = s'.body := Except.ok.inj (by rw [← hwrite,hsorted,hwrite'])
  have heq : s = s' := by
    cases s
    cases s'
    simp_all
  exact heq ▸ hs'

theorem data_eq {j' : Journal} (f' : SealedParts codec registry dicts j')
    (hrows : ∀ typeId, typeId ≠ dictStringsTypeId → typeId ≠ dictBlobsTypeId →
      (journalRows codec registry journal typeId).Perm (journalRows codec registry j' typeId)) :
    f.data = f'.data := by
  have hnodup : ∀ {ds : List SectionInput}, (ds.Pairwise fun a b => a.typeId < b.typeId) →
      ds.Nodup := fun hds => hds.imp fun hab he => absurd (he ▸ hab) (lt_irrefl _)
  have hperm : f.data.Perm f'.data :=
    (List.perm_ext_iff_of_nodup (hnodup f.data_ascending) (hnodup f'.data_ascending)).2 fun s =>
      ⟨fun hs => f.data_subset hcodec f' hrows hs,
        fun hs => f'.data_subset hcodec f (fun t hs hb => (hrows t hs hb).symm) hs⟩
  exact hperm.eq_of_pairwise (fun a b _ _ hab hba => absurd (lt_trans hab hba) (lt_irrefl _))
    f.data_ascending f'.data_ascending

end Holds

theorem dicts_eq {j' : Journal} (f' : SealedParts codec registry dicts j')
    (hvalues : ∀ q, q ∈ journalValues dicts journal ↔ q ∈ journalValues dicts j') :
    f.strings ++ f.blobs = f'.strings ++ f'.blobs := by
  have hmap : f.dictionary.values = f'.dictionary.values := by
    apply OrderedMap.ext_lookup
    intro id
    ext v
    rw [f.normalized,f'.normalized,hvalues]
  have hencoded := f.encoded
  rw [NormalizedDictionary.sections,NormalizedDictionary.snapshots,hmap,
    ← NormalizedDictionary.snapshots,← NormalizedDictionary.sections,f'.encoded] at hencoded
  exact (Except.ok.inj hencoded).symm

end SealedParts

section Sample

def sampleColumn : Column := ⟨"value",.u8,false⟩

/-- A codec of rows with one cell: a body is its rows. -/
def sampleDataCodec : DataCodec UInt8 where
  decodeWork _ _ := .ok ()
  read body := if body = [] then .error .schemaMismatch else
    .ok ⟨1,body.length,[sampleColumn],[⟨[sampleColumn],body⟩]⟩
  write _ rows := if rows = [] then .error .schemaMismatch else .ok rows
  listLen _ _ := 0
  compareCells _ a b := compare a.toNat b.toNat

def sampleContracts : Registry := [⟨7,[sampleColumn],["value"]⟩,⟨8,[sampleColumn],["value"]⟩]

theorem sampleDataCodec_ordered : sampleDataCodec.Ordered where
  trans _ := {
    eq_swap := (Nat.compare_swap _ _).symm
    isLE_trans := fun hab hbc => Std.TransOrd.isLE_trans hab hbc }
  eq_of_cells := by
    rintro contract a b ⟨body,file,hread,hschema,-⟩ - h
    simp only [sampleDataCodec] at hread
    split_ifs at hread
    cases hread
    have hab : compare a.toNat b.toNat = .eq := h sampleColumn (by simp [← hschema])
    exact UInt8.toNat_inj.1 (Nat.compare_eq_eq.1 hab)
  written := by
    intro contract rows body h
    simp only [sampleDataCodec] at h
    split_ifs at h with hrows
    cases h
    exact List.length_pos_iff.2 hrows

theorem sampleDictCodec_written (profile : DictProfile) (table : DictTable) (body : Bytes)
    (h : sampleDictCodec.write profile table = .ok body) : 0 < body.length := by
  simp only [sampleDictCodec] at h
  split_ifs at h <;> cases h <;> decide

/-- Two rows of different types and a string, one in each part. -/
def samplePart : Fin 3 → Bytes
  | 0 => dictPart 7 [1]
  | 1 => dictPart 8 [2]
  | 2 => stringWindow.bytes

theorem samplePart_valid (i : Fin 3) : ValidPart (samplePart i) := by
  have hrows : validatePart (dictPart 7 [1]) = .ok (dictCatalog 7 [1]) ∧
      validatePart (dictPart 8 [2]) = .ok (dictCatalog 8 [2]) := by decide +kernel
  match i with
  | 0 => exact ⟨_,hrows.1⟩
  | 1 => exact ⟨_,hrows.2⟩
  | 2 => exact ⟨_,stringPart_valid⟩

/-- A journal of these parts in some order. -/
def partsIn (order : List (Fin 3)) (h : order ≠ []) : Generation where
  segmentId := some ⟨0,segmentIdInRange_zero⟩
  bodies := order.map samplePart
  identified := by simpa using h
  valid := by
    intro bytes hbytes
    obtain ⟨i,-,rfl⟩ := List.mem_map.1 hbytes
    exact samplePart_valid i

def rowsFirst : Journal := (partsIn [0,1,2] (by decide)).journal

def rowsLast : Journal := (partsIn [2,1,0] (by decide)).journal

/-- The types that a journal has sections of. -/
def plannedTypes (journal : Journal) : List UInt32 :=
  match planSegment journal with
  | .error _ => []
  | .ok plan => plan.byType.entries.map Prod.fst

theorem journalRows_of_unplanned {ρ : Type} (codec : DataCodec ρ) (registry : Registry)
    {journal : Journal} {typeId : UInt32} (h : typeId ∉ plannedTypes journal) :
    journalRows codec registry journal typeId = [] := by
  have hnone : plannedSections journal typeId = [] := by
    rw [plannedSections]
    rw [plannedTypes] at h
    split
    · rfl
    · rename_i plan hplan
      rw [hplan] at h
      cases hlookup : plan.byType.lookup typeId with
      | none => rfl
      | some ds =>
        exact absurd (List.mem_map_of_mem ((OrderedMap.mem_entries_iff ..).2 hlookup)) h
  rw [journalRows,hnone]
  rfl

/-- What a journal of the three parts holds, as a check. -/
def HoldsParts (j : Journal) : Prop :=
  (writeTmp sampleDataCodec sampleContracts sampleDictCodec sampleHashes j).isOk ∧
  j.parts.length = 3 ∧ plannedRange j = some (0,0) ∧ plannedTypes j = [7,8,dictStringsTypeId] ∧
  journalRows sampleDataCodec sampleContracts j 7 = [1] ∧
  journalRows sampleDataCodec sampleContracts j 8 = [2] ∧
  journalValues sampleDictCodec j = [(⟨0xe6c632b61e964e1f,by decide⟩,.string [97])]

instance (j : Journal) : Decidable (HoldsParts j) := inferInstanceAs (Decidable (_ ∧ _))

theorem sampleParts_hold : HoldsParts rowsFirst ∧ HoldsParts rowsLast := by decide +kernel

theorem HoldsParts.same {j j' : Journal} (h : HoldsParts j) (h' : HoldsParts j') :
    SameContent sampleDataCodec sampleContracts sampleDictCodec j j' := by
  obtain ⟨_,hlen,hrange,htypes,hseven,height,hvalues⟩ := h
  obtain ⟨_,hlen',hrange',htypes',hseven',height',hvalues'⟩ := h'
  refine ⟨hlen.trans hlen'.symm,hrange.trans hrange'.symm,fun typeId hs _ => ?_,
    fun q => by rw [hvalues,hvalues']⟩
  by_cases h : typeId ∈ [7,8,dictStringsTypeId]
  · have ht : typeId = 7 ∨ typeId = 8 := by simpa [hs] using h
    rcases ht with rfl | rfl
    · exact .of_eq (hseven.trans hseven'.symm)
    · exact .of_eq (height.trans height'.symm)
  · have hrows : journalRows sampleDataCodec sampleContracts j typeId = [] :=
      journalRows_of_unplanned _ _ (by rwa [htypes])
    have hrows' : journalRows sampleDataCodec sampleContracts j' typeId = [] :=
      journalRows_of_unplanned _ _ (by rwa [htypes'])
    exact .of_eq (hrows.trans hrows'.symm)

end Sample

/-- A sealed file is a valid part for as many windows as the journal has parts. It has one section
for each type with rows, with all of them in canonical order, and one for each kind of dictionary
value, with each value once. -/
theorem seal_holds_journal {ρ : Type} {codec : DataCodec ρ} (hcodec : codec.Ordered)
    (registry : Registry) {dicts : DictCodec}
    (hdicts : ∀ profile table body, dicts.write profile table = .ok body → 0 < body.length)
    (hashes : Hashes) (journal : Journal) (r : Bytes × SealSummary)
    (h : writeTmp codec registry dicts hashes journal = .ok r) :
    ∃ catalog, validatePart r.1 = .ok catalog ∧ catalog.windowCount.toNat = journal.parts.length ∧
      plannedRange journal = some (catalog.minTs,catalog.maxTs) ∧
      r.2 = ⟨catalog.entries.length,r.1.length,catalog.minTs,catalog.maxTs⟩ ∧
      ((catalog.sectionsOf r.1).map SectionInput.typeId).Pairwise (· < ·) ∧
      (∀ typeId, typeId ≠ dictStringsTypeId → typeId ≠ dictBlobsTypeId →
        (journalRows codec registry journal typeId ≠ [] ↔
          ∃ s ∈ catalog.sectionsOf r.1, s.typeId = typeId) ∧
        ∀ s ∈ catalog.sectionsOf r.1, s.typeId = typeId →
          HoldsRows codec registry (journalRows codec registry journal typeId) s) ∧
      ∀ p, ((∃ q ∈ journalValues dicts journal, q.2.placement = p) ↔
          ∃ s ∈ catalog.sectionsOf r.1, s.typeId = Placement.typeId p) ∧
        ∀ s ∈ catalog.sectionsOf r.1, s.typeId = p.typeId →
          HoldsValues dicts p (journalValues dicts journal) s := by
  obtain ⟨f,rfl⟩ := SealedParts.of_writeTmp h
  obtain ⟨hvalid,hsections⟩ := f.reads_back hcodec hdicts
  refine ⟨f.catalog,hvalid,(planSegment_groups f.planned).1,by rw [plannedRange,f.planned]; rfl,?_,
    by rw [hsections]; exact f.wrote.ascending,fun typeId hs hb => ?_,fun p => ?_⟩
  · rw [SealedParts.catalog,sealedCatalog,placeSections_length]
  · rw [hsections,f.exists_data_iff hcodec hs hb]
    refine ⟨⟨?_,?_⟩,?_⟩
    · rintro ⟨s,hmem,htype⟩
      exact ⟨s,f.mem_sections.2 (.inl hmem),htype⟩
    · rintro ⟨s,hmem,rfl⟩
      exact ⟨s,f.data_of_mem hmem hs hb,rfl⟩
    · rintro s hmem rfl
      exact f.data_holds hcodec (f.data_of_mem hmem hs hb)
  · obtain ⟨hsome,hall⟩ := (f.dict_part p).holds hdicts f.normalized
    rw [hsections,hsome]
    refine ⟨⟨fun hne => ?_,?_⟩,fun s hmem htype => ?_⟩
    · obtain ⟨d,hd⟩ := List.exists_mem_of_ne_nil _ hne
      exact ⟨d.input,f.mem_sections.2 (.inr ⟨p,d,hd,rfl⟩),f.dict_typeId hd⟩
    · rintro ⟨s,hmem,htype⟩ hempty
      obtain ⟨d,hd,_⟩ := f.dict_of_mem hmem htype
      rw [hempty] at hd
      cases hd
    · obtain ⟨d,hd,rfl⟩ := f.dict_of_mem hmem htype
      exact (hall d hd).2.1

theorem seal_holds_journal_sample : ∃ r catalog s,
    writeTmp sampleDataCodec sampleContracts sampleDictCodec sampleHashes rowsFirst = .ok r ∧
      validatePart r.1 = .ok catalog ∧ catalog.windowCount.toNat = 3 ∧
      s ∈ catalog.sectionsOf r.1 ∧ s.typeId = 7 ∧
      HoldsRows sampleDataCodec sampleContracts [1] s := by
  obtain ⟨hok,hparts,_,_,hrows,_⟩ := sampleParts_hold.1
  obtain ⟨r,h⟩ := ok_of_isOk hok
  obtain ⟨catalog,hvalid,hcount,_,_,_,hdata,_⟩ := seal_holds_journal sampleDataCodec_ordered
    sampleContracts sampleDictCodec_written sampleHashes rowsFirst r h
  obtain ⟨hsome,hall⟩ := hdata 7 (by decide) (by decide)
  rw [hrows] at hsome hall
  obtain ⟨s,hs,htype⟩ := hsome.1 (by simp)
  exact ⟨r,catalog,s,h,hvalid,hcount.trans hparts,hs,htype,hall s hs htype⟩

/-- Two journals with the same content in equally many parts seal to the same file. -/
theorem seal_ignores_split {ρ : Type} {codec : DataCodec ρ} (hcodec : codec.Ordered)
    (registry : Registry) (dicts : DictCodec) (hashes : Hashes) {j j' : Journal}
    (hsame : SameContent codec registry dicts j j') {r r' : Bytes × SealSummary}
    (h : writeTmp codec registry dicts hashes j = .ok r)
    (h' : writeTmp codec registry dicts hashes j' = .ok r') : r = r' := by
  obtain ⟨f,rfl⟩ := SealedParts.of_writeTmp h
  obtain ⟨f',rfl⟩ := SealedParts.of_writeTmp h'
  have hrange := hsame.range
  rw [plannedRange,plannedRange,f.planned,f'.planned,Option.some.injEq,Prod.mk.injEq] at hrange
  have hwindows : f.plan.windowCount = f'.plan.windowCount := by
    apply UInt32.toNat_inj.1
    rw [(planSegment_groups f.planned).1,(planSegment_groups f'.planned).1,hsame.parts]
  have hsections : f.sections = f'.sections := by
    rw [SealedParts.sections,SealedParts.sections,f.data_eq hcodec f' hsame.rows,
      f.dicts_eq f' hsame.values]
  simp only [SealedParts.bytes,hsections,hrange.1,hrange.2,hwindows]

theorem seal_ignores_split_sample : ∃ r,
    writeTmp sampleDataCodec sampleContracts sampleDictCodec sampleHashes rowsFirst = .ok r ∧
      writeTmp sampleDataCodec sampleContracts sampleDictCodec sampleHashes rowsLast = .ok r := by
  obtain ⟨r,h⟩ := ok_of_isOk sampleParts_hold.1.1
  obtain ⟨r',h'⟩ := ok_of_isOk sampleParts_hold.2.1
  have he : r = r' := seal_ignores_split sampleDataCodec_ordered sampleContracts sampleDictCodec
    sampleHashes (sampleParts_hold.1.same sampleParts_hold.2) h h'
  exact ⟨r,h,he ▸ h'⟩

end PgKronika
