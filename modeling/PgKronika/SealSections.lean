import PgKronika.PartBuild
import PgKronika.SealWriter

/-! What a sealed file is made of: one section for each type of the journal, written end to end and
closed by a catalog that reads back. -/
namespace PgKronika

open ByteCodec CheckedArith SortedFront

/-- A catalog of sections placed after the magic. -/
def sealedCatalog (sections : List SectionInput) (minTs maxTs : Int64) (windowCount : UInt32) :
    Catalog := ⟨placeSections magic.length sections,minTs,maxTs,formatVersion,windowCount⟩

def sealedBytes (sections : List SectionInput) (minTs maxTs : Int64) (windowCount : UInt32) : Bytes :=
  magic ++ sections.flatMap SectionInput.body ++
    (sealedCatalog sections minTs maxTs windowCount).encode

/-- A writer that has written these sections. -/
structure PgmWriter.Wrote (w : PgmWriter) (sections : List SectionInput) : Prop where
  out : w.out = magic ++ sections.flatMap SectionInput.body
  entries : w.entries = placeSections magic.length sections
  offset : w.offset = magic.length + bodiesLen sections
  fits : w.offset ≤ u64Max
  ascending : (sections.map SectionInput.typeId).Pairwise (· < ·)
  count : sections.length ≤ maxCatalogEntries

section Writer

variable {w w' : PgmWriter} {sections added : List SectionInput}

theorem PgmWriter.start_wrote : PgmWriter.start.Wrote [] :=
  ⟨rfl,rfl,rfl,by decide,.nil,Nat.zero_le _⟩

theorem placeSections_append (offset : ℕ) (sections added : List SectionInput) :
    placeSections offset (sections ++ added) =
      placeSections offset sections ++ placeSections (offset+bodiesLen sections) added := by
  induction sections generalizing offset with
  | nil => rfl
  | cons s ss ih =>
    simp only [List.cons_append,placeSections,ih,bodiesLen_cons,Nat.add_assoc]

theorem bodiesLen_append (sections added : List SectionInput) :
    bodiesLen (sections ++ added) = bodiesLen sections + bodiesLen added := by
  simp [bodiesLen]

theorem checkedCatalogEntries_ok {current additional attempted : ℕ}
    (h : checkedCatalogEntries current additional = .ok attempted) :
    current+additional ≤ maxCatalogEntries := by
  unfold checkedCatalogEntries at h
  split at h
  · cases h
  · rename_i next hnext
    split_ifs at h with hcap
    obtain ⟨rfl,_⟩ := checkedAdd_eq_some.1 hnext
    exact not_lt.1 hcap

/-- The type written last. -/
theorem PgmWriter.Wrote.last_typeId (h : w.Wrote sections) :
    w.entries.getLast?.map Entry.typeId = sections.getLast?.map SectionInput.typeId := by
  rw [h.entries,← List.getLast?_map,placeSections_typeIds,List.getLast?_map]

theorem PgmWriter.Wrote.step (h : w.Wrote sections) {s : SectionInput}
    (hw : w.writeSection s.typeId s.rows s.body = .ok w') : w'.Wrote (sections ++ [s]) := by
  unfold writeSection at hw
  split_ifs at hw with horder
  obtain ⟨attempted,hcount,hw⟩ := bind_ok hw
  have hcap := checkedCatalogEntries_ok hcount
  rw [h.entries,placeSections_length] at hcap
  split at hw
  · cases hw
  · rename_i next hnext
    cases hw
    obtain ⟨rfl,hfit⟩ := checkedAdd_eq_some.1 hnext
    refine ⟨?_,?_,?_,hfit,?_,by simpa using hcap⟩
    · simp [h.out]
    · simp [h.entries,placeSections_append,placeSections,h.offset]
    · dsimp only
      rw [h.offset,bodiesLen_append,bodiesLen_cons,Nat.add_assoc]
      rfl
    · rw [List.map_append,List.pairwise_append]
      refine ⟨h.ascending,List.pairwise_singleton ..,fun t ht u hu => ?_⟩
      rw [List.map_singleton,List.mem_singleton] at hu
      subst hu
      have hlast : ∀ last ∈ (sections.map SectionInput.typeId).getLast?, last < s.typeId := by
        intro last hl
        have hl' : last ∈ w.entries.getLast?.map Entry.typeId := by
          rw [h.last_typeId,← List.getLast?_map]
          exact hl
        obtain ⟨entry,he,rfl⟩ := Option.map_eq_some_iff.1 hl'
        rw [he] at horder
        simpa using horder
      rcases List.eq_nil_or_concat' (sections.map SectionInput.typeId) with hn | ⟨front,last,hc⟩
      · rw [hn] at ht
        cases ht
      · have hasc := h.ascending
        rw [hc,List.pairwise_append] at hasc
        have hl := hlast last (by rw [hc]; simp)
        rw [hc,List.mem_append,List.mem_singleton] at ht
        rcases ht with ht | rfl
        · exact lt_trans (hasc.2.2 t ht last (by simp)) hl
        · exact hl

/-- A section can be written after smaller types, while catalog and offset have room. -/
theorem PgmWriter.Wrote.room (h : w.Wrote sections) {typeId : UInt32} (rows : UInt32) {body : Bytes}
    (hlast : ∀ s ∈ sections, s.typeId < typeId) (hcount : sections.length < maxCatalogEntries)
    (hfit : w.offset+body.length ≤ u64Max) : ∃ w', w.writeSection typeId rows body = .ok w' := by
  have hcatalog : maxCatalogEntries ≤ u64Max := by decide
  have horder : ¬(w.entries.getLast?.any fun entry => typeId ≤ entry.typeId) = true := by
    cases he : w.entries.getLast? with
    | none => simp
    | some entry =>
      have hl := h.last_typeId
      rw [he] at hl
      obtain ⟨s,hs,hse⟩ := Option.map_eq_some_iff.1 hl.symm
      have hlt := hlast s (List.mem_of_getLast? hs)
      rw [hse] at hlt
      simpa using hlt
  unfold writeSection
  rw [if_neg horder,checkedCatalogEntries,h.entries,placeSections_length,
    checkedAdd_of_le (by omega)]
  dsimp only
  rw [if_neg (by omega),checkedAdd_of_le hfit]
  exact ⟨_,rfl⟩

end Writer

section Sections

variable {ρ : Type} (codec : DataCodec ρ) (registry : Registry) (journal : Journal)

/-- The rows that a section decodes to, read as this type. -/
def sectionRows (typeId : UInt32) (d : SectionDescriptor) : List ρ :=
  match readVerifiedBody journal d with
  | .error _ => []
  | .ok body =>
    match decodeAny codec registry typeId body with
    | .error _ => []
    | .ok decoded => decoded.batches.flatMap RecordBatch.rows

/-- The body that a type's rows are sealed to. -/
def SealsAs (typeId : UInt32) (rows : List ρ) (body : Bytes) : Prop :=
  ∃ contract sorted, registry.contract typeId = .ok contract ∧
    sortCanonical codec contract rows = .ok sorted ∧ codec.write contract sorted = .ok body ∧
    body.length ≤ maxSectionBytes

/-- The section that the descriptors of one type become. -/
structure SealedGroup (group : UInt32 × List SectionDescriptor) (s : SectionInput) : Prop where
  typeId : s.typeId = group.1
  rows : s.rows.toNat = (group.2.map fun d => d.entry.rows.toNat).sum
  rows_le : s.rows.toNat ≤ maxSectionRows
  decoded : ∀ d ∈ group.2,
    (sectionRows codec registry journal group.1 d).length = d.entry.rows.toNat
  body : SealsAs codec registry group.1 (group.2.flatMap (sectionRows codec registry journal group.1))
    s.body

end Sections

section Decoding

variable {ρ : Type} {codec : DataCodec ρ} {registry : Registry} {journal : Journal}

theorem decodeBatches_ok {contract : TypeContract} {body : Bytes} {decoded : DecodedSection ρ}
    (h : decodeBatches codec contract body = .ok decoded) :
    ∃ file, codec.read body = .ok file ∧ file.schema = contract.columns ∧
      decoded.batches = file.batches ∧
      decoded.rows = (decoded.batches.flatMap RecordBatch.rows).length := by
  unfold decodeBatches at h
  obtain ⟨file,hfile,h⟩ := bind_ok h
  split_ifs at h with hschema
  obtain ⟨totals,htotals,h⟩ := bind_ok h
  obtain ⟨values,_,h⟩ := bind_ok h
  cases h
  refine ⟨file,?_,not_not.1 hschema,rfl,?_⟩
  · unfold cappedReader at hfile
    split_ifs at hfile with hlen
    obtain ⟨_,_,hfile⟩ := bind_ok hfile
    obtain ⟨file',hread,hfile⟩ := bind_ok hfile
    split_ifs at hfile
    cases hfile
    exact hread
  · have hrun := @foldlM_run _ _ _ (decodeBatch codec)
      (fun done totals => totals.rows = (done.flatMap RecordBatch.rows).length) (by
        intro done batch totals next hdone hnext
        unfold decodeBatch at hnext
        split_ifs at hnext
        obtain ⟨_,_,rfl⟩ := map_ok hnext
        simp [hdone]) file.batches [] contract.noRows totals rfl htotals
    simpa using hrun

theorem decodeAny_ok {typeId : UInt32} {body : Bytes} {decoded : DecodedSection ρ}
    (h : decodeAny codec registry typeId body = .ok decoded) :
    ∃ contract, registry.contract typeId = .ok contract ∧
      decodeBatches codec contract body = .ok decoded := by
  obtain ⟨contract,hcontract,h⟩ := bind_ok h
  exact ⟨contract,hcontract,mapError_ok.1 h⟩

theorem overflowing_ok {α : Type} {what : String} {o : Option α} {a : α}
    (h : overflowing what o = .ok a) : o = some a := by
  cases o with
  | none => cases h
  | some b => cases h; rfl

theorem decodeDescriptor_ok {typeId : UInt32} {s s' : TypeRows ρ} {d : SectionDescriptor}
    (h : decodeDescriptor codec registry journal typeId s d = .ok s') :
    s'.batches.flatMap RecordBatch.rows =
        s.batches.flatMap RecordBatch.rows ++ sectionRows codec registry journal typeId d ∧
      s'.rows = s.rows + d.entry.rows.toNat ∧
      (sectionRows codec registry journal typeId d).length = d.entry.rows.toNat := by
  unfold decodeDescriptor at h
  obtain ⟨body,hbody,h⟩ := bind_ok h
  obtain ⟨decoded,hdecoded,h⟩ := bind_ok h
  split_ifs at h with hrows
  obtain ⟨rows,hsum,h⟩ := bind_ok h
  obtain ⟨values,_,h⟩ := bind_ok h
  obtain ⟨_,_,h⟩ := bind_ok h
  cases h
  have hany := mapError_ok.1 hdecoded
  obtain ⟨contract,_,hbatches⟩ := decodeAny_ok hany
  obtain ⟨_,_,_,_,hlen⟩ := decodeBatches_ok hbatches
  have hsection : sectionRows codec registry journal typeId d =
      decoded.batches.flatMap RecordBatch.rows := by simp [sectionRows,hbody,hany]
  have hdeclared : decoded.rows = d.entry.rows.toNat := not_not.1 hrows
  refine ⟨by simp [hsection],?_,by rw [hsection,← hlen,hdeclared]⟩
  rw [← hdeclared]
  exact (checkedAdd_eq_some.1 (overflowing_ok hsum)).1.symm

theorem encodeSealedBatches_ok {typeId : UInt32} {batches : List (RecordBatch ρ)} {body : Bytes}
    (h : encodeSealedBatches codec registry typeId batches = .ok body) :
    SealsAs codec registry typeId (batches.flatMap RecordBatch.rows) body := by
  unfold encodeSealedBatches at h
  obtain ⟨contract,hcontract,h⟩ := bind_ok h
  obtain ⟨_,_,h⟩ := bind_ok h
  obtain ⟨_,_,h⟩ := bind_ok h
  obtain ⟨_,_,h⟩ := bind_ok h
  obtain ⟨sorted,hsorted,h⟩ := bind_ok h
  obtain ⟨body',hwrite,h⟩ := bind_ok h
  split_ifs at h with hlen
  cases h
  exact ⟨contract,sorted,hcontract,hsorted,hwrite,not_lt.1 hlen⟩

theorem aggregateRows_ok {typeId : UInt32} {ds : List SectionDescriptor} {rows : ℕ}
    (h : aggregateRows typeId ds = .ok rows) :
    rows = (ds.map fun d => d.entry.rows.toNat).sum ∧ rows ≤ maxSectionRows := by
  unfold aggregateRows at h
  obtain ⟨total,htotal,h⟩ := bind_ok h
  split_ifs at h with hcap
  cases h
  have hrun := @foldlM_run _ _ _
    (fun rows d => overflowing "section row count" (checkedAdd rows d.entry.rows.toNat))
    (fun done rows => rows = (done.map fun d : SectionDescriptor => d.entry.rows.toNat).sum) (by
      intro done d rows next hdone hnext
      rw [← (checkedAdd_eq_some.1 (overflowing_ok hnext)).1,hdone]
      simp) ds [] 0 rows rfl htotal
  exact ⟨by simpa using hrun,not_lt.1 hcap⟩

/-- One type is sealed as one section. -/
theorem sealType_ok {w w' : PgmWriter} {group : UInt32 × List SectionDescriptor}
    {sections : List SectionInput} (hw : w.Wrote sections)
    (h : sealType codec registry journal w group = .ok w') :
    ∃ s, SealedGroup codec registry journal group s ∧ w'.Wrote (sections ++ [s]) := by
  unfold sealType at h
  obtain ⟨declared,hdeclared,h⟩ := bind_ok h
  obtain ⟨s,hs,h⟩ := bind_ok h
  obtain ⟨hsum,hcap⟩ := aggregateRows_ok hdeclared
  have hmax : maxSectionRows = 65536 := rfl
  by_cases hrows : s.rows ≠ declared
  · rw [if_pos hrows] at h
    cases h
  rw [if_neg hrows] at h
  obtain ⟨body,hbody,h⟩ := bind_ok h
  rw [if_neg (by omega)] at h
  have hrun := @foldlM_run _ _ _ (decodeDescriptor codec registry journal group.1)
    (fun done s => s.batches.flatMap RecordBatch.rows =
        done.flatMap (sectionRows codec registry journal group.1) ∧
      ∀ d ∈ done, (sectionRows codec registry journal group.1 d).length = d.entry.rows.toNat) (by
      intro done d s next hdone hnext
      obtain ⟨hbatches,_,hlen⟩ := decodeDescriptor_ok hnext
      refine ⟨by rw [hbatches,hdone.1]; simp,fun e he => ?_⟩
      rcases List.mem_append.1 he with he | he
      · exact hdone.2 e he
      · rw [List.mem_singleton.1 he]
        exact hlen) group.2 [] ⟨[],0,0⟩ s ⟨rfl,by simp⟩ hs
  rw [List.nil_append] at hrun
  have hto : (UInt32.ofNat declared).toNat = declared :=
    UInt32.toNat_ofNat_of_lt' (by rw [UInt32.size]; omega)
  have hseals := encodeSealedBatches_ok (mapError_ok.1 hbody)
  rw [hrun.1] at hseals
  exact ⟨⟨group.1,UInt32.ofNat declared,body⟩,
    ⟨rfl,hto.trans hsum,hto.symm ▸ hcap,hrun.2,hseals⟩,hw.step h⟩

theorem sealTypes_ok {groups : List (UInt32 × List SectionDescriptor)} {w w' : PgmWriter}
    {sections : List SectionInput} (hw : w.Wrote sections)
    (h : groups.foldlM (sealType codec registry journal) w = .ok w') :
    ∃ data, List.Forall₂ (SealedGroup codec registry journal) groups data ∧
      w'.Wrote (sections ++ data) := by
  induction groups generalizing w sections with
  | nil =>
    cases h
    exact ⟨[],.nil,by simpa using hw⟩
  | cons group groups ih =>
    rw [List.foldlM_cons] at h
    obtain ⟨w1,h1,h⟩ := bind_ok h
    obtain ⟨s,hs,hw1⟩ := sealType_ok hw h1
    obtain ⟨data,hdata,hlast⟩ := ih hw1 h
    exact ⟨s::data,.cons hs hdata,by simpa using hlast⟩

def DictSection.input (s : DictSection) : SectionInput := ⟨s.typeId,s.rows,s.body⟩

theorem writeDicts_ok {dicts : List DictSection} {w w' : PgmWriter} {sections : List SectionInput}
    (hw : w.Wrote sections)
    (h : dicts.foldlM (fun w s => w.writeSection s.typeId s.rows s.body) w = .ok w') :
    w'.Wrote (sections ++ dicts.map DictSection.input) := by
  induction dicts generalizing w sections with
  | nil =>
    cases h
    simpa using hw
  | cons s dicts ih =>
    rw [List.foldlM_cons] at h
    obtain ⟨w1,h1,h⟩ := bind_ok h
    have hlast := ih (hw.step (s := s.input) h1) h
    simpa using hlast

/-- What a successful seal has written. -/
theorem writeTmp_ok {dicts : DictCodec} {hashes : Hashes} {r : Bytes × SealSummary}
    (h : writeTmp codec registry dicts hashes journal = .ok r) :
    ∃ plan dictionary data sections w, planSegment journal = .ok plan ∧
      normalizeDictionary dicts hashes journal ((plan.byType.lookup dictStringsTypeId).getD [])
        ((plan.byType.lookup dictBlobsTypeId).getD []) = .ok dictionary ∧
      List.Forall₂ (SealedGroup codec registry journal) plan.dataGroups data ∧
      dictionary.sections dicts = .ok sections ∧
      PgmWriter.Wrote w (data ++ sections.map DictSection.input) ∧
      r.1 = sealedBytes (data ++ sections.map DictSection.input) plan.minTs plan.maxTs
        plan.windowCount ∧
      r.2 = ⟨data.length+sections.length,r.1.length,plan.minTs,plan.maxTs⟩ := by
  unfold writeTmp at h
  obtain ⟨plan,hplan,h⟩ := bind_ok h
  obtain ⟨dictionary,hdictionary,h⟩ := bind_ok h
  obtain ⟨w1,hw1,h⟩ := bind_ok h
  obtain ⟨sections,hsections,h⟩ := bind_ok h
  obtain ⟨w,hw,h⟩ := bind_ok h
  cases h
  obtain ⟨data,hdata,hwrote1⟩ := sealTypes_ok PgmWriter.start_wrote hw1
  rw [List.nil_append] at hwrote1
  have hwrote := writeDicts_ok hwrote1 hw
  refine ⟨plan,dictionary,data,sections,w,hplan,hdictionary,hdata,hsections,hwrote,?_,?_⟩
  · dsimp only
    rw [hwrote.out,hwrote.entries]
    rfl
  · dsimp only
    rw [hwrote.entries,placeSections_length,List.length_append,List.length_map]

end Decoding

section Format

/-- A catalog laid out for the bytes before it reads back from behind them. -/
theorem decodeAndBound_written {bodies : Bytes} {c : Catalog} (hcat : c.encodedLen < 2^32)
    (hlayout : validateCatalogLayout c (magic.length+bodies.length) = .ok ()) :
    decodeAndBound (magic ++ bodies ++ c.encode) = .ok c := by
  have hblock := c.encodeBlock_length
  have htail : (TailIndex.encode ⟨UInt32.ofNat c.encodedLen⟩).length = tailIndexLen := by
    simp [TailIndex.encode,tailIndexLen]
  have hmeta : metaLen ≤ c.encodedLen := by
    rw [Catalog.encodedLen]
    omega
  have hfront : (magic ++ bodies).length = magic.length+bodies.length := List.length_append
  have hencode : magic ++ bodies ++ c.encode =
      magic ++ bodies ++ c.encodeBlock ++ TailIndex.encode ⟨UInt32.ofNat c.encodedLen⟩ := by
    simp [Catalog.encode,Catalog.encodeBlock]
  have hto : (UInt32.ofNat c.encodedLen).toNat = c.encodedLen :=
    UInt32.toNat_ofNat_of_lt' (by simpa [UInt32.size] using hcat)
  have hlen : (magic ++ bodies ++ c.encode).length =
      magic.length+bodies.length+c.encodedLen+tailIndexLen := by
    rw [hencode,List.length_append,List.length_append,hfront,hblock,htail]
  have hmagic : slice (magic ++ bodies ++ c.encode) 0 4 = magic :=
    @slice_of_append _ [] magic (bodies ++ c.encode) 0 4 (by simp) rfl rfl
  have htailAt : slice (magic ++ bodies ++ c.encode) (magic.length+bodies.length+c.encodedLen)
      tailIndexLen = TailIndex.encode ⟨UInt32.ofNat c.encodedLen⟩ :=
    @slice_of_append _ (magic ++ bodies ++ c.encodeBlock) _ [] _ _
      (by rw [hencode,List.append_nil]) (by rw [List.length_append,hfront,hblock]) htail
  have hblockAt : slice (magic ++ bodies ++ c.encode) (magic.length+bodies.length) c.encodedLen =
      c.encodeBlock :=
    @slice_of_append _ (magic ++ bodies) _ _ _ _ hencode hfront hblock
  have hmin : minPartLen = magic.length+metaLen+tailIndexLen := rfl
  rw [decodeAndBound,hlen,if_neg (by omega),hmagic,if_neg (not_not.2 rfl)]
  dsimp only
  rw [Nat.add_sub_cancel,htailAt,TailIndex.decode_encode]
  dsimp only
  rw [hto,if_neg (by omega),Nat.add_sub_cancel,if_neg (by omega),Nat.add_sub_cancel_left,hblockAt,
    Catalog.decode_encodeBlock hcat]
  dsimp only
  rw [hlayout]

variable {sections : List SectionInput} (minTs maxTs : Int64) (windowCount : UInt32)

/-- Sections written one after another read back as a part. -/
theorem validatePart_sealedBytes {w : PgmWriter} (hw : w.Wrote sections)
    (horder : CanonicalOrder (sections.map SectionInput.typeId))
    (hrows : ∀ s ∈ sections, 0 < s.rows ∧ s.rows ≤ maxPhysicalSectionRows)
    (hbody : ∀ s ∈ sections, 0 < s.body.length ∧ s.body.length ≤ maxPhysicalSectionBytes.toNat) :
    validatePart (sealedBytes sections minTs maxTs windowCount) =
        .ok (sealedCatalog sections minTs maxTs windowCount) ∧
      (sealedCatalog sections minTs maxTs windowCount).entries.map (fun e =>
          (e.typeId,e.rows,e.body (sealedBytes sections minTs maxTs windowCount))) =
        sections.map fun s => (s.typeId,s.rows,s.body) := by
  have hfits := hw.fits
  have hcount := hw.count
  rw [hw.offset,u64Max] at hfits
  have hmax : maxCatalogEntries = 2097151 := by decide
  have hsize : magic.length+bodiesLen sections < 2^64 := by omega
  have hcat : (sealedCatalog sections minTs maxTs windowCount).encodedLen < 2^32 := by
    rw [Catalog.encodedLen,sealedCatalog,placeSections_length,entryLen,metaLen]
    omega
  have hranks : SectionsAscending (sealedCatalog sections minTs maxTs windowCount).entries := by
    have htypes : (sealedCatalog sections minTs maxTs windowCount).entries.map Entry.typeId =
        sections.map SectionInput.typeId := placeSections_typeIds _ _
    have hranked := (canonicalOrder_iff _).1 horder
    rw [← htypes,List.map_map] at hranked
    exact hranked
  have hlayout : validateCatalogLayout (sealedCatalog sections minTs maxTs windowCount)
      (magic.length+(sections.flatMap SectionInput.body).length) = .ok () := by
    rw [flatMap_body_length,validateCatalogLayout_ok_iff hsize]
    refine ⟨?_,placeSections_contiguous hsize,hranks⟩
    exact (placeSections_admissible hsize).2 fun s hs => ⟨hrows s hs,hbody s hs⟩
  constructor
  · rw [validatePart,sealedBytes,decodeAndBound_written hcat hlayout]
    dsimp only
    rw [show (sealedCatalog sections minTs maxTs windowCount).entries =
      placeSections magic.length sections from rfl,placeSections_crcs hsize]
  · exact placeSections_bodies hsize

end Format

end PgKronika
