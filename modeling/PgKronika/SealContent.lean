import PgKronika.SealSections

/-! A sealed file holds what its journal holds: all rows of each type in canonical order, every
dictionary value once. -/
namespace PgKronika

open ByteCodec CheckedArith SortedFront Std

/-- A row of some section with this schema. -/
def DataCodec.RowOf {ρ : Type} (codec : DataCodec ρ) (contract : TypeContract) (a : ρ) : Prop :=
  ∃ body file, codec.read body = .ok file ∧ file.schema = contract.columns ∧
    a ∈ file.batches.flatMap RecordBatch.rows

/-- Cells are ordered, and the columns of a contract tell its rows apart. A written body is not
empty. -/
structure DataCodec.Ordered {ρ : Type} (codec : DataCodec ρ) : Prop where
  trans : ∀ name, TransCmp (codec.compareCells name)
  eq_of_cells : ∀ contract a b, codec.RowOf contract a → codec.RowOf contract b →
    (∀ column ∈ contract.columns, codec.compareCells column.name a b = .eq) → a = b
  written : ∀ contract rows body, codec.write contract rows = .ok body → 0 < body.length

section Journal

variable {ρ : Type} (codec : DataCodec ρ) (registry : Registry) (dicts : DictCodec)
  (journal : Journal)

/-- The sections of a type, in the order of the parts. -/
def plannedSections (typeId : UInt32) : List SectionDescriptor :=
  match planSegment journal with
  | .error _ => []
  | .ok plan => (plan.byType.lookup typeId).getD []

/-- All rows of a type. -/
def journalRows (typeId : UInt32) : List ρ :=
  (plannedSections journal typeId).flatMap (sectionRows codec registry journal typeId)

/-- The values that a dictionary section lists. -/
def sectionValues (d : SectionDescriptor) : List (StrId × DictionaryValue) :=
  match readVerifiedBody journal d with
  | .error _ => []
  | .ok body =>
    match dicts.read body with
    | .error _ => []
    | .ok file => strIds (file.batches.flatMap DictTable.values)

/-- All dictionary values, with repetitions. -/
def journalValues : List (StrId × DictionaryValue) :=
  (plannedSections journal dictStringsTypeId ++ plannedSections journal dictBlobsTypeId).flatMap
    (sectionValues dicts journal)

end Journal

section Plan

variable {journal : Journal} {plan : SegmentPlan}

/-- The catalogs behind an accepted plan. -/
theorem planParts_catalogs {s s' : PlanState} {parts : List JournalPartRef}
    (h : planParts journal s parts = .ok s') :
    ∃ (bodies : List Bytes) (catalogs : List Catalog), parts.map journal.readPart = bodies.map .ok ∧
      bodies.map decodeAndBound = catalogs.map .ok := by
  induction parts generalizing s with
  | nil => exact ⟨[],[],rfl,rfl⟩
  | cons part parts ih =>
    rw [planParts] at h
    split at h
    · cases h
    · rename_i bytes hbytes
      split at h
      · cases h
      · rename_i catalog hcatalog
        split_ifs at h with hversion
        split at h
        · cases h
        · obtain ⟨bodies,catalogs,hread,hdecode⟩ := ih h
          refine ⟨bytes::bodies,catalog::catalogs,?_,?_⟩
          · simp [hbytes,hread]
          · simp [hcatalog,hdecode]

/-- What an accepted plan says: the groups are the nonempty sections of each type. -/
theorem planSegment_groups (h : planSegment journal = .ok plan) :
    plan.windowCount.toNat = journal.parts.length ∧
    (∀ typeId, plan.byType.lookup typeId = present (plannedSections journal typeId)) ∧
    ∀ typeId, ∀ d ∈ plannedSections journal typeId, d.entry.typeId = typeId ∧ d.entry.Admissible := by
  have hplanned : ∀ typeId, plannedSections journal typeId = (plan.byType.lookup typeId).getD [] := by
    intro typeId
    rw [plannedSections,h]
  unfold planSegment at h
  split_ifs at h with hcount
  split at h
  · cases h
  · rename_i s hs
    cases h
    obtain ⟨bodies,catalogs,hread,hdecode⟩ := planParts_catalogs hs
    obtain ⟨hgroups,_,_⟩ := planParts_ok hread hdecode hs
    have hlookup : ∀ typeId, s.byType.lookup typeId =
        present (ofType typeId (descriptorsOf (journal.parts.zip catalogs))) := by
      intro typeId
      rw [hgroups]
      exact groupByType_lookup _ typeId
    refine ⟨UInt32.toNat_ofNat_of_lt' (by rw [UInt32.size]; omega),fun typeId => ?_,?_⟩
    · rw [hplanned]
      dsimp only
      rw [hlookup,present_getD]
    · intro typeId d hd
      rw [hplanned] at hd
      dsimp only at hd
      rw [hlookup,present_getD] at hd
      obtain ⟨hmem,htype⟩ := List.mem_filter.1 hd
      obtain ⟨p,hp,hentry⟩ := List.mem_flatMap.1 hmem
      obtain ⟨entry,he,rfl⟩ := List.mem_map.1 hentry
      refine ⟨eq_of_beq htype,?_⟩
      have hcatalog : (.ok p.2 : Except PartError Catalog) ∈ bodies.map decodeAndBound := by
        rw [hdecode]
        exact List.mem_map_of_mem (List.of_mem_zip hp).2
      obtain ⟨body,_,hbody⟩ := List.mem_map.1 hcatalog
      obtain ⟨_,_,_,_,hlayout⟩ := decodeAndBound_ok hbody
      unfold validateCatalogLayout at hlayout
      split at hlayout
      · cases hlayout
      · rename_i stop hstop
        exact (validateEntries_ok hstop).1 entry he

/-- The data groups of a plan are the types that have sections, in ascending order. -/
theorem mem_dataGroups (h : planSegment journal = .ok plan) (group : UInt32 × List SectionDescriptor) :
    group ∈ plan.dataGroups ↔ group.1 ≠ dictStringsTypeId ∧ group.1 ≠ dictBlobsTypeId ∧
      plannedSections journal group.1 ≠ [] ∧ group.2 = plannedSections journal group.1 := by
  obtain ⟨typeId,ds⟩ := group
  rw [SegmentPlan.dataGroups,OrderedMap.mem_entries_iff,OrderedMap.lookup_erase,
    OrderedMap.lookup_erase,(planSegment_groups h).2.1,present]
  by_cases hs : typeId = dictStringsTypeId
  · by_cases hb : typeId = dictBlobsTypeId <;> simp [hs]
  · by_cases hb : typeId = dictBlobsTypeId
    · simp [hb]
    · by_cases hn : plannedSections journal typeId = []
      · simp [hs,hb,hn]
      · simp [hs,hb,hn,eq_comm]

end Plan

section Order

variable {ρ : Type} {codec : DataCodec ρ} {registry : Registry} {journal : Journal}

theorem compareRows_trans (hcodec : codec.Ordered) (names : List String) :
    TransCmp (compareRows codec names) := by
  induction names with
  | nil => exact { eq_swap := rfl, isLE_trans := fun _ _ => rfl }
  | cons name names ih =>
    have hname := hcodec.trans name
    exact inferInstanceAs (TransCmp (compareLex (codec.compareCells name) (compareRows codec names)))

theorem compareRows_eq_iff {names : List String} {a b : ρ} :
    compareRows codec names a b = .eq ↔ ∀ name ∈ names, codec.compareCells name a b = .eq := by
  induction names with
  | nil => simp [compareRows]
  | cons name names ih =>
    rw [List.forall_mem_cons,← ih]
    exact Ordering.then_eq_eq

theorem mem_sortNames {contract : TypeContract} {column : Column} (h : column ∈ contract.columns) :
    column.name ∈ contract.sortNames := by
  rw [TypeContract.sortNames,List.mem_append]
  by_cases hk : column.name ∈ contract.sortKey
  · exact .inl hk
  · exact .inr (List.mem_filter.2 ⟨List.mem_map_of_mem h,by simpa using hk⟩)

/-- Rows of one contract that compare equal are one row. -/
theorem eq_of_compareRows (hcodec : codec.Ordered) {contract : TypeContract} {a b : ρ}
    (ha : codec.RowOf contract a) (hb : codec.RowOf contract b)
    (h : compareRows codec contract.sortNames a b = .eq) : a = b :=
  hcodec.eq_of_cells contract a b ha hb fun _ hc => compareRows_eq_iff.1 h _ (mem_sortNames hc)

theorem sortCanonical_ok (hcodec : codec.Ordered) {contract : TypeContract} {rows sorted : List ρ}
    (hrows : ∀ a ∈ rows, codec.RowOf contract a) (h : sortCanonical codec contract rows = .ok sorted) :
    sorted.Perm rows ∧
      sorted.Pairwise fun a b => (compareRows codec contract.sortNames a b).isLE := by
  have htrans := compareRows_trans hcodec contract.sortNames
  unfold sortCanonical at h
  split_ifs at h with hshort
  · cases h
    refine ⟨.refl _,?_⟩
    rcases hshort with hcolumns | hlen
    · apply List.pairwise_of_forall_mem_list
      intro a ha b hb
      have he : a = b := hcodec.eq_of_cells contract a b (hrows a ha) (hrows b hb)
        (by simp [hcolumns])
      simp [he,@ReflCmp.compare_self _ (compareRows codec contract.sortNames) _]
    · match rows with
      | [] => exact .nil
      | [a] => exact List.pairwise_singleton ..
      | _::_::_ => simp at hlen
  · split at h
    · cases h
    · cases h
      exact ⟨sortBy_perm _ _,sortBy_ascending _ _⟩

/-- Rows have one canonical order. -/
theorem eq_of_canonical (hcodec : codec.Ordered) {contract : TypeContract} {rows rows' : List ρ}
    (hperm : rows.Perm rows') (hrows : ∀ a ∈ rows, codec.RowOf contract a)
    (hrows' : ∀ a ∈ rows', codec.RowOf contract a)
    (hs : rows.Pairwise fun a b => (compareRows codec contract.sortNames a b).isLE)
    (hs' : rows'.Pairwise fun a b => (compareRows codec contract.sortNames a b).isLE) :
    rows = rows' := by
  have htrans := compareRows_trans hcodec contract.sortNames
  apply hperm.eq_of_pairwise _ hs hs'
  intro a b ha hb hab hba
  exact eq_of_compareRows hcodec (hrows a ha) (hrows' b hb) (OrientedCmp.isLE_antisymm hab hba)

theorem sectionRows_rowOf {typeId : UInt32} {contract : TypeContract}
    (hcontract : registry.contract typeId = .ok contract) {d : SectionDescriptor} {a : ρ}
    (ha : a ∈ sectionRows codec registry journal typeId d) : codec.RowOf contract a := by
  unfold sectionRows at ha
  split at ha
  · cases ha
  · rename_i body hbody
    split at ha
    · cases ha
    · rename_i decoded hdecoded
      obtain ⟨contract',hcontract',hbatches⟩ := decodeAny_ok hdecoded
      rw [hcontract] at hcontract'
      cases hcontract'
      obtain ⟨file,hread,hschema,hfile,_⟩ := decodeBatches_ok hbatches
      exact ⟨body,file,hread,hschema,hfile ▸ ha⟩

theorem journalRows_rowOf {typeId : UInt32} {contract : TypeContract}
    (hcontract : registry.contract typeId = .ok contract) {a : ρ}
    (ha : a ∈ journalRows codec registry journal typeId) : codec.RowOf contract a := by
  obtain ⟨d,_,hd⟩ := List.mem_flatMap.1 ha
  exact sectionRows_rowOf hcontract hd

end Order

section Dictionary

variable {dicts : DictCodec} {hashes : Hashes} {journal : Journal}

theorem decodeSections_ok {ds : List SectionDescriptor} {n n' : NormalizedDictionary}
    (h : ds.foldlM (decodeDictionaryBody dicts hashes journal) n = .ok n') :
    insertAll n (ds.flatMap (sectionValues dicts journal)) = .ok n' := by
  induction ds generalizing n with
  | nil => exact h
  | cons d ds ih =>
    rw [List.foldlM_cons] at h
    obtain ⟨n1,h1,h⟩ := bind_ok h
    obtain ⟨body,file,hbody,hfile,hinsert⟩ := decodeDictionaryBody_ok h1
    have hvalues : sectionValues dicts journal d =
        strIds (file.batches.flatMap DictTable.values) := by simp [sectionValues,hbody,hfile]
    rw [List.flatMap_cons,insertAll_append,hvalues,hinsert]
    exact ih h

/-- The normalized dictionary maps each id to its value in the journal. -/
theorem normalizeDictionary_ok {plan : SegmentPlan} (hplan : planSegment journal = .ok plan)
    {n : NormalizedDictionary} (h : normalizeDictionary dicts hashes journal
      ((plan.byType.lookup dictStringsTypeId).getD []) ((plan.byType.lookup dictBlobsTypeId).getD [])
        = .ok n) (id : StrId) (v : DictionaryValue) :
    n.values.lookup id = some v ↔ (id,v) ∈ journalValues dicts journal := by
  obtain ⟨_,hlookup,_⟩ := planSegment_groups hplan
  rw [hlookup,hlookup,present_getD,present_getD] at h
  rw [(insertAll_ok NormalizedDictionary.new_sized (decodeSections_ok h)).2]
  exact or_iff_right nofun

/-- The entries of one placement, as ids and values. -/
def placedValues (p : Placement) (es : List EntrySnapshot) : List (StrId × DictionaryValue) :=
  (es.filter fun e => e.placement = p).map fun e => (e.strId,e.value)

/-- At most one section, with all values of a placement. -/
def DictPart (dicts : DictCodec) (p : Placement) (vs : List (StrId × DictionaryValue))
    (sections : List DictSection) : Prop :=
  (vs = [] ∧ sections = []) ∨ ∃ s, vs ≠ [] ∧ sections = [s] ∧ s.typeId = p.typeId ∧
    WroteSection dicts p vs s ∧ s.body.length ≤ maxSectionBytes

theorem encodeEntries_parts {profile : DictProfile} {es : List EntrySnapshot}
    {sections : List DictSection} (hasc : es.Pairwise fun a b => a.strId < b.strId)
    (h : encodeEntriesWithProperties dicts profile es = .ok sections) :
    ∃ head tail, sections = head ++ tail ∧ DictPart dicts .strings (placedValues .strings es) head ∧
      DictPart dicts .blobs (placedValues .blobs es) tail := by
  have hplaced : ∀ p, ∀ e ∈ es.filter (fun e => decide (e.placement = p)), e.placement = p :=
    fun p e he => of_decide_eq_true (List.mem_filter.1 he).2
  unfold encodeEntriesWithProperties at h
  dsimp only at h
  obtain ⟨head,hhead,h⟩ := bind_ok h
  obtain ⟨tail,htail,h⟩ := bind_ok h
  cases h
  refine ⟨head,tail,rfl,?_,?_⟩
  · split_ifs at hhead with hempty
    · cases hhead
      exact .inl ⟨by rw [placedValues,hempty]; rfl,rfl⟩
    · obtain ⟨s,hs,rfl⟩ := map_ok hhead
      obtain ⟨htype,hwrote⟩ := encodeStrings_ok (hasc.filter _) (hplaced .strings) hs
      exact .inr ⟨s,by simpa [placedValues] using hempty,rfl,htype,hwrote,
        (dictSection_ok hs).2.2.2.2⟩
  · split_ifs at htail with hempty
    · cases htail
      exact .inl ⟨by rw [placedValues,hempty]; rfl,rfl⟩
    · obtain ⟨s,hs,rfl⟩ := map_ok htail
      obtain ⟨htype,hwrote⟩ := encodeBlobs_ok (hasc.filter _) (hplaced .blobs) hs
      exact .inr ⟨s,by simpa [placedValues] using hempty,rfl,htype,hwrote,
        (dictSection_ok hs).2.2.2.2⟩

theorem snapshot_value (id : StrId) (v : DictionaryValue) :
    ((v.snapshot id).strId,(v.snapshot id).value) = (id,v) ∧ (v.snapshot id).placement = v.placement := by
  cases v <;> exact ⟨rfl,rfl⟩

theorem placedValues_snapshots (n : NormalizedDictionary) (p : Placement) :
    placedValues p n.snapshots = n.values.entries.filter fun q => q.2.placement = p := by
  rw [placedValues,NormalizedDictionary.snapshots,List.filter_map,List.map_map]
  have hid : ((fun e : EntrySnapshot => (e.strId,e.value)) ∘
      fun q : StrId × DictionaryValue => q.2.snapshot q.1) = id := by
    funext q
    exact (snapshot_value q.1 q.2).1
  rw [hid,List.map_id]
  apply List.filter_congr
  intro q _
  simp [(snapshot_value q.1 q.2).2]

/-- The dictionary sections list each value once, under ascending ids. -/
theorem sections_parts {n : NormalizedDictionary} {sections : List DictSection}
    (h : n.sections dicts = .ok sections) :
    ∃ head tail, sections = head ++ tail ∧
      DictPart dicts .strings (n.values.entries.filter fun q => q.2.placement = .strings) head ∧
      DictPart dicts .blobs (n.values.entries.filter fun q => q.2.placement = .blobs) tail := by
  have hencode := mapError_ok.1 h
  unfold encodeSealedEntries at hencode
  obtain ⟨strings,_,hencode⟩ := bind_ok hencode
  obtain ⟨blobs,_,hencode⟩ := bind_ok hencode
  obtain ⟨_,_,hencode⟩ := bind_ok hencode
  obtain ⟨_,_,hencode⟩ := bind_ok hencode
  have hasc : n.snapshots.Pairwise fun a b => a.strId < b.strId := by
    apply List.pairwise_map.2
    apply n.values.ascending.imp
    rintro ⟨a,v⟩ ⟨b,w⟩ hab
    cases v <;> cases w <;> exact hab
  have hparts := encodeEntries_parts hasc hencode
  rwa [placedValues_snapshots,placedValues_snapshots] at hparts

end Dictionary

/-- A section with these rows of its type, each as often as given, in canonical order. -/
def HoldsRows {ρ : Type} (codec : DataCodec ρ) (registry : Registry) (rows : List ρ)
    (s : SectionInput) : Prop :=
  ∃ contract sorted, registry.contract s.typeId = .ok contract ∧ sorted.Perm rows ∧
    (sorted.Pairwise fun a b => (compareRows codec contract.sortNames a b).isLE) ∧
    codec.write contract sorted = .ok s.body ∧ s.rows.toNat = rows.length

/-- A section with the values of one placement, each once, under ascending ids. -/
def HoldsValues (dicts : DictCodec) (p : Placement) (values : List (StrId × DictionaryValue))
    (s : SectionInput) : Prop :=
  ∃ profile table vs, dicts.write profile table = .ok s.body ∧ table.values = rawIds vs ∧
    (vs.Pairwise fun a b => a.1 < b.1) ∧ (∀ q, q ∈ vs ↔ q ∈ values ∧ q.2.placement = p) ∧
    s.rows.toNat = vs.length

/-- The sections that a catalog lists, as they are written. -/
def Catalog.sectionsOf (c : Catalog) (bytes : Bytes) : List SectionInput :=
  c.entries.map fun e => ⟨e.typeId,e.rows,e.body bytes⟩

section Sealed

variable {ρ : Type} {codec : DataCodec ρ} {registry : Registry} {dicts : DictCodec} {hashes : Hashes}
  {journal : Journal}

/-- The rows and the size of the section of one type. -/
theorem SealedGroup.holds (hcodec : codec.Ordered) {plan : SegmentPlan}
    (hplan : planSegment journal = .ok plan) {group : UInt32 × List SectionDescriptor}
    (hgroup : group ∈ plan.dataGroups) {s : SectionInput}
    (h : SealedGroup codec registry journal group s) :
    HoldsRows codec registry (journalRows codec registry journal s.typeId) s ∧
      0 < s.rows.toNat ∧ 0 < s.body.length ∧ s.body.length ≤ maxSectionBytes := by
  obtain ⟨_,_,hne,hds⟩ := (mem_dataGroups hplan group).1 hgroup
  obtain ⟨contract,sorted,hcontract,hsorted,hwrite,hlen⟩ := h.body
  have hrows : group.2.flatMap (sectionRows codec registry journal group.1) =
      journalRows codec registry journal group.1 := by rw [journalRows,hds]
  rw [hrows] at hsorted
  obtain ⟨hperm,hasc⟩ := sortCanonical_ok hcodec (fun a => journalRows_rowOf hcontract) hsorted
  have hcount : s.rows.toNat = (journalRows codec registry journal group.1).length := by
    rw [h.rows,← hrows,List.length_flatMap]
    exact congrArg List.sum (List.map_congr_left fun d hd => (h.decoded d hd).symm)
  refine ⟨⟨contract,sorted,h.typeId ▸ hcontract,h.typeId ▸ hperm,hasc,hwrite,h.typeId ▸ hcount⟩,?_,
    hcodec.written _ _ _ hwrite,hlen⟩
  obtain ⟨d,hd⟩ := List.exists_mem_of_ne_nil _ hne
  have hpos := ((planSegment_groups hplan).2.2 group.1 d hd).2.rows_pos
  have hle : d.entry.rows.toNat ≤ (group.2.map fun d => d.entry.rows.toNat).sum :=
    List.le_sum_of_mem (List.mem_map.2 ⟨d,hds ▸ hd,rfl⟩)
  have hd0 : d.entry.rows.toNat ≠ 0 := fun hz => hpos (UInt32.toNat_inj.1 hz)
  rw [h.rows]
  omega

theorem forall₂_left {α β : Type} {R : α → β → Prop} {as : List α} {bs : List β}
    (h : List.Forall₂ R as bs) {b : β} (hb : b ∈ bs) : ∃ a ∈ as, R a b := by
  induction h with
  | nil => cases hb
  | cons hab _ ih =>
    rcases List.mem_cons.1 hb with rfl | hb
    · exact ⟨_,List.mem_cons_self ..,hab⟩
    · obtain ⟨a,ha,hr⟩ := ih hb
      exact ⟨a,List.mem_cons_of_mem _ ha,hr⟩

theorem dataGroups_typeIds {groups : List (UInt32 × List SectionDescriptor)} {data : List SectionInput}
    (h : List.Forall₂ (SealedGroup codec registry journal) groups data) :
    data.map SectionInput.typeId = groups.map Prod.fst := by
  induction h with
  | nil => rfl
  | cons hs _ ih => rw [List.map_cons,List.map_cons,hs.typeId,ih]

theorem DictPart.typeIds {p : Placement} {vs : List (StrId × DictionaryValue)}
    {sections : List DictSection} (h : DictPart dicts p vs sections) :
    sections.map (fun s => s.input.typeId) = [] ∨
      sections.map (fun s => s.input.typeId) = [p.typeId] := by
  rcases h with ⟨_,rfl⟩ | ⟨s,_,rfl,htype,_⟩
  · exact .inl rfl
  · exact .inr (congrArg (fun t => [t]) htype)

/-- A dictionary section of the file, and what it holds. -/
theorem DictPart.holds (hdicts : ∀ profile table body, dicts.write profile table = .ok body →
      0 < body.length) {n : NormalizedDictionary} {values : List (StrId × DictionaryValue)}
    (hn : ∀ id v, n.values.lookup id = some v ↔ (id,v) ∈ values) {p : Placement}
    {sections : List DictSection}
    (h : DictPart dicts p (n.values.entries.filter fun q => q.2.placement = p) sections) :
    ((∃ q ∈ values, q.2.placement = p) ↔ sections ≠ []) ∧
    ∀ s ∈ sections, s.typeId = p.typeId ∧ HoldsValues dicts p values s.input ∧
      (0 < s.rows.toNat ∧ s.rows.toNat ≤ maxSectionRows) ∧
      0 < s.body.length ∧ s.body.length ≤ maxSectionBytes := by
  have hmem : ∀ q, q ∈ n.values.entries.filter (fun q => decide (q.2.placement = p)) ↔
      q ∈ values ∧ q.2.placement = p := by
    intro q
    rw [List.mem_filter,OrderedMap.mem_entries_iff,hn,decide_eq_true_iff]
  rcases h with ⟨hvs,rfl⟩ | ⟨s,hne,rfl,htype,hwrote,hlen⟩
  · refine ⟨iff_of_false ?_ (by simp),by simp⟩
    rintro ⟨q,hq⟩
    have hq' := (hmem q).2 hq
    rw [hvs] at hq'
    cases hq'
  · obtain ⟨q,hq⟩ := List.exists_mem_of_ne_nil _ hne
    refine ⟨iff_of_true ⟨q,(hmem q).1 hq⟩ (by simp),?_⟩
    intro s' hs'
    obtain rfl := List.mem_singleton.1 hs'
    obtain ⟨profile,table,hwrite,_,htable⟩ := hwrote.table
    have hmax : maxSectionRows = 65536 := rfl
    have hle := hwrote.rows_le
    have hrows : s'.rows.toNat =
        (n.values.entries.filter fun q => decide (q.2.placement = p)).length := by
      rw [hwrote.rows]
      exact UInt32.toNat_ofNat_of_lt' (by rw [UInt32.size]; omega)
    have hpos := List.length_pos_iff.2 hne
    exact ⟨htype,⟨profile,table,_,hwrite,htable,n.values.ascending.filter _,hmem,hrows⟩,
      ⟨by omega,by omega⟩,hdicts _ _ _ hwrite,hlen⟩

theorem sealedCatalog_sectionsOf {sections : List SectionInput} {minTs maxTs : Int64}
    {windowCount : UInt32} {bytes : Bytes}
    (h : (sealedCatalog sections minTs maxTs windowCount).entries.map (fun e =>
      (e.typeId,e.rows,e.body bytes)) = sections.map fun s => (s.typeId,s.rows,s.body)) :
    (sealedCatalog sections minTs maxTs windowCount).sectionsOf bytes = sections := by
  have hmap := congrArg (List.map fun t : UInt32 × UInt32 × Bytes => SectionInput.mk t.1 t.2.1 t.2.2) h
  rw [List.map_map,List.map_map] at hmap
  have hid : ((fun t : UInt32 × UInt32 × Bytes => SectionInput.mk t.1 t.2.1 t.2.2) ∘
      fun s : SectionInput => (s.typeId,s.rows,s.body)) = id := rfl
  rw [hid,List.map_id] at hmap
  exact hmap

end Sealed

end PgKronika
