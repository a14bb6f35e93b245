import PgKronika.DictionaryMerge

/-! The dictionary that the sealer rebuilds from the sections of all parts is one run of
insertions of the values that the windows wrote. -/
namespace PgKronika

open ByteCodec CheckedArith

/-- Values under their ids, the way the rows of a section name them. -/
def strIds (rows : List (UInt64 × DictionaryValue)) : List (StrId × DictionaryValue) :=
  rows.filterMap fun row => (StrId.fromRaw row.1).map fun id => (id,row.2)

def rawIds (vs : List (StrId × DictionaryValue)) : List (UInt64 × DictionaryValue) :=
  vs.map fun p => (p.1.raw,p.2)

theorem StrId.fromRaw_raw (id : StrId) : StrId.fromRaw id.raw = some id := dif_pos id.nonZero

theorem strIds_rawIds (vs : List (StrId × DictionaryValue)) : strIds (rawIds vs) = vs := by
  induction vs with
  | nil => rfl
  | cons p vs ih =>
    rw [rawIds,List.map_cons,strIds,List.filterMap_cons,StrId.fromRaw_raw]
    exact congrArg _ ih

theorem orderedStrId_ok {raw previous : UInt64} {id : StrId} (h : orderedStrId raw previous = .ok id) :
    StrId.fromRaw raw = some id := by
  unfold orderedStrId at h
  split at h
  · cases h
  · rename_i id' hid
    split_ifs at h
    cases h
    exact hid

section Insert

variable {hashes : Hashes} {n n' : NormalizedDictionary}

theorem insertRows_ok {rows : List (UInt64 × DictionaryValue)} {previous previous' : UInt64}
    (h : insertRows hashes previous n rows = .ok (previous',n')) :
    insertAll n (strIds rows) = .ok n' := by
  induction rows generalizing previous n with
  | nil => cases h; rfl
  | cons row rows ih =>
    rw [insertRows] at h
    split at h
    · cases h
    · rename_i id hid
      split_ifs at h with hvalid
      split at h
      · cases h
      · rename_i n1 hn1
        rw [strIds,List.filterMap_cons,orderedStrId_ok hid]
        change insertAll n ((id,row.2)::strIds rows) = _
        rw [insertAll_cons,hn1]
        exact ih h

theorem insertBatches_ok {isBlob : Bool} {batches : List DictTable} {rows rows' : ℕ}
    {previous : UInt64} (h : insertBatches hashes isBlob rows previous n batches = .ok (rows',n')) :
    insertAll n (strIds (batches.flatMap DictTable.values)) = .ok n' ∧
      rows' = rows + (batches.flatMap DictTable.values).length := by
  induction batches generalizing rows previous n with
  | nil => cases h; exact ⟨rfl,rfl⟩
  | cons batch batches ih =>
    rw [insertBatches] at h
    split at h
    · cases h
    · rename_i next hnext
      split_ifs at h with hkind
      split at h
      · cases h
      · rename_i previous1 n1 hrows
        obtain ⟨hall,hlen⟩ := ih h
        obtain ⟨rfl,_⟩ := checkedAdd_eq_some.mp hnext
        constructor
        · rw [List.flatMap_cons,strIds,List.filterMap_append]
          change insertAll n (strIds batch.values ++ strIds (batches.flatMap DictTable.values)) = _
          rw [insertAll_append,insertRows_ok hrows]
          exact hall
        · rw [hlen,List.flatMap_cons,List.length_append]
          omega

/-- The values one section adds. -/
theorem decodeDictionaryBody_ok {codec : DictCodec} {j : Journal} {d : SectionDescriptor}
    (h : decodeDictionaryBody codec hashes j n d = .ok n') :
    ∃ body file, readVerifiedBody j d = .ok body ∧ codec.read body = .ok file ∧
      insertAll n (strIds (file.batches.flatMap DictTable.values)) = .ok n' := by
  unfold decodeDictionaryBody at h
  dsimp only at h
  split_ifs at h with htype
  obtain ⟨body,hbody,h⟩ := bind_ok h
  obtain ⟨_,_,h⟩ := bind_ok h
  obtain ⟨file,hfile,h⟩ := bind_ok h
  split_ifs at h
  obtain ⟨⟨rows,next⟩,hrows,h⟩ := bind_ok h
  split_ifs at h
  cases h
  refine ⟨body,file,hbody,?_,(insertBatches_ok hrows).1⟩
  cases hread : codec.read body with
  | error e => rw [hread] at hfile; cases hfile
  | ok file' => rw [hread] at hfile; cases hfile; rfl

/-- Rows that a writer produced: ids ascend and every value belongs to its id. -/
def WellWritten (hashes : Hashes) (vs : List (StrId × DictionaryValue)) : Prop :=
  vs.Pairwise (fun a b => a.1 < b.1) ∧ ∀ p ∈ vs, p.2.valid hashes p.1 = true

theorem insertRows_of_written {vs : List (StrId × DictionaryValue)} {previous : UInt64}
    (hvs : WellWritten hashes vs) (hprev : ∀ p ∈ vs, previous < p.1.raw)
    (h : insertAll n vs = .ok n') :
    ∃ previous', insertRows hashes previous n (rawIds vs) = .ok (previous',n') ∧
      ∀ id : StrId, previous < id.raw → (∀ p ∈ vs, p.1 < id) → previous' < id.raw := by
  induction vs generalizing previous n with
  | nil =>
    cases h
    exact ⟨previous,rfl,fun id hid _ => hid⟩
  | cons p vs ih =>
    obtain ⟨hasc,hvalid⟩ := hvs
    obtain ⟨hlow,hrest⟩ := List.pairwise_cons.mp hasc
    rw [insertAll_cons] at h
    obtain ⟨n1,h1,h2⟩ := bind_ok h
    have hlt : ∀ a b : StrId, a < b → a.raw < b.raw := fun a b hab => UInt64.lt_iff_toNat_lt.mpr hab
    obtain ⟨previous',hrows,hbound⟩ := @ih n1 p.1.raw
      ⟨hrest,fun q hq => hvalid q (List.mem_cons_of_mem _ hq)⟩
      (fun q hq => hlt _ _ (hlow q hq)) h2
    refine ⟨previous',?_,fun id hid hall => ?_⟩
    · have hord : orderedStrId p.1.raw previous = .ok p.1 := by
        rw [orderedStrId,StrId.fromRaw_raw]
        exact if_neg (UInt64.not_le.mpr (hprev p (List.mem_cons_self ..)))
      rw [rawIds,List.map_cons,insertRows,hord]
      dsimp only
      rw [if_pos (hvalid p (List.mem_cons_self ..)),h1]
      exact hrows
    · exact hbound id (hlt _ _ (hall p (List.mem_cons_self ..)))
        fun q hq => hall q (List.mem_cons_of_mem _ hq)

theorem insertBatches_of_written {isBlob : Bool} {batches : List DictTable}
    (hkind : ∀ b ∈ batches, b.isBlob = isBlob) {vs : List (StrId × DictionaryValue)}
    (hbatches : batches.flatMap DictTable.values = rawIds vs) (hvs : WellWritten hashes vs)
    {rows : ℕ} (hrows : rows + vs.length ≤ u64Max) {previous : UInt64}
    (hprev : ∀ p ∈ vs, previous < p.1.raw) (h : insertAll n vs = .ok n') :
    insertBatches hashes isBlob rows previous n batches = .ok (rows+vs.length,n') := by
  induction batches generalizing vs rows previous n with
  | nil =>
    have hnil : vs = [] := List.map_eq_nil_iff.mp hbatches.symm
    subst hnil
    cases h
    rfl
  | cons batch batches ih =>
    rw [List.flatMap_cons] at hbatches
    obtain ⟨vs1,vs2,rfl,hv1,hv2⟩ := List.map_eq_append_iff.mp hbatches.symm
    obtain ⟨hasc,hvalid⟩ := hvs
    obtain ⟨hasc1,hasc2,hcross⟩ := List.pairwise_append.mp hasc
    rw [insertAll_append] at h
    obtain ⟨n1,h1,h2⟩ := bind_ok h
    rw [List.length_append] at hrows
    obtain ⟨previous1,hrows1,hbound⟩ := insertRows_of_written
      ⟨hasc1,fun p hp => hvalid p (List.mem_append_left _ hp)⟩
      (fun p hp => hprev p (List.mem_append_left _ hp)) h1
    have hlen : batch.values.length = vs1.length := by rw [← hv1,List.length_map]
    rw [insertBatches,checkedAdd_of_le (by omega)]
    dsimp only
    rw [if_neg (not_not.mpr (hkind batch (List.mem_cons_self ..))),← hv1]
    have hread : insertRows hashes previous n (vs1.map fun p => (p.1.raw,p.2)) =
        .ok (previous1,n1) := hrows1
    rw [hread]
    dsimp only
    rw [List.length_map,ih (fun b hb => hkind b (List.mem_cons_of_mem _ hb)) hv2.symm
      ⟨hasc2,fun p hp => hvalid p (List.mem_append_right _ hp)⟩ (by omega)
      (fun p hp => hbound p.1 (hprev p (List.mem_append_right _ hp)) fun q hq => hcross q hq p hp)
      h2,List.length_append,Nat.add_assoc]

end Insert

def EntrySnapshot.value (e : EntrySnapshot) : DictionaryValue :=
  match e.placement with
  | .strings => .string e.storedBytes
  | .blobs => .blob e.storedBytes e.fullLen e.truncated e.fullSha256

def Placement.typeId : Placement → UInt32
  | .strings => dictStringsTypeId
  | .blobs => dictBlobsTypeId

def Placement.isBlob : Placement → Bool
  | .strings => false
  | .blobs => true

/-- What a window contributes to the dictionary of one placement. -/
def windowValues (p : Placement) (w : SegmentDicts) : List (StrId × DictionaryValue) :=
  (w.snapshots.filter fun e => e.placement = p).map fun e => (e.strId,e.value)

/-- A section that holds these values. -/
structure WroteSection (codec : DictCodec) (p : Placement) (vs : List (StrId × DictionaryValue))
    (s : DictSection) : Prop where
  table : ∃ profile t, codec.write profile t = .ok s.body ∧ t.isBlob = p.isBlob ∧
    t.values = rawIds vs
  rows_le : vs.length ≤ maxSectionRows
  rows : s.rows = UInt32.ofNat vs.length

section Window

variable {codec : DictCodec} {w : SegmentDicts}

theorem dictSection_ok {profile : DictProfile} {typeId : UInt32} {t : DictTable} {s : DictSection}
    (h : dictSection codec profile typeId t = .ok s) :
    s.typeId = typeId ∧ codec.write profile t = .ok s.body ∧
      t.values.length ≤ maxSectionRows ∧ s.rows = UInt32.ofNat t.values.length ∧
      s.body.length ≤ maxSectionBytes := by
  unfold dictSection at h
  dsimp only at h
  split_ifs at h with hrows
  split at h
  · cases h
  · rename_i body hbody
    split_ifs at h with hlen
    cases h
    exact ⟨rfl,hbody,not_lt.mp hrows,rfl,not_lt.mp hlen⟩

theorem sortById_of_ascending {es : List EntrySnapshot}
    (h : es.Pairwise fun a b => a.strId < b.strId) : sortById es = es :=
  List.mergeSort_of_pairwise (h.imp fun hab => decide_eq_true hab.le)

theorem snapshots_ascending (w : SegmentDicts) :
    w.snapshots.Pairwise fun a b => a.strId < b.strId :=
  List.pairwise_map.mpr (w.entries.ascending.imp fun h => h)

theorem encodeStrings_ok {profile : DictProfile} {es : List EntrySnapshot} {s : DictSection}
    (hasc : es.Pairwise fun a b => a.strId < b.strId) (hp : ∀ e ∈ es, e.placement = .strings)
    (h : encodeStrings codec profile es = .ok s) :
    s.typeId = dictStringsTypeId ∧
      WroteSection codec .strings (es.map fun e => (e.strId,e.value)) s := by
  obtain ⟨htype,hwrite,hlen,hrows,_⟩ := dictSection_ok h
  rw [sortById_of_ascending hasc] at hwrite hlen hrows
  have hvalues : DictTable.values (.strings (es.map fun e => ⟨e.strId.raw,e.storedBytes⟩)) =
      rawIds (es.map fun e => (e.strId,e.value)) := by
    rw [DictTable.values,rawIds,List.map_map,List.map_map]
    refine List.map_congr_left fun e he => ?_
    simp [EntrySnapshot.value,hp e he]
  rw [hvalues,rawIds,List.length_map] at hlen hrows
  exact ⟨htype,⟨profile,_,hwrite,rfl,hvalues⟩,hlen,hrows⟩

theorem encodeBlobs_ok {profile : DictProfile} {es : List EntrySnapshot} {s : DictSection}
    (hasc : es.Pairwise fun a b => a.strId < b.strId) (hp : ∀ e ∈ es, e.placement = .blobs)
    (h : encodeBlobs codec profile es = .ok s) :
    s.typeId = dictBlobsTypeId ∧
      WroteSection codec .blobs (es.map fun e => (e.strId,e.value)) s := by
  obtain ⟨htype,hwrite,hlen,hrows,_⟩ := dictSection_ok h
  rw [sortById_of_ascending hasc] at hwrite hlen hrows
  have hvalues : DictTable.values (.blobs (es.map fun e =>
      ⟨e.strId.raw,e.storedBytes,e.fullLen,e.truncated,e.fullSha256⟩)) =
      rawIds (es.map fun e => (e.strId,e.value)) := by
    rw [DictTable.values,rawIds,List.map_map,List.map_map]
    refine List.map_congr_left fun e he => ?_
    simp [EntrySnapshot.value,hp e he]
  rw [hvalues,rawIds,List.length_map] at hlen hrows
  exact ⟨htype,⟨profile,_,hwrite,rfl,hvalues⟩,hlen,hrows⟩

/-- At most one section of a placement, and none when the window has no such value. -/
theorem SegmentDicts.encode_sections {sections : List DictSection}
    (h : w.encode codec = .ok sections) (p : Placement) :
    (sections.filter (fun s => s.typeId == p.typeId) = [] ∧ windowValues p w = []) ∨
    ∃ s, sections.filter (fun s => s.typeId == p.typeId) = [s] ∧
      WroteSection codec p (windowValues p w) s := by
  have hasc := fun p => (snapshots_ascending w).filter fun e => decide (e.placement = p)
  have hplaced : ∀ p, ∀ e ∈ w.snapshots.filter (fun e => decide (e.placement = p)),
      e.placement = p := fun p e he => of_decide_eq_true (List.mem_filter.mp he).2
  unfold encode encodeEntriesWithProperties at h
  dsimp only at h
  obtain ⟨head,hhead,h⟩ := bind_ok h
  obtain ⟨tail,htail,h⟩ := bind_ok h
  cases h
  have hstrings : (head = [] ∧ windowValues .strings w = []) ∨
      ∃ s, head = [s] ∧ s.typeId = dictStringsTypeId ∧
        WroteSection codec .strings (windowValues .strings w) s := by
    split_ifs at hhead with hempty
    · cases hhead
      exact .inl ⟨rfl,by rw [windowValues,hempty]; rfl⟩
    · obtain ⟨s,hs,rfl⟩ := map_ok hhead
      exact .inr ⟨s,rfl,encodeStrings_ok (hasc .strings) (hplaced .strings) hs⟩
  have hblobs : (tail = [] ∧ windowValues .blobs w = []) ∨
      ∃ s, tail = [s] ∧ s.typeId = dictBlobsTypeId ∧
        WroteSection codec .blobs (windowValues .blobs w) s := by
    split_ifs at htail with hempty
    · cases htail
      exact .inl ⟨rfl,by rw [windowValues,hempty]; rfl⟩
    · obtain ⟨s,hs,rfl⟩ := map_ok htail
      exact .inr ⟨s,rfl,encodeBlobs_ok (hasc .blobs) (hplaced .blobs) hs⟩
  have hne : dictStringsTypeId ≠ dictBlobsTypeId := by decide
  cases p with
  | strings =>
    have htails : tail.filter (fun s => s.typeId == Placement.strings.typeId) = [] := by
      rcases hblobs with ⟨rfl,_⟩ | ⟨s,rfl,ht,_⟩
      · rfl
      · simp [Placement.typeId,ht,hne.symm]
    rw [List.filter_append,htails,List.append_nil]
    rcases hstrings with ⟨rfl,hv⟩ | ⟨s,rfl,ht,hw⟩
    · exact .inl ⟨rfl,hv⟩
    · exact .inr ⟨s,by simp [Placement.typeId,ht],hw⟩
  | blobs =>
    have hheads : head.filter (fun s => s.typeId == Placement.blobs.typeId) = [] := by
      rcases hstrings with ⟨rfl,_⟩ | ⟨s,rfl,ht,_⟩
      · rfl
      · simp [Placement.typeId,ht,hne]
    rw [List.filter_append,hheads,List.nil_append]
    rcases hblobs with ⟨rfl,hv⟩ | ⟨s,rfl,ht,hw⟩
    · exact .inl ⟨rfl,hv⟩
    · exact .inr ⟨s,by simp [Placement.typeId,ht],hw⟩

theorem store_value_valid {hashes : Hashes} (limits : DictLimits) {v : Bytes} {id : StrId}
    (hid : StrId.of hashes v = some id) (req : Requirements) :
    ((limits.store hashes v req).snapshot id).value.valid hashes id = true := by
  obtain ⟨_,hthreshold,_⟩ := limits.valid
  by_cases hcut : limits.truncateLimit < v.length
  · have hover : limits.blobThreshold ≤ v.length := by omega
    simp [EntrySnapshot.value,Stored.snapshot,Stored.placement,Stored.isBlob,DictLimits.store,hcut,
      hover,DictionaryValue.valid]
  · have htake : v.take limits.truncateLimit = v := List.take_of_length_le (not_lt.mp hcut)
    simp only [EntrySnapshot.value,Stored.snapshot,Stored.placement,Stored.isBlob,DictLimits.store,
      htake,hcut,if_false]
    split_ifs <;> simp [DictionaryValue.valid,hid]

/-- The values of a window under its invariant are well written. -/
theorem windowValues_written {hashes : Hashes} {used : Bytes → Prop} (h : DictInv hashes used w)
    (p : Placement) : WellWritten hashes (windowValues p w) := by
  constructor
  · exact List.pairwise_map.mpr ((snapshots_ascending w).filter _)
  · intro q hq
    obtain ⟨e,he,rfl⟩ := List.mem_map.mp hq
    obtain ⟨r,hr,rfl⟩ := List.mem_map.mp (List.mem_filter.mp he).1
    obtain ⟨v,_,hid,hs⟩ := h.stored r.1 r.2 (OrderedMap.mem_entries_iff.mp hr)
    exact hs ▸ store_value_valid w.limits hid r.2.req

/-- A section that a window wrote reads back as insertions of its values. -/
theorem decodeDictionaryBody_of_wrote {hashes : Hashes} (hcodec : codec.RoundTrip) {j : Journal}
    {d : SectionDescriptor} {p : Placement} {vs : List (StrId × DictionaryValue)} {s : DictSection}
    (hs : WroteSection codec p vs s) (htype : d.entry.typeId = p.typeId)
    (hrows : d.entry.rows = s.rows) (hbody : readVerifiedBody j d = .ok s.body)
    (hvs : WellWritten hashes vs) (hstored : (vs.map fun q => q.2.bytes.length).sum ≤ maxSectionBytes)
    {n n' : NormalizedDictionary} (h : insertAll n vs = .ok n') :
    decodeDictionaryBody codec hashes j n d = .ok n' := by
  have hmax : maxSectionRows = 65536 := rfl
  obtain ⟨profile,t,hwrite,hkind,hvalues⟩ := hs.table
  have hle := hs.rows_le
  have hlen : t.values.length = vs.length := by rw [hvalues,rawIds,List.length_map]
  have hbytes : t.storedBytes = (vs.map fun q => q.2.bytes.length).sum := by
    rw [DictTable.storedBytes,hvalues,rawIds,List.map_map]; rfl
  obtain ⟨hwork,file,hread,hgroups,hnum,hschema,hbatches,hkinds⟩ :=
    hcodec.read_write profile t s.body hwrite (by omega) (by omega)
  rw [hlen] at hnum
  have hnumNat : file.numRows.toNat = vs.length := by rw [hnum]; rfl
  have hdeclared : d.entry.rows.toNat = vs.length := by
    rw [hrows,hs.rows,UInt32.toNat_ofNat']
    exact Nat.mod_eq_of_lt (by omega)
  have hisBlob : decide (d.entry.typeId = dictBlobsTypeId) = t.isBlob := by
    rw [htype,hkind]; cases p <;> decide
  have hknown : ¬(d.entry.typeId ≠ dictStringsTypeId ∧ d.entry.typeId ≠ dictBlobsTypeId) := by
    rw [htype]; cases p <;> decide
  have hpos : ∀ q ∈ vs, (0 : UInt64) < q.1.raw := fun q _ =>
    UInt64.lt_iff_toNat_lt.mpr (Nat.pos_of_ne_zero fun he =>
      q.1.nonZero (UInt64.toNat_inj.mp he))
  have hfit : 0 + vs.length ≤ u64Max := by rw [u64Max]; omega
  have hinsert := insertBatches_of_written hkinds (hbatches.trans hvalues) hvs hfit hpos h
  rw [Nat.zero_add] at hinsert
  unfold decodeDictionaryBody
  dsimp only
  rw [if_neg hknown,hbody]
  change (codec.decodeWork maxDecodedSectionBytes s.body).mapError SealError.codec >>= _ = _
  rw [hwork]
  change (codec.read s.body).mapError SealError.codec >>= _ = _
  rw [hread]
  change (if maxRowGroups < file.rowGroups then _ else _) = _
  rw [if_neg (by omega),if_neg (by rw [hnum]; omega),if_neg (by omega),if_neg (by omega),
    if_neg (by rw [hschema,hisBlob]; simp),hisBlob,hinsert]
  change (if vs.length ≠ file.numRows.toNat then _ else _) = _
  rw [if_neg (by omega)]

end Window

/-- A part that carries the dictionary sections of a window. -/
structure Carries (codec : DictCodec) (w : SegmentDicts) (bytes : Bytes) (catalog : Catalog) :
    Prop where
  valid : validatePart bytes = .ok catalog
  sections : ∃ sections, w.encode codec = .ok sections ∧
    (catalog.entries.filter fun e => e.typeId == dictStringsTypeId || e.typeId == dictBlobsTypeId).map
      (fun e => (⟨e.typeId,e.rows,e.body bytes⟩ : DictSection)) = sections

/-- A window with the part that carries it. -/
structure CarriedWindow where
  window : SegmentDicts
  bytes : Bytes
  catalog : Catalog

section Parts

variable {codec : DictCodec} {hashes : Hashes} {used : Bytes → Prop} {j : Journal}

theorem Carries.ofType {w : SegmentDicts} {bytes : Bytes} {catalog : Catalog}
    (h : Carries codec w bytes catalog) (p : Placement) :
    ((catalog.entries.filter fun e => e.typeId == p.typeId) = [] ∧ windowValues p w = []) ∨
    ∃ e s, (catalog.entries.filter fun e => e.typeId == p.typeId) = [e] ∧
      e.rows = s.rows ∧ e.body bytes = s.body ∧ WroteSection codec p (windowValues p w) s := by
  obtain ⟨sections,hsections,hmap⟩ := h.sections
  have hfilter : (catalog.entries.filter fun e => e.typeId == p.typeId).map
      (fun e => (⟨e.typeId,e.rows,e.body bytes⟩ : DictSection)) =
      sections.filter fun s => s.typeId == p.typeId := by
    rw [← hmap,List.filter_map,List.filter_filter]
    refine congrArg _ (List.filter_congr fun e _ => ?_)
    rw [Function.comp_apply]
    cases p <;> simp +contextual [Placement.typeId]
  rcases w.encode_sections hsections p with ⟨hnone,hvs⟩ | ⟨s,hsome,hwrote⟩
  · rw [hnone,List.map_eq_nil_iff] at hfilter
    exact .inl ⟨hfilter,hvs⟩
  · rw [hsome] at hfilter
    obtain ⟨e,he,hes⟩ := List.map_eq_singleton_iff.mp hfilter
    exact .inr ⟨e,s,he,by rw [← hes],by rw [← hes],hwrote⟩

theorem ofType_cons (typeId : UInt32) (part : JournalPartRef) (catalog : Catalog)
    (parts : List (JournalPartRef × Catalog)) :
    ofType typeId (descriptorsOf ((part,catalog)::parts)) =
      (catalog.entries.filter fun e => e.typeId == typeId).map (fun e => ⟨part,e⟩) ++
        ofType typeId (descriptorsOf parts) := by
  rw [descriptorsOf_cons,ofType,List.filter_append,List.filter_map]
  rfl

/-- The sections of one placement, read in the order of the parts. -/
theorem decode_parts (hcodec : codec.RoundTrip) {bodies : List Bytes} (hread : j.Reads bodies)
    (p : Placement) {ps : List JournalPartRef} {cs : List CarriedWindow}
    (hlen : ps.length = cs.length)
    (hzip : ∀ q ∈ ps.zip cs, (q.1,q.2.bytes) ∈ j.parts.zip bodies)
    (hcs : ∀ c ∈ cs, Carries codec c.window c.bytes c.catalog ∧ DictInv hashes used c.window ∧
      ((windowValues p c.window).map fun q => q.2.bytes.length).sum ≤ maxSectionBytes)
    {n n' : NormalizedDictionary}
    (h : insertAll n (cs.flatMap fun c => windowValues p c.window) = .ok n') :
    (ofType p.typeId (descriptorsOf (ps.zip (cs.map CarriedWindow.catalog)))).foldlM
      (decodeDictionaryBody codec hashes j) n = .ok n' := by
  induction cs generalizing ps n with
  | nil =>
    cases h
    rw [List.map_nil,List.zip_nil_right]
    rfl
  | cons c cs ih =>
    cases ps with
    | nil => cases hlen
    | cons part ps =>
      obtain ⟨hcarries,hinv,hsize⟩ := hcs c (List.mem_cons_self ..)
      rw [List.flatMap_cons,insertAll_append] at h
      obtain ⟨n1,h1,h2⟩ := bind_ok h
      have hrest := ih (Nat.succ.inj hlen)
        (fun q hq => hzip q (by rw [List.zip_cons_cons]; exact List.mem_cons_of_mem _ hq))
        (fun d hd => hcs d (List.mem_cons_of_mem _ hd)) h2
      have hpart : (part,c.bytes) ∈ j.parts.zip bodies :=
        hzip (part,c) (by rw [List.zip_cons_cons]; exact List.mem_cons_self ..)
      rw [List.map_cons,List.zip_cons_cons,ofType_cons,List.foldlM_append]
      rcases hcarries.ofType p with ⟨hnone,hvs⟩ | ⟨e,s,hsome,hrows,hbody,hwrote⟩
      · rw [hvs] at h1
        cases h1
        rw [hnone]
        exact hrest
      · have he : e ∈ c.catalog.entries.filter fun e => e.typeId == p.typeId := by
          rw [hsome]; exact List.mem_singleton_self e
        obtain ⟨hmem,htype⟩ := List.mem_filter.mp he
        obtain ⟨hfit,hcrc⟩ := validatePart_body hcarries.valid hmem
        have hdecode := decodeDictionaryBody_of_wrote (d := ⟨part,e⟩) hcodec hwrote (eq_of_beq htype)
          hrows (by rw [← hbody]; exact hread.verifiedBody hpart hfit hcrc)
          (windowValues_written hinv p) hsize h1
        rw [hsome,List.map_singleton,List.foldlM_cons,hdecode]
        exact hrest

/-- Normalizing the parts of a journal inserts what their windows wrote. -/
theorem normalize_windows (hcodec : codec.RoundTrip) {cs : List CarriedWindow}
    (hread : j.Reads (cs.map CarriedWindow.bytes))
    (hcs : ∀ c ∈ cs, Carries codec c.window c.bytes c.catalog ∧ DictInv hashes used c.window ∧
      ∀ p, ((windowValues p c.window).map fun q => q.2.bytes.length).sum ≤ maxSectionBytes)
    {n : NormalizedDictionary}
    (h : insertAll .new ((cs.flatMap fun c => windowValues .strings c.window) ++
      cs.flatMap fun c => windowValues .blobs c.window) = .ok n) :
    let ds := descriptorsOf (j.parts.zip (cs.map CarriedWindow.catalog))
    normalizeDictionary codec hashes j (ofType dictStringsTypeId ds) (ofType dictBlobsTypeId ds) =
      .ok n := by
  have hlen : j.parts.length = cs.length := by
    have hl := congrArg List.length hread.parts
    simpa using hl
  have hzip : ∀ q ∈ j.parts.zip cs,
      (q.1,q.2.bytes) ∈ j.parts.zip (cs.map CarriedWindow.bytes) := by
    intro q hq
    rw [List.zip_map_right]
    exact List.mem_map_of_mem (f := Prod.map id CarriedWindow.bytes) hq
  have hone : ∀ p, ∀ c ∈ cs, Carries codec c.window c.bytes c.catalog ∧
      DictInv hashes used c.window ∧
      ((windowValues p c.window).map fun q => q.2.bytes.length).sum ≤ maxSectionBytes :=
    fun p c hc => ⟨(hcs c hc).1,(hcs c hc).2.1,(hcs c hc).2.2 p⟩
  rw [insertAll_append] at h
  obtain ⟨n1,h1,h2⟩ := bind_ok h
  have hs := decode_parts hcodec hread .strings hlen hzip (hone .strings) h1
  have hb := decode_parts hcodec hread .blobs hlen hzip (hone .blobs) h2
  dsimp only
  rw [normalizeDictionary,List.foldlM_append]
  change _ >>= _ = _
  rw [show dictStringsTypeId = Placement.strings.typeId from rfl,hs]
  exact hb

end Parts

end PgKronika
