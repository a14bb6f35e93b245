import PgKronika.SegmentPlan

/-! Dictionary sections: how a window is encoded, and how the sealer merges the sections
of all parts into one normalized dictionary. -/
namespace PgKronika

open ByteCodec CheckedArith

structure StringRow where
  strId : UInt64
  bytes : Bytes
  deriving DecidableEq

structure BlobRow where
  strId : UInt64
  storedBytes : Bytes
  fullLen : ℕ
  truncated : Bool
  fullSha256 : Option Bytes
  deriving DecidableEq

/-- The rows of one dictionary section, or of one decoded batch of it. -/
inductive DictTable
  | strings (rows : List StringRow)
  | blobs (rows : List BlobRow)
  deriving DecidableEq

inductive ArrowType
  | uint64
  | binary
  | boolean
  | fixedSizeBinary (width : ℕ)
  deriving DecidableEq

structure ArrowField where
  name : String
  dataType : ArrowType
  nullable : Bool
  deriving DecidableEq

def dictionarySchema (isBlob : Bool) : List ArrowField :=
  if isBlob then
    [⟨"str_id",.uint64,false⟩,⟨"stored_bytes",.binary,false⟩,⟨"full_len",.uint64,false⟩,
      ⟨"truncated",.boolean,false⟩,⟨"full_sha256",.fixedSizeBinary 32,true⟩]
  else [⟨"str_id",.uint64,false⟩,⟨"bytes",.binary,false⟩]

inductive DictionaryValue
  | string (bytes : Bytes)
  | blob (bytes : Bytes) (fullLen : ℕ) (truncated : Bool) (fullSha256 : Option Bytes)
  deriving DecidableEq

def DictionaryValue.placement : DictionaryValue → Placement
  | .string _ => .strings
  | .blob .. => .blobs

def DictionaryValue.bytes : DictionaryValue → Bytes
  | .string bytes => bytes
  | .blob bytes .. => bytes

def DictTable.isBlob : DictTable → Bool
  | .strings _ => false
  | .blobs _ => true

/-- Raw ids and values of the rows. -/
def DictTable.values : DictTable → List (UInt64 × DictionaryValue)
  | .strings rows => rows.map fun row => (row.strId,.string row.bytes)
  | .blobs rows => rows.map fun row =>
    (row.strId,.blob row.storedBytes row.fullLen row.truncated row.fullSha256)

def DictTable.storedBytes (table : DictTable) : ℕ :=
  (table.values.map fun row => row.2.bytes.length).sum

/-- What a reader of a Parquet file sees. -/
structure ParquetFile where
  rowGroups : ℕ
  numRows : ℤ
  schema : List ArrowField
  batches : List DictTable

/-- A journal window or a sealed segment. -/
inductive DictProfile
  | window
  | segment
  deriving DecidableEq

/-- The Parquet package, as far as dictionary sections use it. -/
structure DictCodec where
  write : DictProfile → DictTable → Except CodecError Bytes
  decodeWork : ℕ → Bytes → Except CodecError Unit
  read : Bytes → Except CodecError ParquetFile

/-- A written body of admitted size reads back as its rows. -/
structure DictCodec.RoundTrip (codec : DictCodec) : Prop where
  read_write : ∀ profile table body, codec.write profile table = .ok body →
    table.values.length ≤ maxSectionRows → table.storedBytes ≤ maxSectionBytes →
    codec.decodeWork maxDecodedSectionBytes body = .ok () ∧
    ∃ file, codec.read body = .ok file ∧ file.rowGroups ≤ maxRowGroups ∧
      file.numRows = table.values.length ∧ file.schema = dictionarySchema table.isBlob ∧
      file.batches.flatMap DictTable.values = table.values ∧
      ∀ batch ∈ file.batches, batch.isBlob = table.isBlob

structure DictSection where
  typeId : UInt32
  rows : UInt32
  body : Bytes
  deriving DecidableEq

/-- One capped Parquet body. -/
def dictSection (codec : DictCodec) (profile : DictProfile) (typeId : UInt32) (table : DictTable) :
    Except CodecError DictSection :=
  let rows := table.values.length
  if maxSectionRows < rows then .error (.tooManyRows rows maxSectionRows)
  else
    match codec.write profile table with
    | .error e => .error e
    | .ok body =>
      if maxSectionBytes < body.length then .error (.sectionTooLarge body.length maxSectionBytes)
      else .ok ⟨typeId,UInt32.ofNat rows,body⟩

def sortById (entries : List EntrySnapshot) : List EntrySnapshot :=
  entries.mergeSort fun a b => decide (a.strId ≤ b.strId)

def encodeStrings (codec : DictCodec) (profile : DictProfile) (entries : List EntrySnapshot) :
    Except CodecError DictSection :=
  dictSection codec profile dictStringsTypeId
    (.strings ((sortById entries).map fun e => ⟨e.strId.raw,e.storedBytes⟩))

def encodeBlobs (codec : DictCodec) (profile : DictProfile) (entries : List EntrySnapshot) :
    Except CodecError DictSection :=
  dictSection codec profile dictBlobsTypeId
    (.blobs ((sortById entries).map fun e =>
      ⟨e.strId.raw,e.storedBytes,e.fullLen,e.truncated,e.fullSha256⟩))

/-- At most one section of each placement. -/
def encodeEntriesWithProperties (codec : DictCodec) (profile : DictProfile)
    (entries : List EntrySnapshot) : Except CodecError (List DictSection) :=
  let strings := entries.filter fun e => e.placement = .strings
  let blobs := entries.filter fun e => e.placement = .blobs
  (if strings = [] then .ok [] else (encodeStrings codec profile strings).map fun s => [s])
    >>= fun head =>
  (if blobs = [] then .ok [] else (encodeBlobs codec profile blobs).map fun s => [s])
    >>= fun tail => .ok (head ++ tail)

/-- The sections of one window. -/
def SegmentDicts.encode (codec : DictCodec) (window : SegmentDicts) :
    Except CodecError (List DictSection) :=
  encodeEntriesWithProperties codec .window window.snapshots

structure NormalizedDictionary where
  values : OrderedMap StrId DictionaryValue
  stringRows : ℕ
  blobRows : ℕ
  stringBytes : ℕ
  blobBytes : ℕ

def NormalizedDictionary.new : NormalizedDictionary := ⟨.empty,0,0,0,0⟩

/-- One more row and its bytes, within the caps of a section. -/
def nextSize (rows storedBytes valueBytes : ℕ) : Except SealError (ℕ × ℕ) :=
  match checkedAdd rows 1 with
  | none => .error (.arithmeticOverflow "dictionary row count")
  | some nextRows =>
    if maxSectionRows < nextRows then .error (.codec (.tooManyRows nextRows maxSectionRows))
    else
      match checkedAdd storedBytes valueBytes with
      | none => .error (.arithmeticOverflow "dictionary stored bytes")
      | some nextBytes =>
        if maxSectionBytes < nextBytes then
          .error (.codec (.sectionTooLarge nextBytes maxSectionBytes))
        else .ok (nextRows,nextBytes)

/-- An id keeps one representation: bytes, metadata and placement. -/
def NormalizedDictionary.insert (n : NormalizedDictionary) (strId : StrId)
    (value : DictionaryValue) : Except SealError NormalizedDictionary :=
  match n.values.lookup strId with
  | some existing =>
    if existing = value then .ok n else .error (.dictionaryConflict strId.get)
  | none =>
    match value with
    | .string bytes =>
      (nextSize n.stringRows n.stringBytes bytes.length).map fun next => { n with
        values := n.values.insert strId value
        stringRows := next.1
        stringBytes := next.2 }
    | .blob bytes .. =>
      (nextSize n.blobRows n.blobBytes bytes.length).map fun next => { n with
        values := n.values.insert strId value
        blobRows := next.1
        blobBytes := next.2 }

/-- Ids of a section are nonzero and ascend. -/
def orderedStrId (raw previous : UInt64) : Except SealError StrId :=
  match StrId.fromRaw raw with
  | none => .error (.codec .schemaMismatch)
  | some strId => if raw ≤ previous then .error (.codec .schemaMismatch) else .ok strId

/-- A value belongs to its id, unless its bytes were cut. -/
def DictionaryValue.valid (hashes : Hashes) (strId : StrId) : DictionaryValue → Bool
  | .string bytes => decide (StrId.of hashes bytes = some strId)
  | .blob bytes fullLen truncated fullSha256 =>
    if truncated then decide (bytes.length < fullLen) && fullSha256.isSome
    else decide (bytes.length = fullLen) && fullSha256.isNone &&
      decide (StrId.of hashes bytes = some strId)

/-- The rows of one section enter the dictionary in order. -/
def insertRows (hashes : Hashes) (previous : UInt64) (n : NormalizedDictionary) :
    List (UInt64 × DictionaryValue) → Except SealError (UInt64 × NormalizedDictionary)
  | [] => .ok (previous,n)
  | row::rows =>
    match orderedStrId row.1 previous with
    | .error e => .error e
    | .ok strId =>
      if row.2.valid hashes strId then
        match n.insert strId row.2 with
        | .error e => .error e
        | .ok n => insertRows hashes row.1 n rows
      else .error (.codec .schemaMismatch)

def insertBatches (hashes : Hashes) (isBlob : Bool) (decodedRows : ℕ) (previous : UInt64)
    (n : NormalizedDictionary) : List DictTable → Except SealError (ℕ × NormalizedDictionary)
  | [] => .ok (decodedRows,n)
  | batch::batches =>
    match checkedAdd decodedRows batch.values.length with
    | none => .error (.arithmeticOverflow "dictionary row count")
    | some decodedRows =>
      if batch.isBlob ≠ isBlob then
        .error (.codec (.columnType (if isBlob then "stored_bytes" else "bytes")))
      else
        match insertRows hashes previous n batch.values with
        | .error e => .error e
        | .ok (previous,n) => insertBatches hashes isBlob decodedRows previous n batches

/-- One dictionary section of a part, with all its checks. -/
def decodeDictionaryBody (codec : DictCodec) (hashes : Hashes) (journal : Journal)
    (n : NormalizedDictionary) (d : SectionDescriptor) : Except SealError NormalizedDictionary :=
  let typeId := d.entry.typeId
  if typeId ≠ dictStringsTypeId ∧ typeId ≠ dictBlobsTypeId then
    .error (.codec (.unknownType typeId))
  else
    let isBlob := decide (typeId = dictBlobsTypeId)
    readVerifiedBody journal d >>= fun body =>
    (codec.decodeWork maxDecodedSectionBytes body).mapError .codec >>= fun _ =>
    (codec.read body).mapError .codec >>= fun file =>
    if maxRowGroups < file.rowGroups then
      .error (.codec (.tooManyRowGroups file.rowGroups maxRowGroups))
    else if file.numRows < 0 then .error (.codec (.invalidRowCount file.numRows))
    else if maxSectionRows < file.numRows.toNat then
      .error (.codec (.tooManyRows file.numRows.toNat maxSectionRows))
    else if file.numRows.toNat ≠ d.entry.rows.toNat then
      .error (.rowCountMismatch typeId d.entry.rows file.numRows.toNat)
    else if file.schema ≠ dictionarySchema isBlob then .error (.codec .schemaMismatch)
    else
      insertBatches hashes isBlob 0 0 n file.batches >>= fun r =>
      if r.1 ≠ file.numRows.toNat then .error (.rowCountMismatch typeId d.entry.rows r.1)
      else .ok r.2

/-- All string sections, then all blob sections. -/
def normalizeDictionary (codec : DictCodec) (hashes : Hashes) (journal : Journal)
    (strings blobs : List SectionDescriptor) : Except SealError NormalizedDictionary :=
  (strings++blobs).foldlM (decodeDictionaryBody codec hashes journal) .new

def DictionaryValue.size (v : DictionaryValue) : DictStats :=
  entryStats v.placement false v.bytes.length

def valuesSize (m : OrderedMap StrId DictionaryValue) : DictStats :=
  (m.entries.map fun p => p.2.size).sum

def NormalizedDictionary.size (n : NormalizedDictionary) : DictStats :=
  ⟨n.stringRows,n.blobRows,0,n.stringBytes,n.blobBytes⟩

/-- The caps of one section, for each placement. -/
structure WithinCaps (s : DictStats) : Prop where
  strings : s.stringCount ≤ maxSectionRows
  blobs : s.blobCount ≤ maxSectionRows
  stringBytes : s.stringBytes ≤ maxSectionBytes
  blobBytes : s.blobBytes ≤ maxSectionBytes

@[simp] theorem DictStats.add_stringCount (a b : DictStats) :
    (a+b).stringCount = a.stringCount+b.stringCount := rfl
@[simp] theorem DictStats.add_blobCount (a b : DictStats) :
    (a+b).blobCount = a.blobCount+b.blobCount := rfl
@[simp] theorem DictStats.add_stringBytes (a b : DictStats) :
    (a+b).stringBytes = a.stringBytes+b.stringBytes := rfl
@[simp] theorem DictStats.add_blobBytes (a b : DictStats) :
    (a+b).blobBytes = a.blobBytes+b.blobBytes := rfl

theorem WithinCaps.of_add {a b : DictStats} (h : WithinCaps (a+b)) : WithinCaps a := by
  obtain ⟨h1,h2,h3,h4⟩ := h
  simp only [DictStats.add_stringCount,DictStats.add_blobCount,DictStats.add_stringBytes,
    DictStats.add_blobBytes] at h1 h2 h3 h4
  exact ⟨by omega,by omega,by omega,by omega⟩

/-- The counters are the sizes of the values, and both keep the caps. -/
structure NormalizedDictionary.Sized (n : NormalizedDictionary) : Prop where
  size_eq : n.size = valuesSize n.values
  caps : WithinCaps n.size

theorem NormalizedDictionary.new_sized : NormalizedDictionary.new.Sized :=
  ⟨rfl,by constructor <;> exact Nat.zero_le _⟩

theorem valuesSize_insert {m : OrderedMap StrId DictionaryValue} {id : StrId}
    (h : m.lookup id = none) (v : DictionaryValue) :
    valuesSize (m.insert id v) = v.size + valuesSize m := by
  rw [valuesSize,((OrderedMap.insert_perm h v).map _).sum_eq,List.map_cons,List.sum_cons]
  rfl

theorem valuesSize_sub {m m' : OrderedMap StrId DictionaryValue}
    (h : ∀ id v, m.lookup id = some v → m'.lookup id = some v) :
    ∃ rest, valuesSize m' = valuesSize m + rest := by
  obtain ⟨rest,hperm⟩ := OrderedMap.perm_append_of_sub h
  exact ⟨_,by rw [valuesSize,(hperm.map _).sum_eq,List.map_append,List.sum_append]; rfl⟩

theorem nextSize_ok {rows storedBytes valueBytes : ℕ} {next : ℕ × ℕ}
    (h : nextSize rows storedBytes valueBytes = .ok next) :
    next = (rows+1,storedBytes+valueBytes) ∧ rows+1 ≤ maxSectionRows ∧
      storedBytes+valueBytes ≤ maxSectionBytes := by
  unfold nextSize at h
  split at h
  · cases h
  · rename_i nextRows hrows
    split_ifs at h with hcap
    split at h
    · cases h
    · rename_i nextBytes hbytes
      split_ifs at h with hcap'
      cases h
      obtain ⟨rfl,_⟩ := checkedAdd_eq_some.mp hrows
      obtain ⟨rfl,_⟩ := checkedAdd_eq_some.mp hbytes
      exact ⟨rfl,not_lt.mp hcap,not_lt.mp hcap'⟩

theorem nextSize_of_le {rows storedBytes valueBytes : ℕ} (hrows : rows+1 ≤ maxSectionRows)
    (hbytes : storedBytes+valueBytes ≤ maxSectionBytes) :
    nextSize rows storedBytes valueBytes = .ok (rows+1,storedBytes+valueBytes) := by
  have h1 : maxSectionRows = 65536 := rfl
  have h2 : maxSectionBytes = 8388608 := rfl
  unfold nextSize
  rw [checkedAdd_of_le (by rw [u64Max]; omega)]
  dsimp only
  rw [if_neg (by omega),checkedAdd_of_le (by rw [u64Max]; omega)]
  exact if_neg (by omega)

namespace NormalizedDictionary

variable {n n' : NormalizedDictionary} {id : StrId} {v : DictionaryValue}

/-- A repeated value changes nothing. -/
theorem insert_same (h : n.values.lookup id = some v) : n.insert id v = .ok n := by
  unfold insert
  rw [h]
  exact if_pos rfl

/-- A new value joins the dictionary with its size. -/
theorem insert_new (hn : n.values.lookup id = none) (h : n.insert id v = .ok n') :
    n'.values = n.values.insert id v ∧ n'.size = v.size + n.size ∧
      (WithinCaps n.size → WithinCaps n'.size) := by
  unfold insert at h
  rw [hn] at h
  cases v with
  | string bytes =>
    obtain ⟨next,hnext,rfl⟩ := map_ok h
    obtain ⟨rfl,hrows,hbytes⟩ := nextSize_ok hnext
    refine ⟨rfl,DictStats.ext (Nat.add_comm ..) (Nat.zero_add _).symm rfl (Nat.add_comm ..)
      (Nat.zero_add _).symm,fun hc => ⟨hrows,hc.blobs,hbytes,hc.blobBytes⟩⟩
  | blob bytes fullLen truncated sha =>
    obtain ⟨next,hnext,rfl⟩ := map_ok h
    obtain ⟨rfl,hrows,hbytes⟩ := nextSize_ok hnext
    refine ⟨rfl,DictStats.ext (Nat.zero_add _).symm (Nat.add_comm ..) rfl (Nat.zero_add _).symm
      (Nat.add_comm ..),fun hc => ⟨hc.strings,hrows,hc.stringBytes,hbytes⟩⟩

theorem insert_fits (hn : n.values.lookup id = none) (hcaps : WithinCaps (v.size + n.size)) :
    ∃ n', n.insert id v = .ok n' := by
  unfold insert
  rw [hn]
  obtain ⟨h1,h2,h3,h4⟩ := hcaps
  cases v with
  | string bytes =>
    have hrows : n.stringRows+1 ≤ maxSectionRows := by rw [Nat.add_comm]; exact h1
    have hbytes : n.stringBytes+bytes.length ≤ maxSectionBytes := by rw [Nat.add_comm]; exact h3
    dsimp only
    rw [nextSize_of_le hrows hbytes]
    exact ⟨_,rfl⟩
  | blob bytes fullLen truncated sha =>
    have hrows : n.blobRows+1 ≤ maxSectionRows := by rw [Nat.add_comm]; exact h2
    have hbytes : n.blobBytes+bytes.length ≤ maxSectionBytes := by rw [Nat.add_comm]; exact h4
    dsimp only
    rw [nextSize_of_le hrows hbytes]
    exact ⟨_,rfl⟩

/-- What an accepted insertion leaves. -/
theorem insert_ok (hs : n.Sized) (h : n.insert id v = .ok n') :
    n'.Sized ∧ ∀ id' v', n'.values.lookup id' = some v' ↔
      n.values.lookup id' = some v' ∨ (id',v') = (id,v) := by
  cases hn : n.values.lookup id with
  | none =>
    obtain ⟨hvalues,hsize,hcaps⟩ := insert_new hn h
    refine ⟨⟨by rw [hsize,hs.size_eq,hvalues,valuesSize_insert hn],hcaps hs.caps⟩,fun id' v' => ?_⟩
    rw [hvalues,OrderedMap.lookup_insert,Prod.mk.injEq]
    by_cases he : id' = id
    · rw [if_pos he,he,hn]
      simp [eq_comm]
    · rw [if_neg he]
      simp [he]
  | some existing =>
    unfold insert at h
    rw [hn] at h
    dsimp only at h
    split_ifs at h with he
    cases h
    refine ⟨hs,fun id' v' => ⟨.inl,?_⟩⟩
    rintro (h | h)
    · exact h
    · rw [Prod.mk.injEq] at h
      rw [h.1,h.2,hn,he]

end NormalizedDictionary

def insertAll (n : NormalizedDictionary) (vs : List (StrId × DictionaryValue)) :
    Except SealError NormalizedDictionary :=
  vs.foldlM (fun n p => n.insert p.1 p.2) n

theorem insertAll_cons (n : NormalizedDictionary) (p : StrId × DictionaryValue)
    (vs : List (StrId × DictionaryValue)) :
    insertAll n (p::vs) = n.insert p.1 p.2 >>= fun n => insertAll n vs := List.foldlM_cons

theorem insertAll_append (n : NormalizedDictionary) (vs ws : List (StrId × DictionaryValue)) :
    insertAll n (vs++ws) = insertAll n vs >>= fun n => insertAll n ws := List.foldlM_append

/-- After a run of insertions the dictionary holds exactly what was inserted. -/
theorem insertAll_ok {n n' : NormalizedDictionary} {vs : List (StrId × DictionaryValue)}
    (hs : n.Sized) (h : insertAll n vs = .ok n') :
    n'.Sized ∧ ∀ id v, n'.values.lookup id = some v ↔
      n.values.lookup id = some v ∨ (id,v) ∈ vs := by
  induction vs generalizing n with
  | nil =>
    cases h
    exact ⟨hs,by simp⟩
  | cons p vs ih =>
    rw [insertAll_cons] at h
    obtain ⟨n1,h1,h2⟩ := bind_ok h
    obtain ⟨hs1,hl1⟩ := NormalizedDictionary.insert_ok hs h1
    obtain ⟨hs2,hl2⟩ := ih hs1 h2
    refine ⟨hs2,fun id v => ?_⟩
    rw [hl2,hl1,List.mem_cons,or_assoc]

/-- A run of insertions succeeds when all values belong to one map within the caps. -/
theorem insertAll_of_map {n : NormalizedDictionary} {vs : List (StrId × DictionaryValue)}
    (hs : n.Sized) {m : OrderedMap StrId DictionaryValue}
    (hn : ∀ id v, n.values.lookup id = some v → m.lookup id = some v)
    (hvs : ∀ p ∈ vs, m.lookup p.1 = some p.2) (hcaps : WithinCaps (valuesSize m)) :
    ∃ n', insertAll n vs = .ok n' := by
  induction vs generalizing n with
  | nil => exact ⟨n,rfl⟩
  | cons p vs ih =>
    have hp := hvs p (List.mem_cons_self ..)
    have hinsert : ∃ n1, n.insert p.1 p.2 = .ok n1 := by
      cases hl : n.values.lookup p.1 with
      | some v =>
        have he := hn _ _ hl
        rw [hp] at he
        cases he
        exact ⟨n,NormalizedDictionary.insert_same hl⟩
      | none =>
        refine NormalizedDictionary.insert_fits hl ?_
        have hsub : ∀ id v, (n.values.insert p.1 p.2).lookup id = some v → m.lookup id = some v := by
          intro id v hv
          rw [OrderedMap.lookup_insert] at hv
          split_ifs at hv with he
          · cases hv; rw [he]; exact hp
          · exact hn id v hv
        obtain ⟨rest,hrest⟩ := valuesSize_sub hsub
        rw [valuesSize_insert hl,← hs.size_eq] at hrest
        exact WithinCaps.of_add (hrest ▸ hcaps)
    obtain ⟨n1,h1⟩ := hinsert
    obtain ⟨hs1,hl1⟩ := NormalizedDictionary.insert_ok hs h1
    rw [insertAll_cons,h1]
    refine ih hs1 (fun id v hv => ?_) fun q hq => hvs q (List.mem_cons_of_mem _ hq)
    rcases (hl1 id v).mp hv with hv | hv
    · exact hn id v hv
    · rw [Prod.mk.injEq] at hv
      rw [hv.1,hv.2]
      exact hp

end PgKronika
