import PgKronika.Crc32c

/-! The end catalog of a PGM container: its fixed-width records, the tail index
that locates it, and the canonical physical section layout. -/
namespace PgKronika

open ByteCodec Crc32c

/-- "PGM1", opening a container and closing its tail index. -/
def magic : Bytes := [0x50,0x47,0x4D,0x31]

def formatVersion : UInt32 := 2

def entryLen : ℕ := 32
def metaLen : ℕ := 32
def tailIndexLen : ℕ := 8
def metaCrcOffset : ℕ := 24

def dictStringsTypeId : UInt32 := 3001001
def dictBlobsTypeId : UInt32 := 3002001
def maxPhysicalSectionBytes : UInt64 := 8*1024*1024
def maxPhysicalSectionRows : UInt32 := 65536

@[simp] theorem magic_length : magic.length = 4 := rfl

structure Entry where
  typeId : UInt32
  flags : UInt32
  offset : UInt64
  len : UInt64
  rows : UInt32
  crc32c : UInt32
  deriving DecidableEq

structure Catalog where
  entries : List Entry
  minTs : Int64
  maxTs : Int64
  formatVersion : UInt32
  windowCount : UInt32
  deriving DecidableEq

structure TailIndex where
  catalogLen : UInt32
  deriving DecidableEq

inductive DecodeError
  | badTailMagic (actual : Bytes)
  | badCatalogLen (actual : ℕ)
  | entryCountMismatch (stored derived : UInt32)
  | badCrc (stored computed : UInt32)
  deriving DecidableEq

structure CatalogLayoutError where
  typeId : Option UInt32
  reason : String
  deriving DecidableEq

def TailIndex.encode (tail : TailIndex) : Bytes := u32Le tail.catalogLen ++ magic

def TailIndex.decode (bytes : Bytes) : Except DecodeError TailIndex :=
  if slice bytes 4 4 ≠ magic then .error (.badTailMagic (slice bytes 4 4))
  else .ok ⟨u32At bytes 0⟩

def Entry.encode (e : Entry) : Bytes :=
  u32Le e.typeId ++ u32Le e.flags ++ u64Le e.offset ++ u64Le e.len ++ u32Le e.rows ++
    u32Le e.crc32c

def decodeEntry (bytes : Bytes) : Entry where
  typeId := u32At bytes 0
  flags := u32At bytes 4
  offset := u64At bytes 8
  len := u64At bytes 16
  rows := u32At bytes 24
  crc32c := u32At bytes 28

@[simp] theorem Entry.encode_length (e : Entry) : e.encode.length = entryLen := by
  simp [Entry.encode,entryLen]

def Catalog.encodedLen (c : Catalog) : ℕ := c.entries.length*entryLen + metaLen

def Catalog.encodeEntries (c : Catalog) : Bytes := c.entries.flatMap Entry.encode

/-- The metadata block with `crc` in its checksum field. -/
def Catalog.encodeMeta (c : Catalog) (crc : UInt32) : Bytes :=
  i64Le c.minTs ++ i64Le c.maxTs ++ u32Le (UInt32.ofNat c.entries.length) ++
    u32Le c.formatVersion ++ u32Le crc ++ u32Le c.windowCount

/-- Entries, metadata and tail index. The checksum covers the catalog block with
its own field zeroed. -/
def Catalog.encode (c : Catalog) : Bytes :=
  c.encodeEntries ++ c.encodeMeta (Crc32c.crc32c (c.encodeEntries ++ c.encodeMeta 0)) ++
    TailIndex.encode ⟨UInt32.ofNat c.encodedLen⟩

def crc32cWithZeroedField (bytes : Bytes) (zeroAt : ℕ) : UInt32 :=
  Crc32c.crc32c (bytes.take zeroAt ++ [0,0,0,0] ++ bytes.drop (zeroAt+4))

/-- `count` fixed-width entries from the start of `bytes`. -/
def decodeEntries : ℕ → Bytes → List Entry
  | 0, _ => []
  | count+1, bytes => decodeEntry (bytes.take entryLen) :: decodeEntries count (bytes.drop entryLen)

@[simp] theorem decodeEntries_length (count : ℕ) (bytes : Bytes) :
    (decodeEntries count bytes).length = count := by
  induction count generalizing bytes <;> simp_all [decodeEntries]

/-- A catalog block without its tail index. -/
def Catalog.decode (bytes : Bytes) : Except DecodeError Catalog :=
  if bytes.length < metaLen ∨ (bytes.length - metaLen)%entryLen ≠ 0 then
    .error (.badCatalogLen bytes.length)
  else
    let count := (bytes.length - metaLen)/entryLen
    if 2^32 ≤ count then .error (.badCatalogLen bytes.length)
    else
      let derived := UInt32.ofNat count
      let metaBytes := bytes.drop (bytes.length - metaLen)
      let storedCount := u32At metaBytes 16
      if storedCount ≠ derived then .error (.entryCountMismatch storedCount derived)
      else
        let storedCrc := u32At metaBytes metaCrcOffset
        let computed := crc32cWithZeroedField bytes (bytes.length - metaLen + metaCrcOffset)
        if storedCrc ≠ computed then .error (.badCrc storedCrc computed)
        else .ok {
          entries := decodeEntries count bytes
          minTs := i64At metaBytes 0
          maxTs := i64At metaBytes 8
          formatVersion := u32At metaBytes 20
          windowCount := u32At metaBytes 28 }

/-- A decoded block holds exactly the entries its length makes room for. -/
theorem Catalog.decode_entries_length {bytes : Bytes} {c : Catalog}
    (h : Catalog.decode bytes = .ok c) : bytes.length = c.entries.length*entryLen + metaLen := by
  unfold Catalog.decode at h
  split at h
  · cases h
  · rename_i hlen
    push Not at hlen
    dsimp only at h
    split at h
    · cases h
    · split at h
      · cases h
      · split at h
        · cases h
        · cases h
          simp only [decodeEntries_length]
          have hd := Nat.div_add_mod (bytes.length - metaLen) entryLen
          rw [hlen.2,mul_comm] at hd
          omega

/-- The physical order of section kinds: data types ascending, then strings, then blobs. -/
inductive SectionOrder
  | data (typeId : UInt32)
  | strings
  | blobs
  deriving DecidableEq

def SectionOrder.rank : SectionOrder → ℕ
  | .data typeId => typeId.toNat
  | .strings => 2^32
  | .blobs => 2^32 + 1

def SectionOrder.ofTypeId (typeId : UInt32) : SectionOrder :=
  if typeId = dictStringsTypeId then .strings
  else if typeId = dictBlobsTypeId then .blobs
  else .data typeId

theorem SectionOrder.rank_injective {a b : SectionOrder} (h : a.rank = b.rank) : a = b := by
  have hlt : ∀ t : UInt32, t.toNat < 2^32 := fun t => t.toNat_lt
  cases a with
  | data t =>
    cases b with
    | data u => exact congrArg SectionOrder.data (UInt32.toNat_inj.mp h)
    | strings => have ht := hlt t; simp only [rank] at h; omega
    | blobs => have ht := hlt t; simp only [rank] at h; omega
  | strings =>
    cases b with
    | data u => have hu := hlt u; simp only [rank] at h; omega
    | strings => rfl
    | blobs => simp [rank] at h
  | blobs =>
    cases b with
    | data u => have hu := hlt u; simp only [rank] at h; omega
    | strings => simp [rank] at h
    | blobs => rfl

/-- One pass over the entries: the running body offset and the previous kind. -/
def validateEntries : ℕ → Option SectionOrder → List Entry → Except CatalogLayoutError ℕ
  | expectedOffset, _, [] => .ok expectedOffset
  | expectedOffset, previous, entry::rest =>
    let reject (reason : String) : Except CatalogLayoutError ℕ := .error ⟨some entry.typeId,reason⟩
    if entry.flags ≠ 0 then reject "reserved flags are not zero"
    else if entry.rows = 0 then reject "populated section has zero rows"
    else if entry.len = 0 then reject "section body is empty"
    else if maxPhysicalSectionBytes < entry.len then reject "body length is above the physical cap"
    else if maxPhysicalSectionRows < entry.rows then reject "row count is above the physical cap"
    else if entry.offset.toNat ≠ expectedOffset then
      reject "body is not contiguous with the preceding section"
    else
      let order := SectionOrder.ofTypeId entry.typeId
      if previous = some order then reject "section type occurs more than once"
      else if previous.any (fun p => order.rank < p.rank) then
        reject "section is out of canonical order"
      else if 2^64 ≤ entry.offset.toNat + entry.len.toNat then
        reject "body range overflows the container"
      else validateEntries (entry.offset.toNat + entry.len.toNat) (some order) rest

def validateCatalogLayout (catalog : Catalog) (catalogAt : ℕ) : Except CatalogLayoutError Unit :=
  match validateEntries magic.length none catalog.entries with
  | .error e => .error e
  | .ok expectedOffset =>
    if expectedOffset ≠ catalogAt then
      .error ⟨none,"section bodies do not end at the catalog start"⟩
    else .ok ()

/-- The bounds every populated section keeps. -/
structure Entry.Admissible (e : Entry) : Prop where
  flags : e.flags = 0
  rows_pos : e.rows ≠ 0
  rows_le : e.rows ≤ maxPhysicalSectionRows
  len_pos : e.len ≠ 0
  len_le : e.len ≤ maxPhysicalSectionBytes

/-- Bodies laid end to end from `start` to `stop`. -/
def ContiguousFrom : ℕ → List Entry → ℕ → Prop
  | start, [], stop => start = stop
  | start, e::es, stop => e.offset.toNat = start ∧ ContiguousFrom (start+e.len.toNat) es stop

def SectionsAscending (entries : List Entry) : Prop :=
  (entries.map fun e => (SectionOrder.ofTypeId e.typeId).rank).Pairwise (· < ·)

theorem ContiguousFrom.start_le {start stop : ℕ} {es : List Entry}
    (h : ContiguousFrom start es stop) : start ≤ stop := by
  induction es generalizing start with
  | nil => exact le_of_eq h
  | cons e es ih => have hh := ih h.2; omega

theorem ContiguousFrom.body_le {start stop : ℕ} {es : List Entry}
    (h : ContiguousFrom start es stop) {e : Entry} (he : e ∈ es) :
    start ≤ e.offset.toNat ∧ e.offset.toNat + e.len.toNat ≤ stop := by
  induction es generalizing start with
  | nil => cases he
  | cons x xs ih =>
    rcases List.mem_cons.mp he with rfl | hx
    · have hs := h.2.start_le
      exact ⟨le_of_eq h.1.symm,by rw [h.1]; exact hs⟩
    · have hi := ih h.2 hx
      exact ⟨by omega,hi.2⟩

/-- What one accepted pass has checked. -/
theorem validateEntries_ok {start stop : ℕ} {previous : Option SectionOrder} {es : List Entry}
    (h : validateEntries start previous es = .ok stop) :
    (∀ e ∈ es, e.Admissible) ∧ ContiguousFrom start es stop ∧
      ((previous.toList.map SectionOrder.rank) ++
        es.map fun e => (SectionOrder.ofTypeId e.typeId).rank).Pairwise (· < ·) := by
  induction es generalizing start previous with
  | nil =>
    cases h
    refine ⟨by simp,rfl,?_⟩
    cases previous <;> simp
  | cons e es ih =>
    simp only [validateEntries] at h
    split_ifs at h with h1 h2 h3 h4 h5 h6 h7 h8 h9
    obtain ⟨hadm,hcont,hpair⟩ := ih h
    have hlen := UInt64.not_lt.mp h4
    have hrows := UInt32.not_lt.mp h5
    push Not at h1 h6
    refine ⟨?_,⟨h6,by rwa [← h6]⟩,?_⟩
    · intro x hx
      rcases List.mem_cons.mp hx with rfl | hx
      · exact ⟨h1,h2,hrows,h3,hlen⟩
      · exact hadm x hx
    · cases previous with
      | none => simpa using hpair
      | some p =>
        have hne : p.rank ≠ (SectionOrder.ofTypeId e.typeId).rank := by
          intro hr
          exact h7 (congrArg some (SectionOrder.rank_injective hr))
        have hle : p.rank ≤ (SectionOrder.ofTypeId e.typeId).rank := by simpa using h8
        have hlt : p.rank < (SectionOrder.ofTypeId e.typeId).rank := lt_of_le_of_ne hle hne
        simp only [Option.toList_some,List.map_cons,List.map_nil,List.singleton_append,
          List.pairwise_cons] at hpair ⊢
        refine ⟨?_,hpair⟩
        intro r hr
        rcases List.mem_cons.mp hr with rfl | hr
        · exact hlt
        · exact lt_trans hlt (hpair.1 r hr)

/-- Conversely, entries with these properties pass. -/
theorem validateEntries_complete {start stop : ℕ} {previous : Option SectionOrder}
    {es : List Entry} (hadm : ∀ e ∈ es, e.Admissible) (hcont : ContiguousFrom start es stop)
    (hstop : stop < 2^64)
    (hpair : ((previous.toList.map SectionOrder.rank) ++
      es.map fun e => (SectionOrder.ofTypeId e.typeId).rank).Pairwise (· < ·)) :
    validateEntries start previous es = .ok stop := by
  induction es generalizing start previous with
  | nil => exact congrArg Except.ok hcont
  | cons e es ih =>
    have he := hadm e (by simp)
    have hend := hcont.2.start_le
    have hoff := hcont.1
    have hnext : validateEntries (e.offset.toNat+e.len.toNat)
        (some (SectionOrder.ofTypeId e.typeId)) es = .ok stop := by
      apply ih (fun x hx => hadm x (by simp [hx])) (by rw [hoff]; exact hcont.2)
      cases previous with
      | none => simpa using hpair
      | some p =>
        simp only [Option.toList_some,List.map_cons,List.map_nil,List.singleton_append,
          List.pairwise_cons] at hpair ⊢
        exact hpair.2
    have hlt : ∀ p, previous = some p → p.rank < (SectionOrder.ofTypeId e.typeId).rank := by
      rintro p rfl
      simp only [Option.toList_some,List.map_cons,List.map_nil,List.singleton_append,
        List.pairwise_cons] at hpair
      exact hpair.1 _ (by simp)
    have hdup : previous ≠ some (SectionOrder.ofTypeId e.typeId) := fun hp =>
      absurd (hlt _ hp) (lt_irrefl _)
    have hord : ¬ (previous.any fun p => (SectionOrder.ofTypeId e.typeId).rank < p.rank) = true := by
      cases previous with
      | none => simp
      | some p => have hp := hlt p rfl; simp; omega
    simp only [validateEntries]
    rw [if_neg (by simpa using he.flags),if_neg he.rows_pos,if_neg he.len_pos,
      if_neg (UInt64.not_lt.mpr he.len_le),if_neg (UInt32.not_lt.mpr he.rows_le),if_neg (by simpa using hoff),
      if_neg hdup,if_neg hord,if_neg (by omega)]
    exact hnext

/-- The canonical layout, as one statement about the inventory. -/
theorem validateCatalogLayout_ok_iff {catalog : Catalog} {catalogAt : ℕ} (hat : catalogAt < 2^64) :
    validateCatalogLayout catalog catalogAt = .ok () ↔
      (∀ e ∈ catalog.entries, e.Admissible) ∧
        ContiguousFrom magic.length catalog.entries catalogAt ∧
        SectionsAscending catalog.entries := by
  constructor
  · intro h
    unfold validateCatalogLayout at h
    split at h
    · cases h
    · rename_i stop hv
      split_ifs at h with hs
      obtain ⟨hadm,hcont,hpair⟩ := validateEntries_ok hv
      push Not at hs
      exact ⟨hadm,hs ▸ hcont,by simpa [SectionsAscending] using hpair⟩
  · rintro ⟨hadm,hcont,hpair⟩
    have hv : validateEntries magic.length none catalog.entries = .ok catalogAt :=
      validateEntries_complete hadm hcont hat (by simpa [SectionsAscending] using hpair)
    rw [validateCatalogLayout,hv]
    exact if_neg (by simp)

end PgKronika
