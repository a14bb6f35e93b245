import Mathlib
import PgKronika.Catalog
import PgKronika.CheckedArith

/-! One PGM part body: container framing, its catalog, and the section checks. -/
namespace PgKronika

open ByteCodec CheckedArith

inductive PartError
  | tooShort (actual : ℕ)
  | badMagic (actual : Bytes)
  | tail (error : DecodeError)
  | badCatalogLen (catalogLen : UInt32)
  | catalog (error : DecodeError)
  | layout (error : CatalogLayoutError)
  | sectionOutOfBounds (typeId : UInt32)
  | sectionCrc (typeId stored computed : UInt32)
  deriving DecidableEq

/-- Magic, an empty catalog and the tail index. -/
def minPartLen : ℕ := magic.length + metaLen + tailIndexLen

/-- The catalog of a part whose sections lie inside it. -/
def decodeAndBound (bytes : Bytes) : Except PartError Catalog :=
  if bytes.length < minPartLen then .error (.tooShort bytes.length)
  else if slice bytes 0 4 ≠ magic then .error (.badMagic (slice bytes 0 4))
  else
    let bodyEnd := bytes.length - tailIndexLen
    match TailIndex.decode (slice bytes bodyEnd tailIndexLen) with
    | .error e => .error (.tail e)
    | .ok tail =>
      if bodyEnd < tail.catalogLen.toNat then .error (.badCatalogLen tail.catalogLen)
      else
        let catalogStart := bodyEnd - tail.catalogLen.toNat
        if catalogStart < magic.length then .error (.badCatalogLen tail.catalogLen)
        else
          match Catalog.decode (slice bytes catalogStart (bodyEnd - catalogStart)) with
          | .error e => .error (.catalog e)
          | .ok catalog =>
            match validateCatalogLayout catalog catalogStart with
            | .error e => .error (.layout e)
            | .ok () => .ok catalog

def Entry.body (e : Entry) (bytes : Bytes) : Bytes := slice bytes e.offset.toNat e.len.toNat

def checkSectionCrcs (bytes : Bytes) : List Entry → Except PartError Unit
  | [] => .ok ()
  | entry::rest =>
    let computed := Crc32c.crc32c (entry.body bytes)
    if computed ≠ entry.crc32c then .error (.sectionCrc entry.typeId entry.crc32c computed)
    else checkSectionCrcs bytes rest

/-- A self-contained part, section checksums included. -/
def validatePart (bytes : Bytes) : Except PartError Catalog :=
  match decodeAndBound bytes with
  | .error e => .error e
  | .ok catalog =>
    match checkSectionCrcs bytes catalog.entries with
    | .error e => .error e
    | .ok () => .ok catalog

def ValidPart (bytes : Bytes) : Prop := ∃ catalog, validatePart bytes = .ok catalog

/-- Row declarations of a catalog, stopped by overflow. -/
def Catalog.checkedRows (c : Catalog) : Option ℕ :=
  checkedSum 0 (c.entries.map fun e => e.rows.toNat)

def Catalog.rowTotal (c : Catalog) : ℕ := (c.entries.map fun e => e.rows.toNat).sum

/-- What an accepted frame of a part says about its catalog. -/
theorem decodeAndBound_ok {bytes : Bytes} {c : Catalog} (h : decodeAndBound bytes = .ok c) :
    minPartLen ≤ bytes.length ∧ ∃ tail : TailIndex,
      tail.catalogLen.toNat + magic.length + tailIndexLen ≤ bytes.length ∧
      Catalog.decode (slice bytes (bytes.length - tailIndexLen - tail.catalogLen.toNat)
        tail.catalogLen.toNat) = .ok c ∧
      validateCatalogLayout c (bytes.length - tailIndexLen - tail.catalogLen.toNat) = .ok () := by
  unfold decodeAndBound at h
  split at h
  · cases h
  · rename_i hlen
    split at h
    · cases h
    · dsimp only at h
      split at h
      · cases h
      · rename_i tail htail
        split at h
        · cases h
        · rename_i hfit
          split at h
          · cases h
          · rename_i hstart
            have hmin : minPartLen = 44 := rfl
            have htl : tailIndexLen = 8 := rfl
            have hmg : magic.length = 4 := rfl
            have hsub : bytes.length - tailIndexLen -
                (bytes.length - tailIndexLen - tail.catalogLen.toNat) = tail.catalogLen.toNat := by
              omega
            rw [hsub] at h
            split at h
            · cases h
            · rename_i catalog hc
              split at h
              · cases h
              · rename_i hv
                cases h
                exact ⟨by omega,tail,by omega,hc,hv⟩

/-- The tail index of a bounded part, read at its end, gives the length of its catalog. -/
theorem decodeAndBound_tail {bytes : Bytes} {c : Catalog} (h : decodeAndBound bytes = .ok c) :
    ∃ tail, TailIndex.decode (slice bytes (bytes.length - tailIndexLen) tailIndexLen) = .ok tail ∧
      tail.catalogLen.toNat = c.entries.length*entryLen + metaLen ∧
      tail.catalogLen.toNat + (tailIndexLen + magic.length) ≤ bytes.length := by
  have hmin := (decodeAndBound_ok h).1
  have hml : minPartLen = magic.length + metaLen + tailIndexLen := rfl
  have hmg : magic.length = 4 := rfl
  unfold decodeAndBound at h
  split_ifs at h with hlen hmagic
  dsimp only at h
  split at h
  · cases h
  · rename_i tail htail
    split_ifs at h with hfit hstart
    split at h
    · cases h
    · rename_i catalog hc
      split at h
      · cases h
      · cases h
        have hdec := Catalog.decode_entries_length hc
        rw [slice_length_of_le (by omega)] at hdec
        exact ⟨tail,htail,by omega,by omega⟩

theorem validatePart_ok {bytes : Bytes} {c : Catalog} (h : validatePart bytes = .ok c) :
    decodeAndBound bytes = .ok c ∧ checkSectionCrcs bytes c.entries = .ok () := by
  unfold validatePart at h
  split at h
  · cases h
  · rename_i catalog hd
    split at h
    · cases h
    · rename_i hc
      cases h
      exact ⟨hd,hc⟩

theorem ValidPart.minPartLen_le {bytes : Bytes} (h : ValidPart bytes) :
    minPartLen ≤ bytes.length :=
  (decodeAndBound_ok (validatePart_ok h.choose_spec).1).1

/-- The catalog of a part fits its `u32` length field, and lies inside the part. -/
theorem validatePart_entries_length {bytes : Bytes} {c : Catalog}
    (h : validatePart bytes = .ok c) :
    c.entries.length*entryLen + metaLen < 2^32 ∧
      c.entries.length*entryLen + minPartLen ≤ bytes.length := by
  obtain ⟨_,tail,hfit,hdec,_⟩ := decodeAndBound_ok (validatePart_ok h).1
  have hlen := Catalog.decode_entries_length hdec
  have hlt := tail.catalogLen.toNat_lt
  have hmin : minPartLen = magic.length + metaLen + tailIndexLen := rfl
  rw [slice_length_of_le (by omega)] at hlen
  exact ⟨by omega,by omega⟩

theorem validatePart_admissible {bytes : Bytes} {c : Catalog} (h : validatePart bytes = .ok c) :
    ∀ e ∈ c.entries, e.Admissible := by
  obtain ⟨_,tail,_,_,hv⟩ := decodeAndBound_ok (validatePart_ok h).1
  unfold validateCatalogLayout at hv
  split at hv
  · cases hv
  · rename_i stop hs
    exact (validateEntries_ok hs).1

theorem checkSectionCrcs_ok {bytes : Bytes} {es : List Entry}
    (h : checkSectionCrcs bytes es = .ok ()) {e : Entry} (he : e ∈ es) :
    Crc32c.crc32c (e.body bytes) = e.crc32c := by
  induction es with
  | nil => cases he
  | cons x xs ih =>
    rw [checkSectionCrcs] at h
    split_ifs at h with hx
    rcases List.mem_cons.mp he with rfl | he
    · exact not_not.mp hx
    · exact ih h he

/-- Every section lies inside the part and carries the checksum of its body. -/
theorem validatePart_body {bytes : Bytes} {c : Catalog} (h : validatePart bytes = .ok c) {e : Entry}
    (he : e ∈ c.entries) : e.offset.toNat + e.len.toNat ≤ bytes.length ∧
      Crc32c.crc32c (e.body bytes) = e.crc32c := by
  obtain ⟨hd,hcrc⟩ := validatePart_ok h
  obtain ⟨_,tail,_,_,hv⟩ := decodeAndBound_ok hd
  refine ⟨?_,checkSectionCrcs_ok hcrc he⟩
  unfold validateCatalogLayout at hv
  split at hv
  · cases hv
  · rename_i stop hs
    split_ifs at hv with hstop
    have hle := ((validateEntries_ok hs).2.1.body_le he).2
    omega

theorem rowTotal_le_of_admissible {es : List Entry} (h : ∀ e ∈ es, e.Admissible) :
    (es.map fun e => e.rows.toNat).sum ≤ es.length*maxPhysicalSectionRows.toNat := by
  have hle : ∀ r ∈ es.map (fun e => e.rows.toNat), r ≤ maxPhysicalSectionRows.toNat := by
    intro r hr
    obtain ⟨e,he,rfl⟩ := List.mem_map.mp hr
    exact UInt32.le_iff_toNat_le.mp (h e he).rows_le
  simpa using List.sum_le_card_nsmul _ _ hle

/-- Every catalog entry takes 32 bytes and declares at most 65536 rows. -/
theorem validatePart_rowTotal_le {bytes : Bytes} {c : Catalog} (h : validatePart bytes = .ok c) :
    c.rowTotal ≤ 2048*bytes.length ∧ c.rowTotal < 2^48 := by
  have hsum := rowTotal_le_of_admissible (validatePart_admissible h)
  obtain ⟨hu,hlen⟩ := validatePart_entries_length h
  have hr : maxPhysicalSectionRows.toNat = 65536 := rfl
  have he : entryLen = 32 := rfl
  rw [hr] at hsum
  rw [he] at hu hlen
  unfold Catalog.rowTotal
  constructor <;> omega

/-- The checked row total of a valid part never overflows. -/
theorem validatePart_checkedRows {bytes : Bytes} {c : Catalog} (h : validatePart bytes = .ok c) :
    c.checkedRows = some c.rowTotal := by
  have hlt := (validatePart_rowTotal_le h).2
  have hz : 0 + (c.entries.map fun e => e.rows.toNat).sum = c.rowTotal := Nat.zero_add _
  rw [Catalog.checkedRows,checkedSum_of_le (by rw [hz,u64Max]; omega),hz]

/-- A part without sections, the shortest one there is. -/
def emptyPart (minTs maxTs : Int64) (windowCount : UInt32) : Bytes :=
  magic ++ Catalog.encode ⟨[],minTs,maxTs,formatVersion,windowCount⟩

theorem emptyPart_valid : ValidPart (emptyPart 0 0 1) :=
  ⟨⟨[],0,0,formatVersion,1⟩,by decide +kernel⟩

end PgKronika
