import PgKronika.ByteCodec
import PgKronika.StateLogic

/-! The positional byte source shared by the journal scanners. A source may fail
and may change between two reads, as a file that another process writes. -/
namespace PgKronika

open ByteCodec StateLogic

inductive IoErrorKind
  | unexpectedEof
  | invalidData
  | invalidInput
  | other (rawOsError : ℤ)
  deriving DecidableEq

structure IoError where
  kind : IoErrorKind
  message : String
  deriving DecidableEq

/-- Exact reads at an offset; the caller's buffer fixes how many bytes come back. -/
class ReadAt (σ : Type) where
  byteLen : Reading σ IoError UInt64
  readExactAt : ℕ → ℕ → Reading σ IoError Bytes
  read_length : ∀ {offset len : ℕ} {s next : σ} {data : Bytes},
    readExactAt offset len s = .ok (data,next) → data.length = len

def unexpectedEof : IoError := ⟨.unexpectedEof,""⟩

/-- Bytes in memory, or a file that nobody else writes. -/
instance : ReadAt Bytes where
  byteLen := fun b => .ok (UInt64.ofNat b.length,b)
  readExactAt offset len := fun b =>
    if b.length < offset+len then .error unexpectedEof else .ok (slice b offset len,b)
  read_length := by
    intro offset len s next data h
    split_ifs at h with hl
    cases h
    exact slice_length_of_le (by omega)

/-- The first `len` bytes of a file. -/
structure PrefixReader where
  file : Bytes
  len : UInt64
  deriving DecidableEq

instance : ReadAt PrefixReader where
  byteLen := fun r => .ok (r.len,r)
  readExactAt offset len := fun r =>
    if r.len.toNat < offset+len then .error unexpectedEof
    else if r.file.length < offset+len then .error unexpectedEof
    else .ok (slice r.file offset len,r)
  read_length := by
    intro offset len s next data h
    split_ifs at h with hl hf
    cases h
    exact slice_length_of_le (by omega)

/-- Reads inside `b` answer its bytes and leave the source alone. -/
def ReadsPrefix {σ : Type} [ReadAt σ] (s : σ) (b : Bytes) : Prop :=
  ∀ {offset len : ℕ}, offset+len ≤ b.length →
    ReadAt.readExactAt offset len s = .ok (slice b offset len,s)

/-- The source answers as the bytes `b` do, and does not change. -/
structure ReadsAs {σ : Type} [ReadAt σ] (s : σ) (b : Bytes) : Prop where
  byteLen : ReadAt.byteLen s = .ok (UInt64.ofNat b.length,s)
  read : ReadsPrefix s b

theorem ReadsPrefix.take {σ : Type} [ReadAt σ] {s : σ} {b : Bytes} (h : ReadsPrefix s b) (n : ℕ) :
    ReadsPrefix s (b.take n) := by
  intro offset len hl
  rw [List.length_take] at hl
  rw [slice_take (by omega)]
  exact h (by omega)

theorem readsAs_bytes (b : Bytes) : ReadsAs b b :=
  ⟨rfl,fun h => if_neg (by omega)⟩

theorem readsAs_upTo (file : Bytes) (len : UInt64) (h : len.toNat ≤ file.length) :
    ReadsAs (PrefixReader.mk file len) (file.take len.toNat) := by
  have hl : (file.take len.toNat).length = len.toNat := by simp [h]
  refine ⟨?_,?_⟩
  · rw [hl,UInt64.ofNat_toNat]; rfl
  · intro offset n hn
    rw [hl] at hn
    rw [slice_take hn]
    change (if len.toNat < offset+n then _ else if file.length < offset+n then _ else _) = _
    rw [if_neg (by omega),if_neg (by omega)]

/-- `I` holds of the sources whose length is `len`, whose reads inside it fail only
with an error in `E` and answer data that `Content` admits at that offset, and it
keeps holding. -/
structure StableSource (σ : Type) [ReadAt σ] (I : σ → Prop) (E : IoError → Prop)
    (Content : ℕ → Bytes → Prop) (len : UInt64) : Prop where
  byteLen : Meets I E (ReadAt.byteLen (σ := σ)) (· = len)
  read : ∀ {offset n : ℕ}, offset+n ≤ len.toNat →
    Meets I E (ReadAt.readExactAt (σ := σ) offset n) fun data =>
      data.length = n ∧ Content offset data

theorem ReadsAs.stable {σ : Type} [ReadAt σ] {s : σ} {b : Bytes} (h : ReadsAs s b)
    (hb : b.length < 2^64) :
    StableSource σ (· = s) (fun _ => False) (fun offset data => data = slice b offset data.length)
      (UInt64.ofNat b.length) := by
  refine ⟨?_,?_⟩
  · rintro _ rfl
    rw [h.byteLen]
    exact ⟨rfl,rfl⟩
  · rintro offset n hn _ rfl
    rw [UInt64.toNat_ofNat_of_lt' hb] at hn
    rw [h.read hn]
    have hl := slice_length_of_le hn
    exact ⟨rfl,hl,by rw [hl]⟩

end PgKronika
