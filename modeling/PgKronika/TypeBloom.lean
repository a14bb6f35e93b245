import PgKronika.Catalog

/-! The filter of section types in a catalog summary. It has no false negatives: each type with
rows has set all of its bits, and no later one clears them. -/
namespace PgKronika

abbrev TypeBloom := Vector UInt64 8

def mix64 (value : UInt64) : UInt64 :=
  let value := value + 0x9E3779B97F4A7C15
  let value := (value ^^^ (value >>> 30)) * 0xBF58476D1CE4E5B9
  let value := (value ^^^ (value >>> 27)) * 0x94D049BB133111EB
  value ^^^ (value >>> 31)

/-- The eight bits of a type among the 512. -/
def bloomBits (typeId : UInt32) : List (Fin 512) :=
  let first := mix64 typeId.toUInt64
  let step := mix64 (typeId.toUInt64 ^^^ 0x9E3779B97F4A7C15) ||| 1
  (List.range 8).map fun index => Fin.ofNat 512 (first + UInt64.ofNat index * step).toNat

def bloomWord (bit : Fin 512) : Fin 8 := ⟨bit/64,by omega⟩

def bloomMask (bit : Fin 512) : UInt64 := 1 <<< UInt64.ofNat (bit%64)

def setBloomBit (bloom : TypeBloom) (bit : Fin 512) : TypeBloom :=
  bloom.set (bloomWord bit) (bloom[bloomWord bit] ||| bloomMask bit)

def hasBloomBit (bloom : TypeBloom) (bit : Fin 512) : Bool :=
  bloom[bloomWord bit] &&& bloomMask bit ≠ 0

def addBloomType (bloom : TypeBloom) (entry : Entry) : TypeBloom :=
  if entry.rows ≠ 0 then (bloomBits entry.typeId).foldl setBloomBit bloom else bloom

def nonemptyTypeBloom (entries : List Entry) : TypeBloom :=
  entries.foldl addBloomType (.replicate 8 0)

def bloomMayContain (bloom : TypeBloom) (typeId : UInt32) : Bool :=
  (bloomBits typeId).all (hasBloomBit bloom)

/-- Any bits that one word has, the union of two words has. -/
theorem and_or_ne_zero {x m : UInt64} (y : UInt64) (h : x &&& m ≠ 0) : (x ||| y) &&& m ≠ 0 := by
  intro hzero
  apply h
  apply UInt64.toBitVec_inj.mp
  ext i hi
  have hbit : ((x ||| y) &&& m).toBitVec[i] = (0 : UInt64).toBitVec[i] := by rw [hzero]
  simp only [UInt64.toBitVec_and,UInt64.toBitVec_or,BitVec.getElem_and,BitVec.getElem_or] at hbit ⊢
  cases hx : x.toBitVec[i]
  · simp
  · simpa [hx] using hbit

theorem bloomMask_ne_zero (bit : Fin 512) : bloomMask bit ≠ 0 := by
  have hmask : ∀ k : Fin 64, (1 : UInt64) <<< UInt64.ofNat k ≠ 0 := by decide
  exact hmask ⟨bit%64,by omega⟩

theorem hasBloomBit_setBloomBit {bloom : TypeBloom} {bit : Fin 512} :
    hasBloomBit (setBloomBit bloom bit) bit := by
  have hself : (bloomMask bit ||| bloom[bloomWord bit]) &&& bloomMask bit ≠ 0 :=
    and_or_ne_zero _ (by simpa using bloomMask_ne_zero bit)
  rw [UInt64.or_comm] at hself
  simpa [hasBloomBit,setBloomBit] using hself

theorem hasBloomBit_mono {bloom : TypeBloom} {bit : Fin 512} (other : Fin 512)
    (h : hasBloomBit bloom bit) : hasBloomBit (setBloomBit bloom other) bit := by
  simp only [hasBloomBit,setBloomBit,Fin.getElem_fin,Vector.getElem_set,decide_eq_true_eq] at h ⊢
  by_cases hword : (bloomWord other : ℕ) = bloomWord bit
  · rw [if_pos hword]
    simpa [hword] using and_or_ne_zero _ h
  · rw [if_neg hword]
    exact h

theorem hasBloomBit_foldl {bloom : TypeBloom} {bit : Fin 512} (bits : List (Fin 512))
    (h : hasBloomBit bloom bit ∨ bit ∈ bits) : hasBloomBit (bits.foldl setBloomBit bloom) bit := by
  induction bits generalizing bloom with
  | nil => simpa using h
  | cons head bits ih =>
    apply ih
    rcases h with h | h
    · exact .inl (hasBloomBit_mono head h)
    · rcases List.mem_cons.mp h with rfl | h
      · exact .inl hasBloomBit_setBloomBit
      · exact .inr h

theorem hasBloomBit_entries {bloom : TypeBloom} {bit : Fin 512} {entries : List Entry}
    (h : hasBloomBit bloom bit ∨ ∃ e ∈ entries, e.rows ≠ 0 ∧ bit ∈ bloomBits e.typeId) :
    hasBloomBit (entries.foldl addBloomType bloom) bit := by
  induction entries generalizing bloom with
  | nil => simpa using h
  | cons entry entries ih =>
    apply ih
    rw [addBloomType]
    rcases h with h | ⟨e,he,hrows,hbit⟩
    · split_ifs
      · exact .inl (hasBloomBit_foldl _ (.inl h))
      · exact .inl h
    · rcases List.mem_cons.mp he with rfl | he
      · rw [if_pos hrows]
        exact .inl (hasBloomBit_foldl _ (.inr hbit))
      · exact .inr ⟨e,he,hrows,hbit⟩

/-- A type with rows is never ruled out. -/
theorem bloomMayContain_nonempty {entries : List Entry} {entry : Entry} (h : entry ∈ entries)
    (hrows : entry.rows ≠ 0) : bloomMayContain (nonemptyTypeBloom entries) entry.typeId := by
  rw [bloomMayContain,List.all_eq_true]
  intro bit hbit
  exact hasBloomBit_entries (.inr ⟨entry,h,hrows,hbit⟩)

end PgKronika
