import Mathlib

/-! Byte strings, slices and fixed-width little-endian fields. Nothing here
knows about a particular file format. -/
namespace PgKronika
namespace ByteCodec

abbrev Bytes := List UInt8

/-- The `len` bytes at `offset`, cut short where the string ends. -/
def slice (b : Bytes) (offset len : ℕ) : Bytes := (b.drop offset).take len

@[simp] theorem slice_length {b : Bytes} {offset len : ℕ} :
    (slice b offset len).length = min len (b.length - offset) := by
  simp [slice]

theorem slice_length_of_le {b : Bytes} {offset len : ℕ} (h : offset + len ≤ b.length) :
    (slice b offset len).length = len := by
  rw [slice_length]; omega

@[simp] theorem slice_zero_len (b : Bytes) (offset : ℕ) : slice b offset 0 = [] := by
  simp [slice]

theorem slice_all (b : Bytes) : slice b 0 b.length = b := by
  simp [slice]

theorem slice_prefix (b : Bytes) (len : ℕ) : slice b 0 len = b.take len := rfl

theorem slice_append_left {a b : Bytes} {offset len : ℕ} (h : offset + len ≤ a.length) :
    slice (a++b) offset len = slice a offset len := by
  have hd : len - (a.length - offset) = 0 := by omega
  rw [slice,slice,List.drop_append_of_le_length (by omega),List.take_append,List.length_drop,hd]
  simp

theorem slice_append_right {a b : Bytes} {offset len : ℕ} (h : a.length ≤ offset) :
    slice (a++b) offset len = slice b (offset - a.length) len := by
  rw [slice,slice,List.drop_append,List.drop_eq_nil_of_le h,List.nil_append]

/-- Read one field out of a record whose earlier fields are `a`. -/
theorem slice_field (a f b : Bytes) : slice (a++f++b) a.length f.length = f := by
  rw [slice_append_left (by simp),slice_append_right (le_refl _)]
  simp [slice]

theorem slice_of_append {whole a f b : Bytes} {offset len : ℕ} (h : whole = a++f++b)
    (ha : a.length = offset) (hf : f.length = len) : slice whole offset len = f := by
  subst h ha hf
  exact slice_field a f b

/-- One field of a record laid out field by field. -/
theorem slice_flatten {fields : List Bytes} {i offset len : ℕ} {f : Bytes}
    (h : fields[i]? = some f) (hoffset : ((fields.take i).map List.length).sum = offset)
    (hlen : f.length = len) : slice fields.flatten offset len = f := by
  obtain ⟨hi,rfl⟩ := List.getElem?_eq_some_iff.mp h
  have hsplit : fields = fields.take i ++ fields[i] :: fields.drop (i+1) := by
    rw [List.getElem_cons_drop,List.take_append_drop]
  have hflat : fields.flatten =
      (fields.take i).flatten ++ fields[i] ++ (fields.drop (i+1)).flatten := by
    conv_lhs => rw [hsplit]
    rw [List.flatten_append,List.flatten_cons,List.append_assoc]
  exact slice_of_append hflat (by rw [List.length_flatten,hoffset]) hlen

theorem slice_take {b : Bytes} {n offset len : ℕ} (h : offset + len ≤ n) :
    slice (b.take n) offset len = slice b offset len := by
  have hm : min len (n - offset) = len := by omega
  rw [slice,slice,List.drop_take,List.take_take,hm]

theorem slice_slice {b : Bytes} {o n o' n' : ℕ} (h : o' + n' ≤ n) :
    slice (slice b o n) o' n' = slice b (o+o') n' := by
  have hm : min n' (n - o') = n' := by omega
  rw [slice,slice,slice,List.drop_take,List.take_take,hm,List.drop_drop]

/-- A slice splits at any inner offset. -/
theorem slice_split (b : Bytes) (offset m n : ℕ) :
    slice b offset (m+n) = slice b offset m ++ slice b (offset+m) n := by
  rw [slice,slice,slice,List.take_add,List.drop_drop]

theorem take_eq_slice_append (b : Bytes) {m n : ℕ} (h : m ≤ n) :
    b.take n = b.take m ++ slice b m (n-m) := by
  conv_lhs => rw [← Nat.add_sub_cancel' h]
  simp [slice,List.take_add]

/-- A field on which two strings agree is the same in any overwrite of one by the other. -/
theorem slice_mix {x y : Bytes} (hxy : x.length = y.length) {offset len : ℕ}
    (h : slice x offset len = slice y offset len) (i : ℕ) :
    slice (x.take i ++ y.drop i) offset len = slice y offset len := by
  apply List.ext_getElem?
  intro k
  have hk := congrArg (·[k]?) h
  simp only [slice,List.getElem?_take,List.getElem?_drop,List.getElem?_append,List.length_take] at hk ⊢
  by_cases hlt : k < len
  · rw [if_pos hlt,if_pos hlt] at *
    by_cases hi : offset+k < min i x.length
    · rw [if_pos hi,if_pos (by omega)]
      exact hk
    · rw [if_neg hi]
      rcases Nat.le_total i x.length with hle | hle
      · congr 1
        omega
      · rw [List.getElem?_eq_none (by omega),List.getElem?_eq_none (by omega)]
  · rw [if_neg hlt,if_neg hlt]

/-- Little-endian digits of `n`, truncated to `width` bytes. -/
def leBytes : ℕ → ℕ → Bytes
  | 0, _ => []
  | width+1, n => UInt8.ofNat (n%256) :: leBytes width (n/256)

def leNat : Bytes → ℕ
  | [] => 0
  | b::bs => b.toNat + 256*leNat bs

@[simp] theorem leBytes_length (width n : ℕ) : (leBytes width n).length = width := by
  induction width generalizing n <;> simp_all [leBytes]

theorem leNat_lt (b : Bytes) : leNat b < 256^b.length := by
  induction b with
  | nil => simp [leNat]
  | cons x xs ih =>
    have hx : x.toNat < 256 := x.toNat_lt
    simp only [leNat,List.length_cons,pow_succ]
    omega

theorem leNat_leBytes {width n : ℕ} (h : n < 256^width) : leNat (leBytes width n) = n := by
  induction width generalizing n with
  | zero => simp at h; simp [leBytes,leNat,h]
  | succ width ih =>
    have hq : n/256 < 256^width := by
      rw [pow_succ] at h
      exact Nat.div_lt_of_lt_mul (by rwa [mul_comm])
    have hm : n%256 % 2^8 = n%256 := Nat.mod_eq_of_lt (by omega)
    simp only [leBytes,leNat,ih hq,UInt8.toNat_ofNat',hm]
    omega

theorem leBytes_leNat (b : Bytes) : leBytes b.length (leNat b) = b := by
  induction b with
  | nil => rfl
  | cons x xs ih =>
    have hx : x.toNat < 256 := x.toNat_lt
    have hm : (x.toNat + 256*leNat xs)%256 = x.toNat := by omega
    have hd : (x.toNat + 256*leNat xs)/256 = leNat xs := by omega
    simp only [List.length_cons,leNat,leBytes,hm,hd,ih,UInt8.ofNat_toNat]

theorem leBytes_injective {width m n : ℕ} (hm : m < 256^width) (hn : n < 256^width)
    (h : leBytes width m = leBytes width n) : m = n := by
  rw [← leNat_leBytes hm,← leNat_leBytes hn,h]

def u16Le (x : UInt16) : Bytes := leBytes 2 x.toNat

def u32Le (x : UInt32) : Bytes := leBytes 4 x.toNat

def u64Le (x : UInt64) : Bytes := leBytes 8 x.toNat

def i64Le (x : Int64) : Bytes := u64Le x.toUInt64

def u8At (b : Bytes) (offset : ℕ) : UInt8 := (slice b offset 1).headD 0

def u16At (b : Bytes) (offset : ℕ) : UInt16 := UInt16.ofNat (leNat (slice b offset 2))

def u32At (b : Bytes) (offset : ℕ) : UInt32 := UInt32.ofNat (leNat (slice b offset 4))

def u64At (b : Bytes) (offset : ℕ) : UInt64 := UInt64.ofNat (leNat (slice b offset 8))

def i64At (b : Bytes) (offset : ℕ) : Int64 := (u64At b offset).toInt64

@[simp] theorem u32Le_length (x : UInt32) : (u32Le x).length = 4 := leBytes_length _ _
@[simp] theorem u64Le_length (x : UInt64) : (u64Le x).length = 8 := leBytes_length _ _
@[simp] theorem i64Le_length (x : Int64) : (i64Le x).length = 8 := leBytes_length _ _

theorem u8At_of_slice {b : Bytes} {offset : ℕ} {x : UInt8} (h : slice b offset 1 = [x]) :
    u8At b offset = x := by
  rw [u8At,h,List.headD_cons]

theorem u32At_of_slice {b : Bytes} {offset : ℕ} {x : UInt32} (h : slice b offset 4 = u32Le x) :
    u32At b offset = x := by
  rw [u32At,h,u32Le,leNat_leBytes (by simpa using x.toNat_lt)]
  exact UInt32.ofNat_toNat

theorem u64At_of_slice {b : Bytes} {offset : ℕ} {x : UInt64} (h : slice b offset 8 = u64Le x) :
    u64At b offset = x := by
  rw [u64At,h,u64Le,leNat_leBytes (by simpa using x.toNat_lt)]
  exact UInt64.ofNat_toNat

theorem i64At_of_slice {b : Bytes} {offset : ℕ} {x : Int64} (h : slice b offset 8 = i64Le x) :
    i64At b offset = x := by
  rw [i64At,u64At_of_slice h,Int64.toInt64_toUInt64]

theorem u32Le_u32At {b : Bytes} {offset : ℕ} (h : offset + 4 ≤ b.length) :
    u32Le (u32At b offset) = slice b offset 4 := by
  have hl := slice_length_of_le h
  have hlt := leNat_lt (slice b offset 4)
  rw [hl] at hlt
  rw [u32Le,u32At,UInt32.toNat_ofNat_of_lt' (by simpa using hlt)]
  simpa only [hl] using leBytes_leNat (slice b offset 4)

theorem u64Le_u64At {b : Bytes} {offset : ℕ} (h : offset + 8 ≤ b.length) :
    u64Le (u64At b offset) = slice b offset 8 := by
  have hl := slice_length_of_le h
  have hlt := leNat_lt (slice b offset 8)
  rw [hl] at hlt
  rw [u64Le,u64At,UInt64.toNat_ofNat_of_lt' (by simpa using hlt)]
  simpa only [hl] using leBytes_leNat (slice b offset 8)

theorem i64Le_i64At {b : Bytes} {offset : ℕ} (h : offset + 8 ≤ b.length) :
    i64Le (i64At b offset) = slice b offset 8 := by
  rw [i64Le,i64At,UInt64.toUInt64_toInt64,u64Le_u64At h]

theorem u64Le_high {x : UInt64} (h : x.toNat < 2^32) : slice (u64Le x) 4 4 = [0,0,0,0] := by
  have hz : x.toNat/256/256/256/256 = 0 := by omega
  simp [u64Le,leBytes,slice,hz]

theorem u64Le_injective {x y : UInt64} (h : u64Le x = u64Le y) : x = y :=
  UInt64.toNat_inj.mp (leBytes_injective (by simpa using x.toNat_lt) (by simpa using y.toNat_lt) h)

theorem u32Le_injective {x y : UInt32} (h : u32Le x = u32Le y) : x = y :=
  UInt32.toNat_inj.mp (leBytes_injective (by simpa using x.toNat_lt) (by simpa using y.toNat_lt) h)

theorem i64Le_injective {x y : Int64} (h : i64Le x = i64Le y) : x = y := by
  have he : x.toUInt64 = y.toUInt64 := u64Le_injective h
  rw [← Int64.toInt64_toUInt64 x,he,Int64.toInt64_toUInt64]

end ByteCodec
end PgKronika
