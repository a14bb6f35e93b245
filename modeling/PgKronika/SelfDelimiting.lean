import PgKronika.ByteCodec

/-! Encodings that show where they end, so that their concatenations can be read back. -/
namespace PgKronika

open ByteCodec

/-- A list that fits an address space. -/
abbrev Vec (α : Type) := {l : List α // l.length < 2^63}

def u64Be (x : UInt64) : Bytes := (u64Le x).reverse

def i64Be (x : Int64) : Bytes := (i64Le x).reverse

section Delimited

variable {α β κ μ : Type}

/-- The bytes of a value, whatever follows them, determine its key and what follows. -/
def Delimits (encode : α → Bytes) (key : α → κ) : Prop :=
  ∀ ⦃a b : α⦄ ⦃r r' : Bytes⦄, encode a++r = encode b++r' → key a = key b ∧ r = r'

theorem Delimits.of_width {encode : α → Bytes} {key : α → κ} {width : ℕ}
    (hwidth : ∀ a, (encode a).length = width)
    (hkey : ∀ a b, encode a = encode b → key a = key b) : Delimits encode key := by
  intro a b r r' h
  obtain ⟨hhead,htail⟩ := List.append_inj h ((hwidth a).trans (hwidth b).symm)
  exact ⟨hkey a b hhead,htail⟩

theorem Delimits.append {encode encode' : α → Bytes} {key : α → κ} {key' : α → μ}
    (h : Delimits encode key) (h' : Delimits encode' key') :
    Delimits (fun a => encode a++encode' a) fun a => (key a,key' a) := by
  intro a b r r' heq
  rw [List.append_assoc,List.append_assoc] at heq
  obtain ⟨hkey,hrest⟩ := h heq
  obtain ⟨hkey',hrest'⟩ := h' hrest
  exact ⟨Prod.ext hkey hkey',hrest'⟩

theorem Delimits.comap {encode : α → Bytes} {key : α → κ} (h : Delimits encode key) (f : β → α) :
    Delimits (encode ∘ f) (key ∘ f) := fun _ _ _ _ heq => h heq

theorem Delimits.injective {encode : α → Bytes} {key : α → κ} (h : Delimits encode key) {a b : α}
    (heq : encode a = encode b) : key a = key b :=
  (h (congrArg (·++([] : Bytes)) heq)).1

theorem u64Be_delimits : Delimits u64Be id :=
  .of_width (fun a => by rw [u64Be,List.length_reverse,u64Le_length]) fun _ _ h =>
    u64Le_injective (List.reverse_injective h)

theorem i64Be_delimits : Delimits i64Be id :=
  .of_width (fun a => by rw [i64Be,List.length_reverse,i64Le_length]) fun _ _ h =>
    i64Le_injective (List.reverse_injective h)

theorem u8_delimits : Delimits (fun b : UInt8 => [b]) id := by
  intro a b r r' h
  exact List.cons.inj h

theorem Delimits.flatMap {encode : α → Bytes} {key : α → κ} (h : Delimits encode key)
    {l l' : List α} (hlen : l.length = l'.length) {r r' : Bytes}
    (heq : l.flatMap encode++r = l'.flatMap encode++r') :
    l.map key = l'.map key ∧ r = r' := by
  induction l generalizing l' with
  | nil =>
    obtain rfl := List.eq_nil_of_length_eq_zero hlen.symm
    exact ⟨rfl,heq⟩
  | cons a l ih =>
    cases l' with
    | nil => cases hlen
    | cons b l' =>
      rw [List.flatMap_cons,List.flatMap_cons,List.append_assoc,List.append_assoc] at heq
      obtain ⟨hkey,hrest⟩ := h heq
      obtain ⟨hkeys,hend⟩ := ih (Nat.succ.inj hlen) hrest
      exact ⟨by rw [List.map_cons,List.map_cons,hkey,hkeys],hend⟩

/-- A count, then the values. -/
def countedBytes (encode : α → Bytes) (l : Vec α) : Bytes :=
  u64Be (UInt64.ofNat l.val.length)++l.val.flatMap encode

theorem Delimits.countedBytes {encode : α → Bytes} {key : α → κ} (h : Delimits encode key) :
    Delimits (countedBytes encode) fun l => l.val.map key := by
  intro l l' r r' heq
  rw [PgKronika.countedBytes,PgKronika.countedBytes,List.append_assoc,List.append_assoc] at heq
  obtain ⟨hcount,hbody⟩ := u64Be_delimits heq
  have hlen := congrArg UInt64.toNat hcount
  rw [id,id,UInt64.toNat_ofNat_of_lt' (l.property.trans (by decide)),
    UInt64.toNat_ofNat_of_lt' (l'.property.trans (by decide))] at hlen
  exact h.flatMap hlen hbody

end Delimited

end PgKronika
