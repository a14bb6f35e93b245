import PgKronika.ByteCodec

/-! A regular file changed by writes and truncations, and what a crash can
leave of a sequence of them. Writes take effect byte by byte in program order;
a truncation is one step and a synchronization changes no visible byte. -/
namespace PgKronika
namespace FileTrace

open ByteCodec

/-- Storing one byte. A gap before `offset` reads as zeroes. -/
def writeByte (file : Bytes) (offset : ℕ) (b : UInt8) : Bytes :=
  if offset < file.length then file.set offset b
  else file ++ List.replicate (offset - file.length) 0 ++ [b]

def overwrite : Bytes → ℕ → Bytes → Bytes
  | file, _, [] => file
  | file, offset, b::bs => overwrite (writeByte file offset b) (offset+1) bs

/-- Cutting a file, or extending it with zeroes. -/
def truncate (file : Bytes) (len : ℕ) : Bytes :=
  (file ++ List.replicate (len - file.length) 0).take len

theorem writeByte_eq {file : Bytes} {offset : ℕ} (h : offset ≤ file.length) (b : UInt8) :
    writeByte file offset b = file.take offset ++ b :: file.drop (offset+1) := by
  rcases Nat.lt_or_ge offset file.length with hlt | hge
  · rw [writeByte,if_pos hlt,List.set_eq_take_append_cons_drop,if_pos hlt]
  · have he : offset = file.length := by omega
    subst he
    simp [writeByte]

theorem overwrite_eq {file : Bytes} {offset : ℕ} (h : offset ≤ file.length) (data : Bytes) :
    overwrite file offset data = file.take offset ++ data ++ file.drop (offset+data.length) := by
  induction data generalizing file offset with
  | nil => simp [overwrite]
  | cons b bs ih =>
    have hw := writeByte_eq h b
    have hl : (file.take offset).length = offset := by simp [h]
    rw [overwrite,ih (by rw [hw]; simp; omega),hw]
    have ht : (file.take offset ++ b :: file.drop (offset+1)).take (offset+1) =
        file.take offset ++ [b] := by
      rw [List.take_append,hl,List.take_of_length_le (by omega),Nat.add_sub_cancel_left]
      simp
    have hd : (file.take offset ++ b :: file.drop (offset+1)).drop (offset+1+bs.length) =
        file.drop (offset+(bs.length+1)) := by
      rw [List.drop_append,hl,List.drop_eq_nil_of_le (by omega)]
      have hs : offset+1+bs.length - offset = bs.length + 1 := by omega
      rw [hs,List.nil_append,List.drop_succ_cons,List.drop_drop]
      congr 1; omega
    rw [ht,hd]
    simp

theorem overwrite_end (file data : Bytes) : overwrite file file.length data = file ++ data := by
  rw [overwrite_eq (le_refl _)]
  simp

theorem overwrite_start (file data : Bytes) :
    overwrite file 0 data = data ++ file.drop data.length := by
  rw [overwrite_eq (Nat.zero_le _)]
  simp

theorem truncate_of_le {file : Bytes} {len : ℕ} (h : len ≤ file.length) :
    truncate file len = file.take len := by
  have hz : len - file.length = 0 := by omega
  rw [truncate,hz]
  simp

inductive FileOp
  | writeAll (offset : ℕ) (data : Bytes)
  | setLen (len : ℕ)
  | syncData
  deriving DecidableEq

/-- One indivisible change of the visible bytes. -/
inductive Effect
  | byte (offset : ℕ) (b : UInt8)
  | length (len : ℕ)
  deriving DecidableEq

def Effect.apply (file : Bytes) : Effect → Bytes
  | .byte offset b => writeByte file offset b
  | .length len => truncate file len

def writeEffects : ℕ → Bytes → List Effect
  | _, [] => []
  | offset, b::bs => .byte offset b :: writeEffects (offset+1) bs

def FileOp.effects : FileOp → List Effect
  | .writeAll offset data => writeEffects offset data
  | .setLen len => [.length len]
  | .syncData => []

def applyEffects (file : Bytes) (effects : List Effect) : Bytes :=
  effects.foldl Effect.apply file

def FileOp.apply (op : FileOp) (file : Bytes) : Bytes := applyEffects file op.effects

def applyAll (ops : List FileOp) (file : Bytes) : Bytes :=
  ops.foldl (fun f op => op.apply f) file

/-- The file after a crash once `k` indivisible changes of `ops` became visible. -/
def crashImage (ops : List FileOp) (k : ℕ) (file : Bytes) : Bytes :=
  applyEffects file ((ops.flatMap FileOp.effects).take k)

@[simp] theorem writeEffects_length (offset : ℕ) (data : Bytes) :
    (writeEffects offset data).length = data.length := by
  induction data generalizing offset <;> simp_all [writeEffects]

theorem applyEffects_write (file : Bytes) (offset k : ℕ) (data : Bytes) :
    applyEffects file ((writeEffects offset data).take k) =
      overwrite file offset (data.take k) := by
  induction data generalizing file offset k with
  | nil => simp [writeEffects,applyEffects,overwrite]
  | cons b bs ih =>
    cases k with
    | zero => simp [applyEffects,overwrite]
    | succ k =>
      simp only [writeEffects,List.take_succ_cons,overwrite]
      exact ih (writeByte file offset b) (offset+1) k

@[simp] theorem apply_writeAll (file : Bytes) (offset : ℕ) (data : Bytes) :
    (FileOp.writeAll offset data).apply file = overwrite file offset data := by
  have h := applyEffects_write file offset data.length data
  rwa [List.take_of_length_le (by simp),List.take_length] at h

@[simp] theorem apply_setLen (file : Bytes) (len : ℕ) :
    (FileOp.setLen len).apply file = truncate file len := rfl

@[simp] theorem apply_syncData (file : Bytes) : FileOp.syncData.apply file = file := rfl

@[simp] theorem applyAll_nil (file : Bytes) : applyAll [] file = file := rfl

@[simp] theorem applyAll_cons (op : FileOp) (ops : List FileOp) (file : Bytes) :
    applyAll (op::ops) file = applyAll ops (op.apply file) := rfl

@[simp] theorem applyAll_append (ops ops' : List FileOp) (file : Bytes) :
    applyAll (ops++ops') file = applyAll ops' (applyAll ops file) := List.foldl_append

@[simp] theorem crashImage_nil (k : ℕ) (file : Bytes) : crashImage [] k file = file := by
  simp [crashImage,applyEffects]

@[simp] theorem crashImage_zero (ops : List FileOp) (file : Bytes) :
    crashImage ops 0 file = file := by
  simp [crashImage,applyEffects]

/-- A crash stops inside the first operation or after it. -/
theorem crashImage_cons (op : FileOp) (ops : List FileOp) (k : ℕ) (file : Bytes) :
    crashImage (op::ops) k file =
      if k ≤ op.effects.length then applyEffects file (op.effects.take k)
      else crashImage ops (k - op.effects.length) (op.apply file) := by
  unfold crashImage
  rw [List.flatMap_cons,List.take_append]
  split_ifs with h
  · have hz : k - op.effects.length = 0 := by omega
    simp [hz]
  · rw [List.take_of_length_le (by omega)]
    simp [applyEffects,FileOp.apply,List.foldl_append]

theorem crashImage_writeAll_of_le {offset k : ℕ} {data : Bytes} (ops : List FileOp) (file : Bytes)
    (h : k ≤ data.length) :
    crashImage (.writeAll offset data::ops) k file = overwrite file offset (data.take k) := by
  rw [crashImage_cons,if_pos (by simpa [FileOp.effects] using h)]
  exact applyEffects_write file offset k data

theorem crashImage_writeAll_add (offset k : ℕ) (data : Bytes) (ops : List FileOp) (file : Bytes) :
    crashImage (.writeAll offset data::ops) (data.length+k) file =
      crashImage ops k (overwrite file offset data) := by
  rw [crashImage_cons]
  simp only [FileOp.effects,writeEffects_length,apply_writeAll,Nat.add_sub_cancel_left]
  split_ifs with h
  · have hz : k = 0 := by omega
    subst hz
    simpa using applyEffects_write file offset data.length data
  · rfl

@[simp] theorem crashImage_syncData (ops : List FileOp) (k : ℕ) (file : Bytes) :
    crashImage (.syncData::ops) k file = crashImage ops k file := by
  simp [crashImage,FileOp.effects]

theorem crashImage_setLen_succ (len k : ℕ) (ops : List FileOp) (file : Bytes) :
    crashImage (.setLen len::ops) (k+1) file = crashImage ops k (truncate file len) := by
  simp [crashImage,FileOp.effects,applyEffects,Effect.apply]

/-- An open file whose next operations succeed or fail as `faults` lists them.
A fault lets `k` changes of its operation through before it is reported; an
empty list means that no further operation fails. -/
structure Disk (ε : Type) where
  bytes : Bytes
  faults : List (Option (ℕ × ε))
  deriving DecidableEq

def Disk.perform {ε : Type} (op : FileOp) (disk : Disk ε) : Except ε Unit × Disk ε :=
  match disk.faults with
  | [] => (.ok (),{ disk with bytes := op.apply disk.bytes })
  | none::rest => (.ok (),⟨op.apply disk.bytes,rest⟩)
  | some (k,e)::rest => (.error e,⟨applyEffects disk.bytes (op.effects.take k),rest⟩)

/-- Operations in program order, stopped by the first error. -/
def Disk.performAll {ε : Type} : List FileOp → Disk ε → Except ε Unit × Disk ε
  | [], disk => (.ok (),disk)
  | op::ops, disk =>
    match disk.perform op with
    | (.ok (),next) => performAll ops next
    | (.error e,next) => (.error e,next)

theorem performAll_of_no_faults {ε : Type} (ops : List FileOp) (file : Bytes) :
    (Disk.mk file ([] : List (Option (ℕ × ε)))).performAll ops = (.ok (),⟨applyAll ops file,[]⟩) := by
  induction ops generalizing file with
  | nil => rfl
  | cons op ops ih => simp [Disk.performAll,Disk.perform,ih,applyAll]

theorem performAll_ok_bytes {ε : Type} {ops : List FileOp} {disk next : Disk ε}
    (h : disk.performAll ops = (.ok (),next)) : next.bytes = applyAll ops disk.bytes := by
  induction ops generalizing disk with
  | nil => cases h; rfl
  | cons op ops ih =>
    obtain ⟨bytes,faults⟩ := disk
    rcases faults with _ | ⟨_ | ⟨k,e⟩,rest⟩
    · exact ih h
    · exact ih h
    · cases h

/-- What a failed run leaves behind is what some crash could have left. -/
theorem performAll_error_image {ε : Type} {ops : List FileOp} {disk next : Disk ε} {e : ε}
    (h : disk.performAll ops = (.error e,next)) :
    ∃ k, next.bytes = crashImage ops k disk.bytes := by
  induction ops generalizing disk with
  | nil => cases h
  | cons op ops ih =>
    obtain ⟨bytes,faults⟩ := disk
    have hstep : ∀ d : Disk ε, d.bytes = op.apply bytes → d.performAll ops = (.error e,next) →
        ∃ k, next.bytes = crashImage (op::ops) k bytes := by
      intro d hd hr
      obtain ⟨k,hk⟩ := ih hr
      refine ⟨op.effects.length+k,?_⟩
      rw [hk,hd]
      simp only [crashImage,List.flatMap_cons,List.take_length_add_append]
      simp [applyEffects,FileOp.apply,List.foldl_append]
    rcases faults with _ | ⟨_ | ⟨k,e'⟩,rest⟩
    · exact hstep ⟨op.apply bytes,[]⟩ rfl h
    · exact hstep ⟨op.apply bytes,rest⟩ rfl h
    · simp only [Disk.performAll,Disk.perform,Prod.mk.injEq] at h
      refine ⟨min k op.effects.length,?_⟩
      rw [← h.2,crashImage_cons,if_pos (by omega),← List.take_eq_take_min]

end FileTrace
end PgKronika
