import Mathlib
import PgKronika.EventFacts
import PgKronika.SparseCounts

/-! Event counts over the joint key of severity, category and state, with lifecycle counts apart:
construction, merge and the marginal sums. -/
namespace PgKronika

open CheckedArith SparseCounts

def Severity.index : Severity → Fin 5
  | .error => 0
  | .fatal => 1
  | .panic => 2
  | .warning => 3
  | .log => 4

def ErrorCategory.index : ErrorCategory → Fin 11
  | .lock => 0
  | .constraint => 1
  | .serialization => 2
  | .timeout => 3
  | .connection => 4
  | .auth => 5
  | .syntaxClass => 6
  | .resource => 7
  | .dataCorruption => 8
  | .system => 9
  | .other => 10

structure JointErrorKey where
  severity : Severity
  category : ErrorCategory
  sqlstate : Option SqlState

theorem Severity.index_injective : Function.Injective Severity.index := by
  intro a b h
  cases a <;> cases b <;> first | rfl | cases h

theorem ErrorCategory.index_injective : Function.Injective ErrorCategory.index := by
  intro a b h
  cases a <;> cases b <;> first | rfl | cases h

/-- Severity, then category, then the state: none before some, and these by their bytes. -/
def JointErrorKey.rank (key : JointErrorKey) : Fin 5 ×ₗ Fin 11 ×ₗ List (List ℕ) :=
  toLex (key.severity.index,toLex (key.category.index,
    key.sqlstate.toList.map fun state => state.code.toList.map UInt8.toNat))

theorem JointErrorKey.rank_injective : Function.Injective JointErrorKey.rank := by
  intro a b h
  obtain ⟨severity,category,sqlstate⟩ := a
  obtain ⟨severity',category',sqlstate'⟩ := b
  have hrank := Prod.ext_iff.mp (toLex.injective h)
  have hrest := Prod.ext_iff.mp (toLex.injective hrank.2)
  cases Severity.index_injective hrank.1
  cases ErrorCategory.index_injective hrest.1
  have hstate : Function.Injective fun state : SqlState => state.code.toList.map UInt8.toNat := by
    intro s s' hs
    have hcode := List.map_injective_iff.mpr (fun _ _ => UInt8.toNat.inj) hs
    obtain ⟨code⟩ := s
    obtain ⟨code'⟩ := s'
    exact congrArg SqlState.mk (Vector.toList_inj.mp hcode)
  have hlist := List.map_injective_iff.mpr hstate hrest.2
  congr 1
  cases sqlstate <;> cases sqlstate' <;> simp_all

instance : LinearOrder JointErrorKey := LinearOrder.lift' JointErrorKey.rank JointErrorKey.rank_injective

/-- A signal number, in the order of integers. -/
structure SignalNumber where
  number : Int32

instance : LinearOrder SignalNumber :=
  LinearOrder.lift' (fun signal => signal.number.toInt) fun a b h => by
    obtain ⟨a⟩ := a
    obtain ⟨b⟩ := b
    exact congrArg SignalNumber.mk (Int32.toInt_inj.mp h)

inductive CountResource
  | inputEntries | jointKeys | signalKeys
  deriving DecidableEq

inductive CountError
  | overflow
  | limitExceeded (resource : CountResource)
  deriving DecidableEq

structure CountLimits where
  maxInputEntries : ℕ
  maxJointKeys : ℕ
  maxSignalKeys : ℕ
  deriving DecidableEq

/-- A count does not fit. -/
inductive CountOverflow
  | mk
  deriving DecidableEq

def checkedSum (a b : UInt64) : Except CountOverflow UInt64 :=
  match checkedAdd64 a b with
  | none => .error .mk
  | some count => .ok count

def CountError.ofOverflow : CountOverflow → CountError
  | .mk => .overflow

abbrev collectSignals (limits : CountLimits) (entries : List (SignalNumber × UInt64)) :
    Except CountError (Counts SignalNumber) :=
  Counts.collect (.limitExceeded .inputEntries) (.limitExceeded .signalKeys) .overflow
    limits.maxInputEntries limits.maxSignalKeys entries

abbrev mergeSignals (limits : CountLimits) (a b : Counts SignalNumber) :
    Except CountError (Counts SignalNumber) :=
  Counts.merge (.limitExceeded .signalKeys) .overflow limits.maxSignalKeys a b

abbrev collectJoint (limits : CountLimits) (entries : List (JointErrorKey × UInt64)) :
    Except CountError (Counts JointErrorKey) :=
  Counts.collect (.limitExceeded .inputEntries) (.limitExceeded .jointKeys) .overflow
    limits.maxInputEntries limits.maxJointKeys entries

abbrev mergeJoint (limits : CountLimits) (a b : Counts JointErrorKey) :
    Except CountError (Counts JointErrorKey) :=
  Counts.merge (.limitExceeded .jointKeys) .overflow limits.maxJointKeys a b

structure LifecycleCounts where
  crashes : UInt64
  shutdowns : UInt64
  ready : UInt64
  signals : Counts SignalNumber

namespace LifecycleCounts

def new (crashes shutdowns ready : UInt64) (signalEntries : List (SignalNumber × UInt64))
    (limits : CountLimits) : Except CountError LifecycleCounts :=
  (collectSignals limits signalEntries).map fun signals => ⟨crashes,shutdowns,ready,signals⟩

def merge (a b : LifecycleCounts) (limits : CountLimits) : Except CountError LifecycleCounts := do
  let signals ← mergeSignals limits a.signals b.signals
  let crashes ← (checkedSum a.crashes b.crashes).mapError .ofOverflow
  let shutdowns ← (checkedSum a.shutdowns b.shutdowns).mapError .ofOverflow
  let ready ← (checkedSum a.ready b.ready).mapError .ofOverflow
  return ⟨crashes,shutdowns,ready,signals⟩

end LifecycleCounts

structure EventCounts where
  joint : Counts JointErrorKey
  lifecycle : LifecycleCounts

namespace EventCounts

def fromJoint (entries : List (JointErrorKey × UInt64)) (lifecycle : LifecycleCounts)
    (limits : CountLimits) : Except CountError EventCounts :=
  if limits.maxSignalKeys < lifecycle.signals.len then .error (.limitExceeded .signalKeys)
  else
    (collectJoint limits entries).map fun joint => ⟨joint,lifecycle⟩

def merge (a b : EventCounts) (limits : CountLimits) : Except CountError EventCounts := do
  let joint ← mergeJoint limits a.joint b.joint
  let lifecycle ← a.lifecycle.merge b.lifecycle limits
  return ⟨joint,lifecycle⟩

def totalOccurrences (c : EventCounts) : Except CountOverflow UInt64 :=
  c.joint.map.entries.foldlM (fun acc e => checkedSum acc e.2) 0

/-- Counts per slot of a marginal. -/
def marginal {n : ℕ} (slot : JointErrorKey → Fin n) (c : EventCounts) :
    Except CountOverflow (Vector UInt64 n) :=
  c.joint.map.entries.foldlM (fun out e =>
    (checkedSum out[slot e.1] e.2).map fun count => out.set (slot e.1) count) (.replicate n 0)

def bySeverity (c : EventCounts) : Except CountOverflow (Vector UInt64 5) :=
  c.marginal fun key => key.severity.index

def byCategory (c : EventCounts) : Except CountOverflow (Vector UInt64 11) :=
  c.marginal fun key => key.category.index

end EventCounts

theorem checkedSum_isOk_iff {a b : UInt64} :
    (∃ c, checkedSum a b = .ok c) ↔ a.toNat + b.toNat ≤ u64Max := by
  rw [checkedSum,checkedAdd64]
  by_cases h : a.toNat + b.toNat ≤ u64Max <;> simp [h]

theorem checkedSum_ok {a b c : UInt64} (h : checkedSum a b = .ok c) :
    c.toNat = a.toNat + b.toNat := by
  rw [checkedSum] at h
  cases hadd : checkedAdd64 a b with
  | none => rw [hadd] at h; cases h
  | some count =>
    rw [hadd] at h
    rw [← Except.ok.inj h]
    exact checkedAdd64_eq_some.mp hadd

section Marginals

variable {n : ℕ}

def slotSum (out : Vector UInt64 n) : ℕ := ∑ i : Fin n, out[i].toNat

theorem slotSum_set {out : Vector UInt64 n} {i : Fin n} {x count : UInt64}
    (h : count.toNat = out[i].toNat + x.toNat) : slotSum (out.set i count) = slotSum out + x.toNat := by
  have hslot : ∀ j : Fin n, (out.set i count)[j].toNat =
      out[j].toNat + if i = j then x.toNat else 0 := by
    intro j
    by_cases hij : i = j
    · subst hij
      simpa using h
    · have hne : (i : ℕ) ≠ j := fun he => hij (Fin.ext he)
      simp [hij,hne]
  rw [slotSum,slotSum,Finset.sum_congr rfl fun j _ => hslot j,Finset.sum_add_distrib]
  simp

theorem addSlots_ok (slot : JointErrorKey → Fin n) {entries : List (JointErrorKey × UInt64)}
    {out : Vector UInt64 n}
    (h : slotSum out + (entries.map fun e => e.2.toNat).sum ≤ u64Max) :
    ∃ result, (entries.foldlM (fun (out : Vector UInt64 n) e =>
      (checkedSum out[slot e.1] e.2).map fun count => out.set (slot e.1) count) out :
        Except CountOverflow (Vector UInt64 n)) = .ok result ∧
      slotSum result = slotSum out + (entries.map fun e => e.2.toNat).sum := by
  induction entries generalizing out with
  | nil => exact ⟨out,rfl,rfl⟩
  | cons e entries ih =>
    rw [List.map_cons,List.sum_cons] at h ⊢
    have hle : out[slot e.1].toNat ≤ slotSum out :=
      Finset.single_le_sum (f := fun i : Fin n => out[i].toNat) (fun _ _ => Nat.zero_le _)
        (Finset.mem_univ (slot e.1))
    obtain ⟨count,hcount⟩ := checkedSum_isOk_iff.mpr
      (show out[slot e.1].toNat + e.2.toNat ≤ u64Max by omega)
    have hset := slotSum_set (checkedSum_ok hcount)
    have hfits : slotSum (out.set (slot e.1) count) + (entries.map fun e => e.2.toNat).sum ≤
        u64Max := by omega
    obtain ⟨result,hresult,hsum⟩ := ih hfits
    refine ⟨result,?_,by omega⟩
    rw [List.foldlM_cons,hcount]
    exact hresult

theorem addAll_ok {entries : List (JointErrorKey × UInt64)} {acc result : UInt64}
    (h : (entries.foldlM (fun (acc : UInt64) e => checkedSum acc e.2) acc :
      Except CountOverflow UInt64) = .ok result) :
    result.toNat = acc.toNat + (entries.map fun e => e.2.toNat).sum := by
  induction entries generalizing acc with
  | nil => rw [← Except.ok.inj h]; rfl
  | cons e entries ih =>
    obtain ⟨next,hnext,hrest⟩ := bind_ok h
    rw [ih hrest,checkedSum_ok hnext,List.map_cons,List.sum_cons,Nat.add_assoc]

/-- The slots of a marginal sum to the total if the total fits. -/
theorem EventCounts.marginal_sum {c : EventCounts} {count : UInt64}
    (h : c.totalOccurrences = .ok count) (slot : JointErrorKey → Fin n) :
    ∃ out, c.marginal slot = .ok out ∧ ∑ i : Fin n, out[i].toNat = count.toNat := by
  have htotal : count.toNat = (c.joint.map.entries.map fun e => e.2.toNat).sum := by
    rw [addAll_ok h]
    exact Nat.zero_add _
  have hzero : slotSum (.replicate n 0 : Vector UInt64 n) = 0 := by simp [slotSum]
  have hmax := count.toNat_lt
  have hfits : slotSum (.replicate n 0 : Vector UInt64 n) +
      (c.joint.map.entries.map fun e => e.2.toNat).sum ≤ u64Max := by
    rw [hzero,u64Max]
    omega
  obtain ⟨out,hout,hsum⟩ := addSlots_ok slot hfits
  exact ⟨out,hout,by rw [htotal,← Nat.zero_add (List.sum _),← hzero]; exact hsum⟩

end Marginals

section Merge

/-- The joint keys of some counts together. -/
def jointKeys (cs : List EventCounts) : Finset JointErrorKey :=
  keysOf (cs.flatMap fun c => c.joint.map.entries)

def signalKeys (cs : List EventCounts) : Finset SignalNumber :=
  keysOf (cs.flatMap fun c => c.lifecycle.signals.map.entries)

/-- The keys together are within the limits and every summed count fits. -/
structure Mergeable (limits : CountLimits) (cs : List EventCounts) : Prop where
  jointKeys : (jointKeys cs).card ≤ limits.maxJointKeys
  signalKeys : (signalKeys cs).card ≤ limits.maxSignalKeys
  joint : ∀ key, (cs.map fun c => c.joint.count key).sum ≤ u64Max
  signals : ∀ signal, (cs.map fun c => c.lifecycle.signals.count signal).sum ≤ u64Max
  crashes : (cs.map fun c => c.lifecycle.crashes.toNat).sum ≤ u64Max
  shutdowns : (cs.map fun c => c.lifecycle.shutdowns.toNat).sum ≤ u64Max
  ready : (cs.map fun c => c.lifecycle.ready.toNat).sum ≤ u64Max

/-- One set of counts has the keys and the sums of several. -/
structure SumOf (cs : List EventCounts) (r : EventCounts) : Prop where
  jointKeys : r.joint.keys = jointKeys cs
  signalKeys : r.lifecycle.signals.keys = signalKeys cs
  joint : ∀ key, r.joint.count key = (cs.map fun c => c.joint.count key).sum
  signals : ∀ signal, r.lifecycle.signals.count signal =
    (cs.map fun c => c.lifecycle.signals.count signal).sum
  crashes : r.lifecycle.crashes.toNat = (cs.map fun c => c.lifecycle.crashes.toNat).sum
  shutdowns : r.lifecycle.shutdowns.toNat = (cs.map fun c => c.lifecycle.shutdowns.toNat).sum
  ready : r.lifecycle.ready.toNat = (cs.map fun c => c.lifecycle.ready.toNat).sum

variable {limits : CountLimits} {a b r : EventCounts} {xs ys : List EventCounts}

theorem jointKeys_append : jointKeys (xs++ys) = jointKeys xs ∪ jointKeys ys := by
  simp [jointKeys,keysOf_append]

theorem signalKeys_append : signalKeys (xs++ys) = signalKeys xs ∪ signalKeys ys := by
  simp [signalKeys,keysOf_append]

theorem SumOf.single (c : EventCounts) : SumOf [c] c := by
  constructor <;> simp [PgKronika.jointKeys,PgKronika.signalKeys,Counts.keys,keysOf_entries]

theorem SumOf.unique {r' : EventCounts} (h : SumOf xs r) (h' : SumOf ys r') (hperm : xs.Perm ys) :
    r = r' := by
  obtain ⟨joint,⟨crashes,shutdowns,ready,signals⟩⟩ := r
  obtain ⟨joint',⟨crashes',shutdowns',ready',signals'⟩⟩ := r'
  have hjoint : joint = joint' := Counts.ext_count fun key => by
    rw [h.joint,h'.joint]
    exact (hperm.map _).sum_eq
  have hsignals : signals = signals' := Counts.ext_count fun signal => by
    rw [h.signals,h'.signals]
    exact (hperm.map _).sum_eq
  have hcrashes := h.crashes.trans ((hperm.map _).sum_eq.trans h'.crashes.symm)
  have hshutdowns := h.shutdowns.trans ((hperm.map _).sum_eq.trans h'.shutdowns.symm)
  have hready := h.ready.trans ((hperm.map _).sum_eq.trans h'.ready.symm)
  cases hjoint
  cases hsignals
  cases UInt64.toNat_inj.mp hcrashes
  cases UInt64.toNat_inj.mp hshutdowns
  cases UInt64.toNat_inj.mp hready
  rfl

theorem LifecycleCounts.merge_isOk_iff {a b : LifecycleCounts} :
    (∃ c, a.merge b limits = .ok c) ↔
      (a.signals.keys ∪ b.signals.keys).card ≤ limits.maxSignalKeys ∧
      (∀ k, a.signals.count k + b.signals.count k ≤ u64Max) ∧
      a.crashes.toNat + b.crashes.toNat ≤ u64Max ∧
      a.shutdowns.toNat + b.shutdowns.toNat ≤ u64Max ∧ a.ready.toNat + b.ready.toNat ≤ u64Max := by
  have hmerge : (∃ c, mergeSignals limits a.signals b.signals = .ok c) ↔ _ := Counts.merge_isOk_iff
  rw [← and_assoc,← hmerge,← checkedSum_isOk_iff,← checkedSum_isOk_iff,← checkedSum_isOk_iff]
  constructor
  · rintro ⟨c,h⟩
    obtain ⟨signals,hsignals,h⟩ := bind_ok h
    obtain ⟨crashes,hcrashes,h⟩ := bind_ok h
    obtain ⟨shutdowns,hshutdowns,h⟩ := bind_ok h
    obtain ⟨ready,hready,_⟩ := bind_ok h
    exact ⟨⟨_,hsignals⟩,⟨_,mapError_ok.mp hcrashes⟩,⟨_,mapError_ok.mp hshutdowns⟩,
      ⟨_,mapError_ok.mp hready⟩⟩
  · rintro ⟨⟨signals,hsignals⟩,⟨crashes,hcrashes⟩,⟨shutdowns,hshutdowns⟩,⟨ready,hready⟩⟩
    refine ⟨⟨crashes,shutdowns,ready,signals⟩,?_⟩
    rw [merge,hsignals,hcrashes,hshutdowns,hready]
    rfl

theorem LifecycleCounts.merge_ok {a b c : LifecycleCounts} (h : a.merge b limits = .ok c) :
    c.signals.keys = a.signals.keys ∪ b.signals.keys ∧
      (∀ k, c.signals.count k = a.signals.count k + b.signals.count k) ∧
      c.crashes.toNat = a.crashes.toNat + b.crashes.toNat ∧
      c.shutdowns.toNat = a.shutdowns.toNat + b.shutdowns.toNat ∧
      c.ready.toNat = a.ready.toNat + b.ready.toNat := by
  obtain ⟨signals,hsignals,h⟩ := bind_ok h
  obtain ⟨crashes,hcrashes,h⟩ := bind_ok h
  obtain ⟨shutdowns,hshutdowns,h⟩ := bind_ok h
  obtain ⟨ready,hready,h⟩ := bind_ok h
  obtain rfl := Except.ok.inj h
  obtain ⟨hkeys,hcounts⟩ := Counts.merge_ok hsignals
  exact ⟨hkeys,hcounts,checkedSum_ok (mapError_ok.mp hcrashes),
    checkedSum_ok (mapError_ok.mp hshutdowns),checkedSum_ok (mapError_ok.mp hready)⟩

/-- Counts that stand for two lists merge if the lists together are within the limits. -/
theorem EventCounts.merge_isOk_iff (ha : SumOf xs a) (hb : SumOf ys b) :
    (∃ r, a.merge b limits = .ok r) ↔ Mergeable limits (xs++ys) := by
  have hsplit : (∃ r, a.merge b limits = .ok r) ↔
      (∃ joint, mergeJoint limits a.joint b.joint = .ok joint) ∧
        ∃ lifecycle, a.lifecycle.merge b.lifecycle limits = .ok lifecycle := by
    constructor
    · rintro ⟨r,h⟩
      obtain ⟨joint,hjoint,h⟩ := bind_ok h
      obtain ⟨lifecycle,hlifecycle,_⟩ := bind_ok h
      exact ⟨⟨joint,hjoint⟩,⟨lifecycle,hlifecycle⟩⟩
    · rintro ⟨⟨joint,hjoint⟩,⟨lifecycle,hlifecycle⟩⟩
      refine ⟨⟨joint,lifecycle⟩,?_⟩
      rw [merge,hjoint,hlifecycle]
      rfl
  rw [hsplit,Counts.merge_isOk_iff,LifecycleCounts.merge_isOk_iff]
  constructor
  · rintro ⟨⟨hkeys,hjoint⟩,hsignalKeys,hsignals,hcrashes,hshutdowns,hready⟩
    rw [ha.jointKeys,hb.jointKeys,← jointKeys_append] at hkeys
    rw [ha.signalKeys,hb.signalKeys,← signalKeys_append] at hsignalKeys
    rw [ha.crashes,hb.crashes] at hcrashes
    rw [ha.shutdowns,hb.shutdowns] at hshutdowns
    rw [ha.ready,hb.ready] at hready
    simp only [ha.joint,hb.joint,ha.signals,hb.signals] at hjoint hsignals
    constructor <;> simpa
  · rintro ⟨hkeys,hsignalKeys,hjoint,hsignals,hcrashes,hshutdowns,hready⟩
    simp only [List.map_append,List.sum_append] at hjoint hsignals hcrashes hshutdowns hready
    simp only [ha.joint,hb.joint,ha.signals,hb.signals,ha.crashes,hb.crashes,ha.shutdowns,
      hb.shutdowns,ha.ready,hb.ready,ha.jointKeys,hb.jointKeys,ha.signalKeys,hb.signalKeys,
      ← jointKeys_append,← signalKeys_append]
    exact ⟨⟨hkeys,hjoint⟩,hsignalKeys,hsignals,hcrashes,hshutdowns,hready⟩

theorem EventCounts.merge_ok (ha : SumOf xs a) (hb : SumOf ys b) (h : a.merge b limits = .ok r) :
    SumOf (xs++ys) r := by
  obtain ⟨joint,hjoint,h⟩ := bind_ok h
  obtain ⟨lifecycle,hlifecycle,h⟩ := bind_ok h
  obtain rfl := Except.ok.inj h
  obtain ⟨hkeys,hcounts⟩ := Counts.merge_ok hjoint
  obtain ⟨hsignalKeys,hsignals,hcrashes,hshutdowns,hready⟩ := LifecycleCounts.merge_ok hlifecycle
  constructor
  · rw [hkeys,ha.jointKeys,hb.jointKeys,jointKeys_append]
  · rw [hsignalKeys,ha.signalKeys,hb.signalKeys,signalKeys_append]
  · intro key
    rw [hcounts,ha.joint,hb.joint,List.map_append,List.sum_append]
  · intro signal
    rw [hsignals,ha.signals,hb.signals,List.map_append,List.sum_append]
  · rw [hcrashes,ha.crashes,hb.crashes,List.map_append,List.sum_append]
  · rw [hshutdowns,ha.shutdowns,hb.shutdowns,List.map_append,List.sum_append]
  · rw [hready,ha.ready,hb.ready,List.map_append,List.sum_append]

/-- A part of a mergeable family is mergeable. -/
theorem Mergeable.sublist (h : Mergeable limits ys) (hsub : xs.Sublist ys) : Mergeable limits xs := by
  have hsum : ∀ f : EventCounts → ℕ, (xs.map f).sum ≤ (ys.map f).sum := fun f =>
    (hsub.map f).sum_le_sum fun _ _ => Nat.zero_le _
  have hjoint : PgKronika.jointKeys xs ⊆ PgKronika.jointKeys ys := by
    intro key hkey
    simp only [PgKronika.jointKeys,keysOf,List.mem_toFinset,List.mem_map,List.mem_flatMap] at hkey ⊢
    obtain ⟨e,⟨c,hc,he⟩,hk⟩ := hkey
    exact ⟨e,⟨c,hsub.subset hc,he⟩,hk⟩
  have hsignal : PgKronika.signalKeys xs ⊆ PgKronika.signalKeys ys := by
    intro key hkey
    simp only [PgKronika.signalKeys,keysOf,List.mem_toFinset,List.mem_map,List.mem_flatMap] at hkey ⊢
    obtain ⟨e,⟨c,hc,he⟩,hk⟩ := hkey
    exact ⟨e,⟨c,hsub.subset hc,he⟩,hk⟩
  exact ⟨(Finset.card_le_card hjoint).trans h.jointKeys,(Finset.card_le_card hsignal).trans h.signalKeys,
    fun key => (hsum _).trans (h.joint key),fun signal => (hsum _).trans (h.signals signal),
    (hsum _).trans h.crashes,(hsum _).trans h.shutdowns,(hsum _).trans h.ready⟩

/-- What a family member is built from. -/
structure CountsInput where
  joint : List (JointErrorKey × UInt64)
  crashes : UInt64
  shutdowns : UInt64
  ready : UInt64
  signals : List (SignalNumber × UInt64)

def CountsInput.build (input : CountsInput) (limits : CountLimits) : Except CountError EventCounts :=
  LifecycleCounts.new input.crashes input.shutdowns input.ready input.signals limits >>=
    fun lifecycle => EventCounts.fromJoint input.joint lifecycle limits

/-- Counts that were built under the limits. -/
structure BuiltCounts (limits : CountLimits) where
  input : CountsInput
  counts : EventCounts
  built : input.build limits = .ok counts

/-- The inputs of a family, one after another. -/
def concatInputs (family : List (BuiltCounts limits)) : CountsInput where
  joint := family.flatMap fun c => c.input.joint
  crashes := .ofNat (family.map fun c => c.counts.lifecycle.crashes.toNat).sum
  shutdowns := .ofNat (family.map fun c => c.counts.lifecycle.shutdowns.toNat).sum
  ready := .ofNat (family.map fun c => c.counts.lifecycle.ready.toNat).sum
  signals := family.flatMap fun c => c.input.signals

theorem CountsInput.build_ok {input : CountsInput} {c : EventCounts} (h : input.build limits = .ok c) :
    c.lifecycle.signals.len ≤ limits.maxSignalKeys ∧
      collectSignals limits input.signals = .ok c.lifecycle.signals ∧
      collectJoint limits input.joint = .ok c.joint ∧
      c.lifecycle.crashes = input.crashes ∧ c.lifecycle.shutdowns = input.shutdowns ∧
      c.lifecycle.ready = input.ready := by
  obtain ⟨lifecycle,hnew,hjoint⟩ := bind_ok h
  obtain ⟨signals,hsignals,rfl⟩ := map_ok hnew
  rw [EventCounts.fromJoint] at hjoint
  split_ifs at hjoint with hfull
  obtain ⟨joint,hcollect,rfl⟩ := map_ok hjoint
  exact ⟨not_lt.mp hfull,hsignals,hcollect,rfl,rfl,rfl⟩

theorem CountsInput.build_eq {input : CountsInput} {lifecycle : LifecycleCounts}
    {joint : Counts JointErrorKey} (hkeys : lifecycle.signals.len ≤ limits.maxSignalKeys)
    (hsignals : collectSignals limits input.signals = .ok lifecycle.signals)
    (hjoint : collectJoint limits input.joint = .ok joint)
    (hcrashes : input.crashes = lifecycle.crashes) (hshutdowns : input.shutdowns = lifecycle.shutdowns)
    (hready : input.ready = lifecycle.ready) :
    input.build limits = .ok ⟨joint,lifecycle⟩ := by
  have hnew : LifecycleCounts.new input.crashes input.shutdowns input.ready input.signals limits =
      .ok lifecycle := by
    rw [LifecycleCounts.new,hsignals,hcrashes,hshutdowns,hready]
    rfl
  have hfrom : EventCounts.fromJoint input.joint lifecycle limits = .ok ⟨joint,lifecycle⟩ := by
    rw [EventCounts.fromJoint,if_neg (not_lt.mpr hkeys),hjoint]
    rfl
  rw [build,hnew]
  exact hfrom

variable {family : List (BuiltCounts limits)}

theorem concatInputs_joint (family : List (BuiltCounts limits)) :
    keysOf ((concatInputs family).joint.filter fun e => e.2 ≠ 0) =
      jointKeys (family.map BuiltCounts.counts) ∧
    ∀ key, total (concatInputs family).joint key =
      ((family.map BuiltCounts.counts).map fun c => c.joint.count key).sum := by
  induction family with
  | nil => exact ⟨rfl,fun _ => rfl⟩
  | cons c family ih =>
    obtain ⟨-,-,hjoint,-⟩ := c.input.build_ok c.built
    obtain ⟨hkeys,hcounts⟩ := Counts.collect_ok hjoint
    have hcons : (concatInputs (c::family)).joint = c.input.joint ++ (concatInputs family).joint := by
      simp [concatInputs]
    have hfirst : jointKeys (c.counts :: family.map BuiltCounts.counts) =
        c.counts.joint.keys ∪ jointKeys (family.map BuiltCounts.counts) := by
      rw [← List.singleton_append,jointKeys_append,← (SumOf.single c.counts).jointKeys]
    refine ⟨?_,fun key => ?_⟩
    · rw [hcons,List.filter_append,keysOf_append,List.map_cons,hfirst,hkeys,ih.1]
    · rw [hcons,total_append,← hcounts,ih.2]
      rfl

theorem concatInputs_signals (family : List (BuiltCounts limits)) :
    keysOf ((concatInputs family).signals.filter fun e => e.2 ≠ 0) =
      signalKeys (family.map BuiltCounts.counts) ∧
    ∀ signal, total (concatInputs family).signals signal =
      ((family.map BuiltCounts.counts).map fun c => c.lifecycle.signals.count signal).sum := by
  induction family with
  | nil => exact ⟨rfl,fun _ => rfl⟩
  | cons c family ih =>
    obtain ⟨-,hsignals,-⟩ := c.input.build_ok c.built
    obtain ⟨hkeys,hcounts⟩ := Counts.collect_ok hsignals
    have hcons : (concatInputs (c::family)).signals =
        c.input.signals ++ (concatInputs family).signals := by
      simp [concatInputs]
    have hfirst : signalKeys (c.counts :: family.map BuiltCounts.counts) =
        c.counts.lifecycle.signals.keys ∪ signalKeys (family.map BuiltCounts.counts) := by
      rw [← List.singleton_append,signalKeys_append,← (SumOf.single c.counts).signalKeys]
    refine ⟨?_,fun signal => ?_⟩
    · rw [hcons,List.filter_append,keysOf_append,List.map_cons,hfirst,hkeys,ih.1]
    · rw [hcons,total_append,← hcounts,ih.2]
      rfl

/-- Building from all inputs at once gives the merged counts. -/
theorem SumOf.build_concat {maxInputEntries : ℕ} (h : SumOf (family.map BuiltCounts.counts) r)
    (hmerge : Mergeable limits (family.map BuiltCounts.counts))
    (hjointLen : (concatInputs family).joint.length ≤ maxInputEntries)
    (hsignalLen : (concatInputs family).signals.length ≤ maxInputEntries) :
    (concatInputs family).build { limits with maxInputEntries } = .ok r := by
  obtain ⟨hjointKeys,hjointTotal⟩ := concatInputs_joint family
  obtain ⟨hsignalKeys,hsignalTotal⟩ := concatInputs_signals family
  obtain ⟨joint,hjoint⟩ : ∃ joint, collectJoint { limits with maxInputEntries }
      (concatInputs family).joint = .ok joint :=
    Counts.collect_isOk_iff.mpr ⟨hjointLen,hjointKeys ▸ hmerge.jointKeys,fun key => by
      rw [hjointTotal]
      exact hmerge.joint key⟩
  obtain ⟨signals,hsignals⟩ : ∃ signals, collectSignals { limits with maxInputEntries }
      (concatInputs family).signals = .ok signals :=
    Counts.collect_isOk_iff.mpr ⟨hsignalLen,hsignalKeys ▸ hmerge.signalKeys,fun signal => by
      rw [hsignalTotal]
      exact hmerge.signals signal⟩
  obtain rfl : joint = r.joint := Counts.ext_count fun key => by
    rw [(Counts.collect_ok hjoint).2,hjointTotal,h.joint]
  obtain rfl : signals = r.lifecycle.signals := Counts.ext_count fun signal => by
    rw [(Counts.collect_ok hsignals).2,hsignalTotal,h.signals]
  have hnat : ∀ {x : UInt64} {n : ℕ}, x.toNat = n → UInt64.ofNat n = x := by
    rintro x n rfl
    exact UInt64.ofNat_toNat
  refine CountsInput.build_eq ?_ hsignals hjoint ?_ ?_ ?_
  · have hcard := hmerge.signalKeys
    rw [← h.signalKeys,Counts.keys,card_keySet] at hcard
    exact hcard
  · exact hnat (h.crashes.trans (by rw [List.map_map]; rfl))
  · exact hnat (h.shutdowns.trans (by rw [List.map_map]; rfl))
  · exact hnat (h.ready.trans (by rw [List.map_map]; rfl))

end Merge

/-- An order and a bracketing of pairwise merges. -/
inductive MergeTree (α : Type)
  | leaf (a : α)
  | node (left right : MergeTree α)

namespace MergeTree

def leaves {α : Type} : MergeTree α → List α
  | .leaf a => [a]
  | .node left right => left.leaves ++ right.leaves

variable {limits : CountLimits}

def merge : MergeTree (BuiltCounts limits) → Except CountError EventCounts
  | .leaf c => .ok c.counts
  | .node left right =>
    left.merge >>= fun a =>
    right.merge >>= fun b => a.merge b limits

/-- The counts of the leaves. -/
def family (t : MergeTree (BuiltCounts limits)) : List EventCounts :=
  t.leaves.map BuiltCounts.counts

theorem family_node (left right : MergeTree (BuiltCounts limits)) :
    (node left right).family = left.family ++ right.family := List.map_append

theorem merge_sumOf {t : MergeTree (BuiltCounts limits)} {r : EventCounts} (h : t.merge = .ok r) :
    SumOf t.family r := by
  induction t generalizing r with
  | leaf c =>
    obtain rfl := Except.ok.inj h
    exact SumOf.single c.counts
  | node left right hleft hright =>
    obtain ⟨a,ha,h⟩ := bind_ok h
    obtain ⟨b,hb,h⟩ := bind_ok h
    rw [family_node]
    exact EventCounts.merge_ok (hleft ha) (hright hb) h

/-- Built counts are within the limits by themselves. -/
theorem mergeable_leaf (c : BuiltCounts limits) : Mergeable limits [c.counts] := by
  obtain ⟨-,hsignals,hjoint,-⟩ := c.input.build_ok c.built
  have hsum := SumOf.single c.counts
  have hjointCard := (Counts.collect_isOk_iff.mp ⟨_,hjoint⟩).2.1
  have hsignalCard := (Counts.collect_isOk_iff.mp ⟨_,hsignals⟩).2.1
  rw [← (Counts.collect_ok hjoint).1,hsum.jointKeys] at hjointCard
  rw [← (Counts.collect_ok hsignals).1,hsum.signalKeys] at hsignalCard
  have hfits : ∀ x : UInt64, ([x.toNat] : List ℕ).sum ≤ u64Max := by
    intro x
    have hx := x.toNat_lt
    rw [List.sum_singleton,u64Max]
    omega
  exact ⟨hjointCard,hsignalCard,fun key => hfits _,fun signal => hfits _,hfits _,hfits _,hfits _⟩

/-- A tree of merges succeeds if the whole family is mergeable: then every part is. -/
theorem merge_isOk_iff (t : MergeTree (BuiltCounts limits)) :
    (∃ r, t.merge = .ok r) ↔ Mergeable limits t.family := by
  induction t with
  | leaf c => exact ⟨fun _ => mergeable_leaf c,fun _ => ⟨c.counts,rfl⟩⟩
  | node left right hleft hright =>
    rw [family_node]
    constructor
    · rintro ⟨r,h⟩
      obtain ⟨a,ha,h⟩ := bind_ok h
      obtain ⟨b,hb,h⟩ := bind_ok h
      exact (EventCounts.merge_isOk_iff (merge_sumOf ha) (merge_sumOf hb)).mp ⟨r,h⟩
    · intro h
      obtain ⟨a,ha⟩ := hleft.mpr (h.sublist (List.sublist_append_left _ _))
      obtain ⟨b,hb⟩ := hright.mpr (h.sublist (List.sublist_append_right _ _))
      obtain ⟨r,hr⟩ := (EventCounts.merge_isOk_iff (merge_sumOf ha) (merge_sumOf hb)).mpr h
      refine ⟨r,?_⟩
      rw [merge,ha,hb]
      exact hr

end MergeTree

/-- Event counts merge like multisets. -/
theorem event_counts_merge {limits : CountLimits} (t : MergeTree (BuiltCounts limits)) :
    ((∃ r, t.merge = .ok r) ↔ Mergeable limits t.family) ∧
    (∀ t' : MergeTree (BuiltCounts limits), t.leaves.Perm t'.leaves → ∀ r r', t.merge = .ok r →
      t'.merge = .ok r' → r = r') ∧
    ∀ r, t.merge = .ok r →
      (∀ maxInputEntries, (concatInputs t.leaves).joint.length ≤ maxInputEntries →
        (concatInputs t.leaves).signals.length ≤ maxInputEntries →
        (concatInputs t.leaves).build { limits with maxInputEntries } = .ok r) ∧
      (r.joint.map.entries.Pairwise (fun a b => a.1 < b.1) ∧
        ∀ e ∈ r.joint.map.entries, e.2 ≠ 0) ∧
      (r.lifecycle.signals.map.entries.Pairwise (fun a b => a.1 < b.1) ∧
        ∀ e ∈ r.lifecycle.signals.map.entries, e.2 ≠ 0) ∧
      ∀ count, r.totalOccurrences = .ok count →
        (∃ out, r.bySeverity = .ok out ∧ ∑ i : Fin 5, out[i].toNat = count.toNat) ∧
        ∃ out, r.byCategory = .ok out ∧ ∑ i : Fin 11, out[i].toNat = count.toNat := by
  refine ⟨t.merge_isOk_iff,fun t' hperm r r' h h' => ?_,fun r h => ⟨fun n hjoint hsignals => ?_,
    ⟨r.joint.map.ascending,r.joint.positive⟩,
    ⟨r.lifecycle.signals.map.ascending,r.lifecycle.signals.positive⟩,fun count hcount =>
      ⟨EventCounts.marginal_sum hcount _,EventCounts.marginal_sum hcount _⟩⟩⟩
  · exact (MergeTree.merge_sumOf h).unique (MergeTree.merge_sumOf h') (hperm.map _)
  · exact (MergeTree.merge_sumOf h).build_concat (t.merge_isOk_iff.mp ⟨r,h⟩) hjoint hsignals

end PgKronika
