import Mathlib

/-! Absolute-threshold policies: validated boundaries, the wrappers over them, and the level they give
an observation. Numbers are those of a machine without `NaN`. -/
namespace PgKronika

/-- Machine numbers. Division rounds, and rounding keeps the order of exact quotients. -/
class MachineNumber (V : Type) extends LinearOrder V, Zero V where
  finite : V → Bool
  div : V → V → V
  sub : V → V → V
  div_le_div : ∀ {a b d : V}, finite a → finite b → finite d → 0 ≤ a → a ≤ b → 0 < d →
    div a d ≤ div b d
  div_le_div_left : ∀ {a d e : V}, finite a → finite d → finite e → 0 ≤ a → 0 < d → d ≤ e →
    div a e ≤ div a d

attribute [instance (100)] MachineNumber.toLinearOrder MachineNumber.toZero

inductive Direction
  | higherIsWorse | lowerIsWorse
  deriving DecidableEq

inductive ZeroDisposition
  | classify | inactive
  deriving DecidableEq

inductive InvalidPolicy
  | noBoundary | nonFiniteBoundary | negativeBoundary | directionMismatch | boundaryOrder
  | invalidFloor | invalidCapacityCeiling
  deriving DecidableEq

inductive Comparison
  | above | atLeast | below | atMost
  deriving DecidableEq

inductive Level
  | inactive | ok | warning | critical
  deriving DecidableEq

namespace Level

/-- The place of the level in the source's declaration. -/
def rank : Level → ℕ
  | inactive => 0
  | ok => 1
  | warning => 2
  | critical => 3

theorem rank_injective : Function.Injective rank := by
  intro a b h
  cases a <;> cases b <;> first | rfl | cases h

instance : LinearOrder Level := LinearOrder.lift' rank rank_injective

theorem le_iff_rank {a b : Level} : a ≤ b ↔ a.rank ≤ b.rank := Iff.rfl

end Level

inductive NotClassifiedReason
  | missing | nonFinite | outOfDomain | invalidDenominator | notApplicable | inputShapeMismatch
  deriving DecidableEq

structure Boundary (V : Type) where
  operator : Comparison
  value : V
  deriving DecidableEq

inductive MetricInput (V : Type)
  | missing
  | notApplicable
  | scalar (value : V)
  | fraction (numerator denominator : V)
  | limit (observed limit : V)
  | ratioWithFloor (ratio count : V)
  | age (epochSeconds nowSeconds : V) (gate : Bool)
  | freeCapacity (availableBytes totalBytes : V)

inductive Evidence (V : Type)
  | scalar (observed : V)
  | fraction (numerator denominator value : V)
  | limit (observed limit : V)
  | ratioWithFloor (ratio count : V) (floor : Boundary V)
  | age (epochSeconds nowSeconds ageSeconds : V)
  | freeCapacity (availableBytes totalBytes availableFraction : V) (absoluteCeilingBytes : Boundary V)
  deriving DecidableEq

structure Verdict (V : Type) where
  level : Level
  boundary : Option (Boundary V)
  evidence : Evidence V
  deriving DecidableEq

inductive Classified (V : Type)
  | verdict (verdict : Verdict V)
  | notClassified (reason : NotClassifiedReason)
  deriving DecidableEq

def Classified.level? {V : Type} : Classified V → Option Level
  | .verdict v => some v.level
  | .notClassified _ => none

section Policies

variable {V : Type} [MachineNumber V]

open MachineNumber

def Boundary.matches (b : Boundary V) (observed : V) : Bool :=
  match b.operator with
  | .above => b.value < observed
  | .atLeast => b.value ≤ observed
  | .below => observed < b.value
  | .atMost => observed ≤ b.value

/-- The second value is at least as bad as the first. -/
def Direction.Worse : Direction → V → V → Prop
  | .higherIsWorse, v, w => v ≤ w
  | .lowerIsWorse, v, w => w ≤ v

instance (d : Direction) (v w : V) : Decidable (d.Worse v w) := by
  cases d <;> unfold Direction.Worse <;> infer_instance

/-- The operator points in the direction. -/
def Direction.admits : Direction → Comparison → Bool
  | .higherIsWorse, .above | .higherIsWorse, .atLeast => true
  | .lowerIsWorse, .below | .lowerIsWorse, .atMost => true
  | _, _ => false

def validateBoundary (boundary : Boundary V) (direction : Direction) : Except InvalidPolicy Unit :=
  if ¬finite boundary.value then .error .nonFiniteBoundary
  else if boundary.value < 0 then .error .negativeBoundary
  else if direction.admits boundary.operator then .ok ()
  else .error .directionMismatch

def validateOptional (boundary : Option (Boundary V)) (direction : Direction) :
    Except InvalidPolicy Unit :=
  match boundary with
  | none => .ok ()
  | some boundary => validateBoundary boundary direction

/-- Boundaries as the constructor admits them. -/
structure ScalarPolicy (V : Type) [MachineNumber V] where
  direction : Direction
  warning : Option (Boundary V)
  critical : Option (Boundary V)
  zero : ZeroDisposition
  present : ¬(warning.isNone ∧ critical.isNone)
  warningValid : validateOptional warning direction = .ok ()
  criticalValid : validateOptional critical direction = .ok ()
  ordered : ∀ w ∈ warning, ∀ c ∈ critical, direction.Worse w.value c.value

namespace ScalarPolicy

/-- The warning boundary stands on the better side of the critical one. -/
def orderedBoundaries (direction : Direction) : Option (Boundary V) → Option (Boundary V) → Bool
  | some warning, some critical => direction.Worse warning.value critical.value
  | _, _ => true

theorem worse_of_ordered {direction : Direction} {warning critical : Option (Boundary V)}
    (h : orderedBoundaries direction warning critical = true) :
    ∀ w ∈ warning, ∀ c ∈ critical, direction.Worse w.value c.value := by
  intro w hw c hc
  obtain rfl := Option.mem_def.mp hw
  obtain rfl := Option.mem_def.mp hc
  simpa [orderedBoundaries] using h

def new (direction : Direction) (warning critical : Option (Boundary V)) (zero : ZeroDisposition) :
    Except InvalidPolicy (ScalarPolicy V) :=
  if hpresent : warning.isNone ∧ critical.isNone then .error .noBoundary
  else match hwarning : validateOptional warning direction with
  | .error e => .error e
  | .ok () => match hcritical : validateOptional critical direction with
    | .error e => .error e
    | .ok () =>
      if hordered : orderedBoundaries direction warning critical then
        .ok ⟨direction,warning,critical,zero,hpresent,hwarning,hcritical,worse_of_ordered hordered⟩
      else .error .boundaryOrder

end ScalarPolicy

structure FractionPolicy (V : Type) [MachineNumber V] where
  scalar : ScalarPolicy V

structure WarningLimitPolicy where
  operator : Comparison
  zero : ZeroDisposition
  upward : Direction.higherIsWorse.admits operator

def WarningLimitPolicy.new (operator : Comparison) (zero : ZeroDisposition) :
    Except InvalidPolicy WarningLimitPolicy :=
  if h : Direction.higherIsWorse.admits operator then .ok ⟨operator,zero,h⟩
  else .error .directionMismatch

/-- A companion boundary: finite, not negative, and of the given direction. -/
def companionValid (boundary : Boundary V) (direction : Direction) : Bool :=
  finite boundary.value ∧ ¬boundary.value < 0 ∧ direction.admits boundary.operator

structure RatioWithFloorPolicy (V : Type) [MachineNumber V] where
  ratio : ScalarPolicy V
  floor : Boundary V
  floorValid : companionValid floor .higherIsWorse

def RatioWithFloorPolicy.new (ratio : ScalarPolicy V) (floor : Boundary V) :
    Except InvalidPolicy (RatioWithFloorPolicy V) :=
  if h : companionValid floor .higherIsWorse then .ok ⟨ratio,floor,h⟩ else .error .invalidFloor

structure AgePolicy (V : Type) [MachineNumber V] where
  age : ScalarPolicy V
  upward : age.direction ≠ .lowerIsWorse

def AgePolicy.new (age : ScalarPolicy V) : Except InvalidPolicy (AgePolicy V) :=
  if h : age.direction = .lowerIsWorse then .error .directionMismatch else .ok ⟨age,h⟩

structure FreeCapacityPolicy (V : Type) [MachineNumber V] where
  availableFraction : ScalarPolicy V
  absoluteCeilingBytes : Boundary V
  downward : availableFraction.direction ≠ .higherIsWorse
  ceilingValid : companionValid absoluteCeilingBytes .lowerIsWorse

def FreeCapacityPolicy.new (availableFraction : ScalarPolicy V) (absoluteCeilingBytes : Boundary V) :
    Except InvalidPolicy (FreeCapacityPolicy V) :=
  if hdown : availableFraction.direction = .higherIsWorse then .error .directionMismatch
  else if hceiling : companionValid absoluteCeilingBytes .lowerIsWorse then
    .ok ⟨availableFraction,absoluteCeilingBytes,hdown,hceiling⟩
  else .error .invalidCapacityCeiling

inductive Policy (V : Type) [MachineNumber V]
  | scalar (policy : ScalarPolicy V)
  | fraction (policy : FractionPolicy V)
  | warningLimit (policy : WarningLimitPolicy)
  | ratioWithFloor (policy : RatioWithFloorPolicy V)
  | ageGated (policy : AgePolicy V)
  | freeCapacity (policy : FreeCapacityPolicy V)

def normalizeZero (value : V) : V := if value = 0 then 0 else value

/-- The boundary that decides is reported with the level. -/
def classifyValidatedScalar (policy : ScalarPolicy V) (value : V) : Level × Option (Boundary V) :=
  match policy.critical.filter fun boundary => boundary.matches value with
  | some boundary => (.critical,some boundary)
  | none => match policy.warning.filter fun boundary => boundary.matches value with
    | some boundary => (.warning,some boundary)
    | none => (.ok,none)

def classifyWithEvidence (policy : ScalarPolicy V) (value : V) (evidence : Evidence V) :
    Classified V :=
  if value = 0 ∧ policy.zero = .inactive then .verdict ⟨.inactive,none,evidence⟩
  else
    let decided := classifyValidatedScalar policy value
    .verdict ⟨decided.1,decided.2,evidence⟩

def classifyScalar (policy : ScalarPolicy V) (value : V) : Classified V :=
  if ¬finite value then .notClassified .nonFinite
  else if value < 0 then .notClassified .outOfDomain
  else
    let observed := normalizeZero value
    classifyWithEvidence policy observed (.scalar observed)

def classifyFraction (policy : FractionPolicy V) (numerator denominator : V) : Classified V :=
  if ¬finite numerator ∨ ¬finite denominator then .notClassified .nonFinite
  else if denominator ≤ 0 then .notClassified .invalidDenominator
  else if numerator < 0 then .notClassified .outOfDomain
  else
    let numerator := normalizeZero numerator
    let value := div numerator denominator
    if ¬finite value then .notClassified .nonFinite
    else classifyWithEvidence policy.scalar value (.fraction numerator denominator value)

def classifyWarningLimit (policy : WarningLimitPolicy) (observed limit : V) : Classified V :=
  if ¬finite observed ∨ ¬finite limit then .notClassified .nonFinite
  else if observed < 0 ∨ limit < 0 then .notClassified .outOfDomain
  else
    let observed := normalizeZero observed
    let limit := normalizeZero limit
    let evidence := Evidence.limit observed limit
    if observed = 0 ∧ policy.zero = .inactive then .verdict ⟨.inactive,none,evidence⟩
    else
      let boundary : Boundary V := ⟨policy.operator,limit⟩
      if boundary.matches observed then .verdict ⟨.warning,some boundary,evidence⟩
      else .verdict ⟨.ok,none,evidence⟩

def classifyRatioWithFloor (policy : RatioWithFloorPolicy V) (ratio count : V) : Classified V :=
  if ¬finite ratio ∨ ¬finite count then .notClassified .nonFinite
  else if ratio < 0 ∨ count < 0 then .notClassified .outOfDomain
  else
    let ratio := normalizeZero ratio
    let count := normalizeZero count
    let evidence := Evidence.ratioWithFloor ratio count policy.floor
    if ¬policy.floor.matches count then .verdict ⟨.ok,none,evidence⟩
    else classifyWithEvidence policy.ratio ratio evidence

def classifyAge (policy : AgePolicy V) (epochSeconds nowSeconds : V) (gate : Bool) : Classified V :=
  if ¬gate then .notClassified .notApplicable
  else if ¬finite epochSeconds ∨ ¬finite nowSeconds then .notClassified .nonFinite
  else if epochSeconds < 0 ∨ nowSeconds < 0 ∨ nowSeconds < epochSeconds then
    .notClassified .outOfDomain
  else
    let epochSeconds := normalizeZero epochSeconds
    let nowSeconds := normalizeZero nowSeconds
    let ageSeconds := sub nowSeconds epochSeconds
    classifyWithEvidence policy.age ageSeconds (.age epochSeconds nowSeconds ageSeconds)

def classifyFreeCapacity (policy : FreeCapacityPolicy V) (availableBytes totalBytes : V) :
    Classified V :=
  if ¬finite availableBytes ∨ ¬finite totalBytes then .notClassified .nonFinite
  else if totalBytes ≤ 0 then .notClassified .invalidDenominator
  else if availableBytes < 0 ∨ totalBytes < availableBytes then .notClassified .outOfDomain
  else
    let availableBytes := normalizeZero availableBytes
    let availableFraction := div availableBytes totalBytes
    if ¬finite availableFraction then .notClassified .nonFinite
    else
      let evidence := Evidence.freeCapacity availableBytes totalBytes availableFraction
        policy.absoluteCeilingBytes
      if availableFraction = 0 ∧ policy.availableFraction.zero = .inactive then
        .verdict ⟨.inactive,none,evidence⟩
      else if ¬policy.absoluteCeilingBytes.matches availableBytes then .verdict ⟨.ok,none,evidence⟩
      else
        let decided := classifyValidatedScalar policy.availableFraction availableFraction
        .verdict ⟨decided.1,decided.2,evidence⟩

/-- An input of another shape than the policy's is not classified. -/
def Policy.classify (policy : Policy V) (input : MetricInput V) : Classified V :=
  match input,policy with
  | .missing,_ => .notClassified .missing
  | .notApplicable,_ => .notClassified .notApplicable
  | .scalar value,.scalar policy => classifyScalar policy value
  | .fraction numerator denominator,.fraction policy =>
    classifyFraction policy numerator denominator
  | .limit observed limit,.warningLimit policy => classifyWarningLimit policy observed limit
  | .ratioWithFloor ratio count,.ratioWithFloor policy => classifyRatioWithFloor policy ratio count
  | .age epochSeconds nowSeconds gate,.ageGated policy =>
    classifyAge policy epochSeconds nowSeconds gate
  | .freeCapacity availableBytes totalBytes,.freeCapacity policy =>
    classifyFreeCapacity policy availableBytes totalBytes
  | _,_ => .notClassified .inputShapeMismatch

@[simp] theorem normalizeZero_eq (value : V) : normalizeZero value = value := by
  by_cases h : value = 0 <;> simp [normalizeZero,h]

/-- A boundary that a value matches is matched by every worse one. -/
theorem Boundary.matches_of_worse {b : Boundary V} {d : Direction} {v w : V}
    (hd : d.admits b.operator = true) (hw : d.Worse v w) (h : b.matches v = true) :
    b.matches w = true := by
  obtain ⟨operator,value⟩ := b
  cases d <;> cases operator <;> simp_all only [Direction.admits,Direction.Worse,Boundary.matches,
    decide_eq_true_eq,Bool.false_eq_true]
  · exact h.trans_le hw
  · exact h.trans hw
  · exact hw.trans_lt h
  · exact hw.trans h

theorem admits_of_valid {boundary : Option (Boundary V)} {direction : Direction}
    (h : validateOptional boundary direction = .ok ()) {b : Boundary V} (hb : boundary = some b) :
    direction.admits b.operator = true := by
  subst hb
  simp only [validateOptional,validateBoundary] at h
  split_ifs at h
  assumption

/-- The level that conditions of inactivity, warning and critical select, in this order of weight. -/
structure Leveled (i w c : Prop) (l : Level) : Prop where
  inactive : l = .inactive ↔ i
  critical : l = .critical ↔ ¬i ∧ c
  warning : l = .warning ↔ ¬i ∧ w ∧ ¬c

theorem Leveled.le {i w c i' w' c' : Prop} {l l' : Level} (h : Leveled i w c l)
    (h' : Leveled i' w' c' l') (hw : w → w') (hc : c → c') (hi : ¬i') : l ≤ l' := by
  cases l with
  | inactive => exact Level.le_iff_rank.mpr (Nat.zero_le _)
  | ok =>
    cases l' with
    | inactive => exact absurd (h'.inactive.mp rfl) hi
    | ok | warning | critical => decide
  | warning =>
    obtain ⟨-,hwarning,-⟩ := h.warning.mp rfl
    by_cases hcritical : c'
    · rw [h'.critical.mpr ⟨hi,hcritical⟩]
      decide
    · rw [h'.warning.mpr ⟨hi,hw hwarning,hcritical⟩]
  | critical => rw [h'.critical.mpr ⟨hi,hc (h.critical.mp rfl).2⟩]

theorem Leveled.unique {i w c : Prop} {l l' : Level} (h : Leveled i w c l) (h' : Leveled i w c l') :
    l = l' := by
  have hi := h.inactive.trans h'.inactive.symm
  have hw := h.warning.trans h'.warning.symm
  have hc := h.critical.trans h'.critical.symm
  cases l <;> cases l' <;> simp_all

namespace ScalarPolicy

def InactiveAt (policy : ScalarPolicy V) (value : V) : Prop := value = 0 ∧ policy.zero = .inactive

instance (policy : ScalarPolicy V) (value : V) : Decidable (policy.InactiveAt value) :=
  inferInstanceAs (Decidable (_ ∧ _))

def WarningAt (policy : ScalarPolicy V) (value : V) : Prop :=
  ∃ b, policy.warning = some b ∧ b.matches value = true

def CriticalAt (policy : ScalarPolicy V) (value : V) : Prop :=
  ∃ b, policy.critical = some b ∧ b.matches value = true

variable {policy : ScalarPolicy V} {v w : V}

theorem WarningAt.worse (h : policy.WarningAt v) (hw : policy.direction.Worse v w) :
    policy.WarningAt w := by
  obtain ⟨b,hb,hmatch⟩ := h
  exact ⟨b,hb,Boundary.matches_of_worse (admits_of_valid policy.warningValid hb) hw hmatch⟩

theorem CriticalAt.worse (h : policy.CriticalAt v) (hw : policy.direction.Worse v w) :
    policy.CriticalAt w := by
  obtain ⟨b,hb,hmatch⟩ := h
  exact ⟨b,hb,Boundary.matches_of_worse (admits_of_valid policy.criticalValid hb) hw hmatch⟩

end ScalarPolicy

theorem filter_matches_eq_none {boundary : Option (Boundary V)} {v : V} :
    boundary.filter (fun b => b.matches v) = none ↔
      ¬∃ b, boundary = some b ∧ b.matches v = true := by
  cases boundary <;> simp [Option.filter_eq_none_iff]

variable {v w : V} {l l' : Level}

theorem classifyValidatedScalar_leveled (policy : ScalarPolicy V) (v : V) :
    Leveled False (policy.WarningAt v) (policy.CriticalAt v) (classifyValidatedScalar policy v).1 := by
  unfold classifyValidatedScalar
  cases hcritical : policy.critical.filter fun b => b.matches v with
  | some b =>
    obtain ⟨hb,hmatch⟩ := Option.filter_eq_some_iff.mp hcritical
    have hat : policy.CriticalAt v := ⟨b,hb,hmatch⟩
    exact ⟨by simp,by simp [hat],by simp [hat]⟩
  | none =>
    have hnot : ¬policy.CriticalAt v := filter_matches_eq_none.mp hcritical
    cases hwarning : policy.warning.filter fun b => b.matches v with
    | some b =>
      obtain ⟨hb,hmatch⟩ := Option.filter_eq_some_iff.mp hwarning
      have hat : policy.WarningAt v := ⟨b,hb,hmatch⟩
      exact ⟨by simp,by simp [hnot],by simp [hat,hnot]⟩
    | none =>
      have hnone : ¬policy.WarningAt v := filter_matches_eq_none.mp hwarning
      exact ⟨by simp,by simp [hnot],by simp [hnone]⟩

/-- The test for an inactive zero stands before the boundaries. -/
theorem leveled_of_guard {i w c : Prop} [Decidable i] (h : Leveled False w c l) :
    Leveled i w c (if i then .inactive else l) := by
  by_cases hi : i
  · simp only [hi,if_true]
    exact ⟨by simp,by simp,by simp⟩
  · simp only [hi,if_false]
    exact ⟨by simpa using h.inactive,by simpa using h.critical,by simpa using h.warning⟩

theorem classifyWithEvidence_level (policy : ScalarPolicy V) (v : V) (evidence : Evidence V) :
    (classifyWithEvidence policy v evidence).level? =
      some (if v = 0 ∧ policy.zero = .inactive then .inactive
        else (classifyValidatedScalar policy v).1) := by
  unfold classifyWithEvidence
  split_ifs <;> rfl

theorem classifyWithEvidence_leveled {policy : ScalarPolicy V} {evidence : Evidence V}
    (h : (classifyWithEvidence policy v evidence).level? = some l) :
    Leveled (policy.InactiveAt v) (policy.WarningAt v) (policy.CriticalAt v) l := by
  rw [classifyWithEvidence_level] at h
  rw [← Option.some.inj h]
  exact leveled_of_guard (classifyValidatedScalar_leveled policy v)

theorem classifyScalar_leveled {policy : ScalarPolicy V}
    (h : (classifyScalar policy v).level? = some l) :
    0 ≤ v ∧ Leveled (policy.InactiveAt v) (policy.WarningAt v) (policy.CriticalAt v) l := by
  unfold classifyScalar at h
  simp only [normalizeZero_eq] at h
  split at h
  · cases h
  split at h
  · cases h
  next hneg => exact ⟨not_lt.mp hneg,classifyWithEvidence_leveled h⟩

/-- A ratio has a level of its own once the count has crossed the floor. -/
theorem classifyRatioWithFloor_leveled {policy : RatioWithFloorPolicy V} {ratio count : V}
    (h : (classifyRatioWithFloor policy ratio count).level? = some l) :
    0 ≤ ratio ∧ Leveled (policy.floor.matches count = true ∧ policy.ratio.InactiveAt ratio)
      (policy.floor.matches count = true ∧ policy.ratio.WarningAt ratio)
      (policy.floor.matches count = true ∧ policy.ratio.CriticalAt ratio) l := by
  unfold classifyRatioWithFloor at h
  simp only [normalizeZero_eq] at h
  split at h
  · cases h
  split at h
  · cases h
  next hneg =>
  have hratio : 0 ≤ ratio := not_lt.mp fun hlt => hneg (.inl hlt)
  split at h
  · next hfloor =>
    obtain rfl := Option.some.inj h
    exact ⟨hratio,by simp [hfloor],by simp [hfloor],by simp [hfloor]⟩
  · next hfloor =>
    rw [not_not] at hfloor
    simp only [hfloor,true_and]
    exact ⟨hratio,classifyWithEvidence_leveled h⟩

/-- What `classifyFreeCapacity` asks of its operands before it gives a level. -/
structure Capacity (available total : V) : Prop where
  availableFinite : finite available = true
  totalFinite : finite total = true
  total : 0 < total
  available : 0 ≤ available

theorem classifyFreeCapacity_leveled {policy : FreeCapacityPolicy V} {available total : V}
    (h : (classifyFreeCapacity policy available total).level? = some l) :
    Capacity available total ∧ Leveled (policy.availableFraction.InactiveAt (div available total))
      (policy.absoluteCeilingBytes.matches available = true ∧
        policy.availableFraction.WarningAt (div available total))
      (policy.absoluteCeilingBytes.matches available = true ∧
        policy.availableFraction.CriticalAt (div available total)) l := by
  unfold classifyFreeCapacity at h
  simp only [normalizeZero_eq] at h
  split at h
  · cases h
  next hfinite =>
  split at h
  · cases h
  next htotal =>
  split at h
  · cases h
  next hdomain =>
  split at h
  · cases h
  simp only [not_or,not_not] at hfinite
  have hcapacity : Capacity available total :=
    ⟨hfinite.1,hfinite.2,not_le.mp htotal,not_lt.mp fun hlt => hdomain (.inl hlt)⟩
  refine ⟨hcapacity,?_⟩
  split at h
  · next hzero =>
    obtain rfl := Option.some.inj h
    exact ⟨iff_of_true rfl hzero,by simp [ScalarPolicy.InactiveAt,hzero],
      by simp [ScalarPolicy.InactiveAt,hzero]⟩
  next hzero =>
  have hnot : ¬policy.availableFraction.InactiveAt (div available total) := hzero
  split at h
  · next hceiling =>
    obtain rfl := Option.some.inj h
    exact ⟨by simp [hnot],by simp [hceiling],by simp [hceiling]⟩
  · next hceiling =>
    rw [not_not] at hceiling
    have hlevel := classifyValidatedScalar_leveled policy.availableFraction (div available total)
    obtain rfl := Option.some.inj h
    simp only [hceiling,true_and]
    exact ⟨by simpa [hnot] using hlevel.inactive,by simpa [hnot] using hlevel.critical,
      by simpa [hnot] using hlevel.warning⟩

/-- The levels of a scalar: which condition gives which, and that a worse value gets no lower one.
An inactive zero is the worst value only where lower is worse. -/
structure ScalarLevels (policy : ScalarPolicy V) : Prop where
  leveled : ∀ v l, (classifyScalar policy v).level? = some l →
    Leveled (policy.InactiveAt v) (policy.WarningAt v) (policy.CriticalAt v) l
  worse : ∀ v w l l', (classifyScalar policy v).level? = some l →
    (classifyScalar policy w).level? = some l' → policy.direction.Worse v w →
    l ≤ l' ∨ policy.InactiveAt w ∧ policy.direction = .lowerIsWorse

structure RatioLevels (policy : RatioWithFloorPolicy V) : Prop where
  leveled : ∀ ratio count l, (classifyRatioWithFloor policy ratio count).level? = some l →
    Leveled (policy.floor.matches count = true ∧ policy.ratio.InactiveAt ratio)
      (policy.floor.matches count = true ∧ policy.ratio.WarningAt ratio)
      (policy.floor.matches count = true ∧ policy.ratio.CriticalAt ratio) l
  worseRatio : ∀ v w count l l', (classifyRatioWithFloor policy v count).level? = some l →
    (classifyRatioWithFloor policy w count).level? = some l' → policy.ratio.direction.Worse v w →
    l ≤ l' ∨ policy.ratio.InactiveAt w ∧ policy.ratio.direction = .lowerIsWorse
  worseCount : ∀ ratio v w l l', (classifyRatioWithFloor policy ratio v).level? = some l →
    (classifyRatioWithFloor policy ratio w).level? = some l' → v ≤ w →
    l ≤ l' ∨ policy.ratio.InactiveAt ratio

structure CapacityLevels (policy : FreeCapacityPolicy V) : Prop where
  leveled : ∀ available total l, (classifyFreeCapacity policy available total).level? = some l →
    Leveled (policy.availableFraction.InactiveAt (div available total))
      (policy.absoluteCeilingBytes.matches available = true ∧
        policy.availableFraction.WarningAt (div available total))
      (policy.absoluteCeilingBytes.matches available = true ∧
        policy.availableFraction.CriticalAt (div available total)) l
  worseAvailable : ∀ v w total l l', (classifyFreeCapacity policy v total).level? = some l →
    (classifyFreeCapacity policy w total).level? = some l' → w ≤ v →
    l ≤ l' ∨ policy.availableFraction.InactiveAt (div w total)
  worseTotal : ∀ available v w l l', (classifyFreeCapacity policy available v).level? = some l →
    (classifyFreeCapacity policy available w).level? = some l' → v ≤ w →
    l ≤ l' ∨ policy.availableFraction.InactiveAt (div available w)

/-- A zero is the best value where higher is worse: none that is not worse lies before it. -/
theorem inactive_of_worse {policy : ScalarPolicy V} (hv : 0 ≤ v) (hworse : policy.direction.Worse v w)
    (hinactive : policy.InactiveAt w) (hup : policy.direction ≠ .lowerIsWorse) : v = w := by
  cases hd : policy.direction with
  | lowerIsWorse => exact absurd hd hup
  | higherIsWorse =>
    rw [hd] at hworse
    exact le_antisymm hworse (hinactive.1 ▸ hv)

theorem scalar_levels (policy : ScalarPolicy V) : ScalarLevels policy where
  leveled := fun v l h => (classifyScalar_leveled h).2
  worse := by
    intro v w l l' h h' hworse
    obtain ⟨hv,hlevel⟩ := classifyScalar_leveled h
    obtain ⟨-,hlevel'⟩ := classifyScalar_leveled h'
    by_cases hinactive : policy.InactiveAt w
    · by_cases hd : policy.direction = .lowerIsWorse
      · exact .inr ⟨hinactive,hd⟩
      · obtain rfl := inactive_of_worse hv hworse hinactive hd
        exact .inl (hlevel.unique hlevel').le
    · exact .inl (hlevel.le hlevel' (fun hw => hw.worse hworse) (fun hc => hc.worse hworse) hinactive)

theorem ratio_levels (policy : RatioWithFloorPolicy V) : RatioLevels policy where
  leveled := fun ratio count l h => (classifyRatioWithFloor_leveled h).2
  worseRatio := by
    intro v w count l l' h h' hworse
    obtain ⟨hv,hlevel⟩ := classifyRatioWithFloor_leveled h
    obtain ⟨-,hlevel'⟩ := classifyRatioWithFloor_leveled h'
    by_cases hinactive : policy.ratio.InactiveAt w
    · by_cases hd : policy.ratio.direction = .lowerIsWorse
      · exact .inr ⟨hinactive,hd⟩
      · obtain rfl := inactive_of_worse hv hworse hinactive hd
        exact .inl (hlevel.unique hlevel').le
    · exact .inl (hlevel.le hlevel' (And.imp_right fun hw => hw.worse hworse)
        (And.imp_right fun hc => hc.worse hworse) fun hi => hinactive hi.2)
  worseCount := by
    intro ratio v w l l' h h' hle
    obtain ⟨-,hlevel⟩ := classifyRatioWithFloor_leveled h
    obtain ⟨-,hlevel'⟩ := classifyRatioWithFloor_leveled h'
    by_cases hinactive : policy.ratio.InactiveAt ratio
    · exact .inr hinactive
    · have hfloor : policy.floor.matches v = true → policy.floor.matches w = true := by
        have hvalid := policy.floorValid
        simp only [companionValid,Bool.decide_and,Bool.and_eq_true,decide_eq_true_eq] at hvalid
        exact Boundary.matches_of_worse (d := .higherIsWorse) hvalid.2.2 hle
      exact .inl (hlevel.le hlevel' (And.imp_left hfloor) (And.imp_left hfloor)
        fun hi => hinactive hi.2)

theorem capacity_levels (policy : FreeCapacityPolicy V) : CapacityLevels policy := by
  have hdown : policy.availableFraction.direction = .lowerIsWorse := by
    cases hd : policy.availableFraction.direction with
    | higherIsWorse => exact absurd hd policy.downward
    | lowerIsWorse => rfl
  have hworse : ∀ {v w : V}, w ≤ v → policy.availableFraction.direction.Worse v w := by
    intro v w hle
    rw [hdown]
    exact hle
  refine ⟨fun available total l h => (classifyFreeCapacity_leveled h).2,?_,?_⟩
  · intro v w total l l' h h' hle
    obtain ⟨hv,hlevel⟩ := classifyFreeCapacity_leveled h
    obtain ⟨hw,hlevel'⟩ := classifyFreeCapacity_leveled h'
    by_cases hinactive : policy.availableFraction.InactiveAt (div w total)
    · exact .inr hinactive
    · have hceiling : policy.absoluteCeilingBytes.matches v = true →
          policy.absoluteCeilingBytes.matches w = true := by
        have hvalid := policy.ceilingValid
        simp only [companionValid,Bool.decide_and,Bool.and_eq_true,decide_eq_true_eq] at hvalid
        exact Boundary.matches_of_worse (d := .lowerIsWorse) hvalid.2.2 hle
      have hdiv := hworse (div_le_div hw.availableFinite hv.availableFinite hv.totalFinite
        hw.available hle hv.total)
      exact .inl (hlevel.le hlevel' (And.imp hceiling fun ha => ha.worse hdiv)
        (And.imp hceiling fun ha => ha.worse hdiv) hinactive)
  · intro available v w l l' h h' hle
    obtain ⟨hv,hlevel⟩ := classifyFreeCapacity_leveled h
    obtain ⟨hw,hlevel'⟩ := classifyFreeCapacity_leveled h'
    by_cases hinactive : policy.availableFraction.InactiveAt (div available w)
    · exact .inr hinactive
    · have hdiv := hworse (div_le_div_left hv.availableFinite hv.totalFinite hw.totalFinite
        hv.available hv.total hle)
      exact .inl (hlevel.le hlevel' (And.imp_right fun ha => ha.worse hdiv)
        (And.imp_right fun ha => ha.worse hdiv) hinactive)

/-- Over every admitted policy a worse observation gets no lower level, but where the worse one is a
zero that the policy calls inactive before it tests a boundary. -/
theorem threshold_levels : (∀ policy : ScalarPolicy V, ScalarLevels policy) ∧
    (∀ policy : RatioWithFloorPolicy V, RatioLevels policy) ∧
    ∀ policy : FreeCapacityPolicy V, CapacityLevels policy :=
  ⟨scalar_levels,ratio_levels,capacity_levels⟩

end Policies

instance : MachineNumber ℕ where
  finite _ := true
  div := Nat.div
  sub := Nat.sub
  div_le_div _ _ _ _ hle _ := Nat.div_le_div_right hle
  div_le_div_left _ _ _ _ hpos hle := Nat.div_le_div_left hle hpos

/-- Where lower is worse, five is critical and the zero below it inactive. -/
theorem inactive_zero_drops : ∃ policy : ScalarPolicy ℕ,
    ScalarPolicy.new .lowerIsWorse (some ⟨.below,20⟩) (some ⟨.below,10⟩) .inactive = .ok policy ∧
    policy.direction.Worse 5 0 ∧ (classifyScalar policy 5).level? = some .critical ∧
    (classifyScalar policy 0).level? = some .inactive ∧ Level.inactive < Level.critical ∧
    policy.CriticalAt 0 := by
  refine ⟨⟨.lowerIsWorse,some ⟨.below,20⟩,some ⟨.below,10⟩,.inactive,by decide,rfl,rfl,?_⟩,rfl,?_⟩
  · exact ScalarPolicy.worse_of_ordered rfl
  · exact ⟨Nat.zero_le 5,rfl,rfl,by decide,⟨.below,10⟩,rfl,rfl⟩

end PgKronika
