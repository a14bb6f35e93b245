import PgKronika.PartitionPoint
import PgKronika.SeriesDiff

/-! Gating of diff points by the collection state: a value stays where the gate was known to be on
all through its interval. -/
namespace PgKronika

abbrev GateReading := Int64 × Option Bool

structure SectionColumnRef where
  sectionName : String
  column : String
  deriving DecidableEq

structure RowGateOverride where
  column : String
  value : String
  gate : SectionColumnRef
  deriving DecidableEq

structure CollectionGate where
  default : SectionColumnRef
  overrides : List RowGateOverride
  deriving DecidableEq

def CollectionGate.references (gate : CollectionGate) : List SectionColumnRef :=
  gate.default :: gate.overrides.map RowGateOverride.gate

def selectRule (default : SectionColumnRef) (identity : List String) (key : List Value) :
    List RowGateOverride → Option SectionColumnRef
  | [] => some default
  | rule::rules =>
    (identity.findIdx? fun name => name = rule.column).bind fun index =>
      match key[index]? with
      | some (.str value) =>
        if value = rule.value then some rule.gate else selectRule default identity key rules
      | _ => none

/-- The gate of a row: the first override that its label activates, else the default. -/
def selectGate (gate : CollectionGate) (identity : List String) (key : List Value) :
    Option SectionColumnRef := selectRule gate.default identity key gate.overrides

/-- The gate state of the latest reading at or before a time. -/
def stateAt (gate : List GateReading) (ts : Int64) : Option Bool :=
  let idx := partitionPoint (fun reading : GateReading => decide (reading.1 ≤ ts)) gate
  if idx = 0 then none else gate[idx-1]?.bind Prod.snd

structure GateTimeline where
  readings : List GateReading
  invalidPrefix : List ℕ

def invalidCount (reading : GateReading) : ℕ := if reading.2 ≠ some true then 1 else 0

def GateTimeline.new (readings : List GateReading) : GateTimeline where
  readings
  invalidPrefix := readings.scanl (fun count reading => count + invalidCount reading) 0

def GateTimeline.collectedThroughout (timeline : GateTimeline) (start stop : Int64) : Bool :=
  if stateAt timeline.readings start ≠ some true then false
  else
    let first := partitionPoint (fun reading : GateReading => decide (reading.1 ≤ start))
      timeline.readings
    let last := partitionPoint (fun reading : GateReading => decide (reading.1 ≤ stop))
      timeline.readings
    timeline.invalidPrefix[last]? = timeline.invalidPrefix[first]?

def saturatingSub (a b : Int64) : Int64 := .ofIntClamp (a.toInt - b.toInt)

def gatePoint (timeline : GateTimeline) (prevTs : Option Int64) (entry : DiffAt) : DiffAt :=
  match entry.point with
  | .value _ _ dtMicros =>
    let start := prevTs.getD (saturatingSub entry.ts dtMicros)
    if timeline.collectedThroughout start entry.ts then entry
    else { entry with point := .noData .notCollected }
  | .noData _ => entry

def gatePoints (timeline : GateTimeline) : Option Int64 → List DiffAt → List DiffAt
  | _,[] => []
  | prevTs,entry::points =>
    gatePoint timeline prevTs entry :: gatePoints timeline (some entry.ts) points

def gateColumns (timeline : GateTimeline) (column : String) (one : SeriesDiff) : SeriesDiff :=
  { one with
    columns := one.columns.map fun gated =>
      if gated.name = column then { gated with points := gatePoints timeline none gated.points }
      else gated }

def applyGatingWhere (series : List SeriesDiff) (column : String) (gate : List GateReading)
    (included : SeriesDiff → Bool) : List SeriesDiff :=
  let timeline := GateTimeline.new gate
  series.map fun one => if included one then gateColumns timeline column one else one

/-- Rewrite the values of a column unless the gate is known to be on throughout. -/
def applyGating (series : List SeriesDiff) (column : String) (gate : List GateReading) :
    List SeriesDiff :=
  applyGatingWhere series column gate fun _ => true

def pushReference (references : List SectionColumnRef) (reference : SectionColumnRef) :
    List SectionColumnRef :=
  if references.contains reference then references else references ++ [reference]

def distinctReferences (gate : CollectionGate) : List SectionColumnRef :=
  gate.references.foldl pushReference []

/-- One pass for each gate over the series it is selected for, and one for those without a gate. -/
def applyCollectionGating (series : List SeriesDiff) (column : String) (identity : List String)
    (gate : CollectionGate) (readings : SectionColumnRef → List GateReading) : List SeriesDiff :=
  let series := (distinctReferences gate).foldl (fun series reference =>
    applyGatingWhere series column (readings reference) fun one =>
      decide (selectGate gate identity one.key = some reference)) series
  applyGatingWhere series column [] fun one => (selectGate gate identity one.key).isNone

/-- The readings of a gate in time order; equal times are allowed. -/
def GateSorted (gate : List GateReading) : Prop := gate.Pairwise fun a b => a.1 ≤ b.1

/-- The latest reading at or before the start is on, and so is every one up to the other end. -/
structure KnownOn (gate : List GateReading) (start stop : Int64) : Prop where
  latest : ((gate.filter fun reading => decide (reading.1 ≤ start)).getLast?).map Prod.snd =
    some (some true)
  between : ∀ reading ∈ gate, min start stop < reading.1 → reading.1 ≤ max start stop →
    reading.2 = some true

section Timeline

variable {gate : List GateReading} {start stop : Int64}

theorem GateSorted.partitioned (h : GateSorted gate) (ts : Int64) :
    Partitioned (fun reading : GateReading => decide (reading.1 ≤ ts)) gate := by
  refine Partitioned.of_sorted h fun a b hab hb => ?_
  simp only [decide_eq_true_eq,Int64.le_iff_toInt_le] at hab hb ⊢
  omega

theorem stateAt_eq (h : GateSorted gate) (ts : Int64) : stateAt gate ts =
    ((gate.filter fun reading => decide (reading.1 ≤ ts)).getLast?).bind Prod.snd := by
  have htake := (h.partitioned ts).take_partitionPoint
  have hle := (h.partitioned ts).partitionPoint_le
  rw [stateAt]
  by_cases hzero : partitionPoint (fun reading : GateReading => decide (reading.1 ≤ ts)) gate = 0
  · rw [hzero,List.take_zero] at htake
    rw [if_pos hzero,← htake]
    rfl
  · rw [if_neg hzero,← htake,List.getLast?_take,if_neg hzero,List.getElem?_eq_getElem (by omega),
      Option.some_or]

theorem scanl_get {readings : List GateReading} {n : ℕ} (count : ℕ) (hn : n ≤ readings.length) :
    (readings.scanl (fun count reading => count + invalidCount reading) count)[n]? =
      some (count + (readings.take n).countP fun reading => decide (reading.2 ≠ some true)) := by
  induction readings generalizing n count with
  | nil =>
    obtain rfl : n = 0 := by simpa using hn
    rfl
  | cons reading readings ih =>
    cases n with
    | zero => simp
    | succ n =>
      rw [List.scanl_cons,List.getElem?_cons_succ,ih _ (by simpa using hn),List.take_succ_cons,
        List.countP_cons,invalidCount,Nat.add_assoc]
      simp [Nat.add_comm]

/-- A prefix of the counts is the invalid readings at or before a time. -/
theorem invalidPrefix_get (h : GateSorted gate) (ts : Int64) :
    (GateTimeline.new gate).invalidPrefix[partitionPoint
      (fun reading : GateReading => decide (reading.1 ≤ ts)) gate]? =
    some (gate.countP fun reading => decide (reading.2 ≠ some true) && decide (reading.1 ≤ ts)) := by
  have hget := scanl_get 0 (h.partitioned ts).partitionPoint_le
  rw [(h.partitioned ts).take_partitionPoint,List.countP_filter,Nat.zero_add] at hget
  exact hget

/-- Of two kinds, one within the other, there are equally many where they agree. -/
theorem countP_eq_iff {α : Type} {p q : α → Bool} {l : List α} (himp : ∀ x ∈ l, p x → q x) :
    l.countP p = l.countP q ↔ ∀ x ∈ l, q x → p x := by
  induction l with
  | nil => simp
  | cons x l ih =>
    have hrest := ih fun y hy => himp y (by simp [hy])
    have hle := List.countP_mono_left (l := l) fun y hy => himp y (by simp [hy])
    have hx := himp x (by simp)
    rw [List.forall_mem_cons,← hrest,List.countP_cons,List.countP_cons]
    by_cases hq : q x
    · by_cases hp : p x
      · simp [hp,hq]
      · simp [hp,hq]
        omega
    · have hp : ¬p x := fun hp => hq (hx hp)
      simp [hp,hq]

theorem collectedThroughout_iff (h : GateSorted gate) :
    (GateTimeline.new gate).collectedThroughout start stop = true ↔ KnownOn gate start stop := by
  have hstate : stateAt gate start = some true ↔
      ((gate.filter fun reading => decide (reading.1 ≤ start)).getLast?).map Prod.snd =
        some (some true) := by
    rw [stateAt_eq h]
    cases (gate.filter fun reading => decide (reading.1 ≤ start)).getLast? <;> simp
  have hcount : (gate.countP fun reading => decide (reading.2 ≠ some true) &&
        decide (reading.1 ≤ min start stop)) =
      (gate.countP fun reading => decide (reading.2 ≠ some true) &&
        decide (reading.1 ≤ max start stop)) ↔
      ∀ reading ∈ gate, min start stop < reading.1 → reading.1 ≤ max start stop →
        reading.2 = some true := by
    rw [countP_eq_iff]
    · refine forall₂_congr fun reading _ => ?_
      simp only [Bool.and_eq_true,decide_eq_true_eq,Int64.le_iff_toInt_le,Int64.lt_iff_toInt_lt]
      constructor
      · intro hall hlow hhigh
        by_contra hoff
        have hle := (hall ⟨hoff,hhigh⟩).2
        omega
      · rintro hall ⟨hoff,hhigh⟩
        refine ⟨hoff,?_⟩
        by_contra hnot
        exact hoff (hall (by omega) hhigh)
    · intro reading _ hlow
      simp only [Bool.and_eq_true,decide_eq_true_eq,Int64.le_iff_toInt_le,Int64.toInt_min,
        Int64.toInt_max] at hlow ⊢
      exact ⟨hlow.1,by omega⟩
  have hends : (GateTimeline.new gate).invalidPrefix[partitionPoint
        (fun reading : GateReading => decide (reading.1 ≤ stop)) gate]? =
      (GateTimeline.new gate).invalidPrefix[partitionPoint
        (fun reading : GateReading => decide (reading.1 ≤ start)) gate]? ↔
      ∀ reading ∈ gate, min start stop < reading.1 → reading.1 ≤ max start stop →
        reading.2 = some true := by
    rw [invalidPrefix_get h,invalidPrefix_get h,Option.some_inj,← hcount]
    by_cases hle : start ≤ stop
    · rw [show min start stop = start from if_pos hle,show max start stop = stop from if_pos hle]
      exact eq_comm
    · rw [show min start stop = stop from if_neg hle,show max start stop = start from if_neg hle]
  have hreadings : (GateTimeline.new gate).readings = gate := rfl
  rw [GateTimeline.collectedThroughout,hreadings]
  by_cases hlatest : stateAt gate start = some true
  · rw [if_neg (not_not.mpr hlatest)]
    dsimp only
    rw [decide_eq_true_iff]
    exact ⟨fun heq => ⟨hstate.mp hlatest,hends.mp heq⟩,fun hon => hends.mpr hon.between⟩
  · rw [if_pos hlatest]
    simp only [Bool.false_eq_true,false_iff]
    exact fun hon => hlatest (hstate.mpr hon.latest)

end Timeline

/-- A point after gating: only a value whose gate was not known to be on has changed. -/
structure GatedPoint (gate : List GateReading) (prevTs : Option Int64) (before after : DiffAt) :
    Prop where
  ts : after.ts = before.ts
  noData : ∀ reason, before.point = .noData reason → after.point = before.point
  kept : ∀ delta rate dtMicros, before.point = .value delta rate dtMicros →
    KnownOn gate (prevTs.getD (saturatingSub before.ts dtMicros)) before.ts →
      after.point = before.point
  gated : ∀ delta rate dtMicros, before.point = .value delta rate dtMicros →
    ¬KnownOn gate (prevTs.getD (saturatingSub before.ts dtMicros)) before.ts →
      after.point = .noData .notCollected

/-- A column after gating: another column is the same, this one has its points gated. -/
structure GatedColumn (gate : List GateReading) (column : String) (before after : ColumnDiff) :
    Prop where
  name : after.name = before.name
  other : before.name ≠ column → after = before
  length : after.points.length = before.points.length
  points : before.name = column → ∀ i entry, before.points[i]? = some entry →
    ∃ entry', after.points[i]? = some entry' ∧
      GatedPoint gate (if i = 0 then none else before.points[i-1]?.map DiffAt.ts) entry entry'

structure GatedSeries (gate : List GateReading) (column : String) (before after : SeriesDiff) :
    Prop where
  key : after.key = before.key
  columns : List.Forall₂ (GatedColumn gate column) before.columns after.columns

section Points

variable {gate : List GateReading}

theorem gatePoint_gated (h : GateSorted gate) (prevTs : Option Int64) (entry : DiffAt) :
    GatedPoint gate prevTs entry (gatePoint (.new gate) prevTs entry) := by
  obtain ⟨ts,point⟩ := entry
  cases point with
  | noData reason =>
    exact ⟨rfl,fun _ _ => rfl,fun _ _ _ hv => (by cases hv),fun _ _ _ hv => (by cases hv)⟩
  | value delta rate dtMicros =>
    have hon : (GateTimeline.new gate).collectedThroughout
        (prevTs.getD (saturatingSub ts dtMicros)) ts = true ↔ KnownOn gate _ _ :=
      collectedThroughout_iff h
    rw [gatePoint]
    dsimp only
    by_cases hcollected : (GateTimeline.new gate).collectedThroughout
        (prevTs.getD (saturatingSub ts dtMicros)) ts = true
    · rw [if_pos hcollected]
      refine ⟨rfl,fun _ _ => rfl,fun _ _ _ _ _ => rfl,fun _ _ _ hv hnot => ?_⟩
      cases hv
      exact absurd (hon.mp hcollected) hnot
    · rw [if_neg hcollected]
      refine ⟨rfl,fun _ hv => (by cases hv),fun _ _ _ hv hyes => ?_,fun _ _ _ _ _ => rfl⟩
      cases hv
      exact absurd (hon.mpr hyes) hcollected

theorem length_gatePoints (timeline : GateTimeline) (prevTs : Option Int64) (points : List DiffAt) :
    (gatePoints timeline prevTs points).length = points.length := by
  induction points generalizing prevTs with
  | nil => rfl
  | cons entry points ih => simp [gatePoints,ih]

theorem gatePoints_get {timeline : GateTimeline} {prevTs : Option Int64} {points : List DiffAt}
    {i : ℕ} {entry : DiffAt} (h : points[i]? = some entry) :
    (gatePoints timeline prevTs points)[i]? = some (gatePoint timeline
      (if i = 0 then prevTs else points[i-1]?.map DiffAt.ts) entry) := by
  induction points generalizing prevTs i with
  | nil => simp at h
  | cons head points ih =>
    cases i with
    | zero =>
      obtain rfl := Option.some.inj h
      rfl
    | succ i =>
      rw [gatePoints,List.getElem?_cons_succ,ih h]
      cases i <;> simp

theorem gateColumns_gated (h : GateSorted gate) (column : String) (one : SeriesDiff) :
    GatedSeries gate column one (gateColumns (.new gate) column one) := by
  refine ⟨rfl,?_⟩
  rw [gateColumns,List.forall₂_map_right_iff,List.forall₂_same]
  intro gated _
  by_cases hname : gated.name = column
  · rw [if_pos hname]
    refine ⟨rfl,fun hne => absurd hname hne,length_gatePoints _ _ _,fun _ i entry hentry => ?_⟩
    exact ⟨_,gatePoints_get hentry,gatePoint_gated h _ entry⟩
  · rw [if_neg hname]
    exact ⟨rfl,fun _ => rfl,rfl,fun hyes => absurd hyes hname⟩

/-- The readings of the gate that is selected for a key; without one nothing was ever collected. -/
def selectedReadings (gate : CollectionGate) (identity : List String)
    (readings : SectionColumnRef → List GateReading) (key : List Value) : List GateReading :=
  match selectGate gate identity key with
  | some reference => readings reference
  | none => []

theorem selectGate_mem {gate : CollectionGate} {identity : List String} {key : List Value}
    {reference : SectionColumnRef} (h : selectGate gate identity key = some reference) :
    reference ∈ gate.references := by
  have hrules : ∀ rules : List RowGateOverride,
      selectRule gate.default identity key rules = some reference →
        reference = gate.default ∨ ∃ rule ∈ rules, rule.gate = reference := by
    intro rules hrules
    induction rules with
    | nil => exact .inl (Option.some.inj hrules).symm
    | cons rule rules ih =>
      rw [selectRule] at hrules
      obtain ⟨index,_,hvalue⟩ := Option.bind_eq_some_iff.mp hrules
      split at hvalue
      · split_ifs at hvalue
        · exact .inr ⟨rule,by simp,Option.some.inj hvalue⟩
        · rcases ih hvalue with hdefault | ⟨r,hr,hgate⟩
          · exact .inl hdefault
          · exact .inr ⟨r,by simp [hr],hgate⟩
      · cases hvalue
  rcases hrules _ h with rfl | ⟨rule,hrule,rfl⟩
  · simp [CollectionGate.references]
  · exact List.mem_cons_of_mem _ (List.mem_map_of_mem hrule)

theorem foldl_pushReference {references acc : List SectionColumnRef} (hacc : acc.Nodup) :
    (references.foldl pushReference acc).Nodup ∧
      ∀ reference, reference ∈ references.foldl pushReference acc ↔
        reference ∈ acc ∨ reference ∈ references := by
  induction references generalizing acc with
  | nil => exact ⟨hacc,by simp⟩
  | cons head references ih =>
    rw [List.foldl_cons,pushReference]
    by_cases hmem : head ∈ acc
    · rw [if_pos (by simpa using hmem)]
      obtain ⟨hnodup,hall⟩ := ih hacc
      refine ⟨hnodup,fun reference => (hall reference).trans ?_⟩
      rw [List.mem_cons]
      by_cases heq : reference = head
      · simp [heq,hmem]
      · simp [heq]
    · rw [if_neg (by simpa using hmem)]
      have hpush : (acc ++ [head]).Nodup := by
        rw [List.nodup_append]
        refine ⟨hacc,by simp,fun a ha b hb heq => hmem ?_⟩
        rwa [← List.mem_singleton.mp hb,← heq]
      obtain ⟨hnodup,hall⟩ := ih hpush
      exact ⟨hnodup,fun reference => (hall reference).trans (by simp [or_assoc])⟩

theorem distinctReferences_nodup (gate : CollectionGate) : (distinctReferences gate).Nodup :=
  (foldl_pushReference .nil).1

theorem mem_distinctReferences {gate : CollectionGate} {reference : SectionColumnRef} :
    reference ∈ distinctReferences gate ↔ reference ∈ gate.references :=
  ((foldl_pushReference .nil).2 reference).trans (by simp)

/-- The passes for some gates treat each series whose gate is among them, once. -/
theorem foldl_applyGatingWhere {column : String} {select : List Value → Option SectionColumnRef}
    {readings : SectionColumnRef → List GateReading} {references : List SectionColumnRef}
    (hnodup : references.Nodup) (series : List SeriesDiff) :
    references.foldl (fun series reference => applyGatingWhere series column (readings reference)
        fun one => decide (select one.key = some reference)) series =
      series.map fun one => match select one.key with
        | some reference =>
          if reference ∈ references then gateColumns (.new (readings reference)) column one else one
        | none => one := by
  induction references generalizing series with
  | nil =>
    refine (List.map_id _).symm.trans (List.map_congr_left fun one _ => ?_)
    cases select one.key <;> simp
  | cons head references ih =>
    obtain ⟨hnot,hrest⟩ := List.nodup_cons.mp hnodup
    rw [List.foldl_cons,ih hrest,applyGatingWhere,List.map_map]
    refine List.map_congr_left fun one _ => ?_
    rw [Function.comp_apply]
    cases hselect : select one.key with
    | none => simp [hselect]
    | some reference =>
      by_cases heq : reference = head
      · subst heq
        have hkey : (gateColumns (.new (readings reference)) column one).key = one.key := rfl
        rw [if_pos (decide_eq_true rfl),hkey,hselect]
        simp [hnot]
      · rw [if_neg (by simpa using heq),hselect]
        simp [heq]

/-- The passes treat each series under one gate, the selected one. -/
theorem applyCollectionGating_eq (series : List SeriesDiff) (column : String) (identity : List String)
    (gate : CollectionGate) (readings : SectionColumnRef → List GateReading) :
    applyCollectionGating series column identity gate readings = series.map fun one =>
      gateColumns (.new (selectedReadings gate identity readings one.key)) column one := by
  rw [applyCollectionGating,foldl_applyGatingWhere (distinctReferences_nodup gate),applyGatingWhere,
    List.map_map]
  refine List.map_congr_left fun one _ => ?_
  rw [Function.comp_apply,selectedReadings]
  cases hselect : selectGate gate identity one.key with
  | none => simp [hselect]
  | some reference =>
    have hmem := mem_distinctReferences.mpr (selectGate_mem hselect)
    have hkey : (gateColumns (.new (readings reference)) column one).key = one.key := rfl
    simp [hmem,hkey,hselect]

/-- Gating keeps a value if and only if its gate was known to be on throughout, and an override
applies to each series the gate that is selected for its key. -/
theorem gating_keeps_known_on (series : List SeriesDiff) (column : String) :
    (∀ gate, GateSorted gate →
      List.Forall₂ (GatedSeries gate column) series (applyGating series column gate)) ∧
    ∀ identity gate readings, (∀ reference, GateSorted (readings reference)) →
      applyCollectionGating series column identity gate readings = (series.map fun one =>
        gateColumns (.new (selectedReadings gate identity readings one.key)) column one) ∧
      List.Forall₂ (fun before after => GatedSeries
          (selectedReadings gate identity readings before.key) column before after)
        series (applyCollectionGating series column identity gate readings) := by
  refine ⟨fun gate hsorted => ?_,fun identity gate readings hsorted =>
    ⟨applyCollectionGating_eq _ _ _ _ _,?_⟩⟩
  · rw [applyGating,applyGatingWhere,List.forall₂_map_right_iff,List.forall₂_same]
    exact fun one _ => gateColumns_gated hsorted column one
  · rw [applyCollectionGating_eq,List.forall₂_map_right_iff,List.forall₂_same]
    intro one _
    refine gateColumns_gated ?_ column one
    rw [selectedReadings]
    split
    · exact hsorted _
    · exact .nil

/-- The latest reading at or before an exact time is on, and so are those after it up to the stop. -/
def OnBetween (gate : List GateReading) (start : ℤ) (stop : Int64) : Prop :=
  ((gate.filter fun reading => decide (reading.1.toInt ≤ start)).getLast?).map Prod.snd =
    some (some true) ∧
  ∀ reading ∈ gate, start < reading.1.toInt → reading.1 ≤ stop → reading.2 = some true

def gatedPoint (ts dtMicros : Int64) : DiffAt := ⟨ts,.value (.int 1) 1 dtMicros⟩

def gatedSeries (points : List DiffAt) : SeriesDiff := ⟨[],[⟨"n",points⟩]⟩

/-- A point before its predecessor loses its value although no reading lies between them in order,
and a first point whose start is before all times keeps it although no reading is that early. -/
theorem gating_start_edges :
    (GateSorted [(0,some true),(7,some false),(9,some true)] ∧
      OnBetween [(0,some true),(7,some false),(9,some true)] 10 5 ∧
      applyGating [gatedSeries [gatedPoint 10 1,gatedPoint 5 1]] "n"
          [(0,some true),(7,some false),(9,some true)] =
        [gatedSeries [gatedPoint 10 1,⟨5,.noData .notCollected⟩]]) ∧
    GateSorted [(Int64.minValue,some true)] ∧
      ¬OnBetween [(Int64.minValue,some true)] (Int64.minValue.toInt - 1) Int64.minValue ∧
      applyGating [gatedSeries [gatedPoint Int64.minValue 1]] "n" [(Int64.minValue,some true)] =
        [gatedSeries [gatedPoint Int64.minValue 1]] := by
  refine ⟨⟨?_,⟨by decide,?_⟩,by decide⟩,?_,fun hon => ?_,by decide⟩
  · unfold GateSorted
    decide
  · simp
  · unfold GateSorted
    decide
  · exact absurd hon.1 (by decide)

end Points

end PgKronika
