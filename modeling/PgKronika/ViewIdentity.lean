import Mathlib
import PgKronika.PlanIdentity

/-! Loading a plan, caching its responses and pinning its views. The identity of a loaded
view tells which segments failed exactly when their gaps do. -/
namespace PgKronika

open ByteCodec

theorem Int64.lt_succ_of_ne_max {x y : Int64} (h : x < y) : x < satSucc x := by
  rw [Int64.lt_iff_toInt_lt] at h ⊢
  have hlow := x.le_toInt
  have hhigh := y.toInt_lt
  rw [satSucc]
  split_ifs with hmax
  · rw [hmax] at h
    exact absurd hhigh (by rw [show Int64.maxValue.toInt = 2^63-1 from rfl] at h; omega)
  · rw [Int64.toInt_add,show (1 : Int64).toInt = 1 from rfl,Int.bmod_eq_of_le (by omega) (by omega)]
    omega

theorem satPred_lt {x y : Int64} (h : x < y) : satPred y < y := by
  rw [Int64.lt_iff_toInt_lt] at h ⊢
  have hlow := x.le_toInt
  have hhigh := y.toInt_lt
  rw [satPred]
  split_ifs with hmin
  · rw [hmin,show Int64.minValue.toInt = -2^63 from rfl] at h
    omega
  · rw [Int64.toInt_sub,show (1 : Int64).toInt = 1 from rfl,Int.bmod_eq_of_le (by omega) (by omega)]
    omega

theorem leftBoundary_lt (range : CoverageSpan) :
    range.fromUs < minUs (satSucc range.fromUs) range.toUs := by
  rw [minUs]
  split_ifs
  · exact Int64.lt_succ_of_ne_max range.lt
  · exact range.lt

theorem rightBoundary_lt (range : CoverageSpan) :
    maxUs range.fromUs (satPred range.toUs) < range.toUs := by
  rw [maxUs]
  split_ifs
  · exact satPred_lt range.lt
  · exact range.lt

/-- The gap of a selected segment that did not load. A segment outside the range leaves a
gap at the boundary it is next to. -/
def gapFor (range : CoverageSpan) (d : SegmentDescriptor) : OmittedRange :=
  match descriptorGap d range with
  | some span => ⟨span⟩
  | none =>
    if d.maxTs < range.fromUs then
      ⟨⟨range.fromUs,minUs (satSucc range.fromUs) range.toUs,leftBoundary_lt range⟩⟩
    else ⟨⟨maxUs range.fromUs (satPred range.toUs),range.toUs,rightBoundary_lt range⟩⟩

inductive FactLoadFailure
  | source
  | coldBuildOverloaded (retryAfterSeconds : UInt64) (reason : String)
  | workerFailed
  | identityMismatch
  deriving DecidableEq

/-- Sealed facts are named by the key they were built under. -/
structure SealedEntry where
  factBuildKey : FactBuildKey
  deriving DecidableEq

def SealedEntry.fromDescriptor (descriptor : DescriptorEntry) (facts : FactBuildKey) :
    Option SealedEntry :=
  if facts = descriptor.factBuildKey then some ⟨facts⟩ else none

/-- What was read for one entry, bound to it. -/
def loadOne (entry : DescriptorEntry) :
    Except FactLoadFailure FactBuildKey → Except FactLoadFailure SealedEntry
  | .error e => .error e
  | .ok facts =>
    match SealedEntry.fromDescriptor entry facts with
    | none => .error .identityMismatch
    | some sealed => .ok sealed

/-- One finished worker: the entry it loaded and what it read. -/
abbrev Completion := ℕ × Except FactLoadFailure FactBuildKey

/-- Take the workers as they finish. A source failure leaves a gap, any other one ends the
load. -/
def takeCompletions (range : CoverageSpan) (entries : List DescriptorEntry) :
    List Completion → List (Option SealedEntry) → List OmittedRange →
      Except FactLoadFailure (List (Option SealedEntry) × List OmittedRange)
  | [],loaded,omitted => .ok (loaded,omitted)
  | (index,read)::rest,loaded,omitted =>
    match entries[index]? with
    | none => .error .workerFailed
    | some entry =>
      match loadOne entry read with
      | .ok sealed => takeCompletions range entries rest (loaded.set index (some sealed)) omitted
      | .error .source =>
        takeCompletions range entries rest loaded (omitted ++ [gapFor range entry.descriptor])
      | .error e => .error e

structure IndexView where
  viewGeneration : UInt64
  sealed : List SealedEntry
  live : LiveView
  factSetId : FactSetId
  omittedRanges : List OmittedRange
  deriving DecidableEq

def loadSelected (sha256 : Bytes → Digest) (plan : SelectedSealedPlan)
    (completions : List Completion) : Except FactLoadFailure IndexView :=
  match takeCompletions plan.range plan.entries completions
    (List.replicate plan.entries.length none) plan.omittedRanges with
  | .error e => .error e
  | .ok (loaded,omitted) =>
    let omittedRanges := sortDedup omitted
    .ok {
      viewGeneration := plan.view.viewGeneration
      sealed := loaded.filterMap id
      live := plan.view.live
      factSetId := plan.factSetIdWithGaps sha256 omittedRanges
      omittedRanges }

inductive Endpoint
  | overview
  | events
  | health
  deriving DecidableEq

structure ResponseKey where
  endpoint : Endpoint
  responseSchemaVersion : UInt32
  factSetId : FactSetId
  fromUs : Int64
  toUs : Int64
  stepUs : Option UInt64
  notablePolicyVersion : UInt32
  healthPolicyVersion : UInt32
  filters : String
  page : Option String
  deriving DecidableEq

/-- A key whose response may be stored. -/
structure CacheKey where
  key : ResponseKey
  notEvents : key.endpoint ≠ .events
  notPaged : key.page = none
  deriving DecidableEq

def CacheKey.new (key : ResponseKey) : Option CacheKey :=
  if h : key.endpoint ≠ .events ∧ key.page = none then some ⟨key,h.1,h.2⟩ else none

/-- The key under which `serve` stores the response it renders from a loaded view. -/
def renderCacheKey (key : ResponseKey) (loaded : IndexView) : Option CacheKey :=
  if loaded.factSetId = key.factSetId then CacheKey.new key else none

section Loads

variable {range : CoverageSpan} {entries : List DescriptorEntry}

/-- Every entry has one worker. -/
def Completes (plan : SelectedSealedPlan) (completions : List Completion) : Prop :=
  (completions.map Prod.fst).Perm (List.range plan.entries.length)

def FailsAt (completions : List Completion) (index : ℕ) : Prop :=
  (index,.error .source) ∈ completions

instance failsAtDecidable (completions : List Completion) (index : ℕ) :
    Decidable (FailsAt completions index) := inferInstanceAs (Decidable (_ ∈ completions))

/-- The gaps that the failures add. -/
def failureGaps (range : CoverageSpan) (entries : List DescriptorEntry)
    (completions : List Completion) : List OmittedRange :=
  completions.filterMap fun c =>
    if c.2 = .error .source then entries[c.1]?.map fun e => gapFor range e.descriptor else none

/-- What a load keeps of one entry. -/
def keptAt (entries : List DescriptorEntry) (completions : List Completion) (index : ℕ) :
    Option SealedEntry :=
  if FailsAt completions index then none
  else entries[index]?.map fun e => ⟨e.factBuildKey⟩

theorem loadOne_ok {entry : DescriptorEntry} {read : Except FactLoadFailure FactBuildKey}
    {sealed : SealedEntry} (h : loadOne entry read = .ok sealed) :
    read = .ok entry.factBuildKey ∧ sealed = ⟨entry.factBuildKey⟩ := by
  cases read with
  | error e => cases h
  | ok facts =>
    rw [loadOne,SealedEntry.fromDescriptor] at h
    split_ifs at h with hkey
    cases h
    exact ⟨congrArg _ hkey,congrArg _ hkey⟩

theorem loadOne_source {entry : DescriptorEntry} {read : Except FactLoadFailure FactBuildKey}
    (h : loadOne entry read = .error .source) : read = .error .source := by
  cases read with
  | error e =>
    cases h
    rfl
  | ok facts =>
    rw [loadOne] at h
    split at h <;> cases h

theorem failsAt_cons {c : Completion} {rest : List Completion} {i : ℕ} (h : i ≠ c.1) :
    FailsAt (c::rest) i ↔ FailsAt rest i := by
  rw [FailsAt,List.mem_cons,or_iff_right]
  · rfl
  · exact fun he => h (congrArg Prod.fst he)

theorem failureGaps_cons {c : Completion} {rest : List Completion} {entry : DescriptorEntry}
    (hentry : entries[c.1]? = some entry) :
    failureGaps range entries (c::rest) = (if c.2 = .error .source
      then [gapFor range entry.descriptor] else []) ++ failureGaps range entries rest := by
  rw [failureGaps,List.filterMap_cons,hentry]
  split_ifs <;> rfl

/-- A load that goes through: the gaps it adds and what it keeps at each index. -/
theorem takeCompletions_ok {completions : List Completion}
    {loaded loaded' : List (Option SealedEntry)} {omitted omitted' : List OmittedRange}
    (h : takeCompletions range entries completions loaded omitted = .ok (loaded',omitted'))
    (hnodup : (completions.map Prod.fst).Nodup) :
    omitted' = omitted ++ failureGaps range entries completions ∧
      loaded'.length = loaded.length ∧
      ∀ i < loaded.length, loaded'[i]? =
        if i ∈ completions.map Prod.fst ∧ ¬FailsAt completions i then
          entries[i]?.map fun e => some ⟨e.factBuildKey⟩
        else loaded[i]? := by
  induction completions generalizing loaded omitted with
  | nil =>
    cases h
    refine ⟨(List.append_nil _).symm,rfl,fun i _ => ?_⟩
    rw [if_neg fun h => by simp at h]
  | cons c rest ih =>
    obtain ⟨index,read⟩ := c
    rw [List.map_cons,List.nodup_cons] at hnodup
    rw [takeCompletions] at h
    cases hentry : entries[index]? with
    | none =>
      rw [hentry] at h
      cases h
    | some entry =>
      rw [hentry] at h
      dsimp only at h
      rw [failureGaps_cons hentry]
      have hother : ∀ i ≠ index, (i ∈ ((index,read)::rest).map Prod.fst ∧
          ¬FailsAt ((index,read)::rest) i) = (i ∈ rest.map Prod.fst ∧ ¬FailsAt rest i) := by
        intro i hi
        rw [List.map_cons,List.mem_cons,or_iff_right hi,failsAt_cons hi]
      have hrest : ¬(index ∈ rest.map Prod.fst ∧ ¬FailsAt rest index) := fun hi => hnodup.1 hi.1
      cases hload : loadOne entry read with
      | ok sealed =>
        rw [hload] at h
        obtain ⟨rfl,rfl⟩ := loadOne_ok hload
        obtain ⟨hgaps,hlen,hkept⟩ := ih h hnodup.2
        rw [List.length_set] at hlen hkept
        refine ⟨hgaps,hlen,fun i hi => ?_⟩
        rw [hkept i hi]
        by_cases hindex : i = index
        · subst hindex
          have hloaded : i ∈ ((i,Except.ok entry.factBuildKey)::rest).map Prod.fst ∧
              ¬FailsAt ((i,Except.ok entry.factBuildKey)::rest) i := by
            refine ⟨List.mem_cons_self ..,fun hfails => ?_⟩
            rcases List.mem_cons.mp hfails with he | hmem
            · cases he
            · exact hnodup.1 (List.mem_map.mpr ⟨_,hmem,rfl⟩)
          rw [if_neg hrest,if_pos hloaded,hentry,List.getElem?_set_self hi]
          rfl
        · rw [List.getElem?_set_ne (Ne.symm hindex)]
          simp only [hother i hindex]
      | error e =>
        rw [hload] at h
        cases e with
        | source =>
          obtain rfl := loadOne_source hload
          obtain ⟨hgaps,hlen,hkept⟩ := ih h hnodup.2
          refine ⟨by rw [hgaps,if_pos rfl,List.append_assoc],hlen,fun i hi => ?_⟩
          rw [hkept i hi]
          by_cases hindex : i = index
          · subst hindex
            rw [if_neg hrest,if_neg fun hi => hi.2 (List.mem_cons_self ..)]
          · simp only [hother i hindex]
        | coldBuildOverloaded retryAfterSeconds reason => cases h
        | workerFailed => cases h
        | identityMismatch => cases h

/-- What a load that goes through returns. -/
theorem loadSelected_ok {sha256 : Bytes → Digest} {plan : SelectedSealedPlan}
    {completions : List Completion} {view : IndexView} (hall : Completes plan completions)
    (h : loadSelected sha256 plan completions = .ok view) :
    view.viewGeneration = plan.view.viewGeneration ∧ view.live = plan.view.live ∧
      view.factSetId = plan.factSetIdWithGaps sha256 view.omittedRanges ∧
      view.omittedRanges = sortDedup (plan.omittedRanges ++
        failureGaps plan.range plan.entries completions) ∧
      view.sealed =
        (List.range plan.entries.length).filterMap (keptAt plan.entries completions) := by
  rw [loadSelected] at h
  have hnodup : (completions.map Prod.fst).Nodup := hall.nodup_iff.mpr List.nodup_range
  cases htake : takeCompletions plan.range plan.entries completions
    (List.replicate plan.entries.length none) plan.omittedRanges with
  | error e =>
    rw [htake] at h
    cases h
  | ok kept =>
    rw [htake] at h
    cases h
    obtain ⟨hgaps,hlen,hkept⟩ := takeCompletions_ok htake hnodup
    rw [List.length_replicate] at hlen hkept
    refine ⟨rfl,rfl,rfl,congrArg sortDedup hgaps,?_⟩
    have hloaded : kept.1 =
        (List.range plan.entries.length).map (keptAt plan.entries completions) := by
      refine List.ext_getElem? fun i => ?_
      by_cases hi : i < plan.entries.length
      · have hmem : i ∈ completions.map Prod.fst := hall.mem_iff.mpr (List.mem_range.mpr hi)
        rw [hkept i hi,List.getElem?_map,List.getElem?_range hi,Option.map_some,keptAt]
        by_cases hfails : FailsAt completions i
        · rw [if_neg fun h => h.2 hfails,if_pos hfails,List.getElem?_replicate,if_pos hi]
        · rw [if_pos ⟨hmem,hfails⟩,if_neg hfails,List.getElem?_eq_getElem hi]
          rfl
      · rw [List.getElem?_eq_none (by omega),List.getElem?_eq_none (by simpa using hi)]
    rw [hloaded,List.filterMap_map]
    rfl

theorem mem_failureGaps {completions : List Completion} {gap : OmittedRange} :
    gap ∈ failureGaps range entries completions ↔
      ∃ i e, FailsAt completions i ∧ entries[i]? = some e ∧ gapFor range e.descriptor = gap := by
  rw [failureGaps,List.mem_filterMap]
  constructor
  · rintro ⟨⟨i,read⟩,hc,hgap⟩
    split_ifs at hgap with hread
    obtain ⟨e,he,hgap⟩ := Option.map_eq_some_iff.mp hgap
    exact ⟨i,e,by rw [FailsAt,← show read = .error .source from hread]; exact hc,he,hgap⟩
  · rintro ⟨i,e,hfails,he,rfl⟩
    exact ⟨_,hfails,by rw [if_pos rfl,he]; rfl⟩

/-- Each selected segment has a gap of its own, which is not one of the view's gaps. -/
structure SelectedSealedPlan.GapsTell (plan : SelectedSealedPlan) : Prop where
  distinct : (plan.entries.map fun e => gapFor plan.range e.descriptor).Nodup
  fresh : ∀ e ∈ plan.entries, gapFor plan.range e.descriptor ∉ plan.omittedRanges

/-- Equal gaps come from equal failures. -/
theorem failsAt_of_gaps {plan : SelectedSealedPlan} (htell : plan.GapsTell)
    {completions completions' : List Completion}
    (h : sortDedup (plan.omittedRanges ++ failureGaps plan.range plan.entries completions) =
      sortDedup (plan.omittedRanges ++ failureGaps plan.range plan.entries completions'))
    {i : ℕ} (hi : i < plan.entries.length) (hfails : FailsAt completions i) :
    FailsAt completions' i := by
  have he : plan.entries[i]? = some plan.entries[i] := List.getElem?_eq_getElem hi
  have hgap : gapFor plan.range plan.entries[i].descriptor ∈
      plan.omittedRanges ++ failureGaps plan.range plan.entries completions' :=
    (sortDedup_eq_iff.mp h _).mp
      (List.mem_append_right _ (mem_failureGaps.mpr ⟨i,_,hfails,he,rfl⟩))
  rcases List.mem_append.mp hgap with hgap | hgap
  · exact absurd hgap (htell.fresh _ (List.getElem_mem hi))
  · obtain ⟨j,e,hfails',he',hsame⟩ := mem_failureGaps.mp hgap
    have hij : i = j := (List.getElem?_inj (by rwa [List.length_map]) htell.distinct).mp (by
      rw [List.getElem?_map,List.getElem?_map,he,he',Option.map_some,Option.map_some,hsame])
    exact hij ▸ hfails'

theorem keptAt_congr {completions completions' : List Completion} {i : ℕ}
    (h : FailsAt completions i ↔ FailsAt completions' i) :
    keptAt entries completions i = keptAt entries completions' i := by
  simp only [keptAt,h]

theorem length_failureGaps_le (completions : List Completion) :
    (failureGaps range entries completions).length ≤ completions.length :=
  List.length_filterMap_le ..

end Loads

section Identity

variable {sha256 : Bytes → Digest}

/-- What is hashed for the identity of a load with these gaps. -/
def hashedInputs (sha256 : Bytes → Digest) (plan : SelectedSealedPlan)
    (gaps : List OmittedRange) : List Bytes :=
  selectedInput plan :: if gaps = plan.omittedRanges then []
    else [partialInput (plan.factSetId sha256) gaps]

/-- A load of a plan, its workers in the order they finished. -/
structure PlanLoad (sha256 : Bytes → Digest) where
  plan : SelectedSealedPlan
  completions : List Completion
  completes : Completes plan completions
  view : IndexView
  loads : loadSelected sha256 plan completions = .ok view

def PlanLoad.inputs (l : PlanLoad sha256) : List Bytes :=
  hashedInputs sha256 l.plan l.view.omittedRanges

/-- A locator and a build key name one segment. -/
def OneSegment (plan plan' : SelectedSealedPlan) : Prop :=
  ∀ e ∈ plan.entries, ∀ e' ∈ plan'.entries, e.identity = e'.identity → e = e'

theorem PlanLoad.gaps_length (l : PlanLoad sha256) : l.view.omittedRanges.length < 2^64 := by
  have hgaps := (loadSelected_ok l.completes l.loads).2.2.2.1
  have hcount : l.completions.length = l.plan.entries.length := by
    have hlen := l.completes.length_eq
    rwa [List.length_map,List.length_range] at hlen
  have hfail := @length_failureGaps_le l.plan.range l.plan.entries l.completions
  have hsort := length_sortDedup_le
    (l.plan.omittedRanges ++ failureGaps l.plan.range l.plan.entries l.completions)
  have hentries := entries_bound l.plan
  have homitted := l.plan.omittedBound
  rw [← hgaps,List.length_append] at hsort
  rw [absoluteMaxSelectedSegments] at hentries homitted
  omega

/-- Equal identities come from equal plans, as far as they are hashed, and equal gaps. -/
theorem same_of_factSetId {l l' : PlanLoad sha256}
    (hinj : Set.InjOn sha256 {b | b ∈ l.inputs ∨ b ∈ l'.inputs})
    (h : l.view.factSetId = l'.view.factSetId) :
    SameIdentity l.plan l'.plan ∧ l.view.omittedRanges = l'.view.omittedRanges := by
  obtain ⟨-,-,hid,-,-⟩ := loadSelected_ok l.completes l.loads
  obtain ⟨-,-,hid',-,-⟩ := loadSelected_ok l'.completes l'.loads
  have hplan : selectedInput l.plan ∈ {b | b ∈ l.inputs ∨ b ∈ l'.inputs} :=
    .inl (List.mem_cons_self ..)
  have hplan' : selectedInput l'.plan ∈ {b | b ∈ l.inputs ∨ b ∈ l'.inputs} :=
    .inr (List.mem_cons_self ..)
  have hpart : l.view.omittedRanges ≠ l.plan.omittedRanges →
      partialInput (l.plan.factSetId sha256) l.view.omittedRanges ∈
        {b | b ∈ l.inputs ∨ b ∈ l'.inputs} := fun hne => by
    refine .inl (List.mem_cons_of_mem _ ?_)
    rw [if_neg hne]
    exact List.mem_singleton_self _
  have hpart' : l'.view.omittedRanges ≠ l'.plan.omittedRanges →
      partialInput (l'.plan.factSetId sha256) l'.view.omittedRanges ∈
        {b | b ∈ l.inputs ∨ b ∈ l'.inputs} := fun hne => by
    refine .inr (List.mem_cons_of_mem _ ?_)
    rw [if_neg hne]
    exact List.mem_singleton_self _
  rw [hid,hid',SelectedSealedPlan.factSetIdWithGaps,SelectedSealedPlan.factSetIdWithGaps] at h
  split_ifs at h with hc hc' hc'
  · have hinput := hinj hplan hplan' h
    have hsame := selectedInput_injective hinput
    exact ⟨hsame,by rw [hc,hc',hsame.omittedRanges]⟩
  · exact absurd (hinj hplan (hpart' hc') h)
      (selectedInput_ne_partialInput _ _ _)
  · exact absurd (hinj hplan' (hpart hc) h.symm)
      (selectedInput_ne_partialInput _ _ _)
  · have hinput := hinj (hpart hc) (hpart' hc') h
    obtain ⟨hplans,hgaps⟩ := partialInput_injective l.gaps_length l'.gaps_length hinput
    exact ⟨selectedInput_injective (hinj hplan hplan' hplans),hgaps⟩

theorem entries_eq {plan plan' : SelectedSealedPlan} (hone : OneSegment plan plan')
    (h : plan.entries.map DescriptorEntry.identity =
      plan'.entries.map DescriptorEntry.identity) : plan.entries = plan'.entries := by
  have hlen := congrArg List.length h
  rw [List.length_map,List.length_map] at hlen
  refine List.ext_getElem hlen fun i hi hi' => ?_
  refine hone _ (List.getElem_mem hi) _ (List.getElem_mem hi') ?_
  have hget := congrArg (·[i]?) h
  simpa [hi,hi'] using hget

/-- Where gaps tell, the identity of a load determines its view. -/
theorem view_of_factSetId {l l' : PlanLoad sha256} (htell : l.plan.GapsTell)
    (hone : l'.plan ≠ l.plan → OneSegment l.plan l'.plan)
    (hinj : Set.InjOn sha256 {b | b ∈ l.inputs ∨ b ∈ l'.inputs})
    (h : l.view.factSetId = l'.view.factSetId) : l.view = l'.view := by
  obtain ⟨hsame,hgaps⟩ := same_of_factSetId hinj h
  have hentries : l.plan.entries = l'.plan.entries := by
    by_cases hplan : l'.plan = l.plan
    · rw [hplan]
    · exact entries_eq (hone hplan) hsame.entries
  obtain ⟨hgen,hlive,-,homitted,hsealed⟩ := loadSelected_ok l.completes l.loads
  obtain ⟨hgen',hlive',-,homitted',hsealed'⟩ := loadSelected_ok l'.completes l'.loads
  rw [← hentries,← hsame.range,← hsame.omittedRanges] at homitted'
  rw [← hentries] at hsealed'
  have hfail : sortDedup (l.plan.omittedRanges ++
        failureGaps l.plan.range l.plan.entries l.completions) =
      sortDedup (l.plan.omittedRanges ++
        failureGaps l.plan.range l.plan.entries l'.completions) := by
    rw [← homitted,← homitted',hgaps]
  have hkept : l.view.sealed = l'.view.sealed := by
    rw [hsealed,hsealed']
    refine List.filterMap_congr fun i hi => keptAt_congr ?_
    have hlt := List.mem_range.mp hi
    exact ⟨failsAt_of_gaps htell hfail hlt,failsAt_of_gaps htell hfail.symm hlt⟩
  have hg : l.view.viewGeneration = l'.view.viewGeneration := by
    rw [hgen,hgen',hsame.viewGeneration]
  have hl : l.view.live = l'.view.live := by rw [hlive,hlive',hsame.live]
  generalize l.view = v at *
  generalize l'.view = v' at *
  obtain ⟨g,sealed,live,id,omitted⟩ := v
  obtain ⟨g',sealed',live',id',omitted'⟩ := v'
  obtain rfl : g = g' := hg
  obtain rfl : live = live' := hl
  obtain rfl : sealed = sealed' := hkept
  obtain rfl : id = id' := h
  obtain rfl : omitted = omitted' := hgaps
  rfl

end Identity

section Failures

/-- The workers of a plan, in order, when the chosen entries fail. -/
def completionsWith (plan : SelectedSealedPlan) (fails : ℕ → Bool) : List Completion :=
  plan.entries.mapIdx fun i e => (i,if fails i then .error .source else .ok e.factBuildKey)

theorem completionsWith_completes (plan : SelectedSealedPlan) (fails : ℕ → Bool) :
    Completes plan (completionsWith plan fails) := by
  refine List.Perm.of_eq (List.ext_getElem (by simp [completionsWith]) fun i hi hi' => ?_)
  simp [completionsWith]

theorem failsAt_completionsWith {plan : SelectedSealedPlan} {fails : ℕ → Bool} {i : ℕ}
    (hi : i < plan.entries.length) : FailsAt (completionsWith plan fails) i ↔ fails i = true := by
  rw [FailsAt,completionsWith,List.mem_mapIdx]
  constructor
  · rintro ⟨j,hj,he⟩
    obtain ⟨rfl,hread⟩ := Prod.mk.inj he
    by_contra hf
    rw [if_neg hf] at hread
    cases hread
  · intro hf
    exact ⟨i,hi,by rw [if_pos hf]⟩

theorem takeCompletions_total {range : CoverageSpan} {entries : List DescriptorEntry}
    {completions : List Completion} {loaded : List (Option SealedEntry)}
    {omitted : List OmittedRange} (h : ∀ c ∈ completions, ∃ e, entries[c.1]? = some e ∧
      (c.2 = .error .source ∨ c.2 = .ok e.factBuildKey)) :
    ∃ kept, takeCompletions range entries completions loaded omitted = .ok kept := by
  induction completions generalizing loaded omitted with
  | nil => exact ⟨_,rfl⟩
  | cons c rest ih =>
    obtain ⟨index,read⟩ := c
    obtain ⟨e,he,hread⟩ := h _ (List.mem_cons_self ..)
    have hrest := fun c hc => h c (List.mem_cons_of_mem _ hc)
    rw [takeCompletions,he]
    rcases hread with rfl | rfl
    · exact ih hrest
    · dsimp only
      rw [loadOne,SealedEntry.fromDescriptor,if_pos rfl]
      exact ih hrest

/-- Any set of entries can fail. -/
theorem planLoad_exists (sha256 : Bytes → Digest) (plan : SelectedSealedPlan)
    (fails : ℕ → Bool) : ∃ l : PlanLoad sha256, l.plan = plan ∧
      l.completions = completionsWith plan fails := by
  have hreads : ∀ c ∈ completionsWith plan fails, ∃ e, plan.entries[c.1]? = some e ∧
      (c.2 = .error .source ∨ c.2 = .ok e.factBuildKey) := by
    intro c hc
    obtain ⟨i,hi,rfl⟩ := List.mem_mapIdx.mp hc
    refine ⟨plan.entries[i],List.getElem?_eq_getElem hi,?_⟩
    by_cases hf : fails i = true
    · exact .inl (if_pos hf)
    · exact .inr (if_neg hf)
  obtain ⟨kept,hkept⟩ := @takeCompletions_total plan.range plan.entries
    (completionsWith plan fails) (List.replicate plan.entries.length none) plan.omittedRanges hreads
  have hload : loadSelected sha256 plan (completionsWith plan fails) = .ok {
      viewGeneration := plan.view.viewGeneration
      sealed := kept.1.filterMap id
      live := plan.view.live
      factSetId := plan.factSetIdWithGaps sha256 (sortDedup kept.2)
      omittedRanges := sortDedup kept.2 } := by
    rw [loadSelected,hkept]
  exact ⟨⟨plan,_,completionsWith_completes plan fails,_,hload⟩,rfl,rfl⟩

/-- Where gaps do not tell, some gap is left by a failure and without it. -/
theorem shared_gap {plan : SelectedSealedPlan} (h : ¬plan.GapsTell) :
    ∃ (j : ℕ) (hj : j < plan.entries.length),
      gapFor plan.range plan.entries[j].descriptor ∈ plan.omittedRanges ∨
      ∃ (i : ℕ) (hi : i < plan.entries.length), i ≠ j ∧
        gapFor plan.range plan.entries[i].descriptor =
          gapFor plan.range plan.entries[j].descriptor := by
  by_contra hnone
  push Not at hnone
  refine h ⟨List.nodup_iff_getElem?_ne_getElem?.mpr fun i j hij hj hsame => ?_,fun e he => ?_⟩
  · rw [List.length_map] at hj
    have hi : i < plan.entries.length := hij.trans hj
    refine (hnone j hj).2 i hi (ne_of_lt hij) ?_
    simpa [hi,hj] using hsame
  · obtain ⟨i,hi,rfl⟩ := List.getElem_of_mem he
    exact (hnone i hi).1

/-- Where gaps do not tell, two different loads carry one identity. -/
theorem loads_collide {plan : SelectedSealedPlan} (h : ¬plan.GapsTell)
    (sha256 : Bytes → Digest) :
    ∃ l l' : PlanLoad sha256, l.plan = plan ∧ l'.plan = plan ∧
      l.view.omittedRanges = l'.view.omittedRanges ∧
      l.view.factSetId = l'.view.factSetId ∧ l.view.sealed ≠ l'.view.sealed := by
  obtain ⟨j,hj,hshared⟩ := shared_gap h
  -- everything fails, and everything but `j`
  obtain ⟨l,rfl,hc⟩ := planLoad_exists sha256 plan fun _ => true
  obtain ⟨l',hplan,hc'⟩ := planLoad_exists sha256 l.plan fun i => i ≠ j
  obtain ⟨-,-,hid,homitted,hsealed⟩ := loadSelected_ok l.completes l.loads
  obtain ⟨-,-,hid',homitted',hsealed'⟩ := loadSelected_ok l'.completes l'.loads
  rw [hplan] at hid' homitted' hsealed'
  have hgaps : l.view.omittedRanges = l'.view.omittedRanges := by
    rw [homitted,homitted',sortDedup_eq_iff,hc,hc']
    intro gap
    rw [List.mem_append,List.mem_append,mem_failureGaps,mem_failureGaps]
    constructor
    · rintro (hgap | ⟨i,e,-,he,rfl⟩)
      · exact .inl hgap
      · obtain ⟨hi,rfl⟩ := List.getElem?_eq_some_iff.mp he
        by_cases hij : i = j
        · subst hij
          rcases hshared with hmem | ⟨k,hk,hne,hsame⟩
          · exact .inl hmem
          · refine .inr ⟨k,_,?_,List.getElem?_eq_getElem hk,hsame⟩
            exact (failsAt_completionsWith hk).mpr (decide_eq_true hne)
        · refine .inr ⟨i,_,?_,he,rfl⟩
          exact (failsAt_completionsWith hi).mpr (decide_eq_true hij)
    · rintro (hgap | ⟨i,e,-,he,rfl⟩)
      · exact .inl hgap
      · obtain ⟨hi,-⟩ := List.getElem?_eq_some_iff.mp he
        exact .inr ⟨i,e,(failsAt_completionsWith hi).mpr rfl,he,rfl⟩
  refine ⟨l,l',rfl,hplan,hgaps,by rw [hid,hid',hgaps],?_⟩
  have hall : ∀ s, s ∉ l.view.sealed := by
    intro s hs
    rw [hsealed,List.mem_filterMap] at hs
    obtain ⟨i,hi,hkept⟩ := hs
    rw [hc,keptAt,if_pos ((failsAt_completionsWith (List.mem_range.mp hi)).mpr rfl)] at hkept
    cases hkept
  have hone : (⟨l.plan.entries[j].factBuildKey⟩ : SealedEntry) ∈ l'.view.sealed := by
    rw [hsealed',List.mem_filterMap]
    refine ⟨j,List.mem_range.mpr hj,?_⟩
    rw [hc',keptAt,if_neg,List.getElem?_eq_getElem hj]
    · rfl
    · rw [failsAt_completionsWith hj]
      simp
  exact fun hsame => hall _ (hsame ▸ hone)

end Failures

/-- Where gaps tell, a load under the plan's own identity has no failures. -/
theorem complete_of_factSetId {sha256 : Bytes → Digest} {l : PlanLoad sha256}
    (htell : l.plan.GapsTell) (hinj : Set.InjOn sha256 {b | b ∈ l.inputs})
    (hid : l.view.factSetId = l.plan.factSetId sha256) {i : ℕ} (hi : i < l.plan.entries.length) :
    ¬FailsAt l.completions i := by
  intro hfails
  obtain ⟨-,-,hview,homitted,-⟩ := loadSelected_ok l.completes l.loads
  by_cases hgaps : l.view.omittedRanges = l.plan.omittedRanges
  · have hmem : gapFor l.plan.range l.plan.entries[i].descriptor ∈ l.view.omittedRanges := by
      rw [homitted,mem_sortDedup]
      exact List.mem_append_right _
        (mem_failureGaps.mpr ⟨i,_,hfails,List.getElem?_eq_getElem hi,rfl⟩)
    exact htell.fresh _ (List.getElem_mem hi) (hgaps ▸ hmem)
  · rw [hview,SelectedSealedPlan.factSetIdWithGaps,if_neg hgaps] at hid
    have hpart : partialInput (l.plan.factSetId sha256) l.view.omittedRanges ∈ l.inputs := by
      refine List.mem_cons_of_mem _ ?_
      rw [if_neg hgaps]
      exact List.mem_singleton_self _
    exact selectedInput_ne_partialInput _ _ _
      (hinj (List.mem_cons_self ..) hpart hid.symm)

/-- The identity of a loaded view stands for the view: for comparing two loads, for storing
a response as complete and for resuming on a pinned view. -/
structure ViewIdDetermines (plan : SelectedSealedPlan) : Prop where
  sameView : ∀ (sha256 : Bytes → Digest) (l l' : PlanLoad sha256),
    l.plan = plan → l'.plan = plan →
    Set.InjOn sha256 {b | b ∈ l.inputs ∨ b ∈ l'.inputs} →
    l.view.factSetId = l'.view.factSetId →
    l.view.sealed = l'.view.sealed ∧ l.view.omittedRanges = l'.view.omittedRanges ∧
      l.view.live = l'.view.live
  storedComplete : ∀ (sha256 : Bytes → Digest) (l : PlanLoad sha256) (key : ResponseKey)
    (stored : CacheKey), l.plan = plan → Set.InjOn sha256 {b | b ∈ l.inputs} →
    key.factSetId = plan.factSetId sha256 → renderCacheKey key l.view = some stored →
    ∀ i < plan.entries.length, ¬FailsAt l.completions i
  pinnedView : ∀ (sha256 : Bytes → Digest) (loads : List (PlanLoad sha256))
    (l : PlanLoad sha256) (residentBytes : IndexView → Option ℕ) (config : CursorConfig)
    (before after : List (RegistryOp IndexView)) (issued resumed : UInt64) (lease : CursorLease)
    (view : IndexView), l ∈ loads → l.plan = plan →
    (∀ l' ∈ loads, l'.plan ≠ plan → OneSegment plan l'.plan) →
    Set.InjOn sha256 {b | ∃ l' ∈ loads, b ∈ l'.inputs} →
    (∀ v nowSecs, .pin v nowSecs ∈ before ++ after → ∃ l' ∈ loads, l'.view = v) →
    ((registryAfter IndexView.factSetId residentBytes config before).pin IndexView.factSetId
      residentBytes config l.view issued).1 = .ok lease →
    ((registryAfter IndexView.factSetId residentBytes config
      (before ++ .pin l.view issued :: after)).resolve lease.factSetId resumed).1 = .ok view →
    view = l.view

theorem ViewIdDetermines.gapsTell {plan : SelectedSealedPlan} (h : ViewIdDetermines plan) :
    plan.GapsTell := by
  by_contra hshared
  -- a digest that keeps the plan apart from everything else is injective on two inputs
  let sha256 : Bytes → Digest := fun b =>
    if b = selectedInput plan then ⟨Vector.replicate 32 0⟩ else ⟨Vector.replicate 32 1⟩
  obtain ⟨l,l',hl,hl',hgaps,hid,hsealed⟩ := loads_collide hshared sha256
  have hinputs : l'.inputs = l.inputs := by
    rw [PlanLoad.inputs,PlanLoad.inputs,hl,hl',hgaps]
  have hsub : ∀ b, b ∈ l.inputs ∨ b ∈ l'.inputs → b = selectedInput plan ∨
      b = partialInput (plan.factSetId sha256) l.view.omittedRanges := by
    intro b hb
    rw [hinputs,or_self,PlanLoad.inputs,hl] at hb
    rcases List.mem_cons.mp hb with hb | hb
    · exact .inl hb
    · split_ifs at hb
      · cases hb
      · exact .inr (List.mem_singleton.mp hb)
  have hne : (⟨Vector.replicate 32 0⟩ : Digest) ≠ ⟨Vector.replicate 32 1⟩ := by decide
  have hplan : sha256 (selectedInput plan) = ⟨Vector.replicate 32 0⟩ := if_pos rfl
  have hpart : sha256 (partialInput (plan.factSetId sha256) l.view.omittedRanges) =
      ⟨Vector.replicate 32 1⟩ := if_neg (selectedInput_ne_partialInput _ _ _).symm
  have hinj : Set.InjOn sha256 {b | b ∈ l.inputs ∨ b ∈ l'.inputs} := by
    intro b hb c hc hbc
    rcases hsub b hb with rfl | rfl <;> rcases hsub c hc with rfl | rfl
    · rfl
    · exact absurd (hplan.symm.trans (hbc.trans hpart)) hne
    · exact absurd (hplan.symm.trans (hbc.symm.trans hpart)) hne
    · rfl
  exact hsealed (h.sameView sha256 l l' hl hl' hinj hid).1

/-- The identity determines the view exactly when gaps tell which segments failed. -/
theorem view_id_determines_iff (plan : SelectedSealedPlan) :
    ViewIdDetermines plan ↔ plan.GapsTell := by
  refine ⟨ViewIdDetermines.gapsTell,fun htell => ⟨?_,?_,?_⟩⟩
  · rintro sha256 l l' rfl hl' hinj hid
    have hview := view_of_factSetId htell (fun hne => absurd hl' hne) hinj hid
    rw [hview]
    exact ⟨rfl,rfl,rfl⟩
  · rintro sha256 l key stored rfl hinj hkey hstored i hi hfails
    have hid : l.view.factSetId = l.plan.factSetId sha256 := by
      rw [renderCacheKey] at hstored
      split_ifs at hstored with hid
      exact hid.trans hkey
    exact complete_of_factSetId htell hinj hid hi hfails
  · rintro sha256 loads l residentBytes config before after issued resumed lease view hmem rfl
      hone hinj hpins hlease hresolve
    rw [(pin_ok hlease).1] at hresolve
    have hretains := @registryAfter_retains _ IndexView.factSetId residentBytes config
      (fun v => ∃ l' ∈ loads, l'.view = v) (before ++ .pin l.view issued :: after) (by
        intro v nowSecs hv
        rcases List.mem_append.mp hv with hv | hv
        · exact hpins v nowSecs (List.mem_append_left _ hv)
        · rcases List.mem_cons.mp hv with he | hv
          · obtain ⟨rfl,rfl⟩ := RegistryOp.pin.inj he
            exact ⟨l,hmem,rfl⟩
          · exact hpins v nowSecs (List.mem_append_right _ hv))
    obtain ⟨hid,l',hmem',rfl⟩ := resolve_ok hretains hresolve
    refine (view_of_factSetId htell (hone l' hmem') (hinj.mono ?_) hid.symm).symm
    rintro b (hb | hb)
    · exact ⟨l,hmem,hb⟩
    · exact ⟨l',hmem',hb⟩

section Sample

def sampleEntry (id minTs maxTs : Int64) (h : SegmentIdInRange id) : DescriptorEntry where
  descriptor := ⟨⟨⟨id,h⟩⟩,minTs,maxTs⟩
  factBuildKey := ⟨⟨Vector.replicate 32 id.toUInt64.toUInt8⟩,⟨Vector.replicate 32 0⟩⟩

/-- A segment that ends before the range and one that meets its first instant. -/
def sampleView : DescriptorView where
  viewGeneration := 1
  sealed := [sampleEntry 1 0 5 segmentIdInRange_one,sampleEntry 2 10 10 segmentIdInRange_two]
  unavailable := []
  live := ⟨1,0,1,.empty⟩

def sampleRange : CoverageSpan := ⟨10,20,by decide⟩

/-- Both selected segments leave the gap [10,11), so whatever the digest is, one failure and
two failures give views with one identity and different facts. -/
theorem clipped_gaps_collide :
    ∃ plan, SelectedSealedPlan.build sampleView sampleRange 8 = .ok plan ∧
      ¬ViewIdDetermines plan ∧ ∀ sha256, ∃ l l' : PlanLoad sha256,
        l.plan = plan ∧ l'.plan = plan ∧ l.view.factSetId = l'.view.factSetId ∧
        l.view.sealed ≠ l'.view.sealed := by
  have hmeet : extendIntersections (sampleView.sealed.map fun e => e.descriptor.span)
      sampleRange 9 = (false,[1]) := by decide
  have hsort : sortDedup [1,0] = [0,1] := sortDedup_of_ascending (by decide) (by simp [or_comm])
  have hselected : sampleView.extendSelectedWithHalo sampleRange 9 = (false,[0,1]) := by
    rw [DescriptorView.extendSelectedWithHalo,hmeet]
    change ((sortDedup [1,0]).length == 9,sortDedup [1,0]) = _
    rw [hsort]
    rfl
  have hgaps : sampleView.extendUnavailableGaps sampleRange 9 = (false,[]) := by
    rw [DescriptorView.extendUnavailableGaps]
    change (decide (9 ≤ (sortDedup ([] : List OmittedRange)).length),sortDedup []) = _
    rw [sortDedup_of_ascending .nil fun _ => Iff.rfl]
    rfl
  obtain ⟨plan,hbuild,hview,hindices,homitted,hrange⟩ :=
    SelectedSealedPlan.build_ok (by decide) (by decide) hselected hgaps
  have hshared : ¬plan.GapsTell := by
    obtain ⟨view,selected,omitted,range,_,_,_,_⟩ := plan
    obtain rfl : view = sampleView := hview
    obtain rfl : selected = [0,1] := hindices
    obtain rfl : range = sampleRange := hrange
    intro h
    have hnodup : (sampleView.sealed.map fun e => gapFor sampleRange e.descriptor).Nodup :=
      h.distinct
    exact absurd hnodup (by decide)
  refine ⟨plan,hbuild,fun h => hshared h.gapsTell,fun sha256 => ?_⟩
  obtain ⟨l,l',hl,hl',-,hid,hsealed⟩ := loads_collide hshared sha256
  exact ⟨l,l',hl,hl',hid,hsealed⟩

end Sample

end PgKronika
