import PgKronika.SidecarUsage

/-! Runs of the sidecar collector: the absences that justify an unlink, and the accounting along
a run. -/
namespace PgKronika
namespace SidecarGc

open ByteCodec CheckedArith FactContainer

/-- The calls on one retention state. -/
inductive Call (φ : Type)
  | collect (disk : Disk φ) (mark : GcMark) (config : GcConfig) (now : ℤ)
  | recordCacheHit (key : FactBuildKey) (now : ℤ)
  | recordPublication (address : SegmentAddress) (key : FactBuildKey) (usage : FileUsage) (now : ℤ)
  | admitPublication (disk : Disk φ) (config : GcConfig) (incomingLogicalBytes : ℕ)

section Run

variable {φ : Type} [ReadAt φ]

/-- What a call inventories, when it gets that far. -/
def inventoried (disk : Disk φ) (mark : GcMark) (config : GcConfig) : Option Inventory :=
  if mark.isAuthoritative = true ∧ mark.live.card ≤ config.maxEntries then
    (scanDirectory disk config.maxEntries).toOption
  else none

def Call.next (state : GcState) : Call φ → GcState
  | .collect disk mark config now => (SidecarGc.collect disk mark config now state).state
  | .recordCacheHit key now => state.recordCacheHit key now
  | .recordPublication address key usage now => state.recordPublication address key usage now
  | .admitPublication disk config incoming => (SidecarGc.admitPublication disk config incoming state).2

def runState (calls : List (Call φ)) : GcState := calls.foldl Call.next {}

/-- A complete collection whose mark lacks a key. -/
structure Absence where
  generation : UInt64
  seenAt : ℤ

/-- What one call says about the use of a key. -/
def Call.absences (key : FactBuildKey) (before : List Absence) : Call φ → List Absence
  | .collect disk mark config now =>
    if key ∈ mark.live then []
    else if (inventoried disk mark config).isSome then before++[⟨mark.generation,now⟩]
    else before
  | .recordCacheHit used _ => if used = key then [] else before
  | .recordPublication _ used _ _ => if used = key then [] else before
  | .admitPublication .. => before

/-- The absences of a key since it was last proved to be in use. -/
def absences (key : FactBuildKey) (calls : List (Call φ)) : List Absence :=
  calls.foldl (Call.absences key) []

/-- The derived files after a call, once an inventory knows them. -/
def Call.ledger (state : GcState) (before : Option Ledger) : Call φ → Option Ledger
  | .collect disk mark config now => match inventoried disk mark config with
    | some inventory => some (inventory.kept (SidecarGc.collect disk mark config now state))
    | none => before
  | .recordCacheHit .. => before
  | .recordPublication address _ usage _ => before.map fun ledger => ledger.publish address usage
  | .admitPublication disk config _ => match before with
    | some ledger => some ledger
    | none => (scanDirectory disk config.maxEntries).toOption.map Inventory.ledger

/-- The files along a run: those an inventory found, less those unlinked, with the publications
since then. -/
def runLedger (calls : List (Call φ)) : Option Ledger :=
  (calls.foldl (fun run call => (call.next run.1,call.ledger run.1 run.2))
    ((({} : GcState),(none : Option Ledger)))).2

/-- Enough absences of distinct generations, the first of them old enough. -/
def GraceHeld (config : GcConfig) (now : ℤ) (absences : List Absence) : Prop :=
  ∃ first rest, (first::rest).Sublist absences ∧ ((first::rest).map Absence.generation).Nodup ∧
    config.graceGenerations ≤ (first::rest).length ∧ first.seenAt+config.wallGrace ≤ now

/-- What retention promises of one call after a run. -/
def Promised (calls : List (Call φ)) : Call φ → Prop
  | .collect disk mark config now =>
    let collection := SidecarGc.collect disk mark config now (runState calls)
    (∀ candidate ∈ collection.unlinkedSidecars,
      GraceHeld config now (absences candidate.key (calls++[.collect disk mark config now]))) ∧
    match inventoried disk mark config with
    | some inventory => collection.outcome.usage = (inventory.kept collection).usage
    | none => collection.state = runState calls ∧ collection.unlinkedSidecars = [] ∧
        collection.unlinkedArtifacts = []
  | _ => True

/-- The quota of a state is that of the files. -/
def QuotaExact (calls : List (Call φ)) : Prop :=
  ∀ ledger ∈ runLedger calls, ∃ quota ∈ (runState calls).quota, quota.usage = ledger.usage

/-- Retention honours its grace and keeps exact accounts all along a run. -/
def Honours (calls : List (Call φ)) : Prop :=
  ∀ before call after, calls = before++call::after →
    Promised before call ∧ QuotaExact (before++[call])

/-- A generation that counted for a key earlier does not return after another one. -/
def FreshGeneration (absences : List Absence) (generation : UInt64) : Prop :=
  generation ∈ absences.map Absence.generation →
    absences.getLast?.map Absence.generation = some generation

/-- The calls that retention is right for: a mark that goes nowhere does not have a pending key
live, generations do not return, no unlinked name misses its synchronization, and totals are 64-bit
numbers. -/
def Sound (calls : List (Call φ)) : Call φ → Prop
  | .collect disk mark config _ => match inventoried disk mark config with
    | some inventory =>
      (∀ key ∉ mark.live, (runState calls).pending key ≠ none →
        FreshGeneration (absences key calls) mark.generation) ∧
      Syncs disk inventory.locations ∧ inventory.ledger.Fits
    | none => ∀ key ∈ mark.live, (runState calls).pending key = none
  | .recordCacheHit .. => True
  | .recordPublication address _ usage _ =>
    ∀ ledger ∈ runLedger calls, (ledger.publish address usage).Fits
  | .admitPublication disk config _ => (runState calls).quota = none →
    ∀ inventory, scanDirectory disk config.maxEntries = .ok inventory → inventory.ledger.Fits

end Run

/-! Pending entries against the absences of their keys. -/

/-- An entry counts absences that were seen, from the first one on. -/
structure Counted (absences : List Absence) (entry : PendingEntry) : Prop where
  seen : ∃ first rest, (first::rest).Sublist absences ∧ ((first::rest).map Absence.generation).Nodup ∧
    entry.observedGenerations ≤ (first::rest).length ∧ first.seenAt = entry.firstAbsentAt
  last : absences.getLast?.map Absence.generation = some entry.lastGeneration

namespace Counted

variable {absences : List Absence} {entry : PendingEntry} {generation : UInt64} {now : ℤ}

theorem observe_new : Counted (absences++[⟨generation,now⟩]) (.observe none generation now) where
  seen := ⟨⟨generation,now⟩,[],List.sublist_append_right _ _,by simp,
    by simp [PendingEntry.observe],by simp [PendingEntry.observe]⟩
  last := by simp [PendingEntry.observe]

/-- A second look under the same generation. -/
theorem observe_again (h : Counted absences entry) (hg : entry.lastGeneration = generation) :
    Counted absences (.observe (some entry) generation now) := by
  obtain ⟨first,rest,hsub,hn,hle,hfirst⟩ := h.seen
  subst hg
  by_cases hzero : entry.observedGenerations = 0
  · refine ⟨⟨first,rest,hsub,hn,?_,?_⟩,?_⟩
    · simp [PendingEntry.observe,hzero]
    · simpa [PendingEntry.observe,hzero] using hfirst
    · simpa [PendingEntry.observe,hzero] using h.last
  · simpa [PendingEntry.observe,hzero] using h

/-- A look under the generation of a later mark. -/
theorem observe_next (h : Counted absences entry) (hfresh : FreshGeneration absences generation) :
    Counted (absences++[⟨generation,now⟩]) (.observe (some entry) generation now) := by
  by_cases hg : entry.lastGeneration = generation
  · obtain ⟨first,rest,hsub,hn,hle,hfirst⟩ := (h.observe_again hg).seen
    refine ⟨⟨first,rest,hsub.trans (List.sublist_append_left _ _),hn,hle,hfirst⟩,?_⟩
    by_cases hzero : entry.observedGenerations = 0 <;> simp [PendingEntry.observe,hzero,hg]
  · obtain ⟨first,rest,hsub,hn,hle,hfirst⟩ := h.seen
    have hnew : generation ∉ absences.map Absence.generation := fun hmem =>
      hg (Option.some.inj (h.last.symm.trans (hfresh hmem)))
    have hnot : generation ∉ (first::rest).map Absence.generation := fun hmem =>
      hnew ((hsub.map _).subset hmem)
    refine ⟨⟨first,rest++[⟨generation,now⟩],?_,?_,?_,?_⟩,?_⟩
    · exact hsub.append (List.Sublist.refl _)
    · rw [← List.cons_append,List.map_append]
      refine List.nodup_append.mpr ⟨hn,by simp,?_⟩
      intro a ha b hb heq
      simp only [List.map_cons,List.map_nil,List.mem_singleton] at hb
      exact hnot (hb ▸ heq ▸ ha)
    · simp only [PendingEntry.observe,Option.getD_some,hg,ne_eq,not_false_eq_true,or_true,if_true,
        List.length_cons,List.length_append,List.length_nil] at hle ⊢
      omega
    · simpa [PendingEntry.observe,hg] using hfirst
    · simp [PendingEntry.observe,hg]

theorem graceHeld (h : Counted absences entry) {config : GcConfig}
    (hdue : entry.due config now = true) : GraceHeld config now absences := by
  obtain ⟨first,rest,hsub,hn,hle,hfirst⟩ := h.seen
  simp only [PendingEntry.due,Bool.and_eq_true,decide_eq_true_eq,oldEnough_iff] at hdue
  exact ⟨first,rest,hsub,hn,hdue.1.trans hle,hfirst ▸ hdue.2⟩

end Counted

section Grace

variable {φ : Type} [ReadAt φ] {disk : Disk φ} {mark : GcMark} {config : GcConfig} {now : ℤ}

/-- The absences of a key once the complete collection of `mark` has seen them. -/
def absencesAfter (mark : GcMark) (now : ℤ) (before : FactBuildKey → List Absence)
    (key : FactBuildKey) : List Absence :=
  if key ∈ mark.live then [] else before key++[⟨mark.generation,now⟩]

/-- The sweep has counted the absences of the keys it met; the others wait for it. -/
structure Sweeping (config : GcConfig) (mark : GcMark) (now : ℤ)
    (before : FactBuildKey → List Absence) (start : FactBuildKey → Option PendingEntry)
    (remaining : List SidecarCandidate) (sweep : SidecarSweep) : Prop where
  pending : ∀ key entry, sweep.state.pending key = some entry →
    Counted (absencesAfter mark now before key) entry ∨
      start key = some entry ∧ key ∈ remaining.map SidecarCandidate.key
  unlinked : ∀ candidate ∈ sweep.unlinked,
    GraceHeld config now (absencesAfter mark now before candidate.key)

variable {before : FactBuildKey → List Absence} {start : FactBuildKey → Option PendingEntry}

/-- The entry of the key at hand is counted with this collection. -/
theorem Sweeping.observed {candidate : SidecarCandidate} {remaining : List SidecarCandidate}
    {sweep : SidecarSweep}
    (hstart : ∀ key entry, start key = some entry → Counted (before key) entry)
    (hfresh : ∀ key ∉ mark.live, start key ≠ none → FreshGeneration (before key) mark.generation)
    (h : Sweeping config mark now before start remaining sweep)
    (hlive : candidate.key ∉ mark.live) :
    Counted (absencesAfter mark now before candidate.key)
      (.observe (sweep.state.pending candidate.key) mark.generation now) := by
  have hafter : absencesAfter mark now before candidate.key =
      before candidate.key++[⟨mark.generation,now⟩] := if_neg hlive
  cases hp : sweep.state.pending candidate.key with
  | none =>
    rw [hafter]
    exact .observe_new
  | some entry =>
    rcases h.pending _ _ hp with hcounted | ⟨hs,_⟩
    · refine hcounted.observe_again ?_
      have hlast := hcounted.last
      rw [hafter] at hlast
      simpa [eq_comm] using hlast
    · rw [hafter]
      exact (hstart _ _ hs).observe_next (hfresh _ hlive (by simp [hs]))

/-- The next candidate sets the entry of its key to one that is counted, or to none. -/
theorem Sweeping.setPending {candidate : SidecarCandidate} {remaining : List SidecarCandidate}
    {sweep next : SidecarSweep}
    (h : Sweeping config mark now before start (candidate::remaining) sweep)
    (entry : Option PendingEntry)
    (hpending : next.state.pending = Function.update sweep.state.pending candidate.key entry)
    (hentry : ∀ e ∈ entry, Counted (absencesAfter mark now before candidate.key) e)
    (hunlinked : ∀ c ∈ next.unlinked, c ∈ sweep.unlinked ∨ c = candidate ∧
      GraceHeld config now (absencesAfter mark now before candidate.key)) :
    Sweeping config mark now before start remaining next := by
  constructor
  · intro key e he
    rw [hpending] at he
    by_cases hkey : key = candidate.key
    · subst hkey
      rw [Function.update_self] at he
      exact .inl (hentry e he)
    · rw [Function.update_of_ne hkey] at he
      rcases h.pending key e he with hcounted | ⟨hs,hmem⟩
      · exact .inl hcounted
      · simp only [List.map_cons,List.mem_cons,hkey,false_or] at hmem
        exact .inr ⟨hs,hmem⟩
  · intro c hc
    rcases hunlinked c hc with hold | ⟨rfl,hgrace⟩
    · exact h.unlinked c hold
    · exact hgrace

theorem Sweeping.step (disk : Disk φ) {candidate : SidecarCandidate} {remaining : List SidecarCandidate}
    {sweep : SidecarSweep}
    (hstart : ∀ key entry, start key = some entry → Counted (before key) entry)
    (hfresh : ∀ key ∉ mark.live, start key ≠ none → FreshGeneration (before key) mark.generation)
    (h : Sweeping config mark now before start (candidate::remaining) sweep) :
    Sweeping config mark now before start remaining
      (sweepSidecar disk mark config now sweep candidate) := by
  rcases sweepSidecar_step disk mark config now sweep candidate with
    ⟨hstep,_⟩ | ⟨hlive,entry,rfl,hrest⟩
  · rw [hstep]
    exact h.setPending none rfl (by simp) fun c hc => .inl hc
  · have hnot : candidate.key ∉ mark.live := by
      intro hmem
      simp [SidecarSweep.protects,hmem] at hlive
    have hcounted := h.observed hstart hfresh hnot
    rcases hrest with hstep | ⟨hdue,⟨usage,_,hstep⟩ | ⟨_,hstep⟩⟩
    · rw [hstep]
      exact h.setPending (some _) rfl (by simpa using hcounted) fun c hc => .inl hc
    · rw [hstep]
      refine h.setPending none rfl (by simp) fun c hc => ?_
      have hmem : c ∈ sweep.unlinked ∨ c = candidate := by
        simp only [SidecarSweep.countDeleted,SidecarSweep.note] at hc
        split_ifs at hc <;> simp_all
      exact hmem.imp_right fun heq => ⟨heq,hcounted.graceHeld hdue⟩
    · rw [hstep]
      refine h.setPending (some _) rfl (by simpa using hcounted) fun c hc => ?_
      have hmem : c ∈ sweep.unlinked ∨ c = candidate := by
        simp only [SidecarSweep.keepPending,SidecarSweep.note] at hc
        split_ifs at hc <;> simp_all
      exact hmem.imp_right fun heq => ⟨heq,hcounted.graceHeld hdue⟩

theorem Sweeping.foldl (disk : Disk φ) {remaining : List SidecarCandidate} {sweep : SidecarSweep}
    (hstart : ∀ key entry, start key = some entry → Counted (before key) entry)
    (hfresh : ∀ key ∉ mark.live, start key ≠ none → FreshGeneration (before key) mark.generation)
    (h : Sweeping config mark now before start remaining sweep) :
    Sweeping config mark now before start []
      (remaining.foldl (sweepSidecar disk mark config now) sweep) := by
  induction remaining generalizing sweep with
  | nil => exact h
  | cons candidate remaining ih => exact ih (h.step disk hstart hfresh)

/-- A complete collection counts the absences of every pending key, and unlinks after the grace. -/
theorem collectInventory_grace (disk : Disk φ) (config : GcConfig) (now : ℤ)
    (inventory : Inventory) {state : GcState}
    (hstart : ∀ key entry, state.pending key = some entry → Counted (before key) entry)
    (hfresh : ∀ key ∉ mark.live, state.pending key ≠ none →
      FreshGeneration (before key) mark.generation) :
    (∀ key entry, (collectInventory disk mark config now inventory state).state.pending key =
      some entry → Counted (absencesAfter mark now before key) entry) ∧
    ∀ candidate ∈ (collectInventory disk mark config now inventory state).unlinkedSidecars,
      GraceHeld config now (absencesAfter mark now before candidate.key) := by
  let stale := deleteStaleArtifacts disk config now inventory inventory.outcome inventory.quotaState
  have hopening : Sweeping config mark now before state.pending inventory.sidecars
      ⟨stale.outcome,({state with lastAuthoritativeMark := some mark} : GcState).retainSeen
        (inventory.sidecars.map SidecarCandidate.key) config.wallGrace now,stale.quota,[]⟩ := by
    constructor
    · intro key entry he
      simp only [GcState.retainSeen] at he
      split_ifs at he with hmem
      exact .inr ⟨he,hmem⟩
    · simp
  have hfinal := hopening.foldl disk hstart hfresh
  exact ⟨fun key entry he => (hfinal.pending key entry he).resolve_right (by simp),hfinal.unlinked⟩

end Grace

/-! Runs. -/

section Runs

variable {φ : Type} [ReadAt φ]

theorem inventoried_eq_some {disk : Disk φ} {mark : GcMark} {config : GcConfig}
    {inventory : Inventory} (h : inventoried disk mark config = some inventory) :
    scanDirectory disk config.maxEntries = .ok inventory ∧ ∀ now state,
      collect disk mark config now state = collectInventory disk mark config now inventory state := by
  unfold inventoried at h
  split_ifs at h with hmark
  have hscan : scanDirectory disk config.maxEntries = .ok inventory := by
    cases hs : scanDirectory disk config.maxEntries with
    | error e =>
      rw [hs] at h
      cases h
    | ok other =>
      rw [hs] at h
      cases h
      rfl
  refine ⟨hscan,fun now state => ?_⟩
  unfold collect
  rw [if_neg (by simp [hmark.1]),if_neg (by omega),hscan]

/-- A call without a complete inventory changes nothing and unlinks nothing. -/
theorem inventoried_eq_none {disk : Disk φ} {mark : GcMark} {config : GcConfig}
    (h : inventoried disk mark config = none) (now : ℤ) (state : GcState) :
    (collect disk mark config now state).state = state ∧
      (collect disk mark config now state).unlinkedSidecars = [] ∧
      (collect disk mark config now state).unlinkedArtifacts = [] := by
  unfold collect
  by_cases hmark : mark.isAuthoritative = false
  · simp only [if_pos hmark]
    exact ⟨rfl,rfl,rfl⟩
  by_cases hcard : config.maxEntries < mark.live.card
  · simp only [if_neg hmark,if_pos hcard]
    exact ⟨rfl,rfl,rfl⟩
  simp only [if_neg hmark,if_neg hcard]
  cases hs : scanDirectory disk config.maxEntries with
  | error e =>
    obtain ⟨error,scanned⟩ := e
    cases error <;> exact ⟨rfl,rfl,rfl⟩
  | ok inventory =>
    have hcomplete : mark.isAuthoritative = true ∧ mark.live.card ≤ config.maxEntries :=
      ⟨by simpa using hmark,by omega⟩
    simp [inventoried,hcomplete,hs,Except.toOption] at h

theorem runState_append (calls : List (Call φ)) (call : Call φ) :
    runState (calls++[call]) = call.next (runState calls) := by
  simp [runState]

theorem absences_append (key : FactBuildKey) (calls : List (Call φ)) (call : Call φ) :
    absences key (calls++[call]) = call.absences key (absences key calls) := by
  simp [absences]

theorem runLedger_append (calls : List (Call φ)) (call : Call φ) :
    runLedger (calls++[call]) = call.ledger (runState calls) (runLedger calls) := by
  have hstate : ∀ (calls : List (Call φ)) state ledger,
      (calls.foldl (fun run call => (call.next run.1,call.ledger run.1 run.2))
        ((state,ledger) : GcState × Option Ledger)).1 = calls.foldl Call.next state := by
    intro calls
    induction calls with
    | nil => simp
    | cons call calls ih => exact fun state ledger => ih _ _
  simp [runLedger,runState,hstate]

/-- What is known of the state after a run. -/
structure Tracked (calls : List (Call φ)) : Prop where
  pending : ∀ key entry, (runState calls).pending key = some entry →
    Counted (absences key calls) entry
  unknown : runLedger calls = none → (runState calls).quota = none
  known : ∀ ledger, runLedger calls = some ledger →
    ∃ quota, (runState calls).quota = some quota ∧ Balanced quota ledger

theorem Tracked.nil : Tracked ([] : List (Call φ)) := by
  constructor <;> simp [runState,runLedger]

theorem Tracked.quotaExact {calls : List (Call φ)} (h : Tracked calls) : QuotaExact calls := by
  intro ledger hledger
  obtain ⟨quota,hquota,hbalanced⟩ := h.known ledger hledger
  exact ⟨quota,hquota,hbalanced.usage⟩

section Step

variable {calls : List (Call φ)} {disk : Disk φ} {mark : GcMark} {config : GcConfig} {now : ℤ}

theorem absences_inventoried {inventory : Inventory}
    (h : inventoried disk mark config = some inventory) (key : FactBuildKey) :
    absences key (calls++[.collect disk mark config now]) =
      absencesAfter mark now (fun key => absences key calls) key := by
  rw [absences_append]
  simp [Call.absences,absencesAfter,h]

/-- A collection with an inventory keeps its promise. -/
theorem Tracked.inventoried (h : Tracked calls) {inventory : Inventory}
    (hinv : inventoried disk mark config = some inventory)
    (hsound : Sound calls (.collect disk mark config now)) :
    Promised calls (.collect disk mark config now) ∧
      Tracked (calls++[.collect disk mark config now]) := by
  obtain ⟨hscan,hcollect⟩ := inventoried_eq_some hinv
  simp only [Sound,hinv] at hsound
  obtain ⟨hfresh,hsync,hfits⟩ := hsound
  obtain ⟨places,hplaces,hscanned⟩ := scanDirectory_scanned hscan
  obtain ⟨quota,hquota,haccounted⟩ := collectInventory_accounted disk mark config now hscanned
    hplaces hfits hsync (runState calls)
  obtain ⟨hpending,hunlinked⟩ := collectInventory_grace disk config now inventory h.pending hfresh
  constructor
  · simp only [Promised,hinv,hcollect]
    refine ⟨fun candidate hcandidate => ?_,haccounted.usage.trans haccounted.balanced.usage⟩
    rw [absences_inventoried hinv]
    exact hunlinked candidate hcandidate
  · constructor
    · intro key entry he
      rw [runState_append,Call.next,hcollect] at he
      rw [absences_inventoried hinv]
      exact hpending key entry he
    · simp [runLedger_append,Call.ledger,hinv]
    · intro ledger hledger
      simp only [runLedger_append,Call.ledger,hinv,hcollect,Option.some.injEq] at hledger
      rw [runState_append,Call.next,hcollect]
      exact ⟨quota,hquota,hledger ▸ haccounted.balanced⟩

/-- A collection that goes nowhere leaves everything as it was. -/
theorem Tracked.skipped (h : Tracked calls) (hinv : SidecarGc.inventoried disk mark config = none)
    (hsound : Sound calls (.collect disk mark config now)) :
    Promised calls (.collect disk mark config now) ∧
      Tracked (calls++[.collect disk mark config now]) := by
  obtain ⟨hstate,hsidecars,hartifacts⟩ := inventoried_eq_none hinv now (runState calls)
  simp only [Sound,hinv] at hsound
  have hnext : runState (calls++[.collect disk mark config now]) = runState calls := by
    rw [runState_append,Call.next,hstate]
  have hledger : runLedger (calls++[.collect disk mark config now]) = runLedger calls := by
    simp [runLedger_append,Call.ledger,hinv]
  constructor
  · simp only [Promised,hinv]
    exact ⟨by simp [hsidecars],hstate,hsidecars,hartifacts⟩
  · constructor
    · intro key entry he
      rw [hnext] at he
      have hlive : key ∉ mark.live := fun hmem => by simp [hsound key hmem] at he
      rw [absences_append]
      simp only [Call.absences,if_neg hlive,hinv,Option.isSome_none,Bool.false_eq_true,if_false]
      exact h.pending key entry he
    · rw [hnext,hledger]
      exact h.unknown
    · rw [hnext,hledger]
      exact h.known

/-- A use of a key forgets its absences together with its entry. -/
theorem Tracked.used (h : Tracked calls) {call : Call φ} {used : FactBuildKey}
    (hpending : (call.next (runState calls)).pending =
      Function.update (runState calls).pending used none)
    (habsences : ∀ key, call.absences key (absences key calls) =
      if used = key then [] else absences key calls) :
    ∀ key entry, (runState (calls++[call])).pending key = some entry →
      Counted (absences key (calls++[call])) entry := by
  intro key entry he
  rw [runState_append,hpending] at he
  rw [absences_append,habsences]
  by_cases hkey : key = used
  · simp [hkey] at he
  · rw [Function.update_of_ne hkey] at he
    rw [if_neg fun heq => hkey heq.symm]
    exact h.pending key entry he

theorem Tracked.published (h : Tracked calls) {address : SegmentAddress} {key : FactBuildKey}
    {usage : FileUsage} (hsound : Sound calls (.recordPublication address key usage now)) :
    Tracked (calls++[.recordPublication address key usage now]) := by
  constructor
  · exact h.used rfl fun _ => rfl
  · intro hledger
    rw [runLedger_append,Call.ledger,Option.map_eq_none_iff] at hledger
    rw [runState_append]
    simp [Call.next,GcState.recordPublication,GcState.recordCacheHit,GcState.setPending,
      h.unknown hledger]
  · intro ledger hledger
    rw [runLedger_append,Call.ledger,Option.map_eq_some_iff] at hledger
    obtain ⟨before,hbefore,rfl⟩ := hledger
    obtain ⟨quota,hquota,hbalanced⟩ := h.known before hbefore
    refine ⟨_,?_,hbalanced.publish address (hsound before hbefore)⟩
    rw [runState_append]
    simp [Call.next,GcState.recordPublication,GcState.recordCacheHit,GcState.setPending,hquota]

theorem Tracked.admitted (h : Tracked calls) {incoming : ℕ}
    (hsound : Sound calls (.admitPublication disk config incoming)) :
    Tracked (calls++[.admitPublication disk config incoming]) := by
  have hfresh : ∀ quota, (runState calls).quota = some quota →
      runState (calls++[.admitPublication disk config incoming]) = runState calls := by
    intro quota hquota
    rw [runState_append]
    simp [Call.next,admitPublication,hquota]
  have hledger := runLedger_append calls (.admitPublication disk config incoming)
  cases hold : runLedger calls with
  | some ledger =>
    obtain ⟨quota,hquota,hbalanced⟩ := h.known ledger hold
    simp only [Call.ledger,hold] at hledger
    constructor
    · rw [hfresh quota hquota]
      intro key entry he
      rw [absences_append]
      exact h.pending key entry he
    · simp [hledger]
    · intro other hother
      rw [hfresh quota hquota]
      rw [hledger] at hother
      cases hother
      exact ⟨quota,hquota,hbalanced⟩
  | none =>
    have hquota := h.unknown hold
    simp only [Call.ledger,hold] at hledger
    cases hs : scanDirectory disk config.maxEntries with
    | error e =>
      have hstate : runState (calls++[.admitPublication disk config incoming]) = runState calls := by
        rw [runState_append]
        obtain ⟨error,scanned⟩ := e
        cases error <;> simp [Call.next,admitPublication,hquota,hs]
      constructor
      · rw [hstate]
        intro key entry he
        rw [absences_append]
        exact h.pending key entry he
      · exact fun _ => hstate ▸ hquota
      · simp [hledger,hs,Except.toOption]
    | ok inventory =>
      have hstate : runState (calls++[.admitPublication disk config incoming]) =
          {runState calls with quota := some inventory.quotaState} := by
        rw [runState_append]
        simp [Call.next,admitPublication,hquota,hs]
      obtain ⟨places,hplaces,hscanned⟩ := scanDirectory_scanned hs
      constructor
      · rw [hstate]
        intro key entry he
        rw [absences_append]
        exact h.pending key entry he
      · simp [hledger,hs,Except.toOption]
      · intro ledger hother
        rw [hledger,hs] at hother
        cases hother
        rw [hstate]
        exact ⟨_,rfl,hscanned.balanced hplaces (hsound hquota inventory hs)⟩

theorem Tracked.step (h : Tracked calls) {call : Call φ} (hsound : Sound calls call) :
    Promised calls call ∧ Tracked (calls++[call]) := by
  cases call with
  | collect disk mark config now =>
    cases hinv : SidecarGc.inventoried disk mark config with
    | some inventory => exact h.inventoried hinv hsound
    | none => exact h.skipped hinv hsound
  | recordCacheHit key now =>
    refine ⟨trivial,h.used rfl fun _ => rfl,?_,?_⟩
    · rw [runLedger_append,runState_append]
      exact h.unknown
    · rw [runLedger_append,runState_append]
      exact h.known
  | recordPublication address key usage now => exact ⟨trivial,h.published hsound⟩
  | admitPublication disk config incoming => exact ⟨trivial,h.admitted hsound⟩

end Step

/-- Every call of a run is sound where it is made. -/
def Steady (calls : List (Call φ)) : Prop :=
  ∀ before call after, calls = before++call::after → Sound before call

theorem Steady.tracked {calls : List (Call φ)} (h : Steady calls) : Tracked calls := by
  induction calls using List.reverseRecOn with
  | nil => exact .nil
  | append_singleton calls call ih =>
    have hbefore : Steady calls := by
      rintro before other after rfl
      exact h before other (after++[call]) (by simp)
    exact ((ih hbefore).step (h calls call [] rfl)).2

/-- Steady runs honour the grace of every sidecar and keep exact accounts. -/
theorem steady_honours (calls : List (Call φ)) (h : Steady calls) : Honours calls := by
  rintro before call after rfl
  have hbefore : Steady before := by
    rintro first other rest rfl
    exact h first other (rest++call::after) (by simp)
  have hstep := hbefore.tracked.step (h before call after rfl)
  exact ⟨hstep.1,hstep.2.quotaExact⟩

end Runs

/-! One tree: a single sidecar, admitted with nothing but a coverage record of one byte. -/

/-- The directory entry of a block of that sidecar. -/
def loneEntry (kind : BlockKind) : Bytes :=
  u32Le kind.code ++ u16Le (if kind = .uiSummary then 1 else 4) ++
    u16Le (if kind = .sourceManifest then 1 else 3) ++ u64Le 0 ++
    u64Le (if kind.code ≤ 4 then 824 else 825) ++ u64Le (if kind = .lossCoverage then 1 else 0) ++
    u64Le (if kind = .lossCoverage then 1 else 0) ++ u32Le (if kind = .lossCoverage then 1 else 0) ++
    u32Le 0 ++ u64Le 0 ++ u64Le 0

def loneFactKey : Bytes :=
  [249,123,165,30,2,150,47,89,80,79,158,20,52,111,67,92,48,28,252,91,26,208,77,210,246,114,122,58,
    207,31,60,94]

-- Only the kernel looks inside: unfolding the file by accident is slow.
@[irreducible] def loneSidecar : Bytes :=
  factMagic ++ u16Le 3 ++ u16Le 184 ++ u16Le 1 ++ u16Le 0 ++ u32Le 4 ++ u32Le 8 ++ u32Le 1 ++
    u32Le 2 ++ u64Le 0 ++ u64Le 0 ++ u64Le 0 ++ List.replicate 32 0 ++ loneFactKey ++
    List.replicate 32 0 ++ u64Le 184 ++ u32Le 10 ++ u16Le 64 ++ u16Le 1 ++ u64Le 825 ++
    u32Le 2476232204 ++ u32Le 1984834244 ++ BlockKind.baseline.flatMap loneEntry ++ [0]

def loneAddress : SegmentAddress := ⟨⟨0,segmentIdInRange_zero⟩⟩

def loneKey : FactBuildKey :=
  ⟨⟨Vector.ofFn fun i => loneFactKey.getD i 0⟩,⟨Vector.replicate 32 0⟩⟩

def loneCandidate : SidecarCandidate := ⟨loneAddress,loneKey,1,2,⟨825,1024⟩⟩

def loneTree : TreeScan where
  segments := [⟨loneAddress,4096,some 825⟩]
  orphanOverviews := []
  temporaries := []
  visitedEntries := 2
  distinct := by decide

/-- The tree, or a tree that cannot be read to its end. -/
def loneDisk (readable : Bool) : Disk Bytes :=
  let file := some ⟨some ⟨1,2,825,2,some 0⟩,loneSidecar⟩
  { scan := fun _ => if readable then .ok loneTree else .error .other
    openOvf := fun _ => file
    openInvalidOvf := fun _ => file
    openTemporary := fun _ => none
    reopenOvf := fun _ => file
    removal := fun _ => ⟨.ok (some (1,2)),true,true⟩ }

/-- Two generations, no wait. -/
def loneConfig : GcConfig := ⟨10,2,0,0,none,none,by decide,by decide,by decide⟩

def loneInventory : Inventory := ⟨2,⟨⟨1,825,1024⟩,{},{}⟩,[loneCandidate],[]⟩

def absentAt (generation : UInt64) (now : ℤ) : Call Bytes :=
  .collect (loneDisk true) (.authoritative generation ∅) loneConfig now

/-- The key is live again, but the inventory fails. -/
def liveUnread (generation : UInt64) (now : ℤ) : Call Bytes :=
  .collect (loneDisk false) (.authoritative generation {loneKey}) loneConfig now

set_option maxRecDepth 5000 in
theorem lone_validated :
    validateSidecar (⟨some ⟨1,2,825,2,some 0⟩,loneSidecar⟩ : OpenedFile Bytes) loneAddress =
      some loneCandidate := by
  decide +kernel

theorem scanSegment_valid {φ : Type} [ReadAt φ] {disk : Disk φ} {inventory : Inventory}
    {segment : SegmentArtifacts} {file : OpenedFile φ} {candidate : SidecarCandidate}
    (hbytes : segment.ovfBytes.isNone = false) (hopen : disk.openOvf segment.address = some file)
    (hvalid : validateSidecar file segment.address = some candidate) :
    scanSegment disk inventory segment = .ok (inventory.addSidecar candidate) := by
  rw [scanSegment,hbytes]
  simp [hopen,hvalid]

theorem scanDirectory_single {φ : Type} [ReadAt φ] {disk : Disk φ} {maxEntries : ℕ} {tree : TreeScan}
    {segment : SegmentArtifacts} {inventory : Inventory} (hscan : disk.scan maxEntries = .ok tree)
    (hsegments : tree.segments = [segment]) (horphans : tree.orphanOverviews = [])
    (htemporaries : tree.temporaries = [])
    (hsegment : scanSegment disk { scanned := tree.visitedEntries } segment = .ok inventory) :
    scanDirectory disk maxEntries = .ok inventory := by
  simp only [scanDirectory,hscan,Except.mapError,bind,Except.bind,hsegments,horphans,htemporaries,
    List.foldlM_cons,List.foldlM_nil,hsegment]
  rfl

theorem lone_inventoried (generation : UInt64) :
    inventoried (loneDisk true) (.authoritative generation ∅) loneConfig =
      some loneInventory := by
  have hsegment : scanSegment (loneDisk true) ({ scanned := 2 } : Inventory)
      ⟨loneAddress,4096,some 825⟩ = .ok (Inventory.addSidecar { scanned := 2 } loneCandidate) :=
    scanSegment_valid rfl rfl lone_validated
  have htree : (loneDisk true).scan loneConfig.maxEntries = .ok loneTree := rfl
  have hscan : scanDirectory (loneDisk true) loneConfig.maxEntries = .ok loneInventory :=
    scanDirectory_single htree rfl rfl rfl hsegment
  rw [inventoried,if_pos ⟨rfl,by simp [GcMark.authoritative]⟩,hscan]
  rfl

theorem lone_deleted :
    deleteSidecar (loneDisk true) loneCandidate = (true,.ok (some ⟨825,1024⟩)) := by
  have haddress : loneCandidate.address = loneAddress := rfl
  have hreopen : (loneDisk true).reopenOvf loneAddress =
      some ⟨some ⟨1,2,825,2,some 0⟩,loneSidecar⟩ := rfl
  have hvalid : ((loneDisk true).reopenOvf loneCandidate.address).bind (fun file =>
      validateSidecar file loneCandidate.address) = some loneCandidate := by
    rw [haddress,hreopen,Option.bind_some,lone_validated]
  rw [deleteSidecar,hvalid]
  dsimp only
  rw [if_neg (by simp)]
  rfl

theorem lone_collect (generation : UInt64) (now : ℤ) (state : GcState) :
    collect (loneDisk true) (.authoritative generation ∅) loneConfig now state =
      collectInventory (loneDisk true) (.authoritative generation ∅) loneConfig now loneInventory state :=
  (inventoried_eq_some (lone_inventoried generation)).2 now state

/-- The first absence of the key is pending, also after a failed inventory under its live mark. -/
theorem lone_pending :
    (runState [absentAt 1 0,liveUnread 2 1]).pending loneKey = some ⟨0,1,1⟩ ∧
      (runState [absentAt 1 0,liveUnread 2 1]).recentlyPublished loneKey = none := by
  have hunread : inventoried (loneDisk false) (.authoritative 2 {loneKey}) loneConfig = none := by
    simp [inventoried,scanDirectory,loneDisk,Except.mapError,Except.toOption,bind,Except.bind]
  have hfirst : runState ([]++[absentAt 1 0]) = (collectInventory (loneDisk true)
      (.authoritative 1 ∅) loneConfig 0 loneInventory {}).state := by
    rw [runState_append,absentAt,Call.next,lone_collect]
    rfl
  have hstate : runState ([absentAt 1 0]++[liveUnread 2 1]) = runState [absentAt 1 0] := by
    rw [runState_append,liveUnread,Call.next]
    exact (inventoried_eq_none hunread 1 _).1
  rw [List.nil_append] at hfirst
  rw [List.cons_append,List.nil_append] at hstate
  rw [hstate,hfirst]
  have hdue : PendingEntry.due ⟨0,1,1⟩ loneConfig 0 = false := by decide
  have hkey : loneCandidate.key = loneKey := rfl
  simp [loneInventory,collectInventory,sweepSidecar,SidecarSweep.protects,GcState.retainSeen,GcMark.authoritative,
    hkey,hdue,SidecarSweep.keepPending,GcState.setPending,PendingEntry.observe]

theorem lone_unlinked (state : GcState) (hp : state.pending loneKey = some ⟨0,1,1⟩)
    (hr : state.recentlyPublished loneKey = none) :
    loneCandidate ∈ (collect (loneDisk true) (.authoritative 3 ∅) loneConfig 2 state).unlinkedSidecars := by
  rw [lone_collect]
  have hdue : PendingEntry.due (.observe (some ⟨0,1,1⟩) 3 2) loneConfig 2 = true := by decide
  have hkey : loneCandidate.key = loneKey := rfl
  simp [loneInventory,collectInventory,sweepSidecar,SidecarSweep.protects,GcState.retainSeen,GcMark.authoritative,
    hkey,hp,hr,hdue,lone_deleted,SidecarSweep.countDeleted,SidecarSweep.note]

/-- A sidecar is unlinked one absence after a mark had its key live, in a generation of its own. -/
theorem stale_grace_unlinks : ¬Honours [absentAt 1 0,liveUnread 2 1,absentAt 3 2] := by
  intro h
  have hgrace := (h [absentAt 1 0,liveUnread 2 1] (absentAt 3 2) [] rfl).1.1
  obtain ⟨first,rest,hsub,_,hlen,_⟩ :=
    hgrace loneCandidate (lone_unlinked _ lone_pending.1 lone_pending.2)
  have hlive : ∀ before, (liveUnread 2 1).absences loneKey before = [] := by
    intro before
    have hmem : loneKey ∈ (GcMark.authoritative 2 {loneKey}).live := Finset.mem_singleton_self loneKey
    simp only [liveUnread,Call.absences,if_pos hmem]
  have hlast : (absentAt 3 2).absences loneKey [] = [⟨3,2⟩] := by
    simp only [absentAt,Call.absences,lone_inventoried]
    rfl
  have hall : absences loneKey ([absentAt 1 0,liveUnread 2 1]++[absentAt 3 2]) = [⟨3,2⟩] := by
    have hbefore := absences_append loneKey [absentAt 1 0] (liveUnread 2 1)
    rw [List.cons_append,List.nil_append,hlive] at hbefore
    rw [absences_append,hbefore,hlast]
  have hle := hsub.length_le
  change _ ≤ (absences loneKey ([absentAt 1 0,liveUnread 2 1]++[absentAt 3 2])).length at hle
  rw [hall] at hle
  have htwo : 2 ≤ (first::rest).length := hlen
  simp only [List.length_singleton] at hle
  omega

theorem Steady.append {φ : Type} [ReadAt φ] {calls : List (Call φ)} {call : Call φ}
    (h : Steady calls) (hcall : Sound calls call) : Steady (calls++[call]) := by
  intro before other after heq
  rcases List.eq_nil_or_concat after with rfl | ⟨rest,last,rfl⟩
  · obtain ⟨rfl,hsame⟩ := List.append_inj' heq rfl
    cases hsame
    exact hcall
  · refine h before other rest ?_
    have hsplit : calls++[call] = (before++other::rest)++[last] := by simpa using heq
    exact (List.append_inj' hsplit rfl).1

theorem Sound.collect {φ : Type} [ReadAt φ] {calls : List (Call φ)} {disk : Disk φ} {mark : GcMark}
    {config : GcConfig} {now : ℤ} {inventory : Inventory}
    (hinv : inventoried disk mark config = some inventory)
    (hfresh : ∀ key, FreshGeneration (absences key calls) mark.generation)
    (hsync : Syncs disk inventory.locations) (hfits : inventory.ledger.Fits) :
    Sound calls (.collect disk mark config now) := by
  simp only [Sound,hinv]
  exact ⟨fun key _ _ => hfresh key,hsync,hfits⟩

theorem lone_fits : loneInventory.ledger.Fits := by
  constructor
  · constructor <;> simp [loneInventory,Ledger.usage,Inventory.ledger,loneCandidate,GcCategoryUsage.total,u64Max]
  · constructor <;> simp [loneInventory,Ledger.usage,Inventory.ledger,GcCategoryUsage.total]

theorem lone_sound (calls : List (Call Bytes)) (generation : UInt64) (now : ℤ)
    (hfresh : ∀ key, FreshGeneration (absences key calls) generation) :
    Sound calls (absentAt generation now) := by
  have hsync : Syncs (loneDisk true) loneInventory.locations := by
    intro location _ _
    rw [loneDisk]
  rw [absentAt]
  exact Sound.collect (lone_inventoried generation) hfresh hsync lone_fits

/-- The first of two absences unlinks nothing, the second one does. -/
theorem steady_honours_twice : Honours ([absentAt 1 0]++[absentAt 2 1]) := by
  have hnil : Steady ([] : List (Call Bytes)) := fun before call after heq => by simp at heq
  have hfirst : Steady ([]++[absentAt 1 0]) :=
    hnil.append (lone_sound [] 1 0 fun key => by simp [FreshGeneration,absences])
  rw [List.nil_append] at hfirst
  have hone : ∀ key, absences key [absentAt 1 0] = [⟨1,0⟩] := by
    intro key
    have happend := absences_append key [] (absentAt 1 0)
    rw [List.nil_append] at happend
    rw [happend,absentAt,Call.absences,lone_inventoried]
    simp [GcMark.authoritative,absences]
  have hsecond : Sound [absentAt 1 0] (absentAt 2 1) :=
    lone_sound _ 2 1 fun key => by simp [FreshGeneration,hone]
  exact steady_honours _ (hfirst.append hsecond)

end SidecarGc
end PgKronika
