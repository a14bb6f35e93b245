import PgKronika.CollectorLoop

/-! A published segment is self-contained when its first window was planned for the service
sources. A segment that is closed in the middle of a tick opens the next one too late for that. -/
namespace PgKronika

variable {ρ ε : Type} {registry : Registry} {config : CollectorConfig} {tick : Tick ρ ε}
  {s : LoopState ρ}

/-- The first window carries the service sources. -/
def SelfContained (windows : List (WindowOrigin ρ)) : Prop :=
  ∃ first rest, windows = first :: rest ∧ first.due.Service

/-- The tick goes on to collect. -/
def LoopState.Collects (s : LoopState ρ) (config : CollectorConfig) (tick : Tick ρ ε) : Prop :=
  (s.beforeCycle config tick).running = true ∧
    ¬((s.due tick).isEmpty = true ∧ ¬tick.plansDue = true)

/-- The rows of a full cycle besides the log. -/
def LoopState.otherRows (s : LoopState ρ) (tick : Tick ρ ε) : Bool :=
  (s.due tick).has .instanceMetadata || tick.cycle.otherRows

/-- All due reads and the append of a collecting tick succeed. -/
def LoopState.Succeeds (s : LoopState ρ) (registry : Registry) (config : CollectorConfig)
    (tick : Tick ρ ε) : Prop :=
  s.Collects config tick → tick.cycle.mainReachable = true ∧
    ∃ sealed last, (s.beforeCycle config tick).snapshotAndSeal registry config (s.due tick)
      tick.cycle = (.ok sealed,last)

/-- The age valve closes the open segment. -/
def LoopState.ClosesExpired (s : LoopState ρ) (config : CollectorConfig) (tick : Tick ρ ε) :
    Prop :=
  s.writer.state.ageExpired tick.checkedAt config.segment.maxAge = true ∧
    ∃ id writer, sealOpenSegment tick.ageSealer .age s.writer = (.ok id,writer)

/-- A window that is collected behind the age valve's seal, or that has to close a segment first,
was planned for all service sources. -/
def LoopState.OpensPlanned (s : LoopState ρ) (registry : Registry) (config : CollectorConfig)
    (tick : Tick ρ ε) : Prop :=
  s.Collects config tick → ∀ window,
    cycleWindow (s.due tick) tick.cycle (s.otherRows tick)
        ((s.beforeCycle config tick).collectLogBatch (s.due tick) tick.cycle).1 =
      .ok (some window) →
    s.ClosesExpired config tick ∨
      ((s.beforeCycle config tick).writer.closesFirst registry window).isSome →
    tick.forced = true ∨ ∀ kind ∈ segmentOpenSources, s.sched.isDue tick.plannedAt kind = true

/-- What a publication can be made of. -/
structure SegmentWriter.Opening (w : SegmentWriter (WindowOrigin ρ)) : Prop where
  published : ∀ p ∈ w.published, SelfContained p.windows
  first : w.windows = [] ∨ SelfContained w.windows

/-- Between two ticks: an empty journal has the service sources due. -/
structure LoopState.Opening (s : LoopState ρ) : Prop where
  writer : s.writer.Opening
  opened : s.running = true → (s.writer.state.firstId.isSome ↔ s.writer.windows ≠ [])
  armed : s.running = true → s.writer.windows = [] → s.sched.Armed

theorem SelfContained.append {windows : List (WindowOrigin ρ)} (h : SelfContained windows)
    (more : List (WindowOrigin ρ)) : SelfContained (windows ++ more) := by
  obtain ⟨first,rest,rfl,hservice⟩ := h
  exact ⟨first,rest ++ more,rfl,hservice⟩

/-- A segment that is closed with its windows. -/
theorem SegmentWriter.Opening.publishes {w next : SegmentWriter (WindowOrigin ρ)}
    {id : SegmentId} {reason : SealReason} (h : w.Opening) (hopen : w.windows ≠ [])
    (hpublishes : w.Publishes next id reason)
    (hwindows : next.windows = w.windows ∨ next.windows = []) : next.Opening where
  published p hp := by
    rw [hpublishes.published] at hp
    rcases List.mem_append.mp hp with hp | hp
    · exact h.published p hp
    · obtain rfl := List.mem_singleton.mp hp
      exact h.first.resolve_left hopen
  first := by
    rcases hwindows with hwindows | hwindows
    · rw [hwindows]
      exact h.first
    · exact .inl hwindows

/-- A window is appended to the open segment, or behind an early seal. -/
theorem SegmentWriter.Opening.takes {w next : SegmentWriter (WindowOrigin ρ)}
    {window : Window (WindowOrigin ρ)} {sealed : List (SegmentId × SealReason)} (h : w.Opening)
    (hopen : w.state.firstId.isSome → w.windows ≠ [])
    (hempty : w.windows = [] → window.origin.due.Service)
    (hearly : (w.closesFirst registry window).isSome → window.origin.due.Service)
    (htakes : w.Takes registry window next sealed) :
    next.Opening ∧ next.windows ≠ [] := by
  rcases htakes.windows with ⟨_,hwindows,hpublished⟩ |
    ⟨id,reason,hcloses,hfirst,_,hwindows,hpublished⟩
  · refine ⟨⟨by rw [hpublished]; exact h.published,.inr ?_⟩,by rw [hwindows]; simp⟩
    rw [hwindows]
    rcases h.first with hnil | hself
    · rw [hnil]
      exact ⟨window.origin,[],rfl,hempty hnil⟩
    · exact hself.append _
  · have hservice := hearly (by rw [hcloses]; rfl)
    refine ⟨⟨fun p hp => ?_,.inr ⟨window.origin,[],hwindows,hservice⟩⟩,by rw [hwindows]; simp⟩
    rw [hpublished] at hp
    rcases List.mem_append.mp hp with hp | hp
    · exact h.published p hp
    · obtain rfl := List.mem_singleton.mp hp
      exact h.first.resolve_left (hopen (by rw [hfirst]; rfl))

theorem LoopState.stop_frame (s : LoopState ρ) :
    s.stopIfPersistenceUnhealthy.writer = s.writer ∧
      s.stopIfPersistenceUnhealthy.sched = s.sched ∧
      s.stopIfPersistenceUnhealthy.logs = s.logs ∧
      s.stopIfPersistenceUnhealthy.committed = s.committed ∧
      (s.stopIfPersistenceUnhealthy.running = true → s.running = true ∧
        s.writer.state.publishedPendingReset = false) := by
  rw [stopIfPersistenceUnhealthy]
  split_ifs with hbad
  · exact ⟨rfl,rfl,rfl,rfl,fun h => by cases h⟩
  · exact ⟨rfl,rfl,rfl,rfl,fun h => ⟨h,by simpa using (not_or.mp hbad).1⟩⟩

theorem LoopState.Opening.stop (h : s.Opening) : s.stopIfPersistenceUnhealthy.Opening := by
  obtain ⟨hwriter,hsched,_,_,hrunning⟩ := s.stop_frame
  refine ⟨hwriter ▸ h.writer,fun hrun => ?_,fun hrun hnil => ?_⟩
  · rw [hwriter]
    exact h.opened (hrunning hrun).1
  · rw [hsched]
    exact h.armed (hrunning hrun).1 (hwriter ▸ hnil)

/-- A tick in front of its collection: an empty journal was planned for, or it has just been
emptied by the age valve, which makes the service sources due for the next tick. -/
structure LoopState.Planned (s : LoopState ρ) (config : CollectorConfig) (tick : Tick ρ ε)
    (before : LoopState ρ) : Prop where
  writer : before.writer.Opening
  opened : before.running = true → (before.writer.state.firstId.isSome ↔ before.writer.windows ≠ [])
  planned : before.running = true → before.writer.windows = [] →
    (s.due tick).Service ∨ s.ClosesExpired config tick ∧ before.sched.Armed

theorem ageExpired_open {state : SegmentState} {now maxAge : ℕ}
    (h : state.ageExpired now maxAge = true) : state.openedAt.isSome := by
  rw [SegmentState.ageExpired] at h
  cases hopened : state.openedAt with
  | none =>
    rw [hopened] at h
    cases h
  | some _ => rfl

theorem LoopState.Opening.beforeCycle (h : s.Opening) (hrun : s.running = true) :
    s.Planned config tick (s.beforeCycle config tick) := by
  rw [LoopState.beforeCycle]
  dsimp only
  split_ifs with hexpired
  · rw [closeExpired]
    dsimp only
    split
    · next id writer hseal =>
      have hcloses := sealOpenSegment_ok hseal
      have hopen := (h.opened hrun).mp (by rw [hcloses.first]; rfl)
      obtain ⟨hwriter,hsched,_,_,hrunning⟩ := LoopState.stop_frame { s with
        writer, sched := (s.sched.plan tick.plannedAt tick.forced).2.markSegmentOpened }
      refine ⟨?_,fun _ => ?_,fun _ _ => .inr ⟨⟨hexpired,id,writer,hseal⟩,?_⟩⟩
      · rw [hwriter]
        exact h.writer.publishes hopen hcloses.publishes (.inr hcloses.windows)
      · rw [hwriter]
        dsimp only
        rw [hcloses.state,hcloses.windows]
        simp [SegmentState.default]
      · rw [hsched]
        exact Scheduler.markSegmentOpened_armed _
    · next e writer hseal =>
      obtain ⟨hwriter,_,_,_,hrunning⟩ := LoopState.stop_frame { s with
        writer, sched := (s.sched.plan tick.plannedAt tick.forced).2 }
      rcases sealOpenSegment_error hseal with ⟨rfl,_⟩ | ⟨⟨id,hfirst,hpublishes⟩,hwindows,hbad⟩
      · refine ⟨?_,fun _ => ?_,fun _ hnil => .inl ?_⟩
        · rw [hwriter]
          exact h.writer
        · rw [hwriter]
          exact h.opened hrun
        · rw [hwriter] at hnil
          exact (h.armed hrun hnil).plan_service tick.plannedAt tick.forced
      · have hopen := (h.opened hrun).mp (by rw [hfirst]; rfl)
        have hstopped : _ = true → False := fun hgoes => by
          cases hbad.symm.trans (hrunning hgoes).2
        refine ⟨?_,fun hgoes => (hstopped hgoes).elim,fun hgoes => (hstopped hgoes).elim⟩
        rw [hwriter]
        exact h.writer.publishes hopen hpublishes (.inl hwindows)
  · exact ⟨h.writer,fun _ => h.opened hrun,
      fun _ hnil => .inl ((h.armed hrun hnil).plan_service tick.plannedAt tick.forced)⟩

theorem Scheduler.Armed.triggerPace {sched : Scheduler} (h : sched.Armed) (kind : SourceKind)
    (hot : Option Bool) (secs : ℕ) : (applyTriggerPace sched kind hot secs).Armed := by
  cases hot with
  | none => exact h
  | some hot =>
    cases hot with
    | false => exact h.relax kind
    | true => exact h.accelerate kind secs

theorem Scheduler.Armed.deferred {sched : Scheduler} (h : sched.Armed) (kinds : List SourceKind) :
    (kinds.foldl Scheduler.defer sched).Armed := by
  induction kinds generalizing sched with
  | nil => exact h
  | cons kind kinds ih => exact ih (h.defer kind)

theorem markAll_armed {sched : Scheduler} {sealed : List (SegmentId × SealReason)}
    (h : sealed ≠ [] ∨ sched.Armed) :
    (sealed.foldl (fun sched _ => sched.markSegmentOpened) sched).Armed := by
  induction sealed generalizing sched with
  | nil => exact h.resolve_left fun hne => hne rfl
  | cons p sealed ih => exact ih (.inr (Scheduler.markSegmentOpened_armed _))

/-- What a successful cycle leaves of the journal, and when the service sources have to be due
behind it. -/
theorem LoopState.Planned.appends {before last : LoopState ρ}
    (h : s.Planned config tick before) (hrun : before.running = true)
    (hplanned : ∀ window, cycleWindow (s.due tick) tick.cycle (s.otherRows tick)
        (before.collectLogBatch (s.due tick) tick.cycle).1 = .ok (some window) →
      s.ClosesExpired config tick ∨ (before.writer.closesFirst registry window).isSome →
      (s.due tick).Service)
    {sealed : List (SegmentId × SealReason)}
    (houtcome : CycleOutcome registry config (s.due tick) tick.cycle (s.otherRows tick) before
      (.ok sealed) last) :
    last.writer.Opening ∧ (last.writer.state.firstId.isSome ↔ last.writer.windows ≠ []) ∧
      (last.writer.windows = [] → sealed ≠ [] ∨ last.sched.Armed) := by
  obtain ⟨hwriter,hsched,_,_,_,_,_⟩ := before.collectLogBatch_frame (s.due tick) tick.cycle
  cases houtcome with
  | skipped noRows noLines =>
    obtain ⟨hkept,hpace,_,_⟩ := (before.collectLogBatch (s.due tick) tick.cycle).2
      |>.commitLogCollection_frame (before.collectLogBatch (s.due tick) tick.cycle).1
    rw [hkept,hwriter,hpace,hsched]
    refine ⟨h.writer,h.opened hrun,fun hnil => .inr ?_⟩
    rcases h.planned hrun hnil with hservice | ⟨_,harmed⟩
    · have hinstance := hservice .instanceMetadata (by decide)
      rw [otherRows,hinstance] at noRows
      cases noRows
    · exact harmed
  | @appended window sealed writer collected append =>
    obtain ⟨hkept,hpace,_,_⟩ := LoopState.commitLogCollection_frame
      { (before.collectLogBatch (s.due tick) tick.cycle).2 with writer }
      (before.collectLogBatch (s.due tick) tick.cycle).1
    have horigin : window.origin.due = s.due tick := by rw [(cycleWindow_some collected).1]
    have hempty : before.writer.windows = [] → window.origin.due.Service := by
      intro hnil
      rw [horigin]
      rcases h.planned hrun hnil with hservice | ⟨hcloses,_⟩
      · exact hservice
      · exact hplanned window collected (.inl hcloses)
    have hearly (hfirst : (before.writer.closesFirst registry window).isSome) :
        window.origin.due.Service := by
      rw [horigin]
      exact hplanned window collected (.inr hfirst)
    rw [hkept,hpace]
    dsimp only
    cases append with
    | kept takes =>
      obtain ⟨hopening,hsome⟩ := h.writer.takes (h.opened hrun).mp hempty hearly takes
      exact ⟨hopening,iff_of_true takes.opened hsome,fun hnil => absurd hnil hsome⟩
    | sealed mid takes closes =>
      obtain ⟨hopening,hsome⟩ := h.writer.takes (h.opened hrun).mp hempty hearly takes
      refine ⟨hopening.publishes hsome closes.publishes (.inr closes.windows),?_,fun _ =>
        .inl (by simp)⟩
      rw [closes.state,closes.windows]
      simp [SegmentState.default]

/-- One successful tick. -/
theorem LoopState.Opening.step (h : s.Opening) (hrun : s.running = true)
    (hsucceeds : s.Succeeds registry config tick)
    (hplanned : s.OpensPlanned registry config tick) :
    (s.tick registry config tick).Opening := by
  have hbefore : s.Planned config tick (s.beforeCycle config tick) := h.beforeCycle hrun
  rw [LoopState.tick]
  split_ifs with hidle
  · refine ⟨hbefore.writer,hbefore.opened,fun hgoes hnil => ?_⟩
    rcases hbefore.planned hgoes hnil with hservice | ⟨_,harmed⟩
    · have hempty := (hidle.resolve_left fun hno => hno hgoes).1
      have hsome := hservice .instanceMetadata (by decide)
      rw [DueSet.isEmpty,List.isEmpty_iff] at hempty
      rw [DueSet.has,hempty] at hsome
      cases hsome
    · exact harmed
  · rw [not_or,not_not] at hidle
    obtain ⟨hreachable,sealed,last,hcycle⟩ := hsucceeds hidle
    have houtcome : CycleOutcome registry config (s.due tick) tick.cycle (s.otherRows tick)
        (s.beforeCycle config tick) (.ok sealed) last := by
      have hrows := hcycle
      rw [snapshotAndSeal] at hrows
      split_ifs at hrows
      · have hcases := LoopState.appendCycle_outcome registry config (s.due tick) tick.cycle
          (s.otherRows tick) (s.beforeCycle config tick)
        rw [otherRows,hrows] at hcases
        exact hcases
      · cases hrows
    obtain ⟨hwriter,hopened,hdue⟩ := hbefore.appends hidle.1
      (fun window hwindow hearly => Scheduler.plan_service_iff.mpr
        (hplanned hidle window hwindow hearly)) houtcome
    rw [runCollectionCycle,if_neg (by rw [hreachable]; simp),hcycle]
    refine LoopState.Opening.stop ⟨hwriter,fun _ => hopened,fun _ hnil => ?_⟩
    refine markAll_armed ((hdue hnil).imp_right fun harmed => ?_)
    exact ((harmed.triggerPace _ _ _).triggerPace _ _ _).deferred _

theorem LoopState.Starts.opening {intervals : Intervals} (h : s.Starts intervals) : s.Opening where
  writer := ⟨by simp [h.published],.inl h.windows⟩
  opened _ := by
    rw [h.state,h.windows]
    simp [SegmentState.default]
  armed _ _ := by
    rw [h.sched]
    exact Scheduler.new_armed intervals

/-- When every window that opens a segment was planned for it, every published segment is
self-contained. -/
theorem published_self_contained {intervals : Intervals} {start : LoopState ρ}
    (hstart : start.Starts intervals)
    (hruns : LoopRuns registry config (fun (s : LoopState ρ) (tick : Tick ρ ε) =>
      s.Succeeds registry config tick ∧ s.OpensPlanned registry config tick) start s) :
    ∀ p ∈ s.writer.published, SelfContained p.windows := by
  have hopening : s.Opening := hruns.invariant hstart.opening fun _ _ h hrun hallows =>
    h.step hrun hallows.1 hallows.2
  exact hopening.writer.published

/-- A cycle that is answered with sealed segments makes a successful tick. -/
theorem LoopState.succeeds_of (sealed : List (SegmentId × SealReason))
    (hreachable : tick.cycle.mainReachable = true)
    (h : ((s.beforeCycle config tick).snapshotAndSeal registry config (s.due tick)
      tick.cycle).1 = .ok sealed) : s.Succeeds registry config tick :=
  fun _ => ⟨hreachable,sealed,_,Prod.ext h rfl⟩

/-- A seal that is always accepted. -/
def acceptAll : Journal → SegmentId → Except Unit Unit := fun _ _ => .ok ()

/-- The first window of the process. -/
def firstTick : LoopState ℕ := sampleLoop.tick [] sampleConfig (sampleTick false 0 acceptAll)

theorem firstTick_succeeds :
    sampleLoop.Succeeds [] sampleConfig (sampleTick false 0 acceptAll) :=
  LoopState.succeeds_of [] rfl (by decide +kernel)

theorem firstTick_running : firstTick.running = true := by decide +kernel

/-- A forced tick closes the segment of the first window. -/
def forcedTick : LoopState ℕ := firstTick.tick [] sampleConfig (sampleTick true 1 acceptAll)

theorem published_self_contained_forced :
    ∃ p, forcedTick.writer.published = [p] ∧ SelfContained p.windows := by
  have hfirst : sampleLoop.OpensPlanned [] sampleConfig (sampleTick false 0 acceptAll) :=
    fun _ _ _ _ => .inr fun _ hkind => (Scheduler.new_armed .default).due _ hkind
  have hforced : firstTick.Succeeds [] sampleConfig (sampleTick true 1 acceptAll) :=
    LoopState.succeeds_of [(sampleId,.forced)] rfl (by decide +kernel)
  have hruns : LoopRuns [] sampleConfig (fun (s : LoopState ℕ) (tick : Tick ℕ Unit) =>
      s.Succeeds [] sampleConfig tick ∧ s.OpensPlanned [] sampleConfig tick) sampleLoop
      forcedTick :=
    .tick _ (.tick _ .start rfl ⟨firstTick_succeeds,hfirst⟩) firstTick_running
      ⟨hforced,fun _ _ _ _ => .inl rfl⟩
  have hone : forcedTick.writer.published.length = 1 := by decide +kernel
  obtain ⟨p,hp⟩ := List.length_eq_one_iff.mp hone
  exact ⟨p,hp,published_self_contained sampleLoop_starts hruns p (by rw [hp]; simp)⟩

/-- The age valve closes the segment after 900 seconds; the settings are not due on that tick. -/
def agedTick : LoopState ℕ := firstTick.tick [] sampleConfig (sampleTick false 900 acceptAll)

def agedRun : LoopState ℕ := agedTick.tick [] sampleConfig (sampleTick true 901 acceptAll)

/-- Every tick succeeds, and yet the second segment starts with a window without settings. -/
theorem aged_segment_not_self_contained :
    sampleLoop.Starts .default ∧
      LoopRuns [] sampleConfig (fun (s : LoopState ℕ) (tick : Tick ℕ Unit) =>
        s.Succeeds [] sampleConfig tick) sampleLoop agedRun ∧
      ∃ p ∈ agedRun.writer.published, ¬SelfContained p.windows := by
  have haged : firstTick.Succeeds [] sampleConfig (sampleTick false 900 acceptAll) :=
    LoopState.succeeds_of [] rfl (by decide +kernel)
  have hforced : agedTick.Succeeds [] sampleConfig (sampleTick true 901 acceptAll) :=
    LoopState.succeeds_of [(sampleId,.forced)] rfl (by decide +kernel)
  have hrunning : agedTick.running = true := by decide +kernel
  have hpublished : agedRun.writer.published.map
      (fun p => p.windows.map fun origin => origin.due.has .settings) =
        [[true],[false,true]] := by decide +kernel
  refine ⟨sampleLoop_starts,.tick _ (.tick _ (.tick _ .start rfl firstTick_succeeds)
    firstTick_running haged) hrunning hforced,?_⟩
  obtain ⟨p,hp,hwindows⟩ : ∃ p ∈ agedRun.writer.published,
      (p.windows.map fun origin => origin.due.has .settings) = [false,true] := by
    have hmem : [false,true] ∈ agedRun.writer.published.map
        (fun p => p.windows.map fun origin => origin.due.has .settings) := by
      rw [hpublished]
      simp
    exact List.mem_map.mp hmem
  refine ⟨p,hp,?_⟩
  rintro ⟨first,rest,hsplit,hservice⟩
  rw [hsplit] at hwindows
  have hsettings := hservice .settings (by decide)
  rw [List.map_cons,hsettings] at hwindows
  cases hwindows

end PgKronika
