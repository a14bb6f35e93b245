import PgKronika.SegmentOpening

/-! Every committed batch of log lines stands in exactly one appended window, and the next batch
goes on behind it, as long as a window in the journal is not reported as failed. -/
namespace PgKronika

variable {ρ ε : Type} {registry : Registry} {config : CollectorConfig} {tick : Tick ρ ε}
  {start s : LoopState ρ}

/-- Batches that have something for a window. -/
def withRows (batches : List (LogCollection ρ)) : List (LogCollection ρ) :=
  batches.filter fun batch => !batch.rows.isEmpty

/-- The batches of some windows. -/
def loggedBatches (windows : List (WindowOrigin ρ)) : List (LogCollection ρ) :=
  withRows (windows.filterMap WindowOrigin.log)

/-- Whether the cycle of a tick gets to its log, and with other rows. -/
def Tick.cycleRows (tick : Tick ρ ε) (due : DueSet) : Option Bool :=
  if ¬tick.cycle.mainReachable then if due.has .pgLog then some false else none
  else if tick.cycle.mainRead then some (due.has .instanceMetadata || tick.cycle.otherRows)
  else none

/-- A window that a tick appends is sealed behind its append when that is due. -/
def LoopState.SealsBehindAppend (s : LoopState ρ) (registry : Registry)
    (config : CollectorConfig) (tick : Tick ρ ε) : Prop :=
  s.Collects config tick → ∀ rows, tick.cycleRows (s.due tick) = some rows → ∀ window,
    cycleWindow (s.due tick) tick.cycle rows
        ((s.beforeCycle config tick).collectLogBatch (s.due tick) tick.cycle).1 =
      .ok (some window) →
    ∀ j state id, (s.beforeCycle config tick).writer.Lands registry window j state id →
      SealsAppended tick.cycle.sealer config.segment tick.cycle.appendedAt window j state id

/-- The batches in the journal are the committed ones, each once and in order; behind a window that
stops the loop one batch may be left. The position is behind the last committed batch. -/
structure LoopState.Logged (start s : LoopState ρ) : Prop where
  journaled : ∃ pending, loggedBatches s.writer.history = withRows s.committed ++ pending ∧
    pending.length ≤ 1 ∧ (s.running = true → pending = [])
  chained : Chained start.logs.state s.committed s.logs.state
  saved : s.logs.saved = s.logs.state

theorem withRows_append (a b : List (LogCollection ρ)) :
    withRows (a ++ b) = withRows a ++ withRows b := List.filter_append ..

theorem loggedBatches_snoc (windows : List (WindowOrigin ρ)) (origin : WindowOrigin ρ) :
    loggedBatches (windows ++ [origin]) =
      loggedBatches windows ++ withRows origin.log.toList := by
  rw [loggedBatches,List.filterMap_append,withRows_append]
  cases hlog : origin.log <;> simp [loggedBatches,hlog]

/-- Only the journal's windows, the log position and what is committed count. -/
theorem LoopState.Logged.congr {t : LoopState ρ} (h : start.Logged s)
    (hhistory : t.writer.history = s.writer.history) (hstate : t.logs.state = s.logs.state)
    (hsaved : t.logs.saved = s.logs.saved) (hcommitted : t.committed = s.committed)
    (hrunning : t.running = true → s.running = true) : start.Logged t where
  journaled := by
    obtain ⟨pending,hlogged,hone,hnone⟩ := h.journaled
    exact ⟨pending,by rw [hhistory,hcommitted]; exact hlogged,hone,hnone ∘ hrunning⟩
  chained := by
    rw [hcommitted,hstate]
    exact h.chained
  saved := by
    rw [hsaved,hstate]
    exact h.saved

/-- A batch is committed with its window in the journal, or with nothing to journal. -/
theorem LoopState.Logged.commit {collection : Option (LogCollection ρ)} {t : LoopState ρ}
    (h : start.Logged s) (hrun : s.running = true) (hstate : t.logs.state = s.logs.state)
    (hsaved : t.logs.saved = s.logs.saved) (hcommitted : t.committed = s.committed)
    (hfrom : ∀ batch, collection = some batch → batch.fromState = s.logs.state)
    (hlogged : loggedBatches t.writer.history =
      loggedBatches s.writer.history ++ withRows collection.toList) :
    start.Logged (t.commitLogCollection collection) := by
  obtain ⟨pending,hbefore,_,hnone⟩ := h.journaled
  rw [hnone hrun,List.append_nil] at hbefore
  cases collection with
  | none =>
    refine ⟨⟨[],?_,Nat.zero_le _,fun _ => rfl⟩,?_,?_⟩
    · change loggedBatches t.writer.history = withRows t.committed ++ []
      rw [hlogged,hbefore,hcommitted]
      rfl
    · change Chained start.logs.state t.committed t.logs.state
      rw [hcommitted,hstate]
      exact h.chained
    · exact (hsaved.trans h.saved).trans hstate.symm
  | some batch =>
    obtain ⟨hnext,hkept⟩ := t.logs.commit_state batch
    refine ⟨⟨[],?_,Nat.zero_le _,fun _ => rfl⟩,?_,
      hkept ((hsaved.trans h.saved).trans hstate.symm)⟩
    · change loggedBatches t.writer.history = withRows (t.committed ++ [batch]) ++ []
      rw [hlogged,hbefore,hcommitted,withRows_append,List.append_nil]
      rfl
    · change Chained start.logs.state (t.committed ++ [batch]) (t.logs.commit batch).state
      rw [hnext,hcommitted,hstate]
      exact h.chained.snoc (hfrom batch rfl)

/-- Looking for lines commits nothing. -/
theorem LoopState.Logged.collected (h : start.Logged s) (due : DueSet) (cycle : Cycle ρ ε) :
    start.Logged (s.collectLogBatch due cycle).2 := by
  obtain ⟨hwriter,_,hcommitted,hrunning,hstate,hsaved,_⟩ := s.collectLogBatch_frame due cycle
  exact h.congr (by rw [hwriter]) hstate hsaved hcommitted hrunning.symm.trans

/-- A cycle either keeps the account or leaves a published segment that stops the loop. -/
theorem LoopState.Logged.cycle {due : DueSet} {cycle : Cycle ρ ε} {rows : Bool}
    {r : Except (CycleError ε) (List (SegmentId × SealReason))} {last : LoopState ρ}
    (h : start.Logged s) (hrun : s.running = true)
    (hseals : ∀ window, cycleWindow due cycle rows (s.collectLogBatch due cycle).1 =
        .ok (some window) →
      ∀ j state id, s.writer.Lands registry window j state id →
        SealsAppended cycle.sealer config.segment cycle.appendedAt window j state id)
    (houtcome : CycleOutcome registry config due cycle rows s r last) :
    start.Logged last ∨
      last.writer.state.publishedPendingReset = true ∧
        start.Logged { last with running := false } := by
  obtain ⟨hwriter,_,hcommitted,hrunning,hstate,hsaved,hfrom⟩ := s.collectLogBatch_frame due cycle
  have hcollected := h.collected due cycle
  cases houtcome with
  | failed => exact .inl hcollected
  | skipped noRows noLines =>
    refine .inl (h.commit hrun hstate hsaved hcommitted hfrom ?_)
    have hnone : withRows (s.collectLogBatch due cycle).1.toList = [] := by
      cases hbatch : (s.collectLogBatch due cycle).1 with
      | none => rfl
      | some batch => simp [withRows,noLines batch hbatch]
    rw [hwriter,hnone,List.append_nil]
  | @refused window e writer collected append =>
    cases append with
    | refused keeps =>
      exact .inl (h.congr keeps.history hstate hsaved hcommitted hrunning.symm.trans)
    | lost publishes _ =>
      exact .inl (h.congr publishes.history hstate hsaved hcommitted hrunning.symm.trans)
    | unsealed takes lands refused =>
      exact absurd (hseals window collected _ _ _ lands) refused
    | stuck mid takes publishes left =>
      refine .inr ⟨left,?_,?_,?_⟩
      · obtain ⟨pending,hbefore,_,hnone⟩ := h.journaled
        rw [hnone hrun,List.append_nil] at hbefore
        refine ⟨withRows (s.collectLogBatch due cycle).1.toList,?_,?_,fun hgoes => by cases hgoes⟩
        · change loggedBatches writer.history = withRows (s.collectLogBatch due cycle).2.committed ++ _
          rw [publishes.history,takes.history,loggedBatches_snoc,hbefore,hcommitted,
            (cycleWindow_some collected).1]
        · refine le_trans (List.length_filter_le ..) ?_
          cases (s.collectLogBatch due cycle).1 <;> simp
      · exact hcollected.chained
      · exact hcollected.saved
  | @appended window sealed writer collected append =>
    refine .inl (h.commit hrun hstate hsaved hcommitted hfrom ?_)
    have hhistory : writer.history = s.writer.history ++ [window.origin] := by
      cases append with
      | kept takes => exact takes.history
      | sealed mid takes closes => exact closes.publishes.history.trans takes.history
    rw [hhistory,loggedBatches_snoc,(cycleWindow_some collected).1]

theorem LoopState.Logged.stop (h : start.Logged s ∨ s.writer.state.publishedPendingReset = true ∧
    start.Logged { s with running := false }) : start.Logged s.stopIfPersistenceUnhealthy := by
  rcases h with h | ⟨hbad,h⟩
  · obtain ⟨hwriter,_,hlogs,hcommitted,hrunning⟩ := s.stop_frame
    exact h.congr (by rw [hwriter]) (by rw [hlogs]) (by rw [hlogs]) hcommitted
      fun hgoes => (hrunning hgoes).1
  · rw [stopIfPersistenceUnhealthy,if_pos (.inl hbad)]
    exact h

/-- The age valve touches no log line. -/
theorem LoopState.Logged.beforeCycle (h : start.Logged s) :
    start.Logged (s.beforeCycle config tick) := by
  rw [LoopState.beforeCycle]
  dsimp only
  split_ifs
  · refine .stop (.inl ?_)
    rw [closeExpired]
    dsimp only
    split
    · next first writer hseal =>
      exact h.congr (sealOpenSegment_ok hseal).publishes.history rfl rfl rfl id
    · next e writer hseal =>
      rcases sealOpenSegment_error hseal with ⟨rfl,_⟩ | ⟨⟨_,_,hpublishes⟩,_,_⟩
      · exact h.congr rfl rfl rfl rfl id
      · exact h.congr hpublishes.history rfl rfl rfl id
  · exact h.congr rfl rfl rfl rfl id

/-- The cycle of a tick, whatever becomes of its triggers and deferred sources. -/
theorem LoopState.runCollectionCycle_cases (registry : Registry) (config : CollectorConfig)
    (due : DueSet) (cycle : Cycle ρ ε) (tick : Tick ρ ε) (htick : tick.cycle = cycle)
    (s : LoopState ρ) :
    s.runCollectionCycle registry config due cycle = s ∨
      ∃ rows r last, tick.cycleRows due = some rows ∧
        CycleOutcome registry config due cycle rows s r last ∧
        (s.runCollectionCycle registry config due cycle).writer = last.writer ∧
        (s.runCollectionCycle registry config due cycle).logs = last.logs ∧
        (s.runCollectionCycle registry config due cycle).committed = last.committed ∧
        (s.runCollectionCycle registry config due cycle).running = last.running := by
  subst htick
  have hcases (rows : Bool) := s.appendCycle_outcome registry config due tick.cycle rows
  rw [runCollectionCycle,runLogOnlyCycle,snapshotAndSeal]
  by_cases hreachable : ¬tick.cycle.mainReachable = true
  · rw [if_pos hreachable]
    split_ifs with hlog
    · refine .inr ⟨false,_,_,by rw [Tick.cycleRows,if_pos hreachable,if_pos hlog],hcases false,?_⟩
      split
      · next heq => rw [heq]; exact ⟨rfl,rfl,rfl,rfl⟩
      · next heq => rw [heq]; exact ⟨rfl,rfl,rfl,rfl⟩
    · exact .inl rfl
  · rw [if_neg hreachable]
    by_cases hread : ¬tick.cycle.mainRead = true
    · rw [if_pos hread]
      exact .inl rfl
    · rw [if_neg hread]
      rw [not_not] at hread
      refine .inr ⟨due.has .instanceMetadata || tick.cycle.otherRows,_,_,
        by rw [Tick.cycleRows,if_neg hreachable,if_pos hread],hcases _,?_⟩
      split
      · next heq => rw [heq]; exact ⟨rfl,rfl,rfl,rfl⟩
      · next heq => rw [heq]; exact ⟨rfl,rfl,rfl,rfl⟩

/-- One tick. -/
theorem LoopState.Logged.step (h : start.Logged s)
    (hseals : s.SealsBehindAppend registry config tick) :
    start.Logged (s.tick registry config tick) := by
  have hbefore : start.Logged (s.beforeCycle config tick) := h.beforeCycle
  rw [LoopState.tick]
  by_cases hidle : ¬(s.beforeCycle config tick).running = true ∨
      (s.due tick).isEmpty = true ∧ ¬tick.plansDue = true
  · rw [if_pos hidle]
    exact hbefore
  rw [if_neg hidle]
  rw [not_or,not_not] at hidle
  refine LoopState.Logged.stop ?_
  rcases LoopState.runCollectionCycle_cases registry config (s.due tick) tick.cycle tick rfl
    (s.beforeCycle config tick) with hsame | ⟨rows,r,last,hrows,houtcome,hwriter,hlogs,hcommitted,
      hrunning⟩
  · rw [hsame]
    exact .inl hbefore
  · rcases hbefore.cycle hidle.1 (hseals hidle rows hrows) houtcome with hkept | ⟨hbad,hleft⟩
    · exact .inl (hkept.congr (by rw [hwriter]) (by rw [hlogs]) (by rw [hlogs]) hcommitted
        hrunning.symm.trans)
    · exact .inr ⟨by rw [hwriter]; exact hbad,hleft.congr (by rw [← hwriter]) (by rw [← hlogs])
        (by rw [← hlogs]) hcommitted fun hgoes => by cases hgoes⟩

theorem LoopState.Starts.logged {intervals : Intervals} (h : s.Starts intervals) : s.Logged s where
  journaled := ⟨[],by rw [h.history,h.committed]; rfl,Nat.zero_le _,fun _ => rfl⟩
  chained := by rw [h.committed]; rfl
  saved := h.logs

/-- A cycle that fails commits nothing. -/
theorem LoopState.appendCycle_error {due : DueSet} {cycle : Cycle ρ ε} {rows : Bool}
    {e : CycleError ε}
    (h : (s.appendCycle registry config due cycle rows).1 = .error e) :
    (s.appendCycle registry config due cycle rows).2.logs.state = s.logs.state ∧
      (s.appendCycle registry config due cycle rows).2.committed = s.committed := by
  obtain ⟨_,_,hcommitted,_,hstate,_,_⟩ := s.collectLogBatch_frame due cycle
  have houtcome := s.appendCycle_outcome registry config due cycle rows
  generalize s.appendCycle registry config due cycle rows = out at *
  obtain ⟨r,last⟩ := out
  obtain rfl : r = .error e := h
  cases houtcome with
  | failed => exact ⟨hstate,hcommitted⟩
  | refused _ _ => exact ⟨hstate,hcommitted⟩

/-- Committed batches stand in exactly one appended window each, in order; every collection goes
on behind the last of them, and a failed cycle leaves the position where it was. -/
theorem log_batches_journaled_once {intervals : Intervals} (hstart : start.Starts intervals)
    (hruns : LoopRuns registry config (fun (s : LoopState ρ) (tick : Tick ρ ε) =>
      s.SealsBehindAppend registry config tick) start s) :
    (∃ pending, loggedBatches s.writer.history = withRows s.committed ++ pending ∧
        pending.length ≤ 1 ∧ (s.running = true → pending = [])) ∧
      Chained start.logs.state s.committed s.logs.state ∧ s.logs.saved = s.logs.state ∧
      (∀ reads : LogReads ρ, (s.logs.collect reads).1.fromState = s.logs.state) ∧
      ∀ (due : DueSet) (cycle : Cycle ρ ε) (rows : Bool) (e : CycleError ε),
        (s.appendCycle registry config due cycle rows).1 = .error e →
        (s.appendCycle registry config due cycle rows).2.logs.state = s.logs.state ∧
          (s.appendCycle registry config due cycle rows).2.committed = s.committed := by
  have hlogged : start.Logged s := hruns.invariant hstart.logged fun _ _ h _ hseals => h.step hseals
  exact ⟨hlogged.journaled,hlogged.chained,hlogged.saved,
    fun reads => (s.logs.collect_state reads).2.2,fun _ _ _ _ => LoopState.appendCycle_error⟩

/-- Seals that are all accepted never leave a window unsealed. -/
theorem LoopState.sealsBehindAppend_of (h : ∀ j id, tick.cycle.sealer j id = .ok ()) :
    s.SealsBehindAppend registry config tick :=
  fun _ _ _ _ _ _ _ id _ _ journal _ _ => h journal id

theorem log_batches_journaled_once_sample :
    ∃ pending, loggedBatches firstTick.writer.history = withRows firstTick.committed ++ pending ∧
      pending.length ≤ 1 ∧ (firstTick.running = true → pending = []) := by
  have hruns : LoopRuns [] sampleConfig (fun (s : LoopState ℕ) (tick : Tick ℕ Unit) =>
      s.SealsBehindAppend [] sampleConfig tick) sampleLoop firstTick :=
    .tick _ .start rfl (LoopState.sealsBehindAppend_of fun _ _ => rfl)
  exact (log_batches_journaled_once sampleLoop_starts hruns).1

/-- A forced tick whose seal is refused behind the append, and the next tick. -/
def unsealedTick : LoopState ℕ :=
  sampleLoop.tick [] sampleConfig (sampleTick true 0 fun _ _ => .error ())

def repeatedRun : LoopState ℕ := unsealedTick.tick [] sampleConfig (sampleTick false 5 acceptAll)

/-- The batch of the first tick is in the journal without being committed, so the second tick
collects and appends it again. -/
theorem unsealed_batch_journaled_twice :
    sampleLoop.Starts .default ∧
      LoopRuns [] sampleConfig (fun (_ : LoopState ℕ) (_ : Tick ℕ Unit) => True) sampleLoop
        repeatedRun ∧
      repeatedRun.running = true ∧
      ∃ batch : LogCollection ℕ, batch.rows = [7] ∧ repeatedRun.committed = [batch] ∧
        loggedBatches repeatedRun.writer.history = [batch,batch] := by
  have hfirst : unsealedTick.running = true := by decide +kernel
  have hbatch : repeatedRun.running = true ∧ (repeatedRun.committed.map (·.rows)) = [[7]] ∧
      loggedBatches repeatedRun.writer.history = repeatedRun.committed ++ repeatedRun.committed := by
    decide +kernel
  obtain ⟨hrunning,hrows,htwice⟩ := hbatch
  refine ⟨sampleLoop_starts,.tick _ (.tick _ .start rfl trivial) hfirst trivial,hrunning,?_⟩
  obtain ⟨batch,hone,hrow⟩ := List.map_eq_singleton_iff.mp hrows
  exact ⟨batch,hrow,hone,by rw [htwice,hone]; rfl⟩

end PgKronika
