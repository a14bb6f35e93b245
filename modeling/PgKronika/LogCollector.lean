import PgKronika.LogTail

/-! The log collector offers what it has read as a batch and moves its position only when the
batch is committed. -/
namespace PgKronika

open ByteCodec

structure LogSource where
  path : Bytes
  parserKind : ParserKind
  deriving DecidableEq

/-- What a look for the current log file finds; some answers withdraw the file known so far. -/
inductive Discovery
  | cached
  | found (source : LogSource)
  | withdrawn
  deriving DecidableEq

/-- One collection result. `rows` are all rows that the batch has for the window; `fromState` only
records where the reading began. -/
structure LogCollection (ρ : Type) where
  rows : List ρ
  fromState : Option TailState
  nextState : Option TailState
  nextSource : Option LogSource
  rotationBytesSkipped : ℕ
  consumesPendingRotation : Bool
  deriving DecidableEq

/-- `saved` is the state in the state file. -/
structure LogCollector where
  enabled : Bool
  state : Option TailState
  saved : Option TailState
  source : Option LogSource
  pendingRotationBytesSkipped : ℕ

/-- The surroundings of one collection: the discovered file, the tailer, the rows that a batch is
parsed to and the status rows that are due. A read that fails or misses its file is `none`. -/
structure LogReads (ρ : Type) where
  discovery : Discovery
  readBatch : LogSource → Option TailState → Option TailBatch
  batchRows : LogSource → TailBatch → ℕ → List ρ
  statusRows : List ρ

variable {ρ : Type}

/-- The source after a look for it, and the one to go to behind this batch. -/
def LogCollector.refreshSource (c : LogCollector) : Discovery → LogCollector × Option LogSource
  | .cached => (c,none)
  | .withdrawn => ({ c with source := none },none)
  | .found discovered =>
    match c.source with
    | none => ({ c with source := some discovered },none)
    | some current => (c,if current = discovered then none else some discovered)

def LogCollector.collect (c : LogCollector) (reads : LogReads ρ) :
    LogCollection ρ × LogCollector :=
  if ¬c.enabled then (⟨reads.statusRows,c.state,none,none,0,false⟩,c)
  else
    let (c,nextSource) := c.refreshSource reads.discovery
    let unread : LogCollection ρ := ⟨reads.statusRows,c.state,none,nextSource,
      if nextSource.isSome then c.pendingRotationBytesSkipped else 0,false⟩
    match c.source with
    | none => (unread,c)
    | some source =>
      if source.parserKind ≠ .stderr then (unread,c)
      else
        match reads.readBatch source c.state with
        | none => (unread,c)
        | some batch =>
          ({ rows := reads.batchRows source batch c.pendingRotationBytesSkipped ++ reads.statusRows
             fromState := c.state
             nextState := some batch.nextState
             nextSource
             rotationBytesSkipped := if nextSource.isSome then batch.unreadBytes else 0
             consumesPendingRotation := c.pendingRotationBytesSkipped ≠ 0 },c)

/-- Persist the batch state after its output has been handled. The state file can be written. -/
def LogCollector.commit (c : LogCollector) (collection : LogCollection ρ) : LogCollector :=
  let c := match collection.nextState with
    | none => c
    | some state => { c with
        saved := if c.state = some state then c.saved else some state
        state := some state
        source := some ⟨state.path,state.parserKind⟩ }
  let c := if collection.consumesPendingRotation then { c with pendingRotationBytesSkipped := 0 }
    else c
  match collection.nextSource with
  | none => c
  | some source => { c with
      source := some source
      pendingRotationBytesSkipped := collection.rotationBytesSkipped }

theorem LogCollector.refreshSource_state (c : LogCollector) (discovery : Discovery) :
    (c.refreshSource discovery).1.state = c.state ∧
      (c.refreshSource discovery).1.saved = c.saved := by
  cases discovery with
  | cached => exact ⟨rfl,rfl⟩
  | withdrawn => exact ⟨rfl,rfl⟩
  | found discovered =>
    rw [refreshSource]
    split <;> exact ⟨rfl,rfl⟩

/-- A collection leaves the position alone, and reads from it. -/
theorem LogCollector.collect_state (c : LogCollector) (reads : LogReads ρ) :
    (c.collect reads).2.state = c.state ∧ (c.collect reads).2.saved = c.saved ∧
      (c.collect reads).1.fromState = c.state := by
  rw [collect]
  by_cases henabled : ¬c.enabled = true
  · rw [if_pos henabled]
    exact ⟨rfl,rfl,rfl⟩
  rw [if_neg henabled]
  obtain ⟨hstate,hsaved⟩ := c.refreshSource_state reads.discovery
  generalize c.refreshSource reads.discovery = refreshed at *
  obtain ⟨c',nextSource⟩ := refreshed
  dsimp only
  split
  · exact ⟨hstate,hsaved,hstate⟩
  next source _ =>
  by_cases hparser : source.parserKind ≠ .stderr
  · rw [if_pos hparser]
    exact ⟨hstate,hsaved,hstate⟩
  · rw [if_neg hparser]
    split <;> exact ⟨hstate,hsaved,hstate⟩

/-- A commit moves the position behind the batch. -/
theorem LogCollector.commit_state (c : LogCollector) (collection : LogCollection ρ) :
    (c.commit collection).state = collection.nextState.or c.state ∧
      (c.saved = c.state → (c.commit collection).saved = (c.commit collection).state) := by
  rw [commit]
  cases collection.nextState with
  | none =>
    dsimp only
    cases collection.nextSource <;> dsimp only <;> split_ifs <;> exact ⟨rfl,id⟩
  | some state =>
    dsimp only
    have hsaved : c.saved = c.state →
        (if c.state = some state then c.saved else some state) = some state := by
      intro h
      split_ifs with hsame
      · exact h.trans hsame
      · rfl
    cases collection.nextSource <;> dsimp only <;> split_ifs at hsaved ⊢ <;> exact ⟨rfl,hsaved⟩

/-- Batches that go on where the one in front of them stopped. -/
def Chained : Option TailState → List (LogCollection ρ) → Option TailState → Prop
  | s, [], s' => s = s'
  | s, c::cs, s' => c.fromState = s ∧ Chained (c.nextState.or s) cs s'

theorem Chained.snoc {s s' : Option TailState} {cs : List (LogCollection ρ)}
    {c : LogCollection ρ} (h : Chained s cs s') (hfrom : c.fromState = s') :
    Chained s (cs ++ [c]) (c.nextState.or s') := by
  induction cs generalizing s with
  | nil =>
    obtain rfl : s = s' := h
    exact ⟨hfrom,rfl⟩
  | cons first cs ih => exact ⟨h.1,ih h.2⟩

end PgKronika
