import Mathlib

/-! Cold admission: weighted FIFO slots for the work on sealed facts. A waiter is named by the
number of its `acquire` call; one step is one section under the lock, or one claim. -/
namespace PgKronika
namespace ColdAdmission

def u32Max : ℕ := 2^32-1

inductive Resource
  | workers | pgmBytes | decodedBytes | cpu | fileDescriptors | readBytes | writeBytes | publications
  deriving DecidableEq

structure ColdWorkWeight where
  workers : ℕ := 0
  pgmBytes : ℕ := 0
  decodedBytes : ℕ := 0
  cpu : ℕ := 0
  fileDescriptors : ℕ := 0
  readBytes : ℕ := 0
  writeBytes : ℕ := 0
  publications : ℕ := 0
  deriving DecidableEq

def checkedAddU32 (a b : ℕ) : Option ℕ := if a+b ≤ u32Max then some (a+b) else none

def checkedSubU32 (a b : ℕ) : Option ℕ := if b ≤ a then some (a-b) else none

namespace ColdWorkWeight

def amount (weight : ColdWorkWeight) : Resource → ℕ
  | .workers => weight.workers
  | .pgmBytes => weight.pgmBytes
  | .decodedBytes => weight.decodedBytes
  | .cpu => weight.cpu
  | .fileDescriptors => weight.fileDescriptors
  | .readBytes => weight.readBytes
  | .writeBytes => weight.writeBytes
  | .publications => weight.publications

def fits (weight capacity : ColdWorkWeight) : Bool :=
  weight.workers ≤ capacity.workers && weight.pgmBytes ≤ capacity.pgmBytes &&
  weight.decodedBytes ≤ capacity.decodedBytes && weight.cpu ≤ capacity.cpu &&
  weight.fileDescriptors ≤ capacity.fileDescriptors && weight.readBytes ≤ capacity.readBytes &&
  weight.writeBytes ≤ capacity.writeBytes && weight.publications ≤ capacity.publications

/-- One checked operation in every dimension. -/
def checked (op : ℕ → ℕ → Option ℕ) (weight other : ColdWorkWeight) : Option ColdWorkWeight := do
  return {
    workers := ← op weight.workers other.workers
    pgmBytes := ← op weight.pgmBytes other.pgmBytes
    decodedBytes := ← op weight.decodedBytes other.decodedBytes
    cpu := ← op weight.cpu other.cpu
    fileDescriptors := ← op weight.fileDescriptors other.fileDescriptors
    readBytes := ← op weight.readBytes other.readBytes
    writeBytes := ← op weight.writeBytes other.writeBytes
    publications := ← op weight.publications other.publications }

def checkedAdd : ColdWorkWeight → ColdWorkWeight → Option ColdWorkWeight := checked checkedAddU32

def checkedSub : ColdWorkWeight → ColdWorkWeight → Option ColdWorkWeight := checked checkedSubU32

theorem fits_iff {weight capacity : ColdWorkWeight} :
    weight.fits capacity = true ↔ ∀ r, weight.amount r ≤ capacity.amount r := by
  constructor
  · intro h r
    simp only [fits,Bool.and_eq_true,decide_eq_true_eq] at h
    cases r <;> simp [amount,h]
  · intro h
    simp only [fits,Bool.and_eq_true,decide_eq_true_eq]
    exact ⟨⟨⟨⟨⟨⟨⟨h .workers,h .pgmBytes⟩,h .decodedBytes⟩,h .cpu⟩,h .fileDescriptors⟩,
      h .readBytes⟩,h .writeBytes⟩,h .publications⟩

theorem checked_eq_some {op : ℕ → ℕ → Option ℕ} {weight other result : ColdWorkWeight} :
    checked op weight other = some result ↔
      ∀ r, op (weight.amount r) (other.amount r) = some (result.amount r) := by
  constructor
  · intro h r
    simp only [checked,Option.bind_eq_bind,Option.bind_eq_some_iff] at h
    obtain ⟨_,h1,_,h2,_,h3,_,h4,_,h5,_,h6,_,h7,_,h8,h⟩ := h
    cases h
    cases r <;> assumption
  · intro h
    simp only [checked,Option.bind_eq_bind,Option.bind_eq_some_iff]
    exact ⟨_,h .workers,_,h .pgmBytes,_,h .decodedBytes,_,h .cpu,_,h .fileDescriptors,_,
      h .readBytes,_,h .writeBytes,_,h .publications,rfl⟩

theorem checkedAdd_eq_some {weight other result : ColdWorkWeight} :
    weight.checkedAdd other = some result ↔
      ∀ r, weight.amount r+other.amount r = result.amount r ∧ result.amount r ≤ u32Max := by
  rw [checkedAdd,checked_eq_some]
  refine forall_congr' fun r => ?_
  by_cases h : weight.amount r+other.amount r ≤ u32Max
  · simp only [checkedAddU32,if_pos h,Option.some.injEq]
    exact ⟨fun he => ⟨he,he ▸ h⟩,fun he => he.1⟩
  · simp only [checkedAddU32,if_neg h,false_iff,reduceCtorEq]
    exact fun he => h (he.1 ▸ he.2)

theorem checkedSub_eq_some {weight other result : ColdWorkWeight} :
    weight.checkedSub other = some result ↔
      ∀ r, other.amount r ≤ weight.amount r ∧ weight.amount r-other.amount r = result.amount r := by
  rw [checkedSub,checked_eq_some]
  refine forall_congr' fun r => ?_
  by_cases h : other.amount r ≤ weight.amount r <;> simp [checkedSubU32,h]

/-- A subtraction inside a larger amount never fails. -/
theorem exists_checkedSub {weight other : ColdWorkWeight}
    (h : ∀ r, other.amount r ≤ weight.amount r) :
    ∃ result, weight.checkedSub other = some result := by
  refine ⟨⟨weight.workers-other.workers,weight.pgmBytes-other.pgmBytes,
    weight.decodedBytes-other.decodedBytes,weight.cpu-other.cpu,
    weight.fileDescriptors-other.fileDescriptors,weight.readBytes-other.readBytes,
    weight.writeBytes-other.writeBytes,weight.publications-other.publications⟩,?_⟩
  apply checkedSub_eq_some.mpr
  intro r
  exact ⟨h r,by cases r <;> rfl⟩

end ColdWorkWeight

inductive ColdAdmissionError
  | queueFull | weightExceedsCapacity | timedOut
  deriving DecidableEq

structure ColdAdmissionConfig where
  maxQueue : ℕ
  capacity : ColdWorkWeight

/-- A waiter's shared cell, less its flag: the flags are in `World`. -/
structure Waiter where
  id : ℕ
  ticket : UInt64
  weight : ColdWorkWeight
  deriving DecidableEq

structure ColdPermit where
  id : ℕ
  weight : ColdWorkWeight
  deriving DecidableEq

structure AdmissionState where
  used : ColdWorkWeight := {}
  queue : List Waiter := []
  nextTicket : UInt64 := 0

def canAdmit (used requested capacity : ColdWorkWeight) : Bool :=
  (used.checkedAdd requested).any (·.fits capacity)

/-- The waiters let in from the front of the queue and what is left; `none` where an
expectation fails. -/
def schedule (capacity : ColdWorkWeight) :
    ColdWorkWeight → List Waiter → Option (ColdWorkWeight × List Waiter × List Waiter)
  | used, [] => some (used,[],[])
  | used, waiter::queue =>
    if canAdmit used waiter.weight capacity then do
      let used ← used.checkedAdd waiter.weight
      let (used,woken,left) ← schedule capacity used queue
      return (used,waiter::woken,left)
    else some (used,[],waiter::queue)

/-- The scheduler with every live handle: the waits that are neither claimed nor dropped and
the permits. -/
structure World where
  state : AdmissionState := {}
  calls : ℕ := 0
  granted : ℕ → Bool := fun _ => false
  waits : List Waiter := []
  permits : List ColdPermit := []

inductive Reply
  | none | admitted (permit : ColdPermit) | queued (waiter : Waiter)
  | refused (error : ColdAdmissionError)

/-- What one step answers, and the calls whose weight it charged and gave back. -/
structure Effect where
  reply : Reply := .none
  charged : List ℕ := []
  returned : List ℕ := []

inductive Event
  | acquire (weight : ColdWorkWeight)
  | claim (id : ℕ)
  | timeout (id : ℕ)
  | cancel (id : ℕ)
  | release (id : ℕ)

variable (config : ColdAdmissionConfig)

def World.scheduled (world : World) (reply : Reply) (returned : List ℕ) :
    Option (World × Effect) := do
  let (used,woken,left) ← schedule config.capacity world.state.used world.state.queue
  let state := { world.state with used := used, queue := left }
  let granted := fun id => world.granted id || woken.any (·.id == id)
  return ({ world with state := state, granted := granted },⟨reply,woken.map (·.id),returned⟩)

def World.acquire (world : World) (weight : ColdWorkWeight) : Option (World × Effect) :=
  if weight.fits config.capacity then
    if world.state.queue.isEmpty && canAdmit world.state.used weight config.capacity then do
      let used ← world.state.used.checkedAdd weight
      let permit : ColdPermit := ⟨world.calls,weight⟩
      let state := { world.state with used := used }
      return ({ world with
        state := state, calls := world.calls+1, permits := world.permits++[permit] },
        { reply := .admitted permit, charged := [world.calls] })
    else if config.maxQueue ≤ world.state.queue.length then
      some (world,{ reply := .refused .queueFull })
    else
      let waiter : Waiter := ⟨world.calls,world.state.nextTicket,weight⟩
      let state := { world.state with
        queue := world.state.queue++[waiter], nextTicket := world.state.nextTicket+1 }
      some ({ world with
        state := state, calls := world.calls+1
        granted := Function.update world.granted world.calls false
        waits := world.waits++[waiter] },{ reply := .queued waiter })
  else some (world,{ reply := .refused .weightExceedsCapacity })

/-- The waiting task runs, and takes its grant if there is one. -/
def World.claim (world : World) (waiter : Waiter) : World × Effect :=
  if world.granted waiter.id then
    let permit : ColdPermit := ⟨waiter.id,waiter.weight⟩
    ({ world with
      waits := world.waits.filter (·.id ≠ waiter.id), permits := world.permits++[permit] },
      { reply := .admitted permit })
  else (world,{})

/-- Drop of an unclaimed wait. -/
def World.dropWait (world : World) (waiter : Waiter) (reply : Reply) :
    Option (World × Effect) :=
  let waits := world.waits.filter (·.id ≠ waiter.id)
  if world.granted waiter.id then do
    let used ← world.state.used.checkedSub waiter.weight
    { world with
      state := { world.state with used := used }
      granted := Function.update world.granted waiter.id false
      waits := waits }.scheduled config reply [waiter.id]
  else
    { world with
      state := { world.state with
        queue := world.state.queue.eraseP fun other => other.ticket == waiter.ticket }
      waits := waits }.scheduled config reply []

def World.dropPermit (world : World) (permit : ColdPermit) : Option (World × Effect) := do
  let used ← world.state.used.checkedSub permit.weight
  { world with
    state := { world.state with used := used }
    permits := world.permits.filter (·.id ≠ permit.id) }.scheduled config .none [permit.id]

/-- An event that names no live handle changes nothing. -/
def World.step (world : World) : Event → Option (World × Effect)
  | .acquire weight => world.acquire config weight
  | .claim id => some ((world.waits.find? (·.id == id)).elim (world,{}) world.claim)
  | .timeout id => (world.waits.find? (·.id == id)).elim (some (world,{})) fun waiter =>
      world.dropWait config waiter (.refused .timedOut)
  | .cancel id => (world.waits.find? (·.id == id)).elim (some (world,{})) fun waiter =>
      world.dropWait config waiter .none
  | .release id => (world.permits.find? (·.id == id)).elim (some (world,{})) fun permit =>
      world.dropPermit config permit

/-- The calls charged and given back so far, in order. -/
structure History where
  charged : List ℕ := []
  returned : List ℕ := []

def History.push (history : History) (effect : Effect) : History :=
  ⟨history.charged++effect.charged,history.returned++effect.returned⟩

def runStep (now : World × History) (event : Event) : Option (World × History) := do
  let (world,effect) ← now.1.step config event
  return (world,now.2.push effect)

def run (events : List Event) : Option (World × History) := events.foldlM (runStep config) ({},{})

end ColdAdmission
end PgKronika
