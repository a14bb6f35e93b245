import Mathlib
import PgKronika.AdmissionBooks

/-! Runs of cold admission: sound as long as the 64-bit ticket counter does not come round to a
waiter that is still queued, and a run where it does. -/
namespace PgKronika
namespace ColdAdmission

variable {config : ColdAdmissionConfig} {world : World} {history : History}

theorem start_books : Books config {} {} where
  queue := rfl
  used := by intro r; cases r <;> rfl
  within := by intro r; cases r <;> exact Nat.zero_le _
  account := List.Perm.refl _
  order := List.Pairwise.nil
  behind := by simp
  numbered := List.Pairwise.nil
  waitsRecent := by simp
  chargedRecent := by simp
  tickets := List.nodup_nil
  short := Nat.zero_le _
  settled := by simp [Settled]

theorem run_append (events : List Event) (event : Event) :
    run config (events++[event]) = (run config events).bind fun now => runStep config now event := by
  simp [run,List.foldlM_append]

/-- The ticket counter never meets a ticket that is still queued when `acquire` is called. -/
def FreshTickets (config : ColdAdmissionConfig) (events : List Event) : Prop :=
  ∀ before weight now, before++[.acquire weight] <+: events → run config before = some now →
    Fresh now.1

theorem FreshTickets.start {events more : List Event} (h : FreshTickets config (events++more)) :
    FreshTickets config events :=
  fun before weight now hp => h before weight now (hp.trans (List.prefix_append _ _))

theorem run_books {events : List Event} (hfresh : FreshTickets config events) :
    ∃ world history, run config events = some (world,history) ∧ Books config world history := by
  induction events using List.reverseRecOn with
  | nil => exact ⟨_,_,rfl,start_books⟩
  | append_singleton events event ih =>
    obtain ⟨world,history,hrun,hbooks⟩ := ih hfresh.start
    have hnow : ∀ weight, event = .acquire weight → Fresh world := by
      rintro weight rfl
      exact hfresh events weight (world,history) (List.prefix_refl _) hrun
    obtain ⟨next,effect,hstep,hnext⟩ := step_books hbooks hnow
    refine ⟨next,history.push effect,?_,hnext⟩
    simp [run_append,hrun,runStep,hstep]

/-- What a client of the scheduler may rely on between two steps. -/
structure Sound (config : ColdAdmissionConfig) (world : World) (history : History) : Prop where
  used : ∀ r, world.state.used.amount r = charge r world.holders
  within : ∀ r, world.state.used.amount r ≤ config.capacity.amount r
  arrivalOrder : history.charged.Pairwise (· < ·)
  nonePassed : ∀ waiter ∈ world.state.queue, ∀ id ∈ history.charged, id < waiter.id
  releasedOnce : history.charged.Perm (history.returned++world.holders.map (·.id))
  short : world.state.queue.length ≤ config.maxQueue
  settled : Settled config.capacity world.state.used world.state.queue
  drained : world.permits = [] → world.waits = [] → ∀ r, world.state.used.amount r = 0

theorem Books.sound (h : Books config world history) : Sound config world history where
  used := h.used
  within := h.within
  arrivalOrder := h.order
  nonePassed := h.behind
  releasedOnce := h.account
  short := h.short
  settled := h.settled
  drained := by
    intro hp hw r
    simp [h.used r,World.holders,hp,hw]

/-- Tickets are the numbers of the waits queued so far, cut to 64 bits. -/
structure Ticketed (world : World) (count : ℕ) : Prop where
  next : world.state.nextTicket = UInt64.ofNat count
  queued : ∀ waiter ∈ world.state.queue, ∃ n < count, waiter.ticket = UInt64.ofNat n

theorem Ticketed.fresh {count : ℕ} (h : Ticketed world count) (hcount : count < 2^64) :
    Fresh world := by
  intro waiter hw he
  obtain ⟨n,hn,ht⟩ := h.queued waiter hw
  have hnat := congrArg UInt64.toNat (ht.symm.trans (he.trans h.next))
  simp only [UInt64.toNat_ofNat'] at hnat
  omega

theorem Ticketed.sub {next : World} {count : ℕ} (h : Ticketed world count)
    (hq : next.state.queue.Sublist world.state.queue)
    (hn : next.state.nextTicket = world.state.nextTicket) : Ticketed next count :=
  ⟨hn.trans h.next,fun waiter hw => h.queued waiter (hq.subset hw)⟩

theorem schedule_left {capacity used total : ColdWorkWeight} {queue woken left : List Waiter}
    (h : schedule capacity used queue = some (total,woken,left)) : queue = woken++left := by
  induction queue generalizing used woken with
  | nil => cases h; rfl
  | cons waiter queue ih =>
    simp only [schedule] at h
    split at h
    · simp only [Option.bind_eq_bind,Option.bind_eq_some_iff] at h
      obtain ⟨_,_,⟨_,_,_⟩,hs,h⟩ := h
      cases h
      rw [ih hs,List.cons_append]
    · cases h; rfl

theorem scheduled_ticketed {reply : Reply} {returned : List ℕ} {next : World} {effect : Effect}
    {count : ℕ} (h : Ticketed world count)
    (hs : world.scheduled config reply returned = some (next,effect)) : Ticketed next count := by
  simp only [World.scheduled,Option.bind_eq_bind,Option.bind_eq_some_iff] at hs
  obtain ⟨⟨total,woken,left⟩,hs,he⟩ := hs
  cases he
  refine h.sub ?_ rfl
  rw [schedule_left hs]
  exact List.sublist_append_right _ _

theorem dropWait_ticketed {waiter : Waiter} {reply : Reply} {next : World} {effect : Effect}
    {count : ℕ} (h : Ticketed world count)
    (hs : world.dropWait config waiter reply = some (next,effect)) : Ticketed next count := by
  simp only [World.dropWait] at hs
  split at hs
  · simp only [Option.bind_eq_bind,Option.bind_eq_some_iff] at hs
    obtain ⟨_,_,hs⟩ := hs
    refine scheduled_ticketed ?_ hs
    exact h.sub (List.Sublist.refl _) rfl
  · refine scheduled_ticketed ?_ hs
    exact h.sub List.eraseP_sublist rfl

def Event.isAcquire : Event → Bool
  | .acquire _ => true
  | _ => false

theorem acquire_ticketed {weight : ColdWorkWeight} {next : World} {effect : Effect} {count : ℕ}
    (h : Ticketed world count) (hs : world.acquire config weight = some (next,effect)) :
    ∃ more ≤ count+1, Ticketed next more := by
  have hkeep : ∃ more ≤ count+1, Ticketed world more := ⟨count,Nat.le_succ _,h⟩
  simp only [World.acquire] at hs
  split at hs
  · split at hs
    · simp only [Option.bind_eq_bind,Option.bind_eq_some_iff] at hs
      obtain ⟨_,_,he⟩ := hs
      cases he
      exact ⟨count,Nat.le_succ _,h.sub (List.Sublist.refl _) rfl⟩
    · split at hs
      · cases hs; exact hkeep
      · cases hs
        refine ⟨count+1,le_rfl,by simp [h.next],?_⟩
        intro waiter hw
        rcases List.mem_append.mp hw with hw | hw
        · obtain ⟨n,hn,ht⟩ := h.queued waiter hw
          exact ⟨n,hn.trans (Nat.lt_succ_self _),ht⟩
        · exact ⟨count,Nat.lt_succ_self _,by simp [List.mem_singleton.mp hw,h.next]⟩
  · cases hs; exact hkeep

theorem step_ticketed {event : Event} {next : World} {effect : Effect} {count : ℕ}
    (h : Ticketed world count) (hs : world.step config event = some (next,effect)) :
    ∃ more ≤ count+(if event.isAcquire then 1 else 0), Ticketed next more := by
  cases event with
  | acquire weight => exact acquire_ticketed h hs
  | claim id =>
    refine ⟨count,le_rfl,?_⟩
    simp only [World.step] at hs
    cases hf : world.waits.find? (·.id == id) with
    | none => simp only [hf] at hs; cases hs; exact h
    | some waiter =>
      simp only [hf,Option.elim_some,World.claim] at hs
      split at hs <;> cases hs
      · exact h.sub (List.Sublist.refl _) rfl
      · exact h
  | timeout id =>
    refine ⟨count,le_rfl,?_⟩
    simp only [World.step] at hs
    cases hf : world.waits.find? (·.id == id) with
    | none => simp only [hf] at hs; cases hs; exact h
    | some waiter => simp only [hf] at hs; exact dropWait_ticketed h hs
  | cancel id =>
    refine ⟨count,le_rfl,?_⟩
    simp only [World.step] at hs
    cases hf : world.waits.find? (·.id == id) with
    | none => simp only [hf] at hs; cases hs; exact h
    | some waiter => simp only [hf] at hs; exact dropWait_ticketed h hs
  | release id =>
    refine ⟨count,le_rfl,?_⟩
    simp only [World.step] at hs
    cases hf : world.permits.find? (·.id == id) with
    | none => simp only [hf] at hs; cases hs; exact h
    | some permit =>
      simp only [hf,Option.elim_some,World.dropPermit,Option.bind_eq_bind,
        Option.bind_eq_some_iff] at hs
      obtain ⟨_,_,hs⟩ := hs
      refine scheduled_ticketed ?_ hs
      exact h.sub (List.Sublist.refl _) rfl

theorem run_ticketed {events : List Event} {now : World × History}
    (h : run config events = some now) :
    ∃ count ≤ events.countP Event.isAcquire, Ticketed now.1 count := by
  induction events using List.reverseRecOn generalizing now with
  | nil =>
    cases h
    exact ⟨0,le_rfl,rfl,by simp⟩
  | append_singleton events event ih =>
    rw [run_append,Option.bind_eq_some_iff] at h
    obtain ⟨last,hlast,h⟩ := h
    simp only [runStep,Option.bind_eq_bind,Option.bind_eq_some_iff] at h
    obtain ⟨⟨next,effect⟩,hstep,he⟩ := h
    cases he
    obtain ⟨count,hcount,ht⟩ := ih hlast
    obtain ⟨more,hmore,hnext⟩ := step_ticketed ht hstep
    refine ⟨more,?_,hnext⟩
    rw [List.countP_append,List.countP_singleton]
    omega

/-- Fewer calls than tickets: no ticket comes back. -/
theorem freshTickets_of_few {events : List Event}
    (h : events.countP Event.isAcquire ≤ 2^64) : FreshTickets config events := by
  intro before weight now hp hrun
  obtain ⟨count,hcount,ht⟩ := run_ticketed hrun
  have hle := hp.sublist.countP_le (p := Event.isAcquire)
  rw [List.countP_append,List.countP_singleton] at hle
  simp only [Event.isAcquire,if_true] at hle
  exact ht.fresh (by omega)

/-- No expectation fails in the run, and it is sound after each event. -/
def SoundRun (config : ColdAdmissionConfig) (events : List Event) : Prop :=
  ∀ before, before <+: events → ∃ world history, run config before = some (world,history) ∧
    Sound config world history

/-- A run is sound when its ticket counter does not come round to a queued ticket. -/
theorem run_sound (config : ColdAdmissionConfig) (events : List Event)
    (hfresh : FreshTickets config events) : SoundRun config events := by
  rintro before ⟨after,rfl⟩
  obtain ⟨world,history,hrun,hbooks⟩ := run_books hfresh.start
  exact ⟨world,history,hrun,hbooks.sound⟩

def unitWeight : ColdWorkWeight := ⟨1,1,1,1,1,1,1,1⟩

/-- One unit of everything and room for two waiters. -/
def unitConfig : ColdAdmissionConfig := ⟨2,unitWeight⟩

theorem run_sound_handover :
    SoundRun unitConfig [.acquire unitWeight,.acquire unitWeight,.release 0,.claim 1] :=
  run_sound unitConfig _ (freshTickets_of_few (by decide))

/-- One holder, one waiter under ticket zero and the next ticket and call. -/
def crowded (ticket : UInt64) (calls : ℕ) : World where
  state := { used := unitWeight, queue := [⟨1,0,unitWeight⟩], nextTicket := ticket }
  calls := calls
  waits := [⟨1,0,unitWeight⟩]
  permits := [⟨0,unitWeight⟩]

/-- A second waiter has joined the queue. -/
def joined (ticket : UInt64) (calls : ℕ) : World where
  state := {
    used := unitWeight
    queue := [⟨1,0,unitWeight⟩,⟨calls,ticket,unitWeight⟩]
    nextTicket := ticket+1 }
  calls := calls+1
  waits := [⟨1,0,unitWeight⟩,⟨calls,ticket,unitWeight⟩]
  permits := [⟨0,unitWeight⟩]

theorem crowded_acquire (ticket : UInt64) (calls : ℕ) :
    (crowded ticket calls).step unitConfig (.acquire unitWeight) =
      some (joined ticket calls,{ reply := .queued ⟨calls,ticket,unitWeight⟩ }) := by
  have hfits : unitWeight.fits unitWeight = true := by decide
  simp [World.step,World.acquire,crowded,joined,unitConfig,hfits]

theorem schedule_full (waiter : Waiter) (hw : waiter.weight = unitWeight) (queue : List Waiter) :
    schedule unitWeight unitWeight (waiter::queue) = some (unitWeight,[],waiter::queue) := by
  have hfull : canAdmit unitWeight unitWeight unitWeight = false := by decide
  simp [schedule,hw,hfull]

/-- A waiter with a ticket of its own leaves as it came. -/
theorem joined_cancel {ticket : UInt64} (calls : ℕ) (ht : ticket ≠ 0) (hc : calls ≠ 1) :
    (joined ticket calls).step unitConfig (.cancel calls) =
      some (crowded (ticket+1) (calls+1),{}) := by
  have hfirst : ((0 : UInt64) == ticket) = false := by simpa using ht.symm
  simp [World.step,World.dropWait,World.scheduled,joined,crowded,unitConfig,hfirst,hc.symm,
    schedule_full,List.eraseP_cons]

/-- Under ticket zero, the first waiter leaves the queue in its place. -/
theorem joined_cancel_zero {calls : ℕ} (hc : calls ≠ 1) :
    (joined 0 calls).step unitConfig (.cancel calls) =
      some ({ crowded 1 (calls+1) with
        state := { used := unitWeight, queue := [⟨calls,0,unitWeight⟩], nextTicket := 1 } },{}) := by
  simp [World.step,World.dropWait,World.scheduled,joined,crowded,unitConfig,hc.symm,
    schedule_full,List.eraseP_cons]

/-- `n` waiters come and go behind the first one. -/
def crowd : ℕ → List Event
  | 0 => [.acquire unitWeight,.acquire unitWeight]
  | n+1 => crowd n++[.acquire unitWeight,.cancel (2+n)]

theorem run_append_two {events : List Event} {first second : Event} {world next last : World}
    {history : History} {one other : Effect} (hrun : run config events = some (world,history))
    (hone : world.step config first = some (next,one))
    (hother : next.step config second = some (last,other)) :
    run config (events++[first,second]) = some (last,(history.push one).push other) := by
  rw [List.append_cons,run_append,run_append,hrun]
  simp [runStep,hone,hother]

theorem run_crowd {n : ℕ} (hn : n < 2^64) :
    run unitConfig (crowd n) = some (crowded (UInt64.ofNat (1+n)) (2+n),⟨[0],[]⟩) := by
  induction n with
  | zero =>
    have hfits : unitWeight.fits unitWeight = true := by decide
    have hadd : ({} : ColdWorkWeight).checkedAdd unitWeight = some unitWeight := by decide
    have hnow : canAdmit {} unitWeight unitWeight = true := by decide
    have hfull : canAdmit unitWeight unitWeight unitWeight = false := by decide
    simp [crowd,run,runStep,World.step,World.acquire,unitConfig,hfits,hadd,hnow,hfull,crowded,
      History.push]
  | succ n ih =>
    have ht : UInt64.ofNat (1+n) ≠ 0 := by
      intro he
      have hnat := congrArg UInt64.toNat he
      simp only [UInt64.toNat_ofNat',UInt64.toNat_zero] at hnat
      omega
    have hnext : UInt64.ofNat (1+n)+1 = UInt64.ofNat (1+(n+1)) := by
      rw [← Nat.add_assoc,UInt64.ofNat_add (1+n) 1]
      rfl
    have hcancel := joined_cancel (2+n) ht (by omega)
    rw [hnext] at hcancel
    have hh := run_append_two (ih (by omega)) (crowded_acquire _ _) hcancel
    simpa [crowd,History.push,Nat.add_assoc] using hh

/-- The cancelled waiter is let in by the next release, and never leaves. -/
theorem adrift_release {calls : ℕ} (hc : calls ≠ 1) :
    ∃ one other next last, ({ crowded 1 (calls+1) with
        state := { used := unitWeight, queue := [⟨calls,0,unitWeight⟩], nextTicket := 1 } } :
          World).step unitConfig (.release 0) = some (next,one) ∧
      next.step unitConfig (.cancel 1) = some (last,other) ∧
      last.permits = [] ∧ last.waits = [] ∧ last.state.used = unitWeight := by
  have hsub : unitWeight.checkedSub unitWeight = some {} := by decide
  have hadd : ({} : ColdWorkWeight).checkedAdd unitWeight = some unitWeight := by decide
  have hnow : canAdmit {} unitWeight unitWeight = true := by decide
  simp [World.step,World.dropPermit,World.dropWait,World.scheduled,crowded,unitConfig,hsub,hadd,
    hnow,schedule,hc]

/-- After the counter has come round, one waiter takes another out of the queue. -/
def wrapped : List Event :=
  crowd (2^64-1)++[.acquire unitWeight,.cancel (2^64+1)]++[.release 0,.cancel 1]

theorem run_wrapped : ∃ world history, run unitConfig wrapped = some (world,history) ∧
    world.permits = [] ∧ world.waits = [] ∧ world.state.used = unitWeight := by
  have hticket : UInt64.ofNat (1+(2^64-1)) = 0 := by decide
  have hcrowd := run_crowd (n := 2^64-1) (by omega)
  rw [hticket,show 2+(2^64-1) = 2^64+1 by omega] at hcrowd
  have hc : 2^64+1 ≠ 1 := by omega
  have hround := run_append_two hcrowd (crowded_acquire _ _) (joined_cancel_zero hc)
  obtain ⟨one,other,next,last,hrelease,hcancel,hlast⟩ := adrift_release hc
  exact ⟨last,_,run_append_two hround hrelease hcancel,hlast⟩

/-- Without the condition on tickets a weight is lost. -/
theorem wrapped_loses_a_weight :
    ¬∀ (config : ColdAdmissionConfig) (events : List Event), SoundRun config events := by
  intro h
  obtain ⟨world,history,hrun,hsound⟩ := h unitConfig wrapped wrapped (List.prefix_refl _)
  obtain ⟨last,_,hlast,hp,hw,hused⟩ := run_wrapped
  rw [hrun] at hlast
  cases hlast
  have hzero := hsound.drained hp hw .workers
  rw [hused] at hzero
  cases hzero

end ColdAdmission
end PgKronika
