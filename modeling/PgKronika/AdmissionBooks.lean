import Mathlib
import PgKronika.ColdAdmission

/-! What every run of cold admission keeps: the amounts in use are those of the live grants, the
grants are in the order of the calls, and each is given back once. -/
namespace PgKronika
namespace ColdAdmission

section Lists

variable {α β γ : Type} [DecidableEq β] [DecidableEq γ] {l a b : List α}

/-- The elements of `l` outside `p` are `a ++ b`: moving `a` over leaves `b`. -/
theorem filter_moved {p q : α → Bool} (hab : (a++b).Nodup) (h : l.filter (fun x => !p x) = a++b)
    (hq : ∀ x ∈ a++b, q x = true ↔ x ∈ a) :
    l.filter (fun x => !(p x || q x)) = b ∧
      (l.filter fun x => p x || q x).Perm (l.filter p++a) := by
  have ha : a.filter q = a := List.filter_eq_self.mpr fun x hx =>
    (hq x (List.mem_append_left _ hx)).mpr hx
  have hb : ∀ x ∈ b, q x = false := by
    intro x hx
    by_contra hne
    have hxa := (hq x (List.mem_append_right _ hx)).mp (by simpa using hne)
    exact (List.nodup_append.mp hab).2.2 x hxa x hx rfl
  have ha' : a.filter (fun x => !q x) = [] := by
    simp only [List.filter_eq_nil_iff]
    intro x hx
    simp [(hq x (List.mem_append_left _ hx)).mpr hx]
  constructor
  · have hs : l.filter (fun x => !(p x || q x)) = (l.filter fun x => !p x).filter (fun x => !q x) := by
      rw [List.filter_filter]
      apply List.filter_congr
      intro x _
      simp [Bool.and_comm]
    rw [hs,h,List.filter_append,ha',List.nil_append,List.filter_eq_self.mpr]
    intro x hx
    simp [hb x hx]
  · have hs := List.filter_append_perm p (l.filter fun x => p x || q x)
    have hp : (l.filter fun x => p x || q x).filter p = l.filter p := by
      rw [List.filter_filter]
      apply List.filter_congr
      intro x _
      cases p x <;> simp
    have hn : (l.filter fun x => p x || q x).filter (fun x => !p x) = a := by
      have hc : (l.filter fun x => p x || q x).filter (fun x => !p x) =
          (l.filter fun x => !p x).filter q := by
        rw [List.filter_filter,List.filter_filter]
        apply List.filter_congr
        intro x _
        cases p x <;> simp
      rw [hc,h,List.filter_append,ha,List.filter_eq_nil_iff.mpr,List.append_nil]
      intro x hx
      simp [hb x hx]
    rw [hp,hn] at hs
    exact hs.symm

theorem filter_key_ne {g : α → γ} {x : α} (hl : ∀ y ∈ l, g x ≠ g y) :
    l.filter (fun y => g y ≠ g x) = l := by
  apply List.filter_eq_self.mpr
  intro y hy
  simpa using (hl y hy).symm

/-- An element is alone under its key. -/
theorem cons_filter_perm {g : α → γ} {x : α} (hl : (l.map g).Nodup) (hx : x ∈ l) :
    (x::l.filter fun y => g y ≠ g x).Perm l := by
  induction l with
  | nil => cases hx
  | cons y l ih =>
    simp only [List.map_cons,List.nodup_cons,List.mem_map,not_exists,not_and] at hl
    by_cases hxy : x = y
    · subst hxy
      simp only [ne_eq,not_true_eq_false,decide_false,Bool.false_eq_true,not_false_eq_true,
        List.filter_cons_of_neg]
      rw [filter_key_ne fun y hy he => hl.1 y hy he.symm]
    · have hxl : x ∈ l := by simpa [hxy] using hx
      have hne : g y ≠ g x := fun he => hl.1 x hxl he.symm
      rw [List.filter_cons_of_pos (by simpa using hne)]
      exact (List.Perm.swap _ _ _).trans ((ih hl.2 hxl).cons y)

/-- Removing the first element with the ticket of `x` removes `x` when tickets are distinct. -/
theorem eraseP_eq_filter {f : α → β} {g : α → γ} {x : α} (hf : (l.map f).Nodup)
    (hg : (l.map g).Nodup) (hx : x ∈ l) :
    (l.eraseP fun y => f y == f x) = l.filter fun y => g y ≠ g x := by
  induction l with
  | nil => cases hx
  | cons y l ih =>
    simp only [List.map_cons,List.nodup_cons,List.mem_map,not_exists,not_and] at hf hg
    by_cases hxy : x = y
    · subst hxy
      rw [List.eraseP_cons_of_pos (by simp),List.filter_cons_of_neg (by simp),
        filter_key_ne fun y hy he => hg.1 y hy he.symm]
    · have hxl : x ∈ l := by simpa [hxy] using hx
      rw [List.eraseP_cons_of_neg (by simpa using fun he => hf.1 x hxl he.symm),
        List.filter_cons_of_pos (by simpa using fun he => hg.1 x hxl he.symm),
        ih hf.2 hg.2 hxl]

end Lists

def charge (r : Resource) (permits : List ColdPermit) : ℕ :=
  (permits.map fun permit => permit.weight.amount r).sum

@[simp] theorem charge_nil (r : Resource) : charge r [] = 0 := rfl

@[simp] theorem charge_cons (r : Resource) (permit : ColdPermit) (permits : List ColdPermit) :
    charge r (permit::permits) = permit.weight.amount r+charge r permits := by
  simp [charge]

@[simp] theorem charge_append (r : Resource) (permits others : List ColdPermit) :
    charge r (permits++others) = charge r permits+charge r others := by
  simp [charge]

theorem charge_perm {r : Resource} {permits others : List ColdPermit} (h : permits.Perm others) :
    charge r permits = charge r others := (h.map _).sum_eq

def Waiter.permit (waiter : Waiter) : ColdPermit := ⟨waiter.id,waiter.weight⟩

/-- The grants alive: the permits, and the waits granted and not yet claimed. -/
def World.holders (world : World) : List ColdPermit :=
  world.permits++(world.waits.filter fun waiter => world.granted waiter.id).map Waiter.permit

def Settled (capacity used : ColdWorkWeight) (queue : List Waiter) : Prop :=
  ∀ waiter ∈ queue.head?, canAdmit used waiter.weight capacity = false

theorem canAdmit_iff {used requested capacity : ColdWorkWeight} :
    canAdmit used requested capacity = true ↔
      ∃ total, used.checkedAdd requested = some total ∧ ∀ r, total.amount r ≤ capacity.amount r := by
  simp only [canAdmit,Option.any_eq_true,ColdWorkWeight.fits_iff]

/-- Scheduling lets in a prefix of the queue, keeps within the capacity and stops at a waiter
that does not fit. -/
theorem schedule_spec {capacity used : ColdWorkWeight} (queue : List Waiter)
    (hused : ∀ r, used.amount r ≤ capacity.amount r) :
    ∃ total woken left, schedule capacity used queue = some (total,woken,left) ∧
      queue = woken++left ∧
      (∀ r, total.amount r = used.amount r+charge r (woken.map Waiter.permit)) ∧
      (∀ r, total.amount r ≤ capacity.amount r) ∧ Settled capacity total left := by
  induction queue generalizing used with
  | nil => exact ⟨used,[],[],rfl,rfl,by simp,hused,by simp [Settled]⟩
  | cons waiter queue ih =>
    by_cases h : canAdmit used waiter.weight capacity = true
    · obtain ⟨next,hadd,hnext⟩ := canAdmit_iff.mp h
      obtain ⟨total,woken,left,hs,hq,htotal,hwithin,hsettled⟩ := ih hnext
      refine ⟨total,waiter::woken,left,?_,by rw [hq,List.cons_append],?_,hwithin,hsettled⟩
      · simp [schedule,h,hadd,hs]
      · intro r
        have hr := (ColdWorkWeight.checkedAdd_eq_some.mp hadd r).1
        have hp : waiter.permit.weight.amount r = waiter.weight.amount r := rfl
        simp only [htotal r,List.map_cons,charge_cons,hp]
        omega
    · refine ⟨used,[],waiter::queue,by simp [schedule,h],rfl,by simp,hused,?_⟩
      simpa [Settled] using h

variable (config : ColdAdmissionConfig)

/-- The books between two critical sections, before the queue is looked at again. -/
structure Kept (world : World) (history : History) : Prop where
  queue : world.state.queue = world.waits.filter fun waiter => !world.granted waiter.id
  used : ∀ r, world.state.used.amount r = charge r world.holders
  within : ∀ r, world.state.used.amount r ≤ config.capacity.amount r
  account : history.charged.Perm (history.returned++world.holders.map (·.id))
  order : history.charged.Pairwise (· < ·)
  behind : ∀ waiter ∈ world.state.queue, ∀ id ∈ history.charged, id < waiter.id
  numbered : (world.waits.map (·.id)).Pairwise (· < ·)
  waitsRecent : ∀ waiter ∈ world.waits, waiter.id < world.calls
  chargedRecent : ∀ id ∈ history.charged, id < world.calls
  tickets : (world.state.queue.map (·.ticket)).Nodup
  short : world.state.queue.length ≤ config.maxQueue

structure Books (world : World) (history : History) : Prop extends Kept config world history where
  settled : Settled config.capacity world.state.used world.state.queue

variable {config} {world : World} {history : History}

namespace Kept

theorem waitsNodup (h : Kept config world history) : (world.waits.map (·.id)).Nodup :=
  h.numbered.imp fun hlt => hlt.ne

theorem queueNumbered (h : Kept config world history) :
    (world.state.queue.map (·.id)).Pairwise (· < ·) := by
  rw [h.queue]
  exact h.numbered.sublist (List.filter_sublist.map _)

theorem mem_queue (h : Kept config world history) {waiter : Waiter} :
    waiter ∈ world.state.queue ↔ waiter ∈ world.waits ∧ world.granted waiter.id = false := by
  simp [h.queue]

theorem holdersNodup (h : Kept config world history) : (world.holders.map (·.id)).Nodup := by
  have hc : history.charged.Nodup := h.order.imp fun hlt => hlt.ne
  exact (List.nodup_append.mp (h.account.nodup_iff.mp hc)).2.1

theorem permitsNodup (h : Kept config world history) : (world.permits.map (·.id)).Nodup := by
  have hh := h.holdersNodup
  rw [World.holders,List.map_append] at hh
  exact (List.nodup_append.mp hh).1

end Kept
/-- Scheduling closes the books of a critical section. -/
theorem scheduled_books (reply : Reply) {returned : List ℕ}
    (h : Kept config world ⟨history.charged,history.returned++returned⟩) :
    ∃ next effect, world.scheduled config reply returned = some (next,effect) ∧
      Books config next (history.push effect) := by
  obtain ⟨total,woken,left,hs,hq,htotal,hwithin,hsettled⟩ :=
    schedule_spec world.state.queue h.within
  have hids : ((woken++left).map (·.id)).Pairwise (· < ·) := hq ▸ h.queueNumbered
  have hmem : ∀ waiter ∈ woken++left,
      woken.any (fun other => other.id == waiter.id) = true ↔ waiter ∈ woken := by
    intro waiter hw
    simp only [List.any_eq_true,beq_iff_eq]
    constructor
    · rintro ⟨other,ho,he⟩
      have hinj := List.inj_on_of_nodup_map (hids.imp fun hlt => hlt.ne)
      exact hinj (List.mem_append_left _ ho) hw he ▸ ho
    · exact fun hw => ⟨waiter,hw,rfl⟩
  have hnodup : (woken++left).Nodup := List.Nodup.of_map _ (hids.imp fun hlt => hlt.ne)
  obtain ⟨hleft,hperm⟩ := filter_moved hnodup (h.queue.symm.trans hq) hmem
  let next : World := { world with
    state := { world.state with used := total, queue := left }
    granted := fun id => world.granted id || woken.any (·.id == id) }
  have hholders : next.holders.Perm (world.holders++woken.map Waiter.permit) := by
    have hp := (hperm.map Waiter.permit).append_left world.permits
    rw [List.map_append,← List.append_assoc] at hp
    exact hp
  have hnames : (woken.map Waiter.permit).map (·.id) = woken.map (·.id) := by
    simp [List.map_map,Function.comp_def,Waiter.permit]
  refine ⟨next,⟨reply,woken.map (·.id),returned⟩,by simp [World.scheduled,hs,next],?_⟩
  exact {
    queue := hleft.symm
    used := by
      intro r
      rw [charge_perm hholders,charge_append,← h.used r]
      exact htotal r
    within := hwithin
    account := by
      have ha := h.account.append_right (woken.map (·.id))
      have hh := hholders.map (·.id)
      rw [List.map_append,hnames] at hh
      rw [List.append_assoc] at ha
      exact ha.trans (hh.symm.append_left _)
    order := by
      apply List.pairwise_append.mpr
      refine ⟨h.order,?_,?_⟩
      · rw [List.map_append] at hids
        exact (List.pairwise_append.mp hids).1
      · intro id hid other ho
        obtain ⟨waiter,hw,rfl⟩ := List.mem_map.mp ho
        exact h.behind waiter (hq ▸ List.mem_append_left _ hw) id hid
    behind := by
      intro waiter hw id hid
      rcases List.mem_append.mp hid with hid | hid
      · exact h.behind waiter (hq ▸ List.mem_append_right _ hw) id hid
      · rw [List.map_append] at hids
        exact (List.pairwise_append.mp hids).2.2 id hid _ (List.mem_map_of_mem hw)
    numbered := h.numbered
    waitsRecent := h.waitsRecent
    chargedRecent := by
      intro id hid
      rcases List.mem_append.mp hid with hid | hid
      · exact h.chargedRecent id hid
      · obtain ⟨waiter,hw,rfl⟩ := List.mem_map.mp hid
        exact h.waitsRecent waiter (h.mem_queue.mp (hq ▸ List.mem_append_left _ hw)).1
    tickets := by
      have ht := h.tickets
      rw [hq,List.map_append] at ht
      exact (List.nodup_append.mp ht).2.1
    short := by
      have hshort := h.short
      rw [hq,List.length_append] at hshort
      change left.length ≤ config.maxQueue
      omega
    settled := hsettled }

/-- An amount given back was in use, and the rest stays charged to the other holders. -/
theorem give_back {used : ColdWorkWeight} {holders others : List ColdPermit} {permit : ColdPermit}
    (hused : ∀ r, used.amount r = charge r holders) (hp : (permit::others).Perm holders) :
    ∃ rest, used.checkedSub permit.weight = some rest ∧
      (∀ r, rest.amount r = charge r others) ∧ ∀ r, rest.amount r ≤ used.amount r := by
  have hle : ∀ r, permit.weight.amount r ≤ used.amount r := by
    intro r
    rw [hused r,← charge_perm hp,charge_cons]
    exact Nat.le_add_right _ _
  obtain ⟨rest,hrest⟩ := ColdWorkWeight.exists_checkedSub hle
  have hr := ColdWorkWeight.checkedSub_eq_some.mp hrest
  refine ⟨rest,hrest,fun r => ?_,fun r => ?_⟩
  · have hu := hused r
    rw [← charge_perm hp,charge_cons] at hu
    have hh := hr r
    omega
  · have hh := hr r
    omega

theorem dropPermit_books (h : Books config world history) {permit : ColdPermit}
    (hp : permit ∈ world.permits) :
    ∃ next effect, world.dropPermit config permit = some (next,effect) ∧
      Books config next (history.push effect) := by
  let others := world.permits.filter (·.id ≠ permit.id)
  have hperm : (permit::others).Perm world.permits := cons_filter_perm h.permitsNodup hp
  let held := (world.waits.filter fun waiter => world.granted waiter.id).map Waiter.permit
  have hholders : (permit::(others++held)).Perm world.holders := hperm.append_right held
  obtain ⟨rest,hrest,hcharge,hle⟩ := give_back h.used hholders
  let now : World := { world with
    state := { world.state with used := rest }, permits := others }
  have hkept : Kept config now ⟨history.charged,history.returned++[permit.id]⟩ := {
    h.toKept with
    used := hcharge
    within := fun r => (hle r).trans (h.within r)
    account := by
      have ha := h.account.trans ((hholders.map (·.id)).symm.append_left history.returned)
      have hnow : now.holders = others++held := rfl
      simpa [List.append_assoc,hnow] using ha }
  obtain ⟨next,effect,hs,hbooks⟩ := scheduled_books .none hkept
  refine ⟨next,effect,?_,hbooks⟩
  simp only [World.dropPermit,hrest,Option.bind_eq_bind,Option.bind_some]
  exact hs

/-- Dropping a wait that was granted gives its charge back. -/
theorem dropGranted_books (h : Books config world history) {waiter : Waiter} {reply : Reply}
    (hw : waiter ∈ world.waits) (hg : world.granted waiter.id = true) :
    ∃ next effect, world.dropWait config waiter reply = some (next,effect) ∧
      Books config next (history.push effect) := by
  let waits := world.waits.filter (·.id ≠ waiter.id)
  let granted := Function.update world.granted waiter.id false
  have hsame : ∀ other ∈ waits, granted other.id = world.granted other.id := by
    intro other ho
    simp only [waits,List.mem_filter,decide_eq_true_eq] at ho
    exact Function.update_of_ne ho.2 _ _
  have hperm : (waiter::waits).Perm world.waits := cons_filter_perm h.waitsNodup hw
  let others := world.permits++(waits.filter fun other => granted other.id).map Waiter.permit
  have hholders : (waiter.permit::others).Perm world.holders := by
    have hf := (hperm.filter fun other => world.granted other.id).map Waiter.permit
    have hc : waits.filter (fun other => granted other.id) =
        waits.filter fun other => world.granted other.id :=
      List.filter_congr fun other ho => hsame other ho
    rw [List.filter_cons_of_pos (p := fun other : Waiter => world.granted other.id) hg,
      List.map_cons,← hc] at hf
    exact List.perm_middle.symm.trans (hf.append_left _)
  obtain ⟨rest,hrest,hcharge,hle⟩ := give_back h.used hholders
  let now : World := { world with
    state := { world.state with used := rest }, granted := granted, waits := waits }
  have hkept : Kept config now ⟨history.charged,history.returned++[waiter.id]⟩ := {
    h.toKept with
    queue := by
      have hq : waits.filter (fun other => !granted other.id) =
          world.state.queue.filter (·.id ≠ waiter.id) := by
        rw [h.queue,List.filter_filter,List.filter_filter]
        apply List.filter_congr
        intro other _
        by_cases he : other.id = waiter.id <;> simp [granted,he]
      rw [hq]
      symm
      apply filter_key_ne
      intro other ho he
      have hn := (h.mem_queue.mp ho).2
      rw [← he,hg] at hn
      cases hn
    used := hcharge
    within := fun r => (hle r).trans (h.within r)
    account := by
      have ha := h.account.trans ((hholders.map (·.id)).symm.append_left history.returned)
      have hnow : now.holders = others := rfl
      simpa [List.append_assoc,hnow,Waiter.permit] using ha
    numbered := h.numbered.sublist (List.filter_sublist.map _)
    waitsRecent := fun other ho => h.waitsRecent other (List.mem_of_mem_filter ho) }
  obtain ⟨next,effect,hs,hbooks⟩ := scheduled_books reply hkept
  refine ⟨next,effect,?_,hbooks⟩
  have hsub : world.state.used.checkedSub waiter.weight = some rest := hrest
  simp only [World.dropWait,hg,if_true,hsub,Option.bind_eq_bind,Option.bind_some]
  exact hs

/-- Dropping a wait in the queue takes it, and no other, out of the queue. -/
theorem dropQueued_books (h : Books config world history) {waiter : Waiter} {reply : Reply}
    (hw : waiter ∈ world.waits) (hg : world.granted waiter.id = false) :
    ∃ next effect, world.dropWait config waiter reply = some (next,effect) ∧
      Books config next (history.push effect) := by
  let waits := world.waits.filter (·.id ≠ waiter.id)
  have hqueue : (world.state.queue.eraseP fun other => other.ticket == waiter.ticket) =
      world.state.queue.filter (·.id ≠ waiter.id) :=
    eraseP_eq_filter h.tickets (h.queueNumbered.imp fun hlt => hlt.ne) (h.mem_queue.mpr ⟨hw,hg⟩)
  let queue := world.state.queue.eraseP fun other => other.ticket == waiter.ticket
  have hsub : queue.Sublist world.state.queue := List.eraseP_sublist
  let now : World := { world with
    state := { world.state with queue := queue }, waits := waits }
  have hgranted : waits.filter (fun other => world.granted other.id) =
      world.waits.filter fun other => world.granted other.id := by
    rw [List.filter_filter]
    apply List.filter_congr
    intro other _
    by_cases he : other.id = waiter.id <;> simp [he,hg]
  have hholders : now.holders = world.holders := by
    change world.permits++(waits.filter _).map _ = _
    rw [hgranted]
    rfl
  have hkept : Kept config now ⟨history.charged,history.returned++[]⟩ := {
    h.toKept with
    queue := by
      change queue = waits.filter _
      rw [show queue = _ from hqueue,h.queue,List.filter_filter,List.filter_filter]
      exact List.filter_congr fun other _ => Bool.and_comm _ _
    used := by rw [hholders]; exact h.used
    account := by rw [hholders,List.append_nil]; exact h.account
    behind := fun other ho => h.behind other (hsub.subset ho)
    numbered := h.numbered.sublist (List.filter_sublist.map _)
    waitsRecent := fun other ho => h.waitsRecent other (List.mem_of_mem_filter ho)
    tickets := h.tickets.sublist (hsub.map _)
    short := hsub.length_le.trans h.short }
  obtain ⟨next,effect,hs,hbooks⟩ := scheduled_books reply hkept
  refine ⟨next,effect,?_,hbooks⟩
  simp only [World.dropWait,hg]
  exact hs

theorem dropWait_books (h : Books config world history) {waiter : Waiter} {reply : Reply}
    (hw : waiter ∈ world.waits) :
    ∃ next effect, world.dropWait config waiter reply = some (next,effect) ∧
      Books config next (history.push effect) := by
  cases hg : world.granted waiter.id with
  | true => exact dropGranted_books h hw hg
  | false => exact dropQueued_books h hw hg

/-- A claim hands the charge of a granted wait over to a permit. -/
theorem claim_books (h : Books config world history) {waiter : Waiter}
    (hw : waiter ∈ world.waits) :
    Books config (world.claim waiter).1 (history.push (world.claim waiter).2) := by
  cases hg : world.granted waiter.id with
  | false => simpa [World.claim,hg,History.push] using h
  | true =>
    let waits := world.waits.filter (·.id ≠ waiter.id)
    let now : World := { world with waits := waits, permits := world.permits++[waiter.permit] }
    have hnow : world.claim waiter = (now,{ reply := .admitted waiter.permit }) := by
      simp [World.claim,hg,now,waits,Waiter.permit]
    have hperm : (waiter::waits).Perm world.waits := cons_filter_perm h.waitsNodup hw
    have hholders : now.holders.Perm world.holders := by
      have hf := (hperm.filter fun other => world.granted other.id).map Waiter.permit
      rw [List.filter_cons_of_pos (p := fun other : Waiter => world.granted other.id) hg,
        List.map_cons] at hf
      have hm := hf.append_left world.permits
      simpa [now,World.holders,List.append_assoc] using hm
    rw [hnow]
    exact {
      h with
      queue := by
        change world.state.queue = waits.filter _
        rw [h.queue,List.filter_filter]
        apply List.filter_congr
        intro other _
        by_cases he : other.id = waiter.id <;> simp [now,he,hg]
      used := by
        intro r
        rw [charge_perm hholders]
        exact h.used r
      account := by
        simpa [History.push] using h.account.trans ((hholders.map (·.id)).symm.append_left _)
      order := by simpa [History.push] using h.order
      behind := by simpa [History.push] using h.behind
      numbered := h.numbered.sublist (List.filter_sublist.map _)
      waitsRecent := fun other ho => h.waitsRecent other (List.mem_of_mem_filter ho)
      chargedRecent := by simpa [History.push] using h.chargedRecent }

/-- No queued waiter holds the ticket given out next. -/
def Fresh (world : World) : Prop :=
  ∀ waiter ∈ world.state.queue, waiter.ticket ≠ world.state.nextTicket

theorem admitNow_books (h : Books config world history) {weight used : ColdWorkWeight}
    (hempty : world.state.queue = []) (hadd : world.state.used.checkedAdd weight = some used)
    (hfits : ∀ r, used.amount r ≤ config.capacity.amount r) :
    Books config { world with
        state := { world.state with used := used }
        calls := world.calls+1, permits := world.permits++[⟨world.calls,weight⟩] }
      ⟨history.charged++[world.calls],history.returned++[]⟩ := by
  let permit : ColdPermit := ⟨world.calls,weight⟩
  let now : World := { world with
    state := { world.state with used := used }
    calls := world.calls+1, permits := world.permits++[permit] }
  have hholders : now.holders.Perm (world.holders++[permit]) := by
    simp only [now,World.holders,List.append_assoc]
    exact List.perm_append_comm.append_left _
  exact {
    h with
    used := by
      intro r
      rw [charge_perm hholders,charge_append,← h.used r]
      exact (ColdWorkWeight.checkedAdd_eq_some.mp hadd r).1.symm
    within := hfits
    account := by
      have ha := h.account.append_right [world.calls]
      have hh := hholders.map (·.id)
      rw [List.append_assoc] at ha
      rw [List.map_append] at hh
      simpa using ha.trans (hh.symm.append_left history.returned)
    order := List.pairwise_append.mpr ⟨h.order,List.pairwise_singleton _ _,by
      simpa using h.chargedRecent⟩
    behind := by simp [hempty]
    waitsRecent := fun waiter hw => (h.waitsRecent waiter hw).trans (Nat.lt_succ_self _)
    chargedRecent := by
      intro id hid
      rcases List.mem_append.mp hid with hid | hid
      · exact (h.chargedRecent id hid).trans (Nat.lt_succ_self _)
      · simp [List.mem_singleton.mp hid]
    settled := by simp [Settled,hempty] }

theorem enqueue_books (h : Books config world history) (hfresh : Fresh world)
    (weight : ColdWorkWeight)
    (hwait : world.state.queue = [] → canAdmit world.state.used weight config.capacity = false)
    (hshort : world.state.queue.length < config.maxQueue) :
    Books config { world with
        state := { world.state with
          queue := world.state.queue++[⟨world.calls,world.state.nextTicket,weight⟩]
          nextTicket := world.state.nextTicket+1 }
        calls := world.calls+1
        granted := Function.update world.granted world.calls false
        waits := world.waits++[⟨world.calls,world.state.nextTicket,weight⟩] } history := by
  let waiter : Waiter := ⟨world.calls,world.state.nextTicket,weight⟩
  let granted := Function.update world.granted world.calls false
  have hsame : ∀ other ∈ world.waits, granted other.id = world.granted other.id := by
    intro other ho
    exact Function.update_of_ne (h.waitsRecent other ho).ne _ _
  have hnew : granted waiter.id = false := Function.update_self _ _ _
  have hgranted : (world.waits++[waiter]).filter (fun other => granted other.id) =
      world.waits.filter fun other => world.granted other.id := by
    rw [List.filter_append,List.filter_cons_of_neg (by simp [hnew]),List.filter_nil,
      List.append_nil]
    exact List.filter_congr fun other ho => hsame other ho
  let now : World := { world with
    state := { world.state with
      queue := world.state.queue++[waiter], nextTicket := world.state.nextTicket+1 }
    calls := world.calls+1, granted := granted, waits := world.waits++[waiter] }
  have hholders : now.holders = world.holders := by
    simp only [now,World.holders,hgranted]
  exact {
    h with
    queue := by
      have hold : world.waits.filter (fun other => !granted other.id) =
          world.waits.filter fun other => !world.granted other.id :=
        List.filter_congr fun other ho => by rw [hsame other ho]
      change world.state.queue++[waiter] =
        (world.waits++[waiter]).filter fun other => !granted other.id
      rw [List.filter_append,hold,← h.queue,List.filter_cons_of_pos (by simp [hnew]),
        List.filter_nil]
    used := fun r => (h.used r).trans (congrArg _ hholders.symm)
    account := by
      change history.charged.Perm (history.returned++now.holders.map (·.id))
      rw [hholders]
      exact h.account
    behind := by
      intro other ho id hid
      rcases List.mem_append.mp ho with ho | ho
      · exact h.behind other ho id hid
      · rw [List.mem_singleton.mp ho]
        exact h.chargedRecent id hid
    numbered := by
      rw [List.map_append]
      refine List.pairwise_append.mpr ⟨h.numbered,List.pairwise_singleton _ _,?_⟩
      simpa using h.waitsRecent
    waitsRecent := by
      intro other ho
      rcases List.mem_append.mp ho with ho | ho
      · exact (h.waitsRecent other ho).trans (Nat.lt_succ_self _)
      · simp [List.mem_singleton.mp ho]
    chargedRecent := fun id hid => (h.chargedRecent id hid).trans (Nat.lt_succ_self _)
    tickets := by
      rw [List.map_append]
      refine List.Nodup.append h.tickets (List.nodup_singleton _) ?_
      simpa [List.disjoint_singleton,Fresh] using hfresh
    short := by simpa using Nat.succ_le_of_lt hshort
    settled := by
      cases hq : world.state.queue with
      | nil => simpa [Settled,hq] using hwait hq
      | cons front rest => simpa [Settled,hq] using h.settled }

theorem acquire_books (h : Books config world history) (hfresh : Fresh world)
    (weight : ColdWorkWeight) :
    ∃ next effect, world.acquire config weight = some (next,effect) ∧
      Books config next (history.push effect) := by
  have hkeep : Books config world (history.push {}) := by simpa [History.push] using h
  unfold World.acquire
  by_cases hfits : weight.fits config.capacity = true
  · by_cases hnow : (world.state.queue.isEmpty &&
        canAdmit world.state.used weight config.capacity) = true
    · have hempty : world.state.queue = [] := by
        simpa using (Bool.and_eq_true_iff.mp hnow).1
      obtain ⟨used,hadd,hused⟩ := canAdmit_iff.mp (Bool.and_eq_true_iff.mp hnow).2
      simp only [hfits,hnow,hadd,if_true,Option.bind_eq_bind,Option.bind_some]
      exact ⟨_,_,rfl,admitNow_books h hempty hadd hused⟩
    · by_cases hfull : config.maxQueue ≤ world.state.queue.length
      · simp only [hfits,hnow,hfull,if_true]
        exact ⟨_,_,rfl,hkeep⟩
      · simp only [hfits,hnow,hfull,if_true,if_false]
        refine ⟨_,_,rfl,?_⟩
        have hbooks := enqueue_books h hfresh weight
          (fun hempty => by simpa [hempty] using hnow) (Nat.lt_of_not_le hfull)
        simpa [History.push] using hbooks
  · simp only [hfits]
    exact ⟨_,_,rfl,hkeep⟩

/-- Only `acquire` gives a ticket out. -/
theorem step_books (h : Books config world history) {event : Event}
    (hfresh : ∀ weight, event = .acquire weight → Fresh world) :
    ∃ next effect, world.step config event = some (next,effect) ∧
      Books config next (history.push effect) := by
  have hkeep : Books config world (history.push {}) := by simpa [History.push] using h
  cases event with
  | acquire weight => exact acquire_books h (hfresh weight rfl) weight
  | claim id =>
    refine ⟨_,_,rfl,?_⟩
    cases hf : world.waits.find? (·.id == id) with
    | none => exact hkeep
    | some waiter => exact claim_books h (List.mem_of_find?_eq_some hf)
  | timeout id =>
    cases hf : world.waits.find? (·.id == id) with
    | none => exact ⟨_,_,by simp [World.step,hf],hkeep⟩
    | some waiter =>
      simp only [World.step,hf,Option.elim_some]
      exact dropWait_books h (List.mem_of_find?_eq_some hf)
  | cancel id =>
    cases hf : world.waits.find? (·.id == id) with
    | none => exact ⟨_,_,by simp [World.step,hf],hkeep⟩
    | some waiter =>
      simp only [World.step,hf,Option.elim_some]
      exact dropWait_books h (List.mem_of_find?_eq_some hf)
  | release id =>
    cases hf : world.permits.find? (·.id == id) with
    | none => exact ⟨_,_,by simp [World.step,hf],hkeep⟩
    | some permit =>
      simp only [World.step,hf,Option.elim_some]
      exact dropPermit_books h (List.mem_of_find?_eq_some hf)

end ColdAdmission
end PgKronika
