import PgKronika.Scheduler

/-! Runs of scheduler calls: how tables and indexes keep apart, and how long a source waits. -/
namespace PgKronika

inductive SchedulerCall
  | plan (now : ℕ) (force : Bool)
  | defer (kind : SourceKind)
  | accelerate (kind : SourceKind) (secs : ℕ)
  | relax (kind : SourceKind)
  | markSegmentOpened
  deriving DecidableEq

def SchedulerCall.isPlan : SchedulerCall → Bool
  | .plan _ _ => true
  | _ => false

namespace Scheduler

def call (s : Scheduler) : SchedulerCall → Scheduler
  | .plan now force => (s.plan now force).2
  | .defer kind => s.defer kind
  | .accelerate kind secs => (s.accelerate kind secs).2
  | .relax kind => (s.relax kind).2
  | .markSegmentOpened => s.markSegmentOpened

def run (s : Scheduler) (calls : List SchedulerCall) : Scheduler := calls.foldl call s

/-- The interval in force for a source. -/
def pace (s : Scheduler) (kind : SourceKind) : ℕ := (s.overrides kind).getD (s.intervals.of kind)

/-- What somebody who watches every call of a run knows at its end. -/
def observe {α : Type} (f : Scheduler → SchedulerCall → α → α) :
    Scheduler → α → List SchedulerCall → α
  | _, seen, [] => seen
  | s, seen, c::calls => observe f (s.call c) (f s c seen) calls

theorem observe_invariant {α : Type} {f : Scheduler → SchedulerCall → α → α}
    {I : Scheduler → α → Prop} (hstep : ∀ s c seen, I s seen → I (s.call c) (f s c seen))
    {s : Scheduler} {seen : α} (h : I s seen) (calls : List SchedulerCall) :
    I (s.run calls) (observe f s seen calls) := by
  induction calls generalizing s seen with
  | nil => exact h
  | cons c calls ih => exact ih (hstep s c seen h)

/-- When the source was last returned, after one more call. -/
def seeReturn (kind : SourceKind) (s : Scheduler) (c : SchedulerCall) (last : Option ℕ) : Option ℕ :=
  match c with
  | .plan now force => if (s.plan now force).1.has kind then some now else last
  | _ => last

/-- When a run last returned the source. -/
def lastReturn (kind : SourceKind) (s : Scheduler) (calls : List SchedulerCall) : Option ℕ :=
  observe (seeReturn kind) s none calls

/-- Whether the indexes stand read, after one more call: returned, and neither yielded nor deferred
since. -/
def seeIndexes (s : Scheduler) (c : SchedulerCall) (stands : Bool) : Bool :=
  match c with
  | .plan now force => (s.plan now force).1.has .userIndexes || (stands && !s.isDue now .userIndexes)
  | .defer kind => stands && kind != .userIndexes
  | _ => stands

def indexesStandRead (s : Scheduler) (calls : List SchedulerCall) : Bool :=
  observe seeIndexes s false calls

theorem call_intervals (s : Scheduler) (c : SchedulerCall) : (s.call c).intervals = s.intervals := by
  cases c with
  | plan now force =>
    rw [call,plan]
    dsimp only
    split_ifs <;> rfl
  | defer kind => rfl
  | accelerate kind secs =>
    rw [call,accelerate]
    split_ifs <;> rfl
  | relax kind => rfl
  | markSegmentOpened => rfl

theorem run_intervals (s : Scheduler) (calls : List SchedulerCall) :
    (s.run calls).intervals = s.intervals := by
  induction calls generalizing s with
  | nil => rfl
  | cons c calls ih => exact (ih (s.call c)).trans (call_intervals s c)

/-- The indexes are due together with the tables, and not for the first time. -/
def Yields (s : Scheduler) (now : ℕ) : Prop :=
  (s.lastRead .userIndexes).isSome ∧ 0 < s.intervals.userIndexes ∧ s.isDue now .userTables = true ∧
    s.isDue now .userIndexes = true

instance (s : Scheduler) (now : ℕ) : Decidable (s.Yields now) := inferInstanceAs (Decidable (_ ∧ _))

/-- What an unforced plan answers. -/
theorem plan_unforced_has (s : Scheduler) (now : ℕ) (kind : SourceKind) :
    (s.plan now false).1.has kind = true ↔
      s.isDue now kind = true ∧ ¬(kind = .userIndexes ∧ s.Yields now) := by
  by_cases hyields : s.Yields now
  · have hkinds := hyields.2.2
    rw [plan,if_neg (by decide),if_pos (by simpa [Yields,mem_allSources] using hyields),DueSet.has,
      List.contains_iff_mem,List.mem_filter,List.mem_filter]
    simp [mem_allSources,hyields]
  · rw [plan,if_neg (by decide),if_neg (by simpa [Yields,mem_allSources] using hyields),DueSet.has,
      List.contains_iff_mem,List.mem_filter]
    simp [mem_allSources,hyields]

/-- What an unforced plan leaves: a source that was not due keeps its clock, and indexes that yield
lose theirs. -/
theorem plan_unforced_lastRead (s : Scheduler) (now : ℕ) (kind : SourceKind) :
    (s.plan now false).2.lastRead kind =
      if kind = .userIndexes ∧ s.Yields now then none
      else if s.isDue now kind then some now else s.lastRead kind := by
  by_cases hyields : s.Yields now
  · rw [plan,if_neg (by decide),if_pos (by simpa [Yields,mem_allSources] using hyields)]
    by_cases hkind : kind = .userIndexes
    · subst hkind
      simp [Scheduler.defer,hyields]
    · simp [Scheduler.defer,hkind,mem_allSources]
  · rw [plan,if_neg (by decide),if_neg (by simpa [Yields,mem_allSources] using hyields)]
    simp [hyields,mem_allSources]

theorem plan_forced_has (s : Scheduler) (now : ℕ) (kind : SourceKind) :
    (s.plan now true).1.has kind = true := List.contains_iff_mem.mpr (mem_allSources kind)

/-- Whatever plan comes, it returns a source that has no clock. -/
theorem plan_has_of_unread {s : Scheduler} {kind : SourceKind} (h : s.lastRead kind = none)
    (now : ℕ) (force : Bool) : (s.plan now force).1.has kind = true := by
  cases force with
  | true => exact plan_forced_has s now kind
  | false =>
    refine (plan_unforced_has s now kind).mpr ⟨by rw [isDue,h]; rfl,?_⟩
    rintro ⟨rfl,hyields⟩
    rw [Yields,h] at hyields
    cases hyields.1

/-- A clock always shows the last return. -/
theorem lastRead_return {s : Scheduler} {c : SchedulerCall} {kind : SourceKind} {last : Option ℕ}
    (h : s.lastRead kind = none ∨ s.lastRead kind = last) :
    (s.call c).lastRead kind = none ∨ (s.call c).lastRead kind = seeReturn kind s c last := by
  cases c with
  | plan now force =>
    cases force with
    | true => exact .inr (by rw [seeReturn,if_pos (plan_forced_has s now kind)]; rfl)
    | false =>
      rw [call,plan_unforced_lastRead,seeReturn]
      by_cases hhas : (s.plan now false).1.has kind = true
      · obtain ⟨hdue,hnot⟩ := (plan_unforced_has s now kind).mp hhas
        rw [if_neg hnot,if_pos hdue,if_pos hhas]
        exact .inr rfl
      · rw [if_neg hhas]
        split_ifs with hyields hdue
        · exact .inl rfl
        · exact absurd ((plan_unforced_has s now kind).mpr ⟨hdue,hyields⟩) hhas
        · exact h
  | defer k =>
    rw [call,defer]
    by_cases hk : kind = k
    · subst hk
      exact .inl (Function.update_self ..)
    · dsimp only
      rw [Function.update_of_ne hk]
      exact h
  | accelerate k secs =>
    rw [call,accelerate]
    split_ifs <;> exact h
  | relax k => exact h
  | markSegmentOpened =>
    rw [call,markSegmentOpened]
    dsimp only
    split_ifs
    · exact .inl rfl
    · exact h

theorem run_lastRead (intervals : Intervals) (calls : List SchedulerCall) (kind : SourceKind) :
    ((new intervals).run calls).lastRead kind = none ∨
      ((new intervals).run calls).lastRead kind = lastReturn kind (new intervals) calls :=
  observe_invariant (I := fun s last => s.lastRead kind = none ∨ s.lastRead kind = last)
    (fun _ _ _ h => lastRead_return h) (.inl rfl) calls

/-- Indexes that stand read have a clock. -/
theorem indexes_clock {s : Scheduler} {c : SchedulerCall} {stands : Bool}
    (h : stands = true → (s.lastRead .userIndexes).isSome = true) (hc : seeIndexes s c stands = true) :
    ((s.call c).lastRead .userIndexes).isSome = true := by
  cases c with
  | plan now force =>
    cases force with
    | true => rfl
    | false =>
      rw [seeIndexes,Bool.or_eq_true,Bool.and_eq_true,Bool.not_eq_true'] at hc
      rw [call,plan_unforced_lastRead]
      rcases hc with hhas | ⟨hstands,hnot⟩
      · obtain ⟨hdue,hyields⟩ := (plan_unforced_has s now .userIndexes).mp hhas
        rw [if_neg hyields,if_pos hdue]
        rfl
      · have hyields : ¬ s.Yields now := fun hyields => by
          rw [hyields.2.2.2] at hnot
          cases hnot
        rw [if_neg fun h => hyields h.2,if_neg (by simp [hnot])]
        exact h hstands
  | defer k =>
    rw [seeIndexes,Bool.and_eq_true,bne_iff_ne] at hc
    rw [call,defer]
    simpa [hc.2.symm] using h hc.1
  | accelerate k secs =>
    rw [call,accelerate]
    split_ifs <;> exact h hc
  | relax k => exact h hc
  | markSegmentOpened =>
    have hkeep : SourceKind.userIndexes ∉ segmentOpenSources := by decide
    rw [call,markSegmentOpened]
    dsimp only
    rw [if_neg hkeep]
    exact h hc

theorem run_indexes_clock (intervals : Intervals) (calls : List SchedulerCall)
    (h : indexesStandRead (new intervals) calls = true) :
    (((new intervals).run calls).lastRead .userIndexes).isSome = true :=
  observe_invariant (I := fun s stands => stands = true → (s.lastRead .userIndexes).isSome = true)
    (fun _ _ _ h hc => indexes_clock h hc) (fun h => by cases h) calls h

/-- Until the next plan, a source without a clock gets none. -/
theorem run_unread {s : Scheduler} {kind : SourceKind} (h : s.lastRead kind = none)
    {between : List SchedulerCall} (hbetween : ∀ c ∈ between, c.isPlan = false) :
    (s.run between).lastRead kind = none := by
  induction between generalizing s with
  | nil => exact h
  | cons c between ih =>
    refine ih ?_ fun c' hc' => hbetween c' (List.mem_cons_of_mem _ hc')
    have hplan := hbetween c List.mem_cons_self
    rcases @lastRead_return s c kind none (.inl h) with hnone | hnone
    · exact hnone
    · rw [hnone]
      cases c with
      | plan now force => cases hplan
      | _ => rfl

end Scheduler

open Scheduler in
/-- Indexes that stand read do not share an unforced plan with the tables. Every source whose interval
has elapsed is in the due set, or it is the indexes that yield, and then it is in the next one. -/
theorem tables_and_indexes_keep_apart (intervals : Intervals) (hpos : 0 < intervals.userIndexes)
    (calls : List SchedulerCall) (now : ℕ) :
    (indexesStandRead (new intervals) calls = true →
      ¬((((new intervals).run calls).plan now false).1.has .userTables = true ∧
        (((new intervals).run calls).plan now false).1.has .userIndexes = true)) ∧
    ∀ kind, ((lastReturn kind (new intervals) calls).all fun last =>
        (((new intervals).run calls).pace kind)*nanosPerSec ≤ now-last) = true →
      (((new intervals).run calls).plan now false).1.has kind = true ∨
      (kind = .userIndexes ∧
        (((new intervals).run calls).plan now false).1.has .userTables = true ∧
        ∀ between now' force, (∀ c ∈ between, c.isPlan = false) →
          ((((((new intervals).run calls).plan now false).2.run between).plan now' force).1.has
            .userIndexes = true)) := by
  have hpos' : 0 < ((new intervals).run calls).intervals.userIndexes := by
    rw [run_intervals]
    exact hpos
  have hclock := run_indexes_clock intervals calls
  have hread := run_lastRead intervals calls
  generalize (new intervals).run calls = s at hpos' hclock hread ⊢
  refine ⟨fun hstands ⟨htables,hindexes⟩ => ?_,fun kind helapsed => ?_⟩
  · obtain ⟨hdue,hnot⟩ := (plan_unforced_has s now .userIndexes).mp hindexes
    have hdueTables := ((plan_unforced_has s now .userTables).mp htables).1
    exact hnot ⟨rfl,hclock hstands,hpos',hdueTables,hdue⟩
  · have hdue : s.isDue now kind = true := by
      rw [isDue]
      rcases hread kind with hnone | hlast
      · rw [hnone]
        rfl
      · rw [hlast]
        exact helapsed
    by_cases hyields : kind = .userIndexes ∧ s.Yields now
    · obtain ⟨rfl,hyields⟩ := hyields
      refine .inr ⟨rfl,(plan_unforced_has s now .userTables).mpr ⟨hyields.2.2.1,by simp⟩,?_⟩
      intro between now' force hbetween
      refine plan_has_of_unread (run_unread ?_ hbetween) now' force
      rw [plan_unforced_lastRead,if_pos ⟨rfl,hyields⟩]
    · exact .inl ((plan_unforced_has s now kind).mpr ⟨hdue,hyields⟩)

open Scheduler in
theorem tables_and_indexes_keep_apart_default :
    ¬((((new .default).run [.plan 0 false]).plan (60*nanosPerSec) false).1.has .userTables = true ∧
      (((new .default).run [.plan 0 false]).plan (60*nanosPerSec) false).1.has .userIndexes = true) :=
  (tables_and_indexes_keep_apart .default (by decide) [.plan 0 false] (60*nanosPerSec)).1
    (by decide)

open Scheduler in
/-- Indexes that have been returned yield at 60 s, and share the next unforced plan with the tables when
that comes at 90 s; when a forced plan comes between, the next unforced one leaves them out. -/
theorem tables_and_indexes_share_a_plan :
    ((new .default).plan 0 false).1.has .userIndexes = true ∧
    (((new .default).run [.plan 0 false,.plan (60*nanosPerSec) false]).plan (90*nanosPerSec)
      false).1.has .userTables = true ∧
    (((new .default).run [.plan 0 false,.plan (60*nanosPerSec) false]).plan (90*nanosPerSec)
      false).1.has .userIndexes = true ∧
    ((new .default).run [.plan 0 false]).isDue (60*nanosPerSec) .userIndexes = true ∧
    (((new .default).run [.plan 0 false]).plan (60*nanosPerSec) false).1.has .userIndexes = false ∧
    (((new .default).run [.plan 0 false,.plan (60*nanosPerSec) false,
      .plan (61*nanosPerSec) true]).plan (62*nanosPerSec) false).1.has .userIndexes = false := by
  decide

end PgKronika
