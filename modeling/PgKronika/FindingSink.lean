import PgKronika.FindingEvidence
import PgKronika.LatchedPrograms

/-! The sink of a lens. It books what it grants, and latches its first refusal. -/
namespace PgKronika
namespace Incident

open CheckedArith LatchedPrograms

inductive LimitAxis
  | work | lensEvaluations | findings | evidenceRows | outputBytes
  deriving DecidableEq

structure LimitHit where
  axis : LimitAxis
  observed : ℕ
  limit : ℕ
  deriving DecidableEq

structure WorkBudget where
  limit : ℕ
  remaining : ℕ
  exhausted : Bool
  remains : remaining ≤ limit

namespace WorkBudget

def new (limit : ℕ) : WorkBudget := ⟨limit,limit,false,le_refl limit⟩

def spent (budget : WorkBudget) : ℕ := budget.limit-budget.remaining

theorem remains_after (budget : WorkBudget) (units : ℕ) : budget.remaining-units ≤ budget.limit :=
  (Nat.sub_le _ _).trans budget.remains

def charge (budget : WorkBudget) (units : ℕ) : WorkBudget × Bool :=
  if budget.exhausted then (budget,false)
  else if units ≤ budget.remaining then
    ({ budget with
      remaining := budget.remaining-units
      remains := budget.remains_after units },true)
  else ({ budget with exhausted := true },false)

end WorkBudget

structure OutputCounts where
  findings : ℕ
  evidenceRows : ℕ
  outputBytes : ℕ
  deriving DecidableEq

structure OutputLimits where
  findings : ℕ
  evidenceRows : ℕ
  outputBytes : ℕ
  deriving DecidableEq

structure FindingSink where
  findings : List Finding
  budget : WorkBudget
  counts : OutputCounts
  limits : OutputLimits
  hit : Option LimitHit
  lensId : Text
  confidenceCap : ConfidenceCap

namespace FindingSink

/-- Only the first refusal is recorded. -/
def fail (sink : FindingSink) (hit : LimitHit) : FindingSink × Option LimitHit :=
  ({ sink with hit := sink.hit.or (some hit) },some hit)

def chargeWork (sink : FindingSink) (units : ℕ) : FindingSink × Option LimitHit :=
  match sink.hit with
  | some hit => (sink,some hit)
  | none =>
    let charged := sink.budget.charge units
    if charged.2 then ({ sink with budget := charged.1 },none)
    else
      { sink with budget := charged.1 }.fail
        ⟨.work,saturatingAdd charged.1.spent units,charged.1.limit⟩

def chargePoints (sink : FindingSink) (points : ℕ) : FindingSink × Option LimitHit :=
  sink.chargeWork (min points u64Max)

def emit (sink : FindingSink) (draft : FindingDraft) : FindingSink × Option LimitHit :=
  match sink.hit with
  | some hit => (sink,some hit)
  | none =>
    let findingsObserved := saturatingAdd sink.counts.findings 1
    let evidenceRows := min draft.evidence.length u64Max
    let evidenceObserved := saturatingAdd sink.counts.evidenceRows evidenceRows
    let outputObserved :=
      saturatingAdd sink.counts.outputBytes (draft.outputBytesUpperBound sink.lensId)
    if sink.limits.findings < findingsObserved then
      sink.fail ⟨.findings,findingsObserved,sink.limits.findings⟩
    else if sink.limits.evidenceRows < evidenceObserved then
      sink.fail ⟨.evidenceRows,evidenceObserved,sink.limits.evidenceRows⟩
    else if sink.limits.outputBytes < outputObserved then
      sink.fail ⟨.outputBytes,outputObserved,sink.limits.outputBytes⟩
    else
      let charged := sink.chargeWork evidenceRows
      match charged.2 with
      | some hit => (charged.1,some hit)
      | none =>
        ({ charged.1 with
          counts := ⟨findingsObserved,evidenceObserved,outputObserved⟩
          findings := charged.1.findings ++
            [Finding.fromDraft sink.lensId sink.confidenceCap draft] },none)

end FindingSink

/-- What a lens may ask of its sink. -/
inductive SinkRequest
  | charge (points : ℕ)
  | emit (draft : FindingDraft)

def FindingSink.serve (sink : FindingSink) : SinkRequest → FindingSink × Option LimitHit
  | .charge points => sink.chargePoints points
  | .emit draft => sink.emit draft

/-- What has been booked in a run so far: work and output, and the findings of one cluster. -/
structure Books where
  evaluations : ℕ
  work : ℕ
  counts : OutputCounts
  findings : List Finding

/-- The limits of the engine that truncate its output. -/
structure Limits where
  evaluations : ℕ
  work : ℕ
  output : OutputLimits

@[mk_iff]
structure Books.Within (limits : Limits) (books : Books) : Prop where
  evaluations : books.evaluations ≤ limits.evaluations
  work : books.work ≤ limits.work
  findings : books.counts.findings ≤ limits.output.findings
  evidenceRows : books.counts.evidenceRows ≤ limits.output.evidenceRows
  outputBytes : books.counts.outputBytes ≤ limits.output.outputBytes

instance (limits : Limits) : DecidablePred (Books.Within limits) := fun books =>
  decidable_of_iff
    (books.evaluations ≤ limits.evaluations ∧ books.work ≤ limits.work ∧
      books.counts.findings ≤ limits.output.findings ∧
        books.counts.evidenceRows ≤ limits.output.evidenceRows ∧
          books.counts.outputBytes ≤ limits.output.outputBytes)
    (Books.within_iff limits books).symm

inductive EngineRequest
  | evaluate (lensId : Text)
  | charge (points : ℕ)
  | emit (lensId : Text) (cap : ConfidenceCap) (draft : FindingDraft)

def Books.add (books : Books) : EngineRequest → Books
  | .evaluate _ =>
    { books with evaluations := saturatingAdd books.evaluations 1, work := books.work+1 }
  | .charge points => { books with work := books.work + min points u64Max }
  | .emit lensId cap draft =>
    { books with
      work := books.work + min draft.evidence.length u64Max
      counts :=
        { findings := saturatingAdd books.counts.findings 1
          evidenceRows :=
            saturatingAdd books.counts.evidenceRows (min draft.evidence.length u64Max)
          outputBytes :=
            saturatingAdd books.counts.outputBytes (draft.outputBytesUpperBound lensId) }
      findings := books.findings ++ [Finding.fromDraft lensId cap draft] }

namespace WorkBudget

variable {budget : WorkBudget} {units : ℕ}

theorem charge_fits (h : budget.exhausted = false) (hfits : budget.spent+units ≤ budget.limit) :
    (budget.charge units).2 = true ∧ (budget.charge units).1.spent = budget.spent+units ∧
      (budget.charge units).1.limit = budget.limit ∧
        (budget.charge units).1.exhausted = false := by
  have hremains := budget.remains
  rw [spent] at hfits
  have hle : units ≤ budget.remaining := by omega
  simp only [charge,h,Bool.false_eq_true,if_false,if_pos hle,spent,true_and,and_true]
  omega

theorem charge_exceeds (h : budget.exhausted = false) (hexceeds : ¬budget.spent+units ≤ budget.limit) :
    (budget.charge units).2 = false ∧ (budget.charge units).1.spent = budget.spent := by
  have hremains := budget.remains
  rw [spent] at hexceeds
  have hlt : ¬units ≤ budget.remaining := by omega
  simp [charge,h,hlt,spent]

theorem spent_of_refused (h : (budget.charge units).2 = false) :
    (budget.charge units).1.spent = budget.spent := by
  rw [charge] at h ⊢
  split_ifs at h ⊢
  · rfl
  · rfl

end WorkBudget

namespace FindingSink

variable {sink : FindingSink}

theorem chargeWork_rejected {units : ℕ} (hhit : sink.hit = none)
    (h : (sink.chargeWork units).2 ≠ none) :
    (sink.chargeWork units).1.findings = sink.findings ∧
      (sink.chargeWork units).1.counts = sink.counts ∧
        (sink.chargeWork units).1.budget.spent = sink.budget.spent := by
  rw [chargeWork,hhit] at h ⊢
  dsimp only at h ⊢
  cases hcharged : (sink.budget.charge units).2 with
  | true => simp [hcharged] at h
  | false =>
    exact ⟨rfl,rfl,WorkBudget.spent_of_refused hcharged⟩

theorem chargeWork_reply (units : ℕ) : (sink.chargeWork units).2 = (sink.chargeWork units).1.hit := by
  rw [chargeWork]
  cases hhit : sink.hit with
  | some hit => exact hhit.symm
  | none =>
    dsimp only
    by_cases hcharged : (sink.budget.charge units).2 = true
    · rw [if_pos hcharged]
    · rw [if_neg hcharged,fail]
      simp

theorem fail_reply (h : sink.hit = none) (hit : LimitHit) :
    (sink.fail hit).2 = (sink.fail hit).1.hit := by
  simp [fail,h]

theorem emit_reply (draft : FindingDraft) : (sink.emit draft).2 = (sink.emit draft).1.hit := by
  rw [emit]
  cases hhit : sink.hit with
  | some hit => exact hhit.symm
  | none =>
    dsimp only
    split_ifs
    · exact fail_reply hhit _
    · exact fail_reply hhit _
    · exact fail_reply hhit _
    · have hreply := @chargeWork_reply sink (min draft.evidence.length u64Max)
      cases hcharged : (sink.chargeWork (min draft.evidence.length u64Max)).2 with
      | some hit => exact hcharged.symm.trans hreply
      | none => exact hcharged.symm.trans hreply

theorem serve_latched : Latched serve hit where
  reply := by
    intro sink request
    cases request with
    | charge points => exact chargeWork_reply _
    | emit draft => exact emit_reply draft
  latch := by
    intro sink request hrefused
    obtain ⟨hit,hhit⟩ := Option.ne_none_iff_exists'.mp hrefused
    cases request with
    | charge points => simp [serve,chargePoints,chargeWork,hhit]
    | emit draft => simp [serve,emit,hhit]

def books (evaluations : ℕ) (sink : FindingSink) : Books :=
  ⟨evaluations,sink.budget.spent,sink.counts,sink.findings⟩

/-- The sink of a lens under the limits of its run, without a refusal. -/
structure Ready (limits : Limits) (evaluations : ℕ) (lensId : Text) (cap : ConfidenceCap)
    (sink : FindingSink) : Prop where
  calm : sink.hit = none
  usable : sink.budget.exhausted = false
  workLimit : sink.budget.limit = limits.work
  outputLimits : sink.limits = limits.output
  lens : sink.lensId = lensId
  cap : sink.confidenceCap = cap
  within : (sink.books evaluations).Within limits

end FindingSink

/-- What a request of a lens books. -/
def SinkRequest.booked (lensId : Text) (cap : ConfidenceCap) : SinkRequest → EngineRequest
  | .charge points => .charge points
  | .emit draft => .emit lensId cap draft

namespace FindingSink

variable {limits : Limits} {evaluations : ℕ} {lensId : Text} {cap : ConfidenceCap}
  {sink : FindingSink}

theorem Ready.chargeWork (h : sink.Ready limits evaluations lensId cap) {units : ℕ}
    (hfits : sink.budget.spent+units ≤ limits.work) :
    sink.chargeWork units = ({ sink with budget := (sink.budget.charge units).1 },none) ∧
      ({ sink with budget := (sink.budget.charge units).1 } : FindingSink).Ready limits evaluations
        lensId cap ∧ (sink.budget.charge units).1.spent = sink.budget.spent+units := by
  obtain ⟨hgranted,hspent,hlimit,husable⟩ :=
    WorkBudget.charge_fits h.usable (h.workLimit.symm ▸ hfits)
  refine ⟨by simp [FindingSink.chargeWork,h.calm,hgranted],?_,hspent⟩
  refine ⟨h.calm,husable,hlimit.trans h.workLimit,h.outputLimits,h.lens,h.cap,?_⟩
  exact ⟨h.within.evaluations,(le_of_eq hspent).trans hfits,h.within.findings,
    h.within.evidenceRows,h.within.outputBytes⟩

theorem Ready.chargeWork_refused (h : sink.Ready limits evaluations lensId cap) {units : ℕ}
    (hexceeds : ¬sink.budget.spent+units ≤ limits.work) :
    (sink.chargeWork units).1.hit ≠ none ∧
      (sink.chargeWork units).1.books evaluations = sink.books evaluations := by
  obtain ⟨hrefused,hspent⟩ := WorkBudget.charge_exceeds h.usable (h.workLimit.symm ▸ hexceeds)
  simp only [FindingSink.chargeWork,h.calm,hrefused,Bool.false_eq_true,if_false,fail,books,hspent]
  simp

/-- A sink books what stays within the limits. -/
theorem serve_keeps : KeepsBooks serve hit (books evaluations) (Ready limits evaluations lensId cap)
    (fun books request => books.add (request.booked lensId cap)) (Books.Within limits) where
  calm := fun _ h => h.calm
  grant := by
    intro sink request h hnext
    cases request with
    | charge points =>
      obtain ⟨hserved,hready,hspent⟩ := h.chargeWork hnext.work
      rw [serve,chargePoints,hserved]
      exact ⟨hready,by simp [books,Books.add,SinkRequest.booked,hspent]⟩
    | emit draft =>
      obtain ⟨hserved,hready,hspent⟩ := h.chargeWork hnext.work
      have hfindings : ¬sink.limits.findings < saturatingAdd sink.counts.findings 1 := by
        rw [h.outputLimits]
        exact not_lt.mpr hnext.findings
      have hrows : ¬sink.limits.evidenceRows <
          saturatingAdd sink.counts.evidenceRows (min draft.evidence.length u64Max) := by
        rw [h.outputLimits]
        exact not_lt.mpr hnext.evidenceRows
      have hbytes : ¬sink.limits.outputBytes <
          saturatingAdd sink.counts.outputBytes (draft.outputBytesUpperBound sink.lensId) := by
        rw [h.outputLimits,h.lens]
        exact not_lt.mpr hnext.outputBytes
      have hemit : (sink.emit draft).1 =
          { sink with
            budget := (sink.budget.charge (min draft.evidence.length u64Max)).1
            counts :=
              ⟨saturatingAdd sink.counts.findings 1,
                saturatingAdd sink.counts.evidenceRows (min draft.evidence.length u64Max),
                saturatingAdd sink.counts.outputBytes (draft.outputBytesUpperBound sink.lensId)⟩
            findings := sink.findings ++
              [Finding.fromDraft sink.lensId sink.confidenceCap draft] } := by
        simp only [emit,h.calm,if_neg hfindings,if_neg hrows,if_neg hbytes,hserved]
      rw [serve,hemit]
      refine ⟨⟨h.calm,hready.usable,hready.workLimit,h.outputLimits,h.lens,h.cap,?_⟩,?_⟩
      · have hlens := h.lens
        subst hlens
        exact ⟨hnext.evaluations,hready.within.work,hnext.findings,hnext.evidenceRows,
          hnext.outputBytes⟩
      · simp only [books,Books.add,SinkRequest.booked,hspent,h.lens,h.cap]
  refuse := by
    intro sink request h hnext
    cases request with
    | charge points =>
      refine h.chargeWork_refused fun hfits => hnext ?_
      exact ⟨h.within.evaluations,hfits,h.within.findings,h.within.evidenceRows,
        h.within.outputBytes⟩
    | emit draft =>
      rw [serve,emit,h.calm]
      dsimp only
      split_ifs with hfindings hrows hbytes
      · simp [fail,h.calm,books]
      · simp [fail,h.calm,books]
      · simp [fail,h.calm,books]
      · have hexceeds : ¬sink.budget.spent + min draft.evidence.length u64Max ≤ limits.work := by
          intro hfits
          rw [h.outputLimits] at hfindings hrows hbytes
          rw [h.lens] at hbytes
          exact hnext ⟨h.within.evaluations,hfits,not_lt.mp hfindings,not_lt.mp hrows,
            not_lt.mp hbytes⟩
        obtain ⟨hrefused,hbooks⟩ := h.chargeWork_refused hexceeds
        have hreply := @chargeWork_reply sink (min draft.evidence.length u64Max)
        cases hcharged : (sink.chargeWork (min draft.evidence.length u64Max)).2 with
        | none => exact absurd (hreply.symm.trans hcharged) hrefused
        | some hit => exact ⟨hrefused,hbooks⟩

/-- What a rejected emission leaves as it was. -/
structure Untouched (before after : FindingSink) : Prop where
  findings : after.findings = before.findings
  counts : after.counts = before.counts
  spent : after.budget.spent = before.budget.spent
  latched : before.hit ≠ none → after = before

/-- A rejected emission records its refusal and changes nothing else. -/
theorem emit_rejected {draft : FindingDraft} (h : (sink.emit draft).2 ≠ none) :
    Untouched sink (sink.emit draft).1 := by
  rw [emit] at h ⊢
  cases hhit : sink.hit with
  | some hit => exact ⟨rfl,rfl,rfl,fun _ => rfl⟩
  | none =>
    rw [hhit] at h
    dsimp only at h ⊢
    split_ifs at h ⊢ with hfindings hrows hbytes
    · exact ⟨rfl,rfl,rfl,fun hne => absurd hhit hne⟩
    · exact ⟨rfl,rfl,rfl,fun hne => absurd hhit hne⟩
    · exact ⟨rfl,rfl,rfl,fun hne => absurd hhit hne⟩
    · cases hcharged : (sink.chargeWork (min draft.evidence.length u64Max)).2 with
      | none => simp [hcharged] at h
      | some hit =>
        have hrejected : (sink.chargeWork (min draft.evidence.length u64Max)).2 ≠ none := by
          simp [hcharged]
        obtain ⟨hfound,hcounts,hspent⟩ := chargeWork_rejected hhit hrejected
        exact ⟨hfound,hcounts,hspent,fun hne => absurd hhit hne⟩

end FindingSink

end Incident

end PgKronika
