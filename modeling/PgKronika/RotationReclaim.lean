import PgKronika.Rotation

/-! Automatic rotation on a partition that others fill, empty and hold open. -/
namespace PgKronika
open CheckedArith

namespace Rotation

/-- What the size figure of automatic rotation depends on. -/
def reclaim (r : Rotation) : RetentionConfig × ℕ × Option ℕ :=
  (r.config,r.pendingReclaim,r.lastObservedUsed)

def readings (r : Rotation) (usages : List FilesystemUsage) : Rotation :=
  usages.foldl (fun r usage => r.observe usage.usedBytes) r

def confirmations (r : Rotation) (removed : List (Victim × ℕ)) : Rotation :=
  removed.foldl (fun r removal => r.confirmRemoval removal.1 removal.2) r

theorem confirmations_reclaim {a b : Rotation} (h : a.reclaim = b.reclaim)
    (removed : List (Victim × ℕ)) : (a.confirmations removed).reclaim =
      (b.confirmations removed).reclaim := by
  induction removed generalizing a b with
  | nil => exact h
  | cons removal removed ih =>
    refine ih ?_
    simp only [reclaim,Prod.mk.injEq] at h ⊢
    obtain ⟨hconfig,hpending,hlast⟩ := h
    refine ⟨hconfig,?_,hlast⟩
    rw [confirmRemoval,confirmRemoval,hconfig,hpending]

variable {σ : Type} (owner : WriterOwner σ)

theorem deleteVictims_rotation (r : Rotation) (root : σ) (deficit freedTotal : ℕ)
    (victims : List Victim) : (r.deleteVictims owner root deficit freedTotal victims).rotation =
      r.confirmations (r.deleteVictims owner root deficit freedTotal victims).removed := by
  induction victims generalizing r root deficit freedTotal with
  | nil => rfl
  | cons victim victims ih =>
    rw [deleteVictims]
    split_ifs with hzero
    · rfl
    · rcases removeVictim owner victim root with ⟨_ | freed,root⟩
      · rfl
      · exact ih _ _ _ _

theorem deleteOldest_reclaim (r : Rotation) (current threshold : ℕ) (victims : List Victim)
    (now : ℕ) (root : σ) :
    (r.deleteOldest owner current threshold victims now root).rotation.reclaim =
      (r.confirmations (r.deleteOldest owner current threshold victims now root).removed).reclaim := by
  have hdone := congrArg reclaim
    (deleteVictims_rotation owner r root (current - threshold) 0 victims)
  rw [deleteOldest]
  split_ifs with hzero
  · rfl
  · dsimp only [logDegradation]
    split_ifs <;> exact hdone

/-- A pass of automatic rotation reads its target, up to twice, and then removes victims. -/
theorem enforce_auto {r : Rotation} {percent : ℕ} (h : r.config = .auto percent)
    (journalBytes now : ℕ) (root : σ) : ∃ usages : List FilesystemUsage,
      usages.length ≤ 2 ∧
      (usages = [] → (r.enforce owner journalBytes now root).removed = []) ∧
      (r.enforce owner journalBytes now root).rotation.reclaim =
        ((r.readings usages).confirmations (r.enforce owner journalBytes now root).removed).reclaim := by
  rw [enforce]
  rcases owner.scanQuarantine root with ⟨_ | listed,root⟩
  · exact ⟨[],Nat.zero_le _,fun _ => rfl,rfl⟩
  dsimp only
  rw [target_auto owner r h]
  rcases owner.filesystemUsage root with ⟨_ | first,root⟩
  · exact ⟨[],Nat.zero_le _,fun _ => rfl,rfl⟩
  dsimp only
  split_ifs with hbelow
  · exact ⟨[first],Nat.le_succ 1,fun _ => rfl,rfl⟩
  rcases owner.scan root with ⟨_ | snapshot,root⟩
  · exact ⟨[first],Nat.le_succ 1,fun _ => rfl,rfl⟩
  dsimp only
  rw [target_auto owner {r.observe first.usedBytes with
    nonJournalBytes := countableBytes snapshot,lastRecount := now} h]
  rcases owner.filesystemUsage root with ⟨_ | second,root⟩
  · exact ⟨[first],Nat.le_succ 1,fun _ => rfl,rfl⟩
  refine ⟨[first,second],le_refl 2,fun hnil => absurd hnil (List.cons_ne_nil _ _),?_⟩
  refine (deleteOldest_reclaim owner _ _ _ _ _ _).trans (confirmations_reclaim ?_ _)
  rfl

end Rotation

/-- The bytes of named files, and those that rotation unlinked and that are not released. -/
structure Partition where
  total : ℕ
  named : ℕ
  held : ℕ
  fits : named+held ≤ total
  addressable : total ≤ u64Max

namespace Partition

variable (p : Partition)

def used : ℕ := p.named+p.held

def usage : FilesystemUsage := ⟨p.total,p.used⟩

/-- The root as far as automatic rotation reads its partition. -/
def owner : WriterOwner Partition where
  scan p := (none,p)
  scanQuarantine p := (none,p)
  filesystemUsage p := (some p.usage,p)
  removeTemporary _ p := (none,p)
  removeOrphanOverview _ p := (none,p)
  removeQuarantineEntry _ p := (none,p)
  removeSealedSegment _ p := (none,p)

end Partition

/-- Rotation and its partition, with the bytes that went and came since the last reading. -/
structure ReclaimSystem where
  rotation : Rotation
  partition : Partition
  grown : ℕ
  freedByOthers : ℕ
  released : ℕ

/-- What can happen: the partition grows, others delete, held bytes are released, rotation reads its
target, rotation removes a victim. -/
inductive ReclaimEvent
  | grow (bytes : ℕ)
  | freeByOthers (bytes : ℕ)
  | release (bytes : ℕ)
  | target (journalBytes quarantineBytes : ℕ)
  | remove (victim : Victim) (bytes : ℕ)

def ReclaimEvent.isTarget : ReclaimEvent → Bool
  | .target _ _ => true
  | _ => false

namespace ReclaimSystem

variable (s : ReclaimSystem)

def target (journalBytes quarantineBytes : ℕ) : Option (ℕ × ℕ) × Rotation × Partition :=
  s.rotation.target Partition.owner journalBytes quarantineBytes s.partition

/-- One event, where the partition has the bytes for it. A removal comes behind a reading. -/
def step : ReclaimEvent → Option ReclaimSystem
  | .grow bytes =>
    if h : s.partition.named+bytes+s.partition.held ≤ s.partition.total then
      some {s with
        partition := {s.partition with named := s.partition.named+bytes,fits := h}
        grown := s.grown+bytes}
    else none
  | .freeByOthers bytes =>
    if bytes ≤ s.partition.named then
      some {s with
        partition := {s.partition with
          named := s.partition.named - bytes
          fits := (Nat.add_le_add_right (Nat.sub_le _ _) _).trans s.partition.fits}
        freedByOthers := s.freedByOthers+bytes}
    else none
  | .release bytes =>
    if bytes ≤ s.partition.held then
      some {s with
        partition := {s.partition with
          held := s.partition.held - bytes
          fits := (Nat.add_le_add_left (Nat.sub_le _ _) _).trans s.partition.fits}
        released := s.released+bytes}
    else none
  | .target journalBytes quarantineBytes =>
    let (_,rotation,partition) := s.target journalBytes quarantineBytes
    some ⟨rotation,partition,0,0,0⟩
  | .remove victim bytes =>
    if h : bytes ≤ s.partition.named ∧ s.rotation.lastObservedUsed.isSome then
      some {s with
        rotation := s.rotation.confirmRemoval victim bytes
        partition := {s.partition with
          named := s.partition.named - bytes
          held := s.partition.held+bytes
          fits := by
            have hfits := s.partition.fits
            omega}}
    else none

/-- A property of the system whenever rotation reads its target in a run. -/
def AtTargets (P : ReclaimSystem → Prop) : ReclaimSystem → List ReclaimEvent → Prop
  | _, [] => True
  | s, event::events => (event.isTarget = true → P s) ∧
      match s.step event with
      | none => True
      | some next => AtTargets P next events

/-- The figure is at most the used bytes without the held ones, and so is what a pass deletes for
it. -/
def FigureBounded : Prop :=
  ∀ journalBytes quarantineBytes figure threshold,
    (s.target journalBytes quarantineBytes).1 = some (figure,threshold) →
      figure ≤ s.partition.used - s.partition.held ∧
        figure - threshold ≤ s.partition.used - s.partition.held - threshold

/-- Nothing is held, or what others freed since the last reading is covered by the growth and by what
the pending reclaim has beyond the held bytes. -/
def ForeignCovered : Prop :=
  s.partition.held = 0 ∨
    s.partition.held+s.released+s.freedByOthers ≤ s.rotation.pendingReclaim+s.grown

/-- What every event keeps while the figures are bounded. -/
structure Inv : Prop where
  auto : ∃ percent, s.rotation.config = .auto percent
  pending : s.partition.held ≤ s.rotation.pendingReclaim
  fresh : s.rotation.lastObservedUsed = none → s.partition.held = 0
  moved : ∀ last, s.rotation.lastObservedUsed = some last →
    last+s.grown = s.partition.used+s.freedByOthers+s.released

variable {s}

theorem target_eq {percent : ℕ} (h : s.rotation.config = .auto percent)
    (journalBytes quarantineBytes : ℕ) : s.target journalBytes quarantineBytes =
      (some (s.rotation.usageFigures s.partition.usage percent),
        s.rotation.observe s.partition.used,s.partition) := by
  rw [target,Rotation.target_auto Partition.owner s.rotation h]
  rfl

/-- The figure is bounded exactly when the pending reclaim still covers the held bytes. -/
theorem figureBounded_iff (h : s.Inv) : s.FigureBounded ↔
    s.partition.held ≤ (s.rotation.observe s.partition.used).pendingReclaim := by
  obtain ⟨percent,hauto⟩ := h.auto
  have hused : s.partition.held ≤ s.partition.used := Nat.le_add_left _ _
  constructor
  · intro hbounded
    have hfigure := (hbounded 0 0 _ _ (by rw [target_eq hauto])).1
    dsimp only [Partition.usage,Rotation.usageFigures] at hfigure
    omega
  · intro hpending journalBytes quarantineBytes figure threshold hfigure
    rw [target_eq hauto,Rotation.usageFigures,Option.some.injEq,Prod.mk.injEq] at hfigure
    obtain ⟨rfl,rfl⟩ := hfigure
    dsimp only [Partition.usage]
    omega

/-- At a reading, the figure is bounded exactly when what others freed is covered. -/
theorem figureBounded_iff_covered (h : s.Inv) : s.FigureBounded ↔ s.ForeignCovered := by
  have hpending := h.pending
  rw [figureBounded_iff h,ForeignCovered,Rotation.observe,reconcilePendingReclaim]
  cases hlast : s.rotation.lastObservedUsed with
  | none =>
    have hheld := h.fresh hlast
    exact iff_of_true (hheld.trans_le (Nat.zero_le _)) (.inl hheld)
  | some last =>
    have hmoved := h.moved last hlast
    dsimp only [Option.elim_some]
    constructor <;> intro hcover <;> omega

theorem step_inv {next : ReclaimSystem} {event : ReclaimEvent} (h : s.Inv)
    (hstep : s.step event = some next) (hbounded : event.isTarget = true → s.FigureBounded) :
    next.Inv := by
  obtain ⟨hauto,hpending,hfresh,hmoved⟩ := h
  cases event with
  | grow bytes =>
    simp only [step,Option.dite_none_right_eq_some,Option.some.injEq] at hstep
    obtain ⟨hfits,rfl⟩ := hstep
    refine ⟨hauto,hpending,hfresh,fun last hlast => ?_⟩
    have hmoved := hmoved last hlast
    simp only [Partition.used] at hmoved ⊢
    omega
  | freeByOthers bytes =>
    simp only [step,Option.ite_none_right_eq_some,Option.some.injEq] at hstep
    obtain ⟨hfits,rfl⟩ := hstep
    refine ⟨hauto,hpending,hfresh,fun last hlast => ?_⟩
    have hmoved := hmoved last hlast
    simp only [Partition.used] at hmoved ⊢
    omega
  | release bytes =>
    simp only [step,Option.ite_none_right_eq_some,Option.some.injEq] at hstep
    obtain ⟨hfits,rfl⟩ := hstep
    refine ⟨hauto,(Nat.sub_le _ _).trans hpending,fun hlast => ?_,fun last hlast => ?_⟩
    · exact Nat.le_zero.mp ((Nat.sub_le _ _).trans (hfresh hlast).le)
    · have hmoved := hmoved last hlast
      simp only [Partition.used] at hmoved ⊢
      omega
  | target journalBytes quarantineBytes =>
    have hcovered := (figureBounded_iff ⟨hauto,hpending,hfresh,hmoved⟩).mp (hbounded rfl)
    obtain ⟨percent,hauto⟩ := hauto
    simp only [step,target_eq hauto,Option.some.injEq] at hstep
    subst hstep
    refine ⟨⟨percent,hauto⟩,hcovered,fun hnone => ?_,fun last hlast => ?_⟩
    · cases hnone
    · cases hlast
      rfl
  | remove victim bytes =>
    simp only [step,Option.dite_none_right_eq_some,Option.some.injEq] at hstep
    obtain ⟨⟨hnamed,hseen⟩,rfl⟩ := hstep
    obtain ⟨percent,hauto⟩ := hauto
    refine ⟨⟨percent,hauto⟩,?_,fun hnone => ?_,fun last hlast => ?_⟩
    · have hfits := s.partition.fits
      have hmax := s.partition.addressable
      simp only [Rotation.confirmRemoval,hauto,RetentionConfig.isFixed,saturatingAdd,
        Bool.false_eq_true,if_false]
      omega
    · exact absurd hseen (by simp [show s.rotation.lastObservedUsed = none from hnone])
    · have hmoved := hmoved last hlast
      simp only [Partition.used] at hmoved ⊢
      omega

/-- In a run from a state with the invariant, the figures are all bounded exactly when what others
freed is covered at each reading. -/
theorem atTargets_iff (events : List ReclaimEvent) (h : s.Inv) :
    AtTargets FigureBounded s events ↔ AtTargets ForeignCovered s events := by
  induction events generalizing s with
  | nil => exact Iff.rfl
  | cons event events ih =>
    rw [AtTargets,AtTargets,figureBounded_iff_covered h]
    refine and_congr_right fun hcovered => ?_
    cases hstep : s.step event with
    | none => exact Iff.rfl
    | some next =>
      exact ih (step_inv h hstep fun htarget => (figureBounded_iff_covered h).mpr (hcovered htarget))

/-- Automatic rotation from its start on a partition where it holds nothing. -/
def start (percent : ℕ) (snapshot : LayoutSnapshot) (now : ℕ) (p : Partition) : ReclaimSystem :=
  ⟨.new (.auto percent) snapshot now,p,0,0,0⟩

theorem start_inv (percent : ℕ) (snapshot : LayoutSnapshot) (now : ℕ) {p : Partition}
    (h : p.held = 0) : (start percent snapshot now p).Inv where
  auto := ⟨percent,rfl⟩
  pending := h.trans_le (Nat.zero_le _)
  fresh := fun _ => h
  moved := fun _ hlast => by cases hlast

theorem figure_bounded_iff_covered (percent : ℕ) (snapshot : LayoutSnapshot) (now : ℕ)
    (p : Partition) (h : p.held = 0) (events : List ReclaimEvent) :
    AtTargets FigureBounded (start percent snapshot now p) events ↔
      AtTargets ForeignCovered (start percent snapshot now p) events :=
  atTargets_iff events (start_inv percent snapshot now h)

/-- Three quarters of a hundred bytes, of which ninety are in use. -/
def fullStart : ReclaimSystem :=
  start 75 ⟨[],[],[]⟩ 0 ⟨100,90,0,by decide,by decide⟩

def fifteenRemoved : List ReclaimEvent :=
  [.target 0 0,.target 0 0,.remove (.segment ⟨⟨1,segmentIdInRange_one⟩⟩) 15]

theorem figure_bounded_iff_covered_removed :
    AtTargets FigureBounded fullStart fifteenRemoved ↔ AtTargets ForeignCovered fullStart fifteenRemoved :=
  figure_bounded_iff_covered 75 ⟨[],[],[]⟩ 0 ⟨100,90,0,by decide,by decide⟩ rfl fifteenRemoved

/-- Rotation frees fifteen bytes that stay open, others free ten, the partition grows by ten. -/
def othersFree : List ReclaimEvent := fifteenRemoved ++ [.freeByOthers 10,.target 0 0,.grow 10]

/-- What others freed is credited to the held bytes: the next figure is ten bytes over the threshold
when without the held bytes the partition is at the threshold. -/
theorem foreign_deletion_credited :
    (∃ s, othersFree.foldlM step fullStart = some s ∧ (s.target 0 0).1 = some (85,75) ∧
      s.partition.used - s.partition.held = 75) ∧
    ¬AtTargets FigureBounded fullStart (othersFree ++ [.target 0 0]) := by
  refine ⟨⟨_,rfl,rfl,rfl⟩,fun h => ?_⟩
  have hlast := h.2.2.2.2.2.2.1 rfl 0 0 85 75 rfl
  exact absurd hlast.1 (by decide)

end ReclaimSystem
end PgKronika
