import Mathlib
import PgKronika.LiveBuilder

/-! Over every sequence of calls, an available live view is the fold of the last begun refresh, and
a refused call makes it unavailable until a refresh completes. -/
namespace PgKronika

open ByteCodec CheckedArith

variable {υ φ β : Type}

/-- An immutable view of the folded state. -/
structure FoldedLiveView (φ : Type) where
  viewGeneration : ℕ
  generation : ℕ
  state : LiveState
  watermarkUs : Option Int64
  foldedThroughOffset : ℕ
  tailPending : Option ByteRange
  chunks : List (SegmentFacts φ)

def LiveBuilder.publish (b : LiveBuilder φ) : FoldedLiveView φ where
  viewGeneration := b.viewGeneration
  generation := b.generation
  state := b.state
  watermarkUs := b.watermarkUs
  foldedThroughOffset := b.foldedThroughOffset
  tailPending := b.completedTailPending
  chunks := b.chunks

inductive LiveQueryError (ω : Type)
  | snapshotUnavailable
  | refused (error : ω)
  deriving DecidableEq

/-- A query is answered from the chunks of an available view; `answer` is the bounded query. -/
def FoldedLiveView.query {ω α : Type} (view : FoldedLiveView φ)
    (answer : List (SegmentFacts φ) → Except ω α) : Except (LiveQueryError ω) α :=
  if view.state ≠ .empty ∧ view.state ≠ .current then .error .snapshotUnavailable
  else (answer view.chunks).mapError .refused

inductive SealOutcome (π κ : Type)
  | promoted (facts : π)
  | rebuilt (load : κ)
  deriving DecidableEq

/-- Reconcile a sealed segment: only a current view is tried for promotion. -/
def reconcileSeal {π κ : Type} (view : FoldedLiveView φ)
    (tryPromote : List (SegmentFacts φ) → Except β (Option (SegmentFacts φ)))
    (publishOrFallback : SegmentFacts φ → Except β π) (loadOrBuild : Except β κ) :
    Except β (SealOutcome π κ) :=
  if view.state = .current then
    match tryPromote view.chunks with
    | .error e => .error e
    | .ok (some promoted) => (publishOrFallback promoted).map .promoted
    | .ok none => loadOrBuild.map .rebuilt
  else loadOrBuild.map .rebuilt

/-- What the builder counts of its chunks. -/
def usageOf (chunks : List (SegmentFacts φ)) : LiveUsage where
  parts := chunks.length
  manifestEntries := (chunks.map SegmentFacts.manifestEntries).sum
  observations := (chunks.map SegmentFacts.observations).sum
  coverageSpans := (chunks.map SegmentFacts.coverageSpans).sum
  knownGapSpans := (chunks.map SegmentFacts.knownGapSpans).sum
  retainedTextBytes := (chunks.map SegmentFacts.retainedTextBytes).sum

/-- The latest end of the parts with a valid span. -/
def IsWatermark (parts : List PartDescriptor) : Option Int64 → Prop
  | none => ∀ p ∈ parts, ¬p.minTs ≤ p.maxTs
  | some w => (∃ p ∈ parts, p.minTs ≤ p.maxTs ∧ p.maxTs = w) ∧
      ∀ p ∈ parts, p.minTs ≤ p.maxTs → p.maxTs ≤ w

/-- A chunk is the fold of a delivered part. -/
def FoldOf (folder : Folder υ φ β) (bounds : Bounds) (generation : ℕ)
    (delivered : List (PartDescriptor × PgmUnit υ)) (part : PartDescriptor)
    (facts : SegmentFacts φ) : Prop :=
  ∃ unit, (part,unit) ∈ delivered ∧ part.describes folder unit = true ∧
    folder.foldLive unit generation (partDiscriminator part.partId) bounds = .ok facts

/-- The folded state is made of delivered parts, whatever the state of the builder. -/
structure LiveBuilder.Sound (b : LiveBuilder φ) (folder : Folder υ φ β)
    (delivered : List (PartDescriptor × PgmUnit υ)) : Prop where
  ids : ∀ id, id ∈ b.foldedPartIds ↔ ∃ p ∈ b.foldedParts, p.partId = id
  unique : (b.foldedParts.map PartDescriptor.partId).Nodup
  folds : List.Forall₂ (FoldOf folder b.bounds b.generation delivered) b.foldedParts b.chunks
  usage : b.usage = usageOf b.chunks
  within : b.usage.isWithin b.bounds = true
  watermark : IsWatermark b.foldedParts b.watermarkUs
  generation : ∀ p ∈ b.foldedParts, p.partId.generation = b.generation

/-- The folded state is the same. -/
structure LiveBuilder.Keeps (b b' : LiveBuilder φ) : Prop where
  bounds : b'.bounds = b.bounds
  generation : b'.generation = b.generation
  ids : b'.foldedPartIds = b.foldedPartIds
  parts : b'.foldedParts = b.foldedParts
  chunks : b'.chunks = b.chunks
  usage : b'.usage = b.usage
  watermark : b'.watermarkUs = b.watermarkUs

theorem LiveBuilder.Keeps.refl (b : LiveBuilder φ) : b.Keeps b := ⟨rfl,rfl,rfl,rfl,rfl,rfl,rfl⟩

/-- The folded state is the same, or none is left. -/
def LiveBuilder.Refolds (b b' : LiveBuilder φ) : Prop :=
  b.Keeps b' ∨ ∃ generation, (b.clearFolded generation).Keeps b'

section Calls

variable {folder : Folder υ φ β} {delivered : List (PartDescriptor × PgmUnit υ)}
  {b b' : LiveBuilder φ}

theorem LiveBuilder.Sound.keeps (h : b.Sound folder delivered) (hkeeps : b.Keeps b') :
    b'.Sound folder delivered where
  ids := by
    rw [hkeeps.ids,hkeeps.parts]
    exact h.ids
  unique := by
    rw [hkeeps.parts]
    exact h.unique
  folds := by
    rw [hkeeps.bounds,hkeeps.generation,hkeeps.parts,hkeeps.chunks]
    exact h.folds
  usage := by
    rw [hkeeps.usage,hkeeps.chunks]
    exact h.usage
  within := by
    rw [hkeeps.usage,hkeeps.bounds]
    exact h.within
  watermark := by
    rw [hkeeps.parts,hkeeps.watermark]
    exact h.watermark
  generation := by
    rw [hkeeps.parts,hkeeps.generation]
    exact h.generation

theorem LiveBuilder.clearFolded_sound (b : LiveBuilder φ) (generation : ℕ) :
    (b.clearFolded generation).Sound folder delivered where
  ids _ := by simp [clearFolded]
  unique := .nil
  folds := .nil
  usage := rfl
  within := by simp [clearFolded,LiveUsage.isWithin,LiveUsage.default]
  watermark := fun p hp => by cases hp
  generation := fun p hp => by cases hp

theorem LiveBuilder.Sound.refolds (h : b.Sound folder delivered) (hrefolds : b.Refolds b') :
    b'.Sound folder delivered := by
  rcases hrefolds with hkeeps | ⟨generation,hkeeps⟩
  · exact h.keeps hkeeps
  · exact (b.clearFolded_sound generation).keeps hkeeps

theorem LiveBuilder.Sound.deliver (h : b.Sound folder delivered)
    (more : List (PartDescriptor × PgmUnit υ)) : b.Sound folder (delivered ++ more) :=
  { h with folds := h.folds.imp fun _ _ ⟨unit,hmem,hfold⟩ =>
      ⟨unit,List.mem_append_left _ hmem,hfold⟩ }

theorem LiveUsage.checkedAdd_usageOf {chunks : List (SegmentFacts φ)} {facts : SegmentFacts φ}
    {usage : LiveUsage} (h : (usageOf chunks).checkedAdd facts = some usage) :
    usage = usageOf (chunks ++ [facts]) := by
  simp only [checkedAdd,usageOf,Option.bind_eq_bind,Option.bind_eq_some_iff,
    CheckedArith.checkedAdd_eq_some] at h
  obtain ⟨_,⟨rfl,_⟩,_,⟨rfl,_⟩,_,⟨rfl,_⟩,_,⟨rfl,_⟩,_,⟨rfl,_⟩,_,⟨rfl,_⟩,h⟩ := h
  rw [← Option.some.inj h]
  simp [usageOf]

theorem maxUs_eq (a b : Int64) : maxUs a b = a ∧ b ≤ a ∨ maxUs a b = b ∧ a ≤ b := by
  rw [maxUs]
  split_ifs with hlt
  · exact .inr ⟨rfl,Int64.le_of_lt hlt⟩
  · exact .inl ⟨rfl,Int64.not_lt.mp hlt⟩

/-- The watermark of one part more. -/
theorem IsWatermark.push {parts : List PartDescriptor} {w : Option Int64}
    (h : IsWatermark parts w) (part : PartDescriptor) :
    IsWatermark (parts ++ [part])
      (if part.minTs ≤ part.maxTs then
        some (w.elim part.maxTs fun current => maxUs current part.maxTs)
      else w) := by
  split_ifs with hspan
  · cases w with
    | none =>
      refine ⟨⟨part,by simp,hspan,rfl⟩,fun p hp hvalid => ?_⟩
      rcases List.mem_append.mp hp with hp | hp
      · exact absurd hvalid (h p hp)
      · rw [List.mem_singleton.mp hp]
        exact Int64.le_refl _
    | some w =>
      obtain ⟨⟨latest,hmem,hlatest,rfl⟩,hbound⟩ := h
      rcases maxUs_eq latest.maxTs part.maxTs with ⟨hmax,hle⟩ | ⟨hmax,hle⟩
      · refine ⟨⟨latest,List.mem_append_left _ hmem,hlatest,hmax.symm⟩,fun p hp hvalid => ?_⟩
        change p.maxTs ≤ maxUs latest.maxTs part.maxTs
        rw [hmax]
        rcases List.mem_append.mp hp with hp | hp
        · exact hbound p hp hvalid
        · rw [List.mem_singleton.mp hp]
          exact hle
      · refine ⟨⟨part,by simp,hspan,hmax.symm⟩,fun p hp hvalid => ?_⟩
        change p.maxTs ≤ maxUs latest.maxTs part.maxTs
        rw [hmax]
        rcases List.mem_append.mp hp with hp | hp
        · exact Int64.le_trans (hbound p hp hvalid) hle
        · rw [List.mem_singleton.mp hp]
          exact Int64.le_refl _
  · cases w with
    | none =>
      intro p hp
      rcases List.mem_append.mp hp with hp | hp
      · exact h p hp
      · rw [List.mem_singleton.mp hp]
        exact hspan
    | some w =>
      obtain ⟨⟨latest,hmem,hlatest⟩,hbound⟩ := h
      refine ⟨⟨latest,List.mem_append_left _ hmem,hlatest⟩,fun p hp hvalid => ?_⟩
      rcases List.mem_append.mp hp with hp | hp
      · exact hbound p hp hvalid
      · rw [List.mem_singleton.mp hp] at hvalid
        exact absurd hvalid hspan

/-- A new chunk. -/
theorem LiveBuilder.Sound.push (h : b.Sound folder delivered) {part : PartDescriptor}
    {facts : SegmentFacts φ} {usage : LiveUsage} (endOffset : ℕ)
    (hgeneration : part.partId.generation = b.generation)
    (hnew : ∀ p ∈ b.foldedParts, p.partId ≠ part.partId)
    (hfold : FoldOf folder b.bounds b.generation delivered part facts)
    (husage : b.usage.checkedAdd facts = some usage) (hwithin : usage.isWithin b.bounds = true) :
    (b.push part facts usage endOffset).Sound folder delivered where
  ids id := by
    rw [LiveBuilder.push]
    simp only [Finset.mem_insert,List.mem_append,List.mem_singleton,h.ids]
    constructor
    · rintro (rfl | ⟨p,hp,hid⟩)
      · exact ⟨part,.inr rfl,rfl⟩
      · exact ⟨p,.inl hp,hid⟩
    · rintro ⟨p,hp | rfl,hid⟩
      · exact .inr ⟨p,hp,hid⟩
      · exact .inl hid.symm
  unique := by
    change ((b.foldedParts ++ [part]).map PartDescriptor.partId).Nodup
    rw [List.map_append,List.nodup_append]
    refine ⟨h.unique,List.nodup_singleton _,fun id hid id' hid' => ?_⟩
    obtain ⟨p,hp,rfl⟩ := List.mem_map.mp hid
    rw [List.mem_singleton.mp hid']
    exact hnew p hp
  folds := List.rel_append h.folds (.cons hfold .nil)
  usage := by
    rw [h.usage] at husage
    exact LiveUsage.checkedAdd_usageOf husage
  within := hwithin
  watermark := h.watermark.push part
  generation p hp := by
    rcases List.mem_append.mp hp with hp | hp
    · exact h.generation p hp
    · rw [List.mem_singleton.mp hp]
      exact hgeneration

/-- No query is answered and nothing is promoted. -/
def LiveState.Unavailable (state : LiveState) : Prop := state = .needsRebuild ∨ state = .incomplete

/-- What a refresh has to complete to. -/
def RefreshDelta.pending (delta : RefreshDelta) : PendingRefresh where
  newViewGeneration := delta.newViewGeneration
  newValidLen := delta.journal.newValidLen
  currentParts := delta.journal.currentParts
  currentPartsComplete := delta.journal.currentPartsComplete
  tailPending := delta.journal.tailPending
  damages := delta.journal.damages

/-- A refused call with its reason; without a contradiction the builder stays as it is. -/
structure LiveBuilder.Refuses (b b' : LiveBuilder φ) (e : LiveFoldError β) : Prop where
  refolds : b.Refolds b'
  invalid : e = .invalidState → b' = b
  left : e ≠ .invalidState → b'.state.Unavailable ∧ b'.pendingRefresh = none

theorem LiveBuilder.Refuses.self (b : LiveBuilder φ) :
    b.Refuses b (.invalidState : LiveFoldError β) where
  refolds := .inl (.refl b)
  invalid _ := rfl
  left h := absurd rfl h

theorem LiveBuilder.Keeps.trans {b₁ b₂ b₃ : LiveBuilder φ} (h : b₁.Keeps b₂)
    (h' : b₂.Keeps b₃) : b₁.Keeps b₃ :=
  ⟨h'.bounds.trans h.bounds,h'.generation.trans h.generation,h'.ids.trans h.ids,
    h'.parts.trans h.parts,h'.chunks.trans h.chunks,h'.usage.trans h.usage,
    h'.watermark.trans h.watermark⟩

theorem LiveBuilder.Refolds.bounds (h : b.Refolds b') : b'.bounds = b.bounds := by
  rcases h with h | ⟨_,h⟩
  · exact h.bounds
  · exact h.bounds

theorem LiveBuilder.Refolds.trans {b₁ b₂ b₃ : LiveBuilder φ} (h : b₁.Refolds b₂)
    (h' : b₂.Refolds b₃) : b₁.Refolds b₃ := by
  have hbounds := h.bounds
  rcases h' with hkeeps | ⟨generation,hcleared⟩
  · rcases h with h | ⟨generation,h⟩
    · exact .inl (h.trans hkeeps)
    · exact .inr ⟨generation,h.trans hkeeps⟩
  · refine .inr ⟨generation,?_⟩
    have hsame : (b₁.clearFolded generation).Keeps (b₂.clearFolded generation) :=
      ⟨hbounds,rfl,rfl,rfl,rfl,rfl,rfl⟩
    exact hsame.trans hcleared

/-- A contradiction of the journal, found before anything is folded. -/
theorem LiveBuilder.refuses_state {α : Type} {state : LiveState} {e e' : LiveFoldError β}
    (h : ((.error e',{ b with state }) : Except (LiveFoldError β) α × LiveBuilder φ) =
      (.error e,b'))
    (hpending : b.pendingRefresh = none) (hstate : state.Unavailable) (he : e' ≠ .invalidState) :
    b.Refuses b' e := by
  obtain ⟨herror,rfl⟩ := Prod.mk.inj h
  obtain rfl := Except.error.inj herror
  exact ⟨.inl ⟨rfl,rfl,rfl,rfl,rfl,rfl,rfl⟩,fun hsame => absurd hsame he,fun _ => ⟨hstate,hpending⟩⟩

theorem validateViewGeneration_ne {previous new : ℕ} {changed : Bool} {e : LiveFoldError β}
    (h : validateViewGeneration previous new changed = .error e) : e ≠ .invalidState := by
  rintro rfl
  rw [validateViewGeneration] at h
  split_ifs at h
  · split at h
    · cases h
    · split_ifs at h
      cases h
  · cases h

theorem LiveBuilder.prepareRefreshBaseline_error {delta : RefreshDelta} {e : LiveFoldError β}
    (h : b.prepareRefreshBaseline delta = (.error e,b')) : b.Refuses b' e := by
  rw [prepareRefreshBaseline] at h
  by_cases hbusy : b.pendingRefresh.isSome = true
  · rw [if_pos hbusy] at h
    obtain ⟨he,rfl⟩ := Prod.mk.inj h
    obtain rfl := Except.error.inj he
    exact .self b
  rw [if_neg hbusy] at h
  have hidle : b.pendingRefresh = none := by simpa using hbusy
  dsimp only at h
  split at h
  · exact refuses_state h hidle (.inl rfl) nofun
  split at h
  · exact refuses_state h hidle (.inl rfl) nofun
  split at h
  · exact refuses_state h hidle (.inl rfl) nofun
  split at h
  · exact refuses_state h hidle (.inl rfl) nofun
  split at h
  · exact refuses_state h hidle (.inr rfl) nofun
  · next hgeneration => exact refuses_state h hidle (.inl rfl) (validateViewGeneration_ne hgeneration)
  · split at h <;> cases (Prod.mk.inj h).1

theorem LiveBuilder.prepareRefreshBaseline_ok {delta : RefreshDelta} {bootstrap : Bool}
    (h : (b.prepareRefreshBaseline delta : Except (LiveFoldError β) Bool × LiveBuilder φ) =
      (.ok bootstrap,b')) :
    b'.pendingRefresh = none ∧ b.Refolds b' ∧ (bootstrap = false → b' = b) ∧
      (bootstrap = true → b'.generation = delta.journal.generationId) := by
  rw [prepareRefreshBaseline] at h
  by_cases hbusy : b.pendingRefresh.isSome = true
  · rw [if_pos hbusy] at h
    cases (Prod.mk.inj h).1
  rw [if_neg hbusy] at h
  have hidle : b.pendingRefresh = none := by simpa using hbusy
  dsimp only at h
  iterate 4
    split at h
    · cases (Prod.mk.inj h).1
  split at h
  · cases (Prod.mk.inj h).1
  · cases (Prod.mk.inj h).1
  · split at h
    · next hbootstrap =>
      obtain ⟨hok,rfl⟩ := Prod.mk.inj h
      obtain rfl := Except.ok.inj hok
      refine ⟨hidle,.inr ⟨delta.journal.generationId,rfl,rfl,rfl,rfl,rfl,rfl,rfl⟩,?_,fun _ => rfl⟩
      intro hno
      cases hbootstrap.symm.trans hno
    · next hbootstrap =>
      obtain ⟨hok,rfl⟩ := Prod.mk.inj h
      obtain rfl := Except.ok.inj hok
      exact ⟨hidle,.inl (.refl b),fun _ => rfl,fun hyes => absurd hyes hbootstrap⟩

theorem LiveBuilder.acceptTransition_error {bootstrap : Bool} {journal : JournalDelta}
    {e : LiveFoldError β} (hidle : b.pendingRefresh = none)
    (h : b.acceptTransition bootstrap journal = (.error e,b')) :
    b.Refuses b' e ∧ (e = .invalidState → bootstrap = false) := by
  rw [acceptTransition] at h
  split at h
  · split at h
    · refine ⟨refuses_state h hidle (.inl rfl) nofun,fun he => ?_⟩
      rw [← Except.error.inj (Prod.mk.inj h).1] at he
      cases he
    · cases (Prod.mk.inj h).1
  next hbootstrap =>
  refine ⟨?_,fun _ => Bool.not_eq_true _ ▸ hbootstrap⟩
  split at h
  · split at h
    · exact refuses_state h hidle (.inl rfl) nofun
    · cases (Prod.mk.inj h).1
  split at h
  · split at h
    · obtain ⟨he,rfl⟩ := Prod.mk.inj h
      rw [← Except.error.inj he]
      exact .self b
    split at h
    · exact refuses_state h hidle (.inl rfl) nofun
    split at h
    · exact refuses_state h hidle (.inl rfl) nofun
    · cases (Prod.mk.inj h).1
  · split at h
    · exact refuses_state h hidle (.inr rfl) nofun
    split at h
    · exact refuses_state h hidle (.inl rfl) nofun
    split at h
    · exact refuses_state h hidle (.inl rfl) nofun
    · cases (Prod.mk.inj h).1

theorem LiveBuilder.acceptTransition_ok {bootstrap : Bool} {journal : JournalDelta}
    (hbootstrap : bootstrap = true → b.generation = journal.generationId)
    (h : (b.acceptTransition bootstrap journal : Except (LiveFoldError β) Unit × LiveBuilder φ) =
      (.ok (),b')) :
    b.Refolds b' ∧ b'.generation = journal.generationId := by
  rw [acceptTransition] at h
  split at h
  · next hyes =>
    split at h
    · cases (Prod.mk.inj h).1
    · obtain ⟨_,rfl⟩ := Prod.mk.inj h
      exact ⟨.inl (.refl b),hbootstrap hyes⟩
  split at h
  · split at h
    · cases (Prod.mk.inj h).1
    · next hsame =>
      obtain ⟨_,rfl⟩ := Prod.mk.inj h
      exact ⟨.inl (.refl b),(not_not.mp (not_or.mp hsame).1).symm⟩
  split at h
  · split at h
    · cases (Prod.mk.inj h).1
    split at h
    · cases (Prod.mk.inj h).1
    next hsame =>
    split at h
    · cases (Prod.mk.inj h).1
    · obtain ⟨_,rfl⟩ := Prod.mk.inj h
      exact ⟨.inl (.refl b),(not_not.mp hsame).symm⟩
  · split at h
    · cases (Prod.mk.inj h).1
    split at h
    · cases (Prod.mk.inj h).1
    split at h
    · cases (Prod.mk.inj h).1
    · obtain ⟨_,rfl⟩ := Prod.mk.inj h
      exact ⟨.inr ⟨journal.generationId,.refl _⟩,rfl⟩

theorem validateDescriptors_ne {generation expected last : ℕ} {seen : Finset PartId}
    {parts : List PartDescriptor} {e : LiveFoldError β}
    (h : validateDescriptors generation expected seen last parts = .error e) :
    e ≠ .invalidState := by
  induction parts generalizing expected seen last with
  | nil => cases h
  | cons part parts ih =>
    rw [validateDescriptors] at h
    split at h
    · rw [← Except.error.inj h]
      nofun
    split at h
    · rw [← Except.error.inj h]
      nofun
    split at h
    · rw [← Except.error.inj h]
      nofun
    split at h
    · rw [← Except.error.inj h]
      nofun
    · exact ih h

theorem validateDescriptorSequence_ne {parts : List PartDescriptor} {generation validLen : ℕ}
    {e : LiveFoldError β} (h : validateDescriptorSequence parts generation validLen = .error e) :
    e ≠ .invalidState := by
  rw [validateDescriptorSequence] at h
  split at h
  · split at h
    · cases h
    · rw [← Except.error.inj h]
      nofun
  · split at h
    · next hparts =>
      rw [← Except.error.inj h]
      exact validateDescriptors_ne hparts
    · split at h
      · rw [← Except.error.inj h]
        nofun
      · cases h

theorem LiveBuilder.beginRefresh_error {delta : RefreshDelta} {e : LiveFoldError β}
    (h : b.beginRefresh delta = (.error e,b')) : b.Refuses b' e := by
  rw [beginRefresh] at h
  split at h
  · next hprepare =>
    obtain ⟨he,rfl⟩ := Prod.mk.inj h
    rw [← Except.error.inj he]
    exact prepareRefreshBaseline_error hprepare
  next bootstrap b₁ hprepare =>
  obtain ⟨hidle,hrefolds,hsame,_⟩ := prepareRefreshBaseline_ok hprepare
  dsimp only at h
  split at h
  · next hsequence =>
    have hrefuses := refuses_state h hidle (.inr rfl) (validateDescriptorSequence_ne hsequence)
    refine ⟨hrefolds.trans hrefuses.refolds,fun he => ?_,hrefuses.left⟩
    rw [← Except.error.inj (Prod.mk.inj h).1] at he
    exact absurd he (validateDescriptorSequence_ne hsequence)
  split at h
  · next haccept =>
    obtain ⟨he,rfl⟩ := Prod.mk.inj h
    rw [← Except.error.inj he]
    obtain ⟨hrefuses,hplain⟩ := acceptTransition_error hidle haccept
    exact ⟨hrefolds.trans hrefuses.refolds,
      fun hinvalid => (hrefuses.invalid hinvalid).trans (hsame (hplain hinvalid)),hrefuses.left⟩
  · cases (Prod.mk.inj h).1

/-- A begun refresh pins what it has to complete to. -/
theorem LiveBuilder.beginRefresh_ok {delta : RefreshDelta}
    (h : (b.beginRefresh delta : Except (LiveFoldError β) Unit × LiveBuilder φ) = (.ok (),b')) :
    b.Refolds b' ∧ b'.state = .warming ∧ b'.pendingRefresh = some delta.pending ∧
      b'.generation = delta.journal.generationId ∧
      (validateDescriptorSequence delta.journal.currentParts delta.journal.generationId
        delta.journal.newValidLen : Except (LiveFoldError β) Unit) = .ok () := by
  rw [beginRefresh] at h
  split at h
  · cases (Prod.mk.inj h).1
  next bootstrap b₁ hprepare =>
  obtain ⟨_,hrefolds,_,hgeneration⟩ := prepareRefreshBaseline_ok hprepare
  dsimp only at h
  split at h
  · cases (Prod.mk.inj h).1
  next hsequence =>
  split at h
  · cases (Prod.mk.inj h).1
  next b₂ haccept =>
  obtain ⟨hmore,hpinned⟩ := acceptTransition_ok hgeneration haccept
  obtain ⟨_,rfl⟩ := Prod.mk.inj h
  refine ⟨(hrefolds.trans hmore).trans (.inl ?_),rfl,rfl,hpinned,hsequence⟩
  exact ⟨rfl,rfl,rfl,rfl,rfl,rfl,rfl⟩

theorem LiveBuilder.completeRefresh_error {e : LiveFoldError β}
    (h : b.completeRefresh = (.error e,b')) : b.Refuses b' e := by
  rw [completeRefresh] at h
  split at h
  · obtain ⟨he,rfl⟩ := Prod.mk.inj h
    rw [← Except.error.inj he]
    exact .self b
  · dsimp only at h
    split at h
    · obtain ⟨he,rfl⟩ := Prod.mk.inj h
      rw [← Except.error.inj he]
      exact ⟨.inl ⟨rfl,rfl,rfl,rfl,rfl,rfl,rfl⟩,nofun,fun _ => ⟨.inr rfl,rfl⟩⟩
    · cases (Prod.mk.inj h).1

/-- A refresh completes to exactly what was pinned. -/
theorem LiveBuilder.completeRefresh_ok
    (h : (b.completeRefresh : Except (LiveFoldError β) Unit × LiveBuilder φ) = (.ok (),b')) :
    ∃ pending, b.pendingRefresh = some pending ∧ b.Keeps b' ∧ b'.pendingRefresh = none ∧
      b'.foldedParts = pending.currentParts ∧ b'.foldedThroughOffset = pending.newValidLen ∧
      b'.viewGeneration = pending.newViewGeneration := by
  rw [completeRefresh] at h
  split at h
  · cases (Prod.mk.inj h).1
  next pending hpending =>
  dsimp only at h
  split at h
  · cases (Prod.mk.inj h).1
  next hcomplete =>
  obtain ⟨_,rfl⟩ := Prod.mk.inj h
  simp only [not_or,not_not] at hcomplete
  exact ⟨pending,hpending,⟨rfl,rfl,rfl,rfl,rfl,rfl,rfl⟩,rfl,hcomplete.2.2.1,hcomplete.2.2.2.1,rfl⟩

theorem LiveBuilder.refuses_pending {state : LiveState} {e e' : LiveFoldError β} {α : Type}
    (h : ((.error e',b.invalidatePending state) : Except (LiveFoldError β) α × LiveBuilder φ) =
      (.error e,b'))
    (hstate : state.Unavailable) (he : e' ≠ .invalidState) : b.Refuses b' e := by
  obtain ⟨herror,rfl⟩ := Prod.mk.inj h
  obtain rfl := Except.error.inj herror
  exact ⟨.inl ⟨rfl,rfl,rfl,rfl,rfl,rfl,rfl⟩,fun hsame => absurd hsame he,fun _ => ⟨hstate,rfl⟩⟩

theorem LiveBuilder.foldPart_error {part : PartDescriptor} {unit : PgmUnit υ}
    {e : LiveFoldError β} (h : b.foldPart folder part unit = (.error e,b')) : b.Refuses b' e := by
  rw [foldPart] at h
  split at h
  · obtain ⟨he,rfl⟩ := Prod.mk.inj h
    rw [← Except.error.inj he]
    exact .self b
  split at h
  · obtain ⟨he,rfl⟩ := Prod.mk.inj h
    rw [← Except.error.inj he]
    exact .self b
  split at h
  · exact refuses_pending h (.inl rfl) nofun
  split at h
  · split at h
    · cases (Prod.mk.inj h).1
    · exact refuses_pending h (.inr rfl) nofun
  split at h
  · exact refuses_pending h (.inr rfl) nofun
  split at h
  · exact refuses_pending h (.inr rfl) nofun
  split at h
  · exact refuses_pending h (.inr rfl) nofun
  split at h
  · exact refuses_pending h (.inr rfl) nofun
  split at h
  · exact refuses_pending h (.inr rfl) nofun
  split at h
  · exact refuses_pending h (.inr rfl) nofun
  split at h
  · exact refuses_pending h (.inr rfl) nofun
  · cases (Prod.mk.inj h).1

/-- An accepted part is a repeat, or the next part of the pending refresh. -/
theorem LiveBuilder.Sound.foldPart_ok {part : PartDescriptor} {unit : PgmUnit υ}
    {effect : FoldEffect} (hsound : b.Sound folder delivered)
    (h : b.foldPart folder part unit = (.ok effect,b')) :
    b' = b ∨ b.state = .warming ∧ ∃ facts usage endOffset,
      b' = b.push part facts usage endOffset ∧ part.partId.generation = b.generation ∧
      (∀ p ∈ b.foldedParts, p.partId ≠ part.partId) ∧ part.describes folder unit = true ∧
      folder.foldLive unit b.generation (partDiscriminator part.partId) b.bounds = .ok facts ∧
      b.usage.checkedAdd facts = some usage ∧ usage.isWithin b.bounds = true := by
  rw [foldPart] at h
  split at h
  · cases (Prod.mk.inj h).1
  split at h
  · cases (Prod.mk.inj h).1
  next hwarming =>
  split at h
  · cases (Prod.mk.inj h).1
  next hgeneration =>
  split at h
  · split at h
    · exact .inl (Prod.mk.inj h).2.symm
    · cases (Prod.mk.inj h).1
  next hnone =>
  have hnew : ∀ p ∈ b.foldedParts, p.partId ≠ part.partId := by
    intro p hp hid
    rw [if_pos ((hsound.ids _).mpr ⟨p,hp,hid⟩),List.find?_eq_none] at hnone
    exact hnone p hp (by simpa using hid)
  split at h
  · cases (Prod.mk.inj h).1
  split at h
  · cases (Prod.mk.inj h).1
  next hdescribes =>
  split at h
  · cases (Prod.mk.inj h).1
  next endOffset _ =>
  split at h
  · cases (Prod.mk.inj h).1
  split at h
  · cases (Prod.mk.inj h).1
  next facts hfacts =>
  split at h
  · cases (Prod.mk.inj h).1
  next usage husage =>
  split at h
  · cases (Prod.mk.inj h).1
  next hwithin =>
  exact .inr ⟨not_not.mp hwarming,facts,usage,endOffset,(Prod.mk.inj h).2.symm,not_not.mp hgeneration,
    hnew,not_not.mp hdescribes,hfacts,husage,not_not.mp hwithin⟩

/-- A part that has been folded is recognized, or not asked for. -/
theorem LiveBuilder.Sound.foldPart_again (h : b.Sound folder delivered) {part : PartDescriptor}
    (hpart : part ∈ b.foldedParts) (unit : PgmUnit υ) :
    (b.foldPart folder part unit).2 = b := by
  have hfound : (b.foldedParts.find? fun existing => existing.partId = part.partId) =
      some part := by
    cases hfind : b.foldedParts.find? (fun existing => existing.partId = part.partId) with
    | none => simpa using List.find?_eq_none.mp hfind part hpart
    | some existing =>
      have hid : existing.partId = part.partId := by simpa using List.find?_some hfind
      rw [List.inj_on_of_nodup_map h.unique (List.mem_of_find?_eq_some hfind) hpart hid]
  rw [foldPart]
  split
  · rfl
  split
  · rfl
  rw [if_neg (not_not.mpr (h.generation part hpart)),if_pos ((h.ids _).mpr ⟨part,hpart,rfl⟩),hfound]
  dsimp only
  rw [if_pos rfl]

/-- Parts that have been validated stand one behind the other. -/
theorem validateDescriptors_ascending {generation expected last validLen : ℕ}
    {seen : Finset PartId} {parts : List PartDescriptor}
    (h : (validateDescriptors generation expected seen last parts : Except (LiveFoldError β) ℕ) =
      .ok validLen) :
    (∀ p ∈ parts, expected ≤ p.partId.frameOffset) ∧
      parts.Pairwise fun p q => p.partId.frameOffset+p.partId.bodyLen < q.partId.frameOffset := by
  induction parts generalizing expected seen last with
  | nil => exact ⟨by simp,.nil⟩
  | cons part parts ih =>
    rw [validateDescriptors] at h
    split at h
    · cases h
    split at h
    · cases h
    next hplace =>
    split at h
    · cases h
    next lastEnd hend =>
    split at h
    · cases h
    next next hnext =>
    obtain ⟨hlater,hpairs⟩ := ih h
    have hoffset := not_not.mp (not_or.mp hplace).2
    have hend := (checkedAdd_eq_some.mp hend).1
    have hnext := (checkedAdd_eq_some.mp hnext).1
    have hheader : frameHeaderLen = 16 := rfl
    refine ⟨fun p hp => ?_,List.pairwise_cons.mpr ⟨fun q hq => ?_,hpairs⟩⟩
    · rcases List.mem_cons.mp hp with rfl | hp
      · exact hoffset.ge
      · have hle := hlater p hp
        omega
    · have hle := hlater q hq
      omega

theorem validateDescriptorSequence_ascending {parts : List PartDescriptor}
    {generation validLen : ℕ}
    (h : (validateDescriptorSequence parts generation validLen : Except (LiveFoldError β) Unit) =
      .ok ()) :
    parts.Pairwise fun p q => p.partId.frameOffset+p.partId.bodyLen < q.partId.frameOffset := by
  rw [validateDescriptorSequence] at h
  split at h
  · next hnil =>
    rw [hnil]
    exact .nil
  · split at h
    · cases h
    · next hparts => exact (validateDescriptors_ascending hparts).2

end Calls

/-- One call of the builder's interface. -/
inductive LiveCall (υ : Type)
  | resetTo (generation : ℕ)
  | beginRefresh (delta : RefreshDelta)
  | foldPart (part : PartDescriptor) (unit : PgmUnit υ)
  | completeRefresh

/-- A builder with the refresh begun last, the parts delivered so far and whether the last
contradiction of the journal has been followed by a completed refresh. -/
structure LiveRun (υ φ : Type) where
  builder : LiveBuilder φ
  begun : Option RefreshDelta
  delivered : List (PartDescriptor × PgmUnit υ)
  contradicted : Bool

def LiveRun.start (b : LiveBuilder φ) : LiveRun υ φ := ⟨b,none,[],false⟩

/-- A call out of place contradicts nothing; every other error does. -/
def LiveFoldError.contradicts : LiveFoldError β → Bool
  | .invalidState => false
  | _ => true

def LiveRun.refused (run : LiveRun υ φ) (e : LiveFoldError β) (b : LiveBuilder φ) : LiveRun υ φ :=
  { run with builder := b, contradicted := run.contradicted || e.contradicts }

def LiveRun.call (folder : Folder υ φ β) (run : LiveRun υ φ) : LiveCall υ → LiveRun υ φ
  | .resetTo generation => { run with builder := run.builder.resetTo generation }
  | .beginRefresh delta =>
    match (run.builder.beginRefresh delta : Except (LiveFoldError β) Unit × LiveBuilder φ) with
    | (.ok (),b) => { run with builder := b, begun := some delta }
    | (.error e,b) => run.refused e b
  | .foldPart part unit =>
    let run := { run with delivered := run.delivered ++ [(part,unit)] }
    match run.builder.foldPart folder part unit with
    | (.ok _,b) => { run with builder := b }
    | (.error e,b) => run.refused e b
  | .completeRefresh =>
    match (run.builder.completeRefresh : Except (LiveFoldError β) Unit × LiveBuilder φ) with
    | (.ok (),b) => { run with builder := b, contradicted := false }
    | (.error e,b) => run.refused e b

/-- Queries are answered in these states only. -/
def LiveState.Available (state : LiveState) : Prop := state = .empty ∨ state = .current

theorem LiveState.Unavailable.not_available {state : LiveState} (h : state.Unavailable) :
    ¬state.Available := by
  rcases h with rfl | rfl <;> rintro (h | h) <;> cases h

/-- The builder is where a refresh leads to. -/
structure LiveBuilder.Completed (b : LiveBuilder φ) (delta : RefreshDelta) : Prop where
  parts : b.foldedParts = delta.journal.currentParts
  order : b.foldedParts.Pairwise fun p q =>
    p.partId.frameOffset+p.partId.bodyLen < q.partId.frameOffset
  generation : b.generation = delta.journal.generationId
  viewGeneration : b.viewGeneration = delta.newViewGeneration
  foldedThroughOffset : b.foldedThroughOffset = delta.journal.newValidLen

/-- What every sequence of calls keeps. -/
structure LiveRun.Exact (run : LiveRun υ φ) (folder : Folder υ φ β) (bounds : Bounds) :
    Prop where
  bounds : run.builder.bounds = bounds
  sound : run.builder.Sound folder run.delivered
  pending : ∀ pending, run.builder.pendingRefresh = some pending → run.builder.state = .warming ∧
    ∃ delta, run.begun = some delta ∧ pending = delta.pending ∧
      run.builder.generation = delta.journal.generationId ∧
      delta.journal.currentParts.Pairwise fun p q =>
        p.partId.frameOffset+p.partId.bodyLen < q.partId.frameOffset
  settled : run.builder.state.Available →
    ∃ delta, run.begun = some delta ∧ run.builder.Completed delta
  contradicted : run.contradicted = true → ¬run.builder.state.Available

section Runs

variable {folder : Folder υ φ β} {run : LiveRun υ φ} {bounds : Bounds}

theorem LiveRun.Exact.deliver (h : run.Exact folder bounds) (more : List (PartDescriptor × PgmUnit υ)) :
    LiveRun.Exact { run with delivered := run.delivered ++ more } folder bounds :=
  { h with sound := h.sound.deliver more }

theorem LiveRun.Exact.refused (h : run.Exact folder bounds) {b : LiveBuilder φ} {e : LiveFoldError β}
    (hrefuses : run.builder.Refuses b e) : (run.refused e b).Exact folder bounds := by
  by_cases he : e = .invalidState
  · subst he
    have hsame := hrefuses.invalid rfl
    rw [LiveRun.refused,hsame,LiveFoldError.contradicts,Bool.or_false]
    exact h
  · obtain ⟨hstate,hnone⟩ := hrefuses.left he
    refine ⟨hrefuses.refolds.bounds.trans h.bounds,h.sound.refolds hrefuses.refolds,
      fun pending hpending => ?_,
      fun havailable => absurd havailable hstate.not_available,fun _ => hstate.not_available⟩
    cases hnone.symm.trans hpending

theorem LiveRun.Exact.resetTo (h : run.Exact folder bounds) (generation : ℕ) :
    LiveRun.Exact { run with builder := run.builder.resetTo generation } folder bounds where
  bounds := h.bounds
  sound := h.sound.refolds (.inr ⟨generation,rfl,rfl,rfl,rfl,rfl,rfl,rfl⟩)
  pending _ hpending := by cases hpending
  settled havailable := by rcases havailable with hstate | hstate <;> cases hstate
  contradicted _ havailable := by rcases havailable with hstate | hstate <;> cases hstate

/-- One call. -/
theorem LiveRun.Exact.call (h : run.Exact folder bounds) (call : LiveCall υ) :
    (run.call folder call).Exact folder bounds := by
  cases call with
  | resetTo generation => exact h.resetTo generation
  | beginRefresh delta =>
    rw [LiveRun.call]
    split
    · next b hbegin =>
      obtain ⟨hrefolds,hstate,hpending,hgeneration,hsequence⟩ := LiveBuilder.beginRefresh_ok hbegin
      have hgone : ¬b.state.Available := by
        rw [hstate]
        rintro (h | h) <;> cases h
      refine ⟨hrefolds.bounds.trans h.bounds,h.sound.refolds hrefolds,fun pending hsome => ?_,
        fun havailable => absurd havailable hgone,fun _ => hgone⟩
      have hsame := Option.some.inj (hpending.symm.trans hsome)
      exact ⟨hstate,delta,rfl,hsame.symm,hgeneration,
        validateDescriptorSequence_ascending hsequence⟩
    · next e b hbegin => exact h.refused (LiveBuilder.beginRefresh_error hbegin)
  | foldPart part unit =>
    have hdelivered := h.deliver [(part,unit)]
    rw [LiveRun.call]
    dsimp only
    split
    · next effect b hfold =>
      rcases hdelivered.sound.foldPart_ok hfold with rfl |
        ⟨hstate,facts,usage,endOffset,rfl,hgeneration,hnew,hdescribes,hfacts,husage,hwithin⟩
      · exact hdelivered
      · have hgone : ¬run.builder.state.Available := by
          change run.builder.state = .warming at hstate
          rw [hstate]
          rintro (h | h) <;> cases h
        refine ⟨h.bounds,hdelivered.sound.push endOffset hgeneration hnew
          ⟨unit,by simp,hdescribes,hfacts⟩ husage hwithin,hdelivered.pending,
          fun havailable => absurd havailable hgone,fun _ => hgone⟩
    · next e b hfold => exact hdelivered.refused (LiveBuilder.foldPart_error hfold)
  | completeRefresh =>
    rw [LiveRun.call]
    split
    · next b hcomplete =>
      obtain ⟨pending,hpending,hkeeps,hnone,hparts,hoffset,hview⟩ :=
        LiveBuilder.completeRefresh_ok hcomplete
      obtain ⟨_,delta,hbegun,rfl,hgeneration,horder⟩ := h.pending pending hpending
      refine ⟨hkeeps.bounds.trans h.bounds,h.sound.keeps hkeeps,fun pending hsome => ?_,fun _ => ⟨delta,hbegun,hparts,?_,
        hkeeps.generation.trans hgeneration,hview,hoffset⟩,fun hno => by cases hno⟩
      · cases hnone.symm.trans hsome
      · rw [hparts]
        exact horder
    · next e b hcomplete => exact h.refused (LiveBuilder.completeRefresh_error hcomplete)

theorem LiveRun.Exact.calls (h : run.Exact folder bounds) (calls : List (LiveCall υ)) :
    (calls.foldl (LiveRun.call folder) run).Exact folder bounds := by
  induction calls generalizing run with
  | nil => exact h
  | cons call calls ih => exact ih (h.call call)

theorem LiveRun.start_exact {b : LiveBuilder φ} (h : LiveBuilder.new bounds = some b) :
    (LiveRun.start b : LiveRun υ φ).Exact folder bounds := by
  rw [LiveBuilder.new] at h
  split at h
  · cases h
  cases h
  refine ⟨rfl,⟨fun _ => by simp [LiveRun.start],.nil,.nil,rfl,?_,?_,?_⟩,?_,?_,?_⟩
  · simp [LiveRun.start,LiveUsage.isWithin,LiveUsage.default]
  · rintro p hp
    cases hp
  · rintro p hp
    cases hp
  · rintro pending hpending
    cases hpending
  · rintro (h | h) <;> cases h
  · rintro h
    cases h

theorem FoldedLiveView.query_unavailable {ω α : Type} {view : FoldedLiveView φ}
    (h : ¬view.state.Available) (answer : List (SegmentFacts φ) → Except ω α) :
    view.query answer = .error .snapshotUnavailable := by
  rw [query,if_pos (not_or.mp h)]

theorem reconcileSeal_unavailable {π κ : Type} {view : FoldedLiveView φ}
    (h : ¬view.state.Available)
    (tryPromote : List (SegmentFacts φ) → Except β (Option (SegmentFacts φ)))
    (publishOrFallback : SegmentFacts φ → Except β π) (loadOrBuild : Except β κ) :
    reconcileSeal view tryPromote publishOrFallback loadOrBuild = loadOrBuild.map .rebuilt := by
  rw [reconcileSeal,if_neg (not_or.mp h).2]

end Runs

/-- An available view is the last begun refresh, folded in full; what has been folded is not folded
again; after a contradiction nothing is available until a refresh completes. -/
theorem live_view_last_refresh (folder : Folder υ φ β) {bounds : Bounds} {b : LiveBuilder φ}
    (hnew : LiveBuilder.new bounds = some b) (calls : List (LiveCall υ)) :
    let run := calls.foldl (LiveRun.call folder) (LiveRun.start b)
    (run.builder.state.Available → run.builder.pendingRefresh = none ∧
      ∃ delta, run.begun = some delta ∧ run.builder.Completed delta ∧
        List.Forall₂ (FoldOf folder bounds delta.journal.generationId run.delivered)
          delta.journal.currentParts run.builder.chunks ∧
        (delta.journal.currentParts.map PartDescriptor.partId).Nodup ∧
        IsWatermark delta.journal.currentParts run.builder.watermarkUs ∧
        run.builder.usage = usageOf run.builder.chunks ∧
        run.builder.usage.isWithin bounds = true) ∧
    (∀ part ∈ run.builder.foldedParts, ∀ unit,
      (run.builder.foldPart folder part unit).2 = run.builder) ∧
    (run.contradicted = true →
      (∀ (ω α : Type) (answer : List (SegmentFacts φ) → Except ω α),
        run.builder.publish.query answer = .error .snapshotUnavailable) ∧
      ∀ (π κ : Type) (tryPromote : List (SegmentFacts φ) → Except β (Option (SegmentFacts φ)))
        (publishOrFallback : SegmentFacts φ → Except β π) (loadOrBuild : Except β κ),
        reconcileSeal run.builder.publish tryPromote publishOrFallback loadOrBuild =
          loadOrBuild.map .rebuilt) := by
  intro run
  have hexact : run.Exact folder bounds := (LiveRun.start_exact hnew).calls calls
  refine ⟨fun havailable => ⟨?_,?_⟩,fun part hpart unit => hexact.sound.foldPart_again hpart unit,
    fun hcontradicted => ?_⟩
  · cases hpending : run.builder.pendingRefresh with
    | none => rfl
    | some pending =>
      have hwarming := (hexact.pending pending hpending).1
      rcases havailable with hstate | hstate <;> cases hwarming.symm.trans hstate
  · obtain ⟨delta,hbegun,hcompleted⟩ := hexact.settled havailable
    have hsound := hexact.sound
    have hfolds := hsound.folds
    rw [hexact.bounds,hcompleted.generation,hcompleted.parts] at hfolds
    refine ⟨delta,hbegun,hcompleted,hfolds,?_,?_,hsound.usage,?_⟩
    · rw [← hcompleted.parts]
      exact hsound.unique
    · rw [← hcompleted.parts]
      exact hsound.watermark
    · rw [← hexact.bounds]
      exact hsound.within
  · have hgone := hexact.contradicted hcontradicted
    exact ⟨fun _ _ => FoldedLiveView.query_unavailable hgone,
      fun _ _ => reconcileSeal_unavailable hgone⟩

/-- One part in a journal of one generation. -/
def onlyPart : PartDescriptor := ⟨⟨0,journalHeaderLen+frameHeaderLen,8,⟨.replicate 32 0⟩⟩,10,20⟩

def onlyUnit : PgmUnit Unit := ⟨⟨[],10,20,1,1⟩,8,()⟩

def onlyRefresh : RefreshDelta where
  previousViewGeneration := 0
  newViewGeneration := 1
  viewChanged := true
  sealedAdded := []
  sealedRemoved := []
  journal :=
    { bootstrap := true
      generationId := 0
      previousValidLen := 0
      newValidLen := journalHeaderLen+frameHeaderLen+8
      completedParts := [onlyPart]
      currentParts := [onlyPart]
      currentPartsComplete := true
      transition := .append
      tailPending := none
      damages := [] }

def oneByOne : Folder Unit Unit Unit :=
  ⟨fun _ => ⟨.replicate 32 0⟩,fun _ _ _ _ => .ok ⟨1,1,0,0,0,()⟩⟩

/-- A part delivered twice in a refresh counts once. -/
theorem live_view_last_refresh_onlyPart : ∃ b, LiveBuilder.new Bounds.limit = some b ∧
    let run := [.beginRefresh onlyRefresh,.foldPart onlyPart onlyUnit,
      .foldPart onlyPart onlyUnit,.completeRefresh].foldl (LiveRun.call oneByOne) (LiveRun.start b)
    run.builder.state = .current ∧ IsWatermark [onlyPart] run.builder.watermarkUs ∧
      run.builder.usage.parts = 1 := by
  refine ⟨_,rfl,?_⟩
  intro run
  have hstate : run.builder.state = .current := by decide
  obtain ⟨-,delta,hbegun,-,-,-,hwatermark,-⟩ :=
    (live_view_last_refresh oneByOne (show LiveBuilder.new Bounds.limit = some _ from rfl) _).1
      (.inr hstate)
  cases hbegun
  exact ⟨hstate,hwatermark,by decide⟩

end PgKronika
