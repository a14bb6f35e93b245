import PgKronika.PartBuild
import PgKronika.WindowAppend

/-! When a refused window leaves the open segment alone. A call that fails after it has closed
the segment, or after its append, does not. -/
namespace PgKronika

open ByteCodec CheckedArith FileTrace

/-- What every handle keeps, also behind failed operations. -/
structure Journal.Formed (j : Journal) : Prop where
  config : validateConfig j.config = .ok ()
  header : journalHeaderLen ≤ j.fileEnd
  identified : j.parts ≠ [] → j.segmentId ≠ none ∧ journalHeaderLen < j.fileEnd

theorem Journal.Holds.formed {j : Journal} {g : Generation} (h : j.Holds g) : j.Formed where
  config := h.config
  header := by rw [h.fileEnd]; exact Nat.le_add_right _ _
  identified hparts := by
    have hg : g ≠ .fresh := fun hg => by
      have hempty := h.isEmpty_iff.mpr hg
      exact hparts (List.isEmpty_iff.mp hempty)
    have hpos := Generation.framesLen_pos hg
    refine ⟨?_,by rw [h.fileEnd]; omega⟩
    rw [h.segmentId]
    exact fun hnone => hg (Generation.ext hnone (g.identified.mp hnone))

/-- The handle behind an accepted reset. -/
def Journal.emptied (j : Journal) (generation : ℕ) : Journal :=
  if j.parts.isEmpty then j
  else { j with
    file := ⟨Generation.fresh.image,[]⟩
    fileEnd := journalHeaderLen
    parts := []
    generation
    segmentId := none }

theorem Journal.emptied_frame (j : Journal) (generation : ℕ) :
    (j.emptied generation).config = j.config ∧ (j.emptied generation).parts = [] ∧
      (j.emptied generation).poisoned = j.poisoned := by
  rw [emptied]
  split_ifs with h
  · exact ⟨rfl,List.isEmpty_iff.mp h,rfl⟩
  · exact ⟨rfl,rfl,rfl⟩

theorem Journal.emptied_faults {j : Journal} (h : j.file.faults = []) (generation : ℕ) :
    (j.emptied generation).file.faults = [] := by
  rw [emptied]
  split_ifs
  · exact h
  · rfl

theorem Journal.Formed.emptied {j : Journal} (h : j.Formed) (generation : ℕ) :
    (j.emptied generation).Formed where
  config := by rw [(j.emptied_frame generation).1]; exact h.config
  header := by
    rw [Journal.emptied]
    split_ifs
    · exact h.header
    · exact le_refl _
  identified hparts := absurd (j.emptied_frame generation).2.1 hparts

section Calm

variable {j : Journal}

/-- Without I/O failures a reset empties a healthy handle with room for the marker, and changes
nothing else. -/
theorem Journal.Formed.reset_accepts (h : j.Formed) (hfaults : j.file.faults = [])
    (hhealthy : j.poisoned = false) (hroom : j.Resettable) (nextGeneration : ℕ) :
    ∃ next, j.reset nextGeneration = (.ok (),j.emptied nextGeneration,next) := by
  have hmax : j.config.maxJournalLen ≤ maxJournalLen := (validateConfig_ok h.config).2.1
  have hcap : maxJournalLen ≤ 2^62 := by decide
  have hword : (2:ℕ)^62 ≤ u64Max := by decide
  rw [Journal.emptied,reset,ensureHealthy,hhealthy,if_neg Bool.false_ne_true]
  dsimp only
  by_cases hparts : j.parts = []
  · rw [if_pos (List.isEmpty_iff.mpr hparts),if_pos (List.isEmpty_iff.mpr hparts)]
    exact ⟨_,rfl⟩
  · have hne : ¬j.parts.isEmpty = true := fun he => hparts (List.isEmpty_iff.mp he)
    rw [if_neg hne,if_neg hne]
    obtain ⟨hid,hlen⟩ := h.identified hparts
    obtain ⟨segmentId,hid⟩ := Option.ne_none_iff_exists'.mp hid
    have hfits : j.fileEnd+resetMarkerLen ≤ j.config.maxJournalLen :=
      hroom.resolve_left hparts
    have hto : (UInt64.ofNat j.fileEnd).toNat = j.fileEnd :=
      toNat_ofNat_of_le (by omega)
    have hmarker : ∃ marker, j.resetMarker segmentId = .ok (some marker) := by
      rw [resetMarker,checkedAdd_of_le (by omega),Option.all_some,if_neg (by simpa using hfits),
        ResetMarker.new,if_neg (by omega)]
      exact ⟨_,rfl⟩
    obtain ⟨marker,hmarker⟩ := hmarker
    have hdisk : j.file = ⟨j.file.bytes,[]⟩ := by rw [← hfaults]
    rw [hid]
    dsimp only
    rw [hmarker]
    dsimp only
    rw [hdisk,performAll_of_no_faults]
    dsimp only
    rw [performAll_of_no_faults,applyAll_finishCommittedReset]
    exact ⟨_,rfl⟩

theorem Journal.Formed.reset_refuses (h : j.Formed)
    (hno : ¬(j.poisoned = false ∧ j.Resettable)) (nextGeneration : ℕ) :
    ∃ e next, j.reset nextGeneration = (.error e,j,next) := by
  rw [reset,ensureHealthy]
  cases hpoisoned : j.poisoned with
  | true => exact ⟨_,_,rfl⟩
  | false =>
    have hfull : ¬j.Resettable := fun hroom => hno ⟨hpoisoned,hroom⟩
    rw [Resettable,not_or] at hfull
    rw [if_neg Bool.false_ne_true]
    dsimp only
    rw [if_neg fun he => hfull.1 (List.isEmpty_iff.mp he)]
    obtain ⟨segmentId,hid⟩ := Option.ne_none_iff_exists'.mp (h.identified hfull.1).1
    have hmarker : j.resetMarker segmentId = .error (.full j.fileEnd j.config.maxJournalLen) := by
      rw [resetMarker,if_pos]
      cases hadd : checkedAdd j.fileEnd resetMarkerLen with
      | none => rfl
      | some markerEnd =>
        obtain ⟨rfl,_⟩ := checkedAdd_eq_some.mp hadd
        simpa using hfull.2
    rw [hid]
    dsimp only
    rw [hmarker]
    exact ⟨_,_,rfl⟩

/-- Without I/O failures an admitted append leaves a handle that can be reset. -/
theorem Journal.append_calm (h : j.Formed) (hfaults : j.file.faults = []) {segmentId : SegmentId}
    {part : Bytes} {nextEnd : ℕ} (hpre : j.precheck segmentId part = .ok nextEnd) :
    ∃ partRef next, j.append segmentId part = (.ok partRef,next) ∧ next.Formed ∧
      next.file.faults = [] ∧ next.poisoned = false ∧ next.Resettable ∧
      next.segmentId = some segmentId ∧ next.fileEnd = nextEnd ∧
      next.parts = j.parts ++ [partRef] := by
  have hhealthy : j.poisoned = false := by
    rw [precheck,ensureHealthy] at hpre
    cases hp : j.poisoned with
    | false => rfl
    | true => rw [hp] at hpre; cases hpre
  obtain ⟨_,_,_,_,hnext,hroom⟩ := precheck_ok hpre
  have hdisk : j.file = ⟨j.file.bytes,[]⟩ := by rw [← hfaults]
  have hfh : frameHeaderLen = 16 := rfl
  have hheader := h.header
  rw [append,hpre]
  dsimp only
  rw [hdisk,performAll_of_no_faults]
  refine ⟨_,_,rfl,⟨h.config,?_,fun _ => ⟨by simp,?_⟩⟩,rfl,hhealthy,.inr hroom,rfl,rfl,rfl⟩
  · change journalHeaderLen ≤ nextEnd
    omega
  · change journalHeaderLen < nextEnd
    omega

end Calm

section Refusal

variable {τ ε : Type} (registry : Registry) (sealer : Journal → SegmentId → Except ε Unit)
  (config : SegmentConfig) (now : ℕ) (window : Window τ)

/-- A window that closes the open segment fits the emptied journal, and a window that is
appended does not meet a refused seal. -/
def SegmentWriter.FitsBehindSeal (w : SegmentWriter τ) : Prop :=
  match w.closesFirst registry window with
  | some id => sealer w.journal id = .ok () →
      (w.journal.poisoned = false ∧ w.journal.Resettable) ∧
      ∃ next nextEnd, SegmentId.new window.ts = .ok next ∧
        (w.journal.emptied w.nextGeneration).precheck next window.flushed.body = .ok nextEnd ∧
        SealsAppended sealer config now window (w.journal.emptied w.nextGeneration) .default next
  | none => ∀ id delta,
      w.state.admission.assess registry window.flushed.summary window.entries = .ok delta →
      w.state.windowId window.ts = .ok id →
        SealsAppended sealer config now window w.journal w.state id

/-- A refused call leaves the segment alone. -/
def SegmentWriter.KeptOnRefusal (w : SegmentWriter τ)
    (r : Except (WindowError ε) (List (SegmentId × SealReason)) × SegmentWriter τ) : Prop :=
  ∀ e, r.1 = .error e →
    r.2.journal = w.journal ∧ r.2.state = w.state ∧ r.2.published = w.published

/-- Every segment that a call publishes is in its answer. -/
def SegmentWriter.ReportsAll (w : SegmentWriter τ)
    (r : Except (WindowError ε) (List (SegmentId × SealReason)) × SegmentWriter τ) : Prop :=
  ∃ more : List (PublishedSegment τ), r.2.published = w.published ++ more ∧
    r.1.toOption.getD [] = more.map fun p => (p.id,p.reason)

variable {registry sealer config now window} {w : SegmentWriter τ}

def SegmentWriter.closed (w : SegmentWriter τ) (id : SegmentId) (reason : SealReason)
    (nextGeneration : ℕ) : SegmentWriter τ where
  journal := w.journal.emptied w.nextGeneration
  nextGeneration
  state := .default
  windows := []
  history := w.history
  published := w.published ++ [⟨id,reason,w.windows⟩]

theorem SegmentWriter.closed_calm (hformed : w.journal.Formed)
    (hfaults : w.journal.file.faults = []) (id : SegmentId) (reason : SealReason)
    (nextGeneration : ℕ) :
    (w.closed id reason nextGeneration).journal.Formed ∧
      (w.closed id reason nextGeneration).journal.file.faults = [] :=
  ⟨hformed.emptied _,Journal.emptied_faults hfaults _⟩

/-- A seal on a calm journal: refused without a trace, published only, or complete. -/
theorem sealOpenSegment_calm (sealer : Journal → SegmentId → Except ε Unit) (reason : SealReason)
    {w : SegmentWriter τ} {id : SegmentId} (hformed : w.journal.Formed)
    (hfaults : w.journal.file.faults = []) (hid : w.state.firstId = some id) :
    (∃ e, sealer w.journal id = .error e ∧
      sealOpenSegment sealer reason w = (.error (.sealFailed e),w)) ∨
    (sealer w.journal id = .ok () ∧ ¬(w.journal.poisoned = false ∧ w.journal.Resettable) ∧
      ∃ e next, sealOpenSegment sealer reason w = (.error e,next) ∧
        w.Publishes next id reason) ∨
    (sealer w.journal id = .ok () ∧ (w.journal.poisoned = false ∧ w.journal.Resettable) ∧
      ∃ nextGeneration, sealOpenSegment sealer reason w =
        (.ok id,w.closed id reason nextGeneration)) := by
  rw [sealOpenSegment,hid]
  dsimp only
  cases hseal : sealer w.journal id with
  | error e => exact .inl ⟨e,rfl,rfl⟩
  | ok u =>
    right
    by_cases hreset : w.journal.poisoned = false ∧ w.journal.Resettable
    · obtain ⟨next,hnext⟩ := hformed.reset_accepts hfaults hreset.1 hreset.2 w.nextGeneration
      refine .inr ⟨rfl,hreset,next,?_⟩
      dsimp only
      rw [hnext]
      rfl
    · obtain ⟨e,next,hnext⟩ := hformed.reset_refuses hreset w.nextGeneration
      dsimp only
      rw [hnext]
      exact .inl ⟨rfl,hreset,_,_,rfl,rfl,rfl⟩

/-- A call that goes on behind a publication keeps to the claim only by succeeding. -/
theorem SegmentWriter.keptOnRefusal_of_published {id : SegmentId} {reason : SealReason}
    {r : Except (WindowError ε) (List (SegmentId × SealReason)) × SegmentWriter τ}
    {more : List (PublishedSegment τ)}
    (h : r.2.published = w.published ++ [⟨id,reason,w.windows⟩] ++ more) :
    w.KeptOnRefusal r ↔ ∃ sealed, r.1 = .ok sealed := by
  constructor
  · intro hkept
    cases hr : r.1 with
    | ok sealed => exact ⟨sealed,rfl⟩
    | error e =>
      have hsame := congrArg List.length ((hkept e hr).2.2.symm.trans h)
      simp only [List.length_append,List.length_singleton] at hsame
      omega
  · rintro ⟨sealed,hok⟩ e he
    rw [hok] at he
    cases he

/-- Behind an append without I/O failures the call succeeds exactly when the seal it may call
for is accepted, and no error takes the window back. -/
theorem finishWindow_calm (sealer : Journal → SegmentId → Except ε Unit) (config : SegmentConfig)
    (now : ℕ) (window : Window τ) (w : SegmentWriter τ) (delta : AdmissionDelta)
    (sealed : List (SegmentId × SealReason)) {j journal : Journal} {partRef : JournalPartRef}
    {id : SegmentId} {nextEnd : ℕ}
    (hformed : j.Formed) (hfaults : j.file.faults = [])
    (hpre : j.precheck id window.flushed.body = .ok nextEnd)
    (happend : j.append id window.flushed.body = (.ok partRef,journal))
    (hfirst : w.state.firstId = none ∨ w.state.firstId = some id) :
    let r := finishWindow sealer config now window.forced delta sealed
      (w.appended journal window.origin)
    ((∃ l, r.1 = .ok l) ↔ SealsAppended sealer config now window j w.state id) ∧
      (∃ more, r.2.published = w.published ++ more) ∧
      ∀ e, r.1 = .error e → r.2.journal = journal := by
  obtain ⟨partRef',journal',happend',hnext,hnf,hhealthy,hroom,hseg,hend,hparts⟩ :=
    Journal.append_calm hformed hfaults hpre
  obtain ⟨hrefs,rfl⟩ := Prod.mk.inj (happend'.symm.trans happend)
  have hstate : ((w.appended journal' window.origin).accounted delta id now).state.firstId =
      some id := SegmentWriter.accounted_firstId hfirst delta now
  have hage := (w.appended journal' window.origin).accounted_ageExpired delta id now config.maxAge
  change _ = (w.state.onWindowAppended id now).ageExpired now config.maxAge at hage
  have hseals : SealsAppended sealer config now window j w.state id ↔
      (sealReason window.forced journal'.bytes config.segmentMaxBytes
        (((w.appended journal' window.origin).accounted delta id now).state.ageExpired now
          config.maxAge) ≠ none → sealer journal' id = .ok ()) := by
    rw [hage,SealsAppended]
    constructor
    · exact fun h hreason => h partRef' journal' happend' hreason
    · intro h other last hother
      obtain ⟨_,rfl⟩ := Prod.mk.inj (happend'.symm.trans hother)
      exact h
  have hfinish : finishWindow sealer config now window.forced delta sealed
      (w.appended journal' window.origin) = sealWhenDue sealer
        (sealReason window.forced journal'.bytes config.segmentMaxBytes
          (((w.appended journal' window.origin).accounted delta id now).state.ageExpired now
            config.maxAge)) sealed ((w.appended journal' window.origin).accounted delta id now) := by
    have hactive : (w.appended journal' window.origin).journal.segmentId = some id := hseg
    rw [finishWindow,hactive]
    rfl
  rw [hseals,hfinish]
  unfold sealWhenDue
  dsimp only
  split
  · next hnone =>
    refine ⟨iff_of_true ⟨_,rfl⟩ fun hsome => absurd hnone hsome,⟨[],?_⟩,fun e he => by cases he⟩
    exact (List.append_nil _).symm
  · next reason hsome =>
    rw [hsome]
    have hformed' : ((w.appended journal' window.origin).accounted delta id now).journal.Formed :=
      hnext
    rcases sealOpenSegment_calm sealer reason hformed' hnf hstate with
      ⟨e,hrefused,heq⟩ | ⟨_,hno,_⟩ | ⟨hok,_,next,heq⟩
    · rw [heq]
      refine ⟨iff_of_false (by rintro ⟨_,h⟩; cases h) fun h => ?_,⟨[],?_⟩,fun _ _ => rfl⟩
      · cases (h (by simp)).symm.trans hrefused
      · exact (List.append_nil _).symm
    · exact absurd ⟨hhealthy,hroom⟩ hno
    · rw [heq]
      exact ⟨iff_of_true ⟨_,rfl⟩ fun _ => hok,⟨_,rfl⟩,fun e he => by cases he⟩

/-- The rest of a call that has closed the segment `mid` stands for. -/
inductive BehindSeal (sealer : Journal → SegmentId → Except ε Unit) (config : SegmentConfig)
    (now : ℕ) (window : Window τ) (mid : SegmentWriter τ) (delta : AdmissionDelta)
    (sealed : List (SegmentId × SealReason)) :
    Except (WindowError ε) (List (SegmentId × SealReason)) × SegmentWriter τ → Prop
  | outOfRange {e e'} (range : SegmentId.new window.ts = .error e) :
      BehindSeal sealer config now window mid delta sealed (.error e',mid)
  | refused {next e e'} (range : SegmentId.new window.ts = .ok next)
      (precheck : mid.journal.precheck next window.flushed.body = .error e) :
      BehindSeal sealer config now window mid delta sealed (.error e',mid)
  | appended {next nextEnd partRef journal} (range : SegmentId.new window.ts = .ok next)
      (precheck : mid.journal.precheck next window.flushed.body = .ok nextEnd)
      (append : mid.journal.append next window.flushed.body = (.ok partRef,journal)) :
      BehindSeal sealer config now window mid delta sealed
        (finishWindow sealer config now window.forced delta sealed
          (mid.appended journal window.origin))

theorem BehindSeal.kept_iff {id : SegmentId} {reason : SealReason} {nextGeneration : ℕ}
    {delta : AdmissionDelta} {sealed : List (SegmentId × SealReason)}
    {r : Except (WindowError ε) (List (SegmentId × SealReason)) × SegmentWriter τ}
    (hformed : w.journal.Formed) (hfaults : w.journal.file.faults = [])
    (h : BehindSeal sealer config now window (w.closed id reason nextGeneration) delta sealed r) :
    w.KeptOnRefusal r ↔ ∃ next nextEnd, SegmentId.new window.ts = .ok next ∧
      (w.journal.emptied w.nextGeneration).precheck next window.flushed.body = .ok nextEnd ∧
      SealsAppended sealer config now window (w.journal.emptied w.nextGeneration) .default next := by
  have hclosed : (w.closed id reason nextGeneration).published =
      w.published ++ [⟨id,reason,w.windows⟩] ++ [] := (List.append_nil _).symm
  cases h with
  | outOfRange range =>
    rw [SegmentWriter.keptOnRefusal_of_published hclosed]
    refine iff_of_false (by rintro ⟨_,h⟩; cases h) ?_
    rintro ⟨next,_,hnext,_⟩
    cases range.symm.trans hnext
  | refused range precheck =>
    rw [SegmentWriter.keptOnRefusal_of_published hclosed]
    refine iff_of_false (by rintro ⟨_,h⟩; cases h) ?_
    rintro ⟨next,nextEnd,hnext,hpre,_⟩
    obtain rfl := Except.ok.inj (range.symm.trans hnext)
    cases precheck.symm.trans hpre
  | appended range precheck append =>
    obtain ⟨hok,⟨more,hmore⟩,_⟩ := finishWindow_calm sealer config now window
      (w.closed id reason nextGeneration) delta sealed (hformed.emptied _)
      (Journal.emptied_faults hfaults _) precheck append (.inl rfl)
    rw [SegmentWriter.keptOnRefusal_of_published hmore,hok]
    constructor
    · exact fun hseals => ⟨_,_,range,precheck,hseals⟩
    · rintro ⟨next,nextEnd,hnext,_,hseals⟩
      obtain rfl := Except.ok.inj (range.symm.trans hnext)
      exact hseals

/-- An early seal on a calm journal, with the rest of the call behind it. -/
theorem early_kept_iff {id : SegmentId} {reason : SealReason} (delta : AdmissionDelta)
    (sealed : List (SegmentId × SealReason)) (hformed : w.journal.Formed)
    (hfaults : w.journal.file.faults = []) (hid : w.state.firstId = some id)
    (rest : SegmentId → SegmentWriter τ →
      Except (WindowError ε) (List (SegmentId × SealReason)) × SegmentWriter τ)
    (hrest : ∀ nextGeneration, BehindSeal sealer config now window
      (w.closed id reason nextGeneration) delta sealed
        (rest id (w.closed id reason nextGeneration))) :
    w.KeptOnRefusal (match sealOpenSegment sealer reason w with
      | (.error e,w) => (.error e,w)
      | (.ok id,w) => rest id w) ↔
    (sealer w.journal id = .ok () → (w.journal.poisoned = false ∧ w.journal.Resettable) ∧
      ∃ next nextEnd, SegmentId.new window.ts = .ok next ∧
        (w.journal.emptied w.nextGeneration).precheck next window.flushed.body = .ok nextEnd ∧
        SealsAppended sealer config now window (w.journal.emptied w.nextGeneration)
          .default next) := by
  rcases sealOpenSegment_calm sealer reason hformed hfaults hid with
    ⟨e,hrefused,heq⟩ | ⟨hok,hno,e,next,heq,hpublishes⟩ | ⟨hok,hreset,nextGeneration,heq⟩
  · rw [heq]
    refine iff_of_true (fun _ _ => ⟨rfl,rfl,rfl⟩) fun hok => ?_
    cases hrefused.symm.trans hok
  · rw [heq]
    have hmore : next.published = w.published ++ [⟨id,reason,w.windows⟩] ++ [] := by
      rw [List.append_nil]
      exact hpublishes.published
    rw [SegmentWriter.keptOnRefusal_of_published hmore]
    exact iff_of_false (by rintro ⟨_,h⟩; cases h) fun h => hno (h hok).1
  · rw [heq]
    dsimp only
    rw [(hrest nextGeneration).kept_iff hformed hfaults]
    exact ⟨fun h _ => ⟨hreset,h⟩,fun h => (h hok).2⟩

/-- A call that leaves no trace keeps to the claim. -/
theorem SegmentWriter.keptOnRefusal_self (e : WindowError ε) :
    w.KeptOnRefusal (.error e,w) := fun _ _ => ⟨rfl,rfl,rfl⟩

theorem appendEmptied_kept_iff {id : SegmentId} {fresh : AdmissionDelta}
    (hformed : w.journal.Formed) (hfaults : w.journal.file.faults = [])
    (hid : w.state.firstId = some id)
    (hfresh : SegmentAdmission.default.assess registry window.flushed.summary window.entries =
      .ok fresh) :
    w.KeptOnRefusal (appendEmptied registry sealer config now window [] w) ↔
    (sealer w.journal id = .ok () → (w.journal.poisoned = false ∧ w.journal.Resettable) ∧
      ∃ next nextEnd, SegmentId.new window.ts = .ok next ∧
        (w.journal.emptied w.nextGeneration).precheck next window.flushed.body = .ok nextEnd ∧
        SealsAppended sealer config now window (w.journal.emptied w.nextGeneration)
          .default next) := by
  rw [appendEmptied,hfresh]
  refine early_kept_iff fresh ([] ++ [(id,.journalFull)]) hformed hfaults hid _
    fun nextGeneration => ?_
  cases hrange : SegmentId.new window.ts with
  | error e => exact .outOfRange hrange
  | ok next =>
    dsimp only
    cases hpre : (w.closed id .journalFull nextGeneration).journal.precheck next
        window.flushed.body with
    | error e =>
      rw [Journal.append_refused hpre]
      exact .refused hrange hpre
    | ok nextEnd =>
      obtain ⟨hclosed,hcalm⟩ := w.closed_calm hformed hfaults id .journalFull nextGeneration
      obtain ⟨partRef,journal,happend,-⟩ := Journal.append_calm hclosed hcalm hpre
      rw [happend]
      exact .appended hrange hpre happend

/-- The same behind the early seal of a full sealed file. -/
theorem formatLimit_kept_iff {id : SegmentId} (fresh : AdmissionDelta)
    (hformed : w.journal.Formed) (hfaults : w.journal.file.faults = [])
    (hid : w.state.firstId = some id) :
    w.KeptOnRefusal (match sealOpenSegment sealer .formatLimit w with
      | (.error e,w) => (.error e,w)
      | (.ok id,w) => appendPrepared registry sealer config now window fresh [(id,.formatLimit)] w) ↔
    (sealer w.journal id = .ok () → (w.journal.poisoned = false ∧ w.journal.Resettable) ∧
      ∃ next nextEnd, SegmentId.new window.ts = .ok next ∧
        (w.journal.emptied w.nextGeneration).precheck next window.flushed.body = .ok nextEnd ∧
        SealsAppended sealer config now window (w.journal.emptied w.nextGeneration)
          .default next) := by
  refine early_kept_iff fresh [(id,.formatLimit)] hformed hfaults hid (fun id w =>
    appendPrepared registry sealer config now window fresh [(id,.formatLimit)] w)
    fun nextGeneration => ?_
  have hwindow : (w.closed id .formatLimit nextGeneration).state.windowId window.ts =
      SegmentId.new window.ts := rfl
  rw [appendPrepared,hwindow]
  cases hrange : SegmentId.new window.ts with
  | error e => exact .outOfRange hrange
  | ok next =>
    dsimp only
    obtain ⟨hclosed,hcalm⟩ := w.closed_calm hformed hfaults id .formatLimit nextGeneration
    cases hpre : (w.closed id .formatLimit nextGeneration).journal.precheck next
        window.flushed.body with
    | error e =>
      rw [Journal.append_refused hpre]
      cases e with
      | full len max => exact .refused hrange hpre
      | _ => exact .refused hrange hpre
    | ok nextEnd =>
      obtain ⟨partRef,journal,happend,-⟩ := Journal.append_calm hclosed hcalm hpre
      rw [happend]
      exact .appended hrange hpre happend

theorem appendWindowAndMaybeSeal_kept_iff (registry : Registry)
    (sealer : Journal → SegmentId → Except ε Unit) (config : SegmentConfig) (now : ℕ)
    (window : Window τ) (w : SegmentWriter τ) (hformed : w.journal.Formed)
    (hfaults : w.journal.file.faults = []) :
    w.KeptOnRefusal (appendWindowAndMaybeSeal registry sealer config now window w) ↔
      w.state.publishedPendingReset = true ∨
        w.FitsBehindSeal registry sealer config now window := by
  rw [appendWindowAndMaybeSeal]
  by_cases hpending : w.state.publishedPendingReset = true
  · rw [if_pos hpending]
    exact iff_of_true (SegmentWriter.keptOnRefusal_self _) (.inl hpending)
  rw [if_neg hpending,or_iff_right hpending,SegmentWriter.FitsBehindSeal]
  cases hassess : w.state.admission.assess registry window.flushed.summary window.entries with
  | ok delta =>
    have hprepare : prepareWindowAdmission registry sealer window w = (.ok (delta,[]),w) := by
      rw [prepareWindowAdmission,hassess]
    rw [hprepare]
    dsimp only
    rw [appendPrepared]
    cases hwindow : w.state.windowId window.ts with
    | error e =>
      have hnone : w.state.firstId = none := by
        rw [SegmentState.windowId] at hwindow
        split at hwindow
        · cases hwindow
        · assumption
      have hcloses : w.closesFirst registry window = none := by
        rw [SegmentWriter.closesFirst,hnone,Option.filter_none]
      rw [hcloses]
      exact iff_of_true (SegmentWriter.keptOnRefusal_self _) fun id _ _ hid => by cases hid
    | ok id =>
      have hfirst := SegmentState.windowId_ok hwindow
      dsimp only
      cases hpre : w.journal.precheck id window.flushed.body with
      | ok nextEnd =>
        obtain ⟨partRef,journal,happend,-,-,-,-,-,-,hparts⟩ :=
          Journal.append_calm hformed hfaults hpre
        have hcloses : w.closesFirst registry window = none := by
          rw [SegmentWriter.closesFirst,Option.filter_eq_none_iff]
          intro first hsome
          rcases hfirst with hnone | hid
          · rw [hnone] at hsome
            cases hsome
          · obtain rfl := Option.some.inj (hid.symm.trans hsome)
            rw [hassess,hpre]
            exact Bool.false_ne_true
        obtain ⟨hok,_,hjournal⟩ := finishWindow_calm sealer config now window w delta []
          hformed hfaults hpre happend hfirst
        rw [happend,hcloses]
        dsimp only
        constructor
        · intro hkept id' delta' hdelta hid
          obtain rfl := Except.ok.inj hid
          refine hok.mp ?_
          cases hr : (finishWindow sealer config now window.forced delta []
            (w.appended journal window.origin)).1 with
          | ok l => exact ⟨l,rfl⟩
          | error e =>
            have hsame := (hjournal e hr).symm.trans (hkept e hr).1
            rw [hsame] at hparts
            simpa using congrArg List.length hparts
        · intro hseals e he
          obtain ⟨l,hl⟩ := hok.mpr (hseals id delta rfl rfl)
          cases hl.symm.trans he
      | error e =>
        rw [Journal.append_refused hpre]
        by_cases hfull : (∃ len max, e = .full len max) ∧ w.state.firstId.isSome ∧
            (SegmentAdmission.default.assess registry window.flushed.summary
              window.entries).isOk = true
        · obtain ⟨⟨len,max,rfl⟩,hopen,hok⟩ := hfull
          have hid := hfirst.resolve_left (Option.isSome_iff_ne_none.mp hopen)
          obtain ⟨fresh,hfresh⟩ := ok_of_isOk hok
          have hcloses : w.closesFirst registry window = some id := by
            rw [SegmentWriter.closesFirst,hid,Option.filter_some,hassess,hpre]
            exact if_pos hok
          rw [hcloses]
          dsimp only
          rw [if_pos hopen]
          exact appendEmptied_kept_iff hformed hfaults hid hfresh
        · have hcloses : w.closesFirst registry window = none := by
            rw [SegmentWriter.closesFirst,Option.filter_eq_none_iff]
            intro first hsome
            have hid := hfirst.resolve_left (by rw [hsome]; simp)
            obtain rfl := Option.some.inj (hid.symm.trans hsome)
            rw [hassess,hpre]
            cases e with
            | full len max => exact fun hok => hfull ⟨⟨len,max,rfl⟩,by rw [hsome]; rfl,hok⟩
            | _ => exact Bool.false_ne_true
          rw [hcloses]
          refine iff_of_true ?_ ?_
          · cases e with
            | full len max =>
              dsimp only
              split_ifs with hopen
              · cases hfresh : SegmentAdmission.default.assess registry window.flushed.summary
                  window.entries with
                | error e =>
                  rw [appendEmptied,hfresh]
                  exact SegmentWriter.keptOnRefusal_self _
                | ok fresh =>
                  exact absurd ⟨⟨len,max,rfl⟩,hopen,by rw [hfresh]; rfl⟩ hfull
              · exact SegmentWriter.keptOnRefusal_self _
            | _ => exact SegmentWriter.keptOnRefusal_self _
          · intro id' delta' hdelta hid partRef journal happend
            obtain rfl := Except.ok.inj hid
            cases (Journal.append_refused hpre).symm.trans happend
  | error e =>
    by_cases hcapacity : (e.isCapacity && w.state.firstId.isSome) = true
    · obtain ⟨hfull,hopen⟩ := Bool.and_eq_true_iff.mp hcapacity
      obtain ⟨id,hid⟩ := Option.isSome_iff_exists.mp hopen
      cases hfresh : SegmentAdmission.default.assess registry window.flushed.summary
          window.entries with
      | error e' =>
        have hprepare : prepareWindowAdmission registry sealer window w =
            (.error (.exceedsSealedLimits e'),w) := by
          rw [prepareWindowAdmission,hassess]
          dsimp only
          rw [if_pos hcapacity,hfresh]
        have hcloses : w.closesFirst registry window = none := by
          rw [SegmentWriter.closesFirst,hid,Option.filter_some,hassess,hfresh]
          exact if_neg (by simp [Except.isOk,Except.toBool])
        rw [hprepare,hcloses]
        exact iff_of_true (SegmentWriter.keptOnRefusal_self _) fun _ _ hdelta => by cases hdelta
      | ok fresh =>
        have hcloses : w.closesFirst registry window = some id := by
          rw [SegmentWriter.closesFirst,hid,Option.filter_some,hassess,hfresh]
          exact if_pos (by dsimp only; rw [hfull]; rfl)
        rw [prepareWindowAdmission,hassess,hcloses]
        dsimp only
        rw [if_pos hcapacity,hfresh,← formatLimit_kept_iff fresh hformed hfaults hid]
        rcases sealOpenSegment sealer .formatLimit w with ⟨e | id,mid⟩ <;> rfl
    · have hprepare : prepareWindowAdmission registry sealer window w = (.error (.rejected e),w) := by
        rw [prepareWindowAdmission,hassess]
        exact if_neg hcapacity
      have hcloses : w.closesFirst registry window = none := by
        rw [SegmentWriter.closesFirst,Option.filter_eq_none_iff]
        intro first hsome
        rw [hassess]
        intro hok
        exact hcapacity (by rw [(Bool.and_eq_true_iff.mp hok).1,hsome]; rfl)
      rw [hprepare,hcloses]
      exact iff_of_true (SegmentWriter.keptOnRefusal_self _) fun _ _ hdelta => by cases hdelta

/-- A window that is in the journal has reported the segment it closed. -/
theorem SegmentWriter.Takes.reports {next : SegmentWriter τ}
    {sealed : List (SegmentId × SealReason)} (h : w.Takes registry window next sealed) :
    ∃ more : List (PublishedSegment τ), next.published = w.published ++ more ∧
      sealed = more.map fun p => (p.id,p.reason) := by
  rcases h.windows with ⟨rfl,_,hpublished⟩ | ⟨id,reason,_,_,rfl,_,hpublishes⟩
  · exact ⟨[],by rw [hpublished,List.append_nil],rfl⟩
  · exact ⟨[⟨id,reason,w.windows⟩],hpublishes,rfl⟩

/-- An accepted call reports everything; a refused one does when it has left no trace. -/
theorem SegmentWriter.KeptOnRefusal.reports
    {r : Except (WindowError ε) (List (SegmentId × SealReason)) × SegmentWriter τ}
    (hkept : w.KeptOnRefusal r) (h : AppendOutcome registry sealer config now window w r.1 r.2) :
    w.ReportsAll r := by
  obtain ⟨answer,last⟩ := r
  cases answer with
  | error e => exact ⟨[],by rw [(hkept e rfl).2.2,List.append_nil],rfl⟩
  | ok l =>
    cases h with
    | kept takes => exact takes.reports
    | @sealed sealed _ id reason mid takes closes =>
      obtain ⟨more,hmore,hsealed⟩ := takes.reports
      refine ⟨more ++ [⟨id,reason,mid.windows⟩],?_,?_⟩
      · rw [closes.publishes.published,hmore,List.append_assoc]
      · rw [List.map_append,← hsealed]
        rfl

/-- Without I/O failures a refused window leaves the open segment alone, and every publication
is reported, exactly when a window that closes the segment fits the emptied journal and a window
that is appended meets no refused seal. -/
theorem refused_window_keeps_segment_iff (registry : Registry)
    (sealer : Journal → SegmentId → Except ε Unit) (config : SegmentConfig) (now : ℕ)
    (window : Window τ) (w : SegmentWriter τ) (hformed : w.journal.Formed)
    (hfaults : w.journal.file.faults = []) :
    (w.KeptOnRefusal (appendWindowAndMaybeSeal registry sealer config now window w) ∧
        w.ReportsAll (appendWindowAndMaybeSeal registry sealer config now window w)) ↔
      w.state.publishedPendingReset = true ∨
        w.FitsBehindSeal registry sealer config now window := by
  rw [← appendWindowAndMaybeSeal_kept_iff registry sealer config now window w hformed hfaults]
  exact and_iff_left_of_imp fun hkept =>
    hkept.reports (appendWindowAndMaybeSeal_outcome registry sealer config now window w)

/-- A journal that takes one part without sections and nothing behind it. -/
def narrowConfig : JournalConfig := { JournalConfig.default with maxJournalLen := 128 }

def narrowWriter : SegmentWriter ℕ where
  journal := Journal.opened Generation.fresh.image narrowConfig none [] 7
  nextGeneration := 8
  state := .default
  windows := []
  history := []
  published := []

/-- A window of one part, flushed from `sections`. -/
def plainWindow (ts : Int64) (sections : List SectionInput) (origin : ℕ) : Window ℕ where
  ts
  forced := false
  flushed := ⟨(buildPart sections ⟨ts,ts⟩).getD [],⟨sections.map fun s => ⟨s.typeId,s.rows,
    s.body.length,0⟩,0⟩⟩
  entries := []
  origin

def plainConfig : SegmentConfig := ⟨900,67108864⟩

/-- The registry of the one type that the samples use. -/
def plainRegistry : Registry := [⟨1001001,[⟨"ts",.ts,false⟩],["ts"]⟩]

/-- The first window opens the segment. -/
def filledWriter : SegmentWriter ℕ :=
  (appendWindowAndMaybeSeal plainRegistry (fun _ _ => .ok () : Journal → SegmentId → Except Unit Unit)
    plainConfig 0 (plainWindow 0 [] 1) narrowWriter).2

theorem refused_window_keeps_segment_iff_sample :
    let r := appendWindowAndMaybeSeal plainRegistry
      (fun _ _ => .ok () : Journal → SegmentId → Except Unit Unit) plainConfig 0
      (plainWindow 0 [] 1) narrowWriter
    (narrowWriter.KeptOnRefusal r ∧ narrowWriter.ReportsAll r) ↔
      narrowWriter.state.publishedPendingReset = true ∨
        narrowWriter.FitsBehindSeal plainRegistry
          (fun _ _ => .ok () : Journal → SegmentId → Except Unit Unit) plainConfig 0
          (plainWindow 0 [] 1) :=
  refused_window_keeps_segment_iff _ _ _ _ _ _
    (Generation.opened_holds (Generation.fresh_fits (by decide)) (by decide) 7).formed rfl

def oversizedCall : Except (WindowError Unit) (List (SegmentId × SealReason)) × SegmentWriter ℕ :=
  appendWindowAndMaybeSeal plainRegistry (fun _ _ => .ok ()) plainConfig 5
    (plainWindow 5 [⟨1001001,1,[7]⟩] 2) filledWriter

/-- A window too large for any journal closes the open segment first: the segment is published,
the journal is emptied and the call fails without naming either. -/
theorem oversized_window_loses_segment :
    filledWriter.journal.file.faults = [] ∧ filledWriter.journal.parts.length = 1 ∧
      filledWriter.published = [] ∧
      oversizedCall.1 = .error (.appendAfterEarlySeal (.full 36 128)) ∧
      oversizedCall.2.published = [⟨sampleId,.journalFull,[1]⟩] ∧
      oversizedCall.2.journal.parts.length = 0 ∧ ¬filledWriter.KeptOnRefusal oversizedCall := by
  have hrun : filledWriter.journal.file.faults = [] ∧ filledWriter.journal.parts.length = 1 ∧
      filledWriter.published = [] ∧
      oversizedCall.1 = .error (.appendAfterEarlySeal (.full 36 128)) ∧
      oversizedCall.2.published = [⟨sampleId,.journalFull,[1]⟩] ∧
      oversizedCall.2.journal.parts.length = 0 := by decide +kernel
  obtain ⟨hfaults,hone,hnone,herror,hpublished,hempty⟩ := hrun
  refine ⟨hfaults,hone,hnone,herror,hpublished,hempty,fun hkept => ?_⟩
  have hsame := (hkept _ herror).2.2
  rw [hpublished,hnone] at hsame
  cases hsame

end Refusal

end PgKronika
