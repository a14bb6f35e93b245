import PgKronika.JournalReset
import PgKronika.Scheduler
import PgKronika.SegmentAdmission

/-! One collection window goes into the open segment: admission, the journal append, the early
seals that make room for it and the seal that its append calls for. -/
namespace PgKronika

open ByteCodec CheckedArith FileTrace

inductive SealReason
  | forced | tick | size | age | formatLimit | journalFull
  deriving DecidableEq

/-- The open segment: its name comes from the first window, its age from the moment that window
was appended. -/
structure SegmentState where
  firstId : Option SegmentId
  openedAt : Option ℕ
  admission : SegmentAdmission
  publishedPendingReset : Bool
  deriving DecidableEq

def SegmentState.default : SegmentState := ⟨none,none,.default,false⟩

def SegmentState.onWindowAppended (s : SegmentState) (id : SegmentId) (now : ℕ) : SegmentState :=
  if s.firstId.isNone then { s with firstId := some id, openedAt := some now } else s

def SegmentState.ageExpired (s : SegmentState) (now maxAge : ℕ) : Bool :=
  s.openedAt.any fun opened => maxAge ≤ now-opened

structure SegmentConfig where
  segmentMaxAgeSecs : ℕ
  segmentMaxBytes : ℕ
  deriving DecidableEq

def SegmentConfig.maxAge (config : SegmentConfig) : ℕ := config.segmentMaxAgeSecs*nanosPerSec

/-- Why the open segment must seal now, or `none` to keep collecting. -/
def sealReason (forced : Bool) (journalBytes maxBytes : ℕ) (ageExpired : Bool) :
    Option SealReason :=
  if forced then some .forced
  else if maxBytes = 0 then some .tick
  else if maxBytes ≤ journalBytes then some .size
  else if ageExpired then some .age
  else none

/-- A collected window; `origin` only records where it comes from. -/
structure Window (τ : Type) where
  ts : Int64
  forced : Bool
  flushed : FlushedPart
  entries : List EntrySnapshot
  origin : τ

/-- A published segment with the windows that the journal held at its seal. -/
structure PublishedSegment (τ : Type) where
  id : SegmentId
  reason : SealReason
  windows : List τ
  deriving DecidableEq

/-- The journal with the state of its open segment. `windows` are the windows in the journal,
`history` all windows ever appended and `published` all segments so far; the program keeps none
of them. -/
structure SegmentWriter (τ : Type) where
  journal : Journal
  nextGeneration : ℕ
  state : SegmentState
  windows : List τ
  history : List τ
  published : List (PublishedSegment τ)

inductive WindowError (ε : Type)
  | publishedPendingReset
  | noAppendedWindow
  | sealFailed (error : ε)
  | reset (error : JournalError)
  | rejected (error : AdmissionError)
  | exceedsSealedLimits (error : AdmissionError)
  | timestampOutOfRange (error : LayoutError)
  | append (error : JournalError)
  | appendAfterEarlySeal (error : JournalError)
  | noSegmentId
  deriving DecidableEq

variable {τ ε : Type}

/-- Publish the open segment under its first window's identity and empty the journal. `sealer`
writes and publishes the file. -/
def sealOpenSegment (sealer : Journal → SegmentId → Except ε Unit) (reason : SealReason)
    (w : SegmentWriter τ) : Except (WindowError ε) SegmentId × SegmentWriter τ :=
  match w.state.firstId with
  | none => (.error .noAppendedWindow,w)
  | some id =>
    match sealer w.journal id with
    | .error e => (.error (.sealFailed e),w)
    | .ok () =>
      let w : SegmentWriter τ := { w with
        published := w.published ++ [⟨id,reason,w.windows⟩]
        state := { w.state with publishedPendingReset := true } }
      match w.journal.reset w.nextGeneration with
      | (.error e,journal,nextGeneration) => (.error (.reset e),{ w with journal, nextGeneration })
      | (.ok (),journal,nextGeneration) =>
        (.ok id,{ w with journal, nextGeneration, state := .default, windows := [] })

/-- Room for the window in the sealed file; a full segment is closed when the window fits a fresh
one. -/
def prepareWindowAdmission (registry : Registry) (sealer : Journal → SegmentId → Except ε Unit)
    (window : Window τ) (w : SegmentWriter τ) :
    Except (WindowError ε) (AdmissionDelta × List (SegmentId × SealReason)) × SegmentWriter τ :=
  match w.state.admission.assess registry window.flushed.summary window.entries with
  | .ok delta => (.ok (delta,[]),w)
  | .error e =>
    if e.isCapacity && w.state.firstId.isSome then
      -- An intrinsically inadmissible window leaves the accumulated journal alone.
      match SegmentAdmission.default.assess registry window.flushed.summary window.entries with
      | .error e => (.error (.exceedsSealedLimits e),w)
      | .ok fresh =>
        match sealOpenSegment sealer .formatLimit w with
        | (.error e,w) => (.error e,w)
        | (.ok id,w) => (.ok (fresh,[(id,.formatLimit)]),w)
    else (.error (.rejected e),w)

def SegmentWriter.appended (w : SegmentWriter τ) (journal : Journal) (origin : τ) :
    SegmentWriter τ :=
  { w with journal, windows := w.windows ++ [origin], history := w.history ++ [origin] }

/-- The state with the window, before the seal that its append may call for. -/
def SegmentWriter.accounted (w : SegmentWriter τ) (admission : AdmissionDelta) (id : SegmentId)
    (now : ℕ) : SegmentWriter τ :=
  let state := { w.state with admission := w.state.admission.commit admission }
  { w with state := state.onWindowAppended id now }

def sealWhenDue (sealer : Journal → SegmentId → Except ε Unit) (due : Option SealReason)
    (sealed : List (SegmentId × SealReason)) (w : SegmentWriter τ) :
    Except (WindowError ε) (List (SegmentId × SealReason)) × SegmentWriter τ :=
  match due with
  | none => (.ok sealed,w)
  | some reason =>
    match sealOpenSegment sealer reason w with
    | (.error e,w) => (.error e,w)
    | (.ok id,w) => (.ok (sealed ++ [(id,reason)]),w)

/-- The window is in the journal: account for it, and seal when it is time. -/
def finishWindow (sealer : Journal → SegmentId → Except ε Unit) (config : SegmentConfig)
    (now : ℕ) (forced : Bool) (admission : AdmissionDelta)
    (sealed : List (SegmentId × SealReason)) (w : SegmentWriter τ) :
    Except (WindowError ε) (List (SegmentId × SealReason)) × SegmentWriter τ :=
  match w.journal.segmentId with
  | none =>
    let state := { w.state with admission := w.state.admission.commit admission }
    (.error .noSegmentId,{ w with state })
  | some activeId =>
    let w := w.accounted admission activeId now
    sealWhenDue sealer (sealReason forced w.journal.bytes config.segmentMaxBytes
      (w.state.ageExpired now config.maxAge)) sealed w

/-- The second try of a window that the journal had no room for. -/
def appendEmptied (registry : Registry) (sealer : Journal → SegmentId → Except ε Unit)
    (config : SegmentConfig) (now : ℕ) (window : Window τ)
    (sealed : List (SegmentId × SealReason)) (w : SegmentWriter τ) :
    Except (WindowError ε) (List (SegmentId × SealReason)) × SegmentWriter τ :=
  match SegmentAdmission.default.assess registry window.flushed.summary window.entries with
  | .error e => (.error (.exceedsSealedLimits e),w)
  | .ok fresh =>
    match sealOpenSegment sealer .journalFull w with
    | (.error e,w) => (.error e,w)
    | (.ok id,w) =>
      match SegmentId.new window.ts with
      | .error e => (.error (.timestampOutOfRange e),w)
      | .ok segmentId =>
        match w.journal.append segmentId window.flushed.body with
        | (.error e,journal) => (.error (.appendAfterEarlySeal e),{ w with journal })
        | (.ok _,journal) =>
          finishWindow sealer config now window.forced fresh (sealed ++ [(id,.journalFull)])
            (w.appended journal window.origin)

/-- The segment of the next window. -/
def SegmentState.windowId (s : SegmentState) (ts : Int64) : Except LayoutError SegmentId :=
  match s.firstId with
  | some id => .ok id
  | none => SegmentId.new ts

/-- The append of a window whose room in the sealed file is known. -/
def appendPrepared (registry : Registry) (sealer : Journal → SegmentId → Except ε Unit)
    (config : SegmentConfig) (now : ℕ) (window : Window τ) (admission : AdmissionDelta)
    (sealed : List (SegmentId × SealReason)) (w : SegmentWriter τ) :
    Except (WindowError ε) (List (SegmentId × SealReason)) × SegmentWriter τ :=
  match w.state.windowId window.ts with
  | .error e => (.error (.timestampOutOfRange e),w)
  | .ok segmentId =>
    match w.journal.append segmentId window.flushed.body with
    | (.ok _,journal) =>
      finishWindow sealer config now window.forced admission sealed
        (w.appended journal window.origin)
    | (.error (.full len max),journal) =>
      if w.state.firstId.isSome then
        appendEmptied registry sealer config now window sealed { w with journal }
      else (.error (.append (.full len max)),{ w with journal })
    | (.error e,journal) => (.error (.append e),{ w with journal })

/-- Append one window; the answer lists the segments sealed on the way. `now` is the instant
right behind the append. -/
def appendWindowAndMaybeSeal (registry : Registry) (sealer : Journal → SegmentId → Except ε Unit)
    (config : SegmentConfig) (now : ℕ) (window : Window τ) (w : SegmentWriter τ) :
    Except (WindowError ε) (List (SegmentId × SealReason)) × SegmentWriter τ :=
  if w.state.publishedPendingReset then (.error .publishedPendingReset,w)
  else
    match prepareWindowAdmission registry sealer window w with
    | (.error e,w) => (.error e,w)
    | (.ok (admission,sealed),w) =>
      appendPrepared registry sealer config now window admission sealed w

/-- The open segment that has to be closed before the window has room, in the sealed file or in
the journal. A window that no fresh segment could take closes none. -/
def SegmentWriter.closesFirst (registry : Registry) (window : Window τ) (w : SegmentWriter τ) :
    Option SegmentId :=
  w.state.firstId.filter fun id =>
    match w.state.admission.assess registry window.flushed.summary window.entries,
        w.journal.precheck id window.flushed.body with
    | .error e, _ => e.isCapacity &&
        (SegmentAdmission.default.assess registry window.flushed.summary window.entries).isOk
    | .ok _, .error (.full _ _) =>
        (SegmentAdmission.default.assess registry window.flushed.summary window.entries).isOk
    | .ok _, _ => false

/-- The seal that the window's append on `j` calls for, if any, is accepted. -/
def SealsAppended (sealer : Journal → SegmentId → Except ε Unit) (config : SegmentConfig) (now : ℕ)
    (window : Window τ) (j : Journal) (s : SegmentState) (id : SegmentId) : Prop :=
  ∀ partRef journal, j.append id window.flushed.body = (.ok partRef,journal) →
    sealReason window.forced journal.bytes config.segmentMaxBytes
        ((s.onWindowAppended id now).ageExpired now config.maxAge) ≠ none →
      sealer journal id = .ok ()

/-- Where a call appends its window: to the open journal, or to the emptied one behind an early
seal. -/
inductive SegmentWriter.Lands (registry : Registry) (window : Window τ) (w : SegmentWriter τ) :
    Journal → SegmentState → SegmentId → Prop
  | open {id delta}
      (assess : w.state.admission.assess registry window.flushed.summary window.entries = .ok delta)
      (windowId : w.state.windowId window.ts = .ok id) : Lands registry window w w.journal w.state id
  | emptied {first id : SegmentId} {journal : Journal} {nextGeneration : ℕ}
      (closes : w.closesFirst registry window = some first)
      (reset : w.journal.reset w.nextGeneration = (.ok (),journal,nextGeneration))
      (range : SegmentId.new window.ts = .ok id) : Lands registry window w journal .default id

section Outcomes

variable {registry : Registry} {sealer : Journal → SegmentId → Except ε Unit}
  {config : SegmentConfig} {now : ℕ} {window : Window τ} {w next : SegmentWriter τ}

/-- The open segment with the windows of the journal is published. -/
structure SegmentWriter.Publishes (w next : SegmentWriter τ) (id : SegmentId)
    (reason : SealReason) : Prop where
  published : next.published = w.published ++ [⟨id,reason,w.windows⟩]
  history : next.history = w.history

/-- The open segment is published and the journal is empty again. -/
structure SegmentWriter.Closes (w next : SegmentWriter τ) (id : SegmentId) (reason : SealReason) :
    Prop where
  first : w.state.firstId = some id
  publishes : w.Publishes next id reason
  windows : next.windows = []
  state : next.state = .default
  reset : ∃ nextGeneration,
    w.journal.reset w.nextGeneration = (.ok (),next.journal,nextGeneration)

/-- Nothing that a later call depends on has changed. -/
structure SegmentWriter.Keeps (w next : SegmentWriter τ) : Prop where
  windows : next.windows = w.windows
  history : next.history = w.history
  published : next.published = w.published
  state : next.state = w.state

theorem SegmentWriter.Keeps.refl (w : SegmentWriter τ) : w.Keeps w := ⟨rfl,rfl,rfl,rfl⟩

theorem sealOpenSegment_ok {reason : SealReason} {id : SegmentId}
    (h : sealOpenSegment sealer reason w = (.ok id,next)) : w.Closes next id reason := by
  rw [sealOpenSegment] at h
  split at h
  · cases h
  next first hfirst =>
  split at h
  · cases h
  dsimp only at h
  split at h
  · cases h
  next journal nextGeneration hreset =>
  obtain ⟨hid,rfl⟩ := Prod.mk.inj h
  obtain rfl := Except.ok.inj hid
  exact ⟨hfirst,⟨rfl,rfl⟩,rfl,rfl,nextGeneration,hreset⟩

/-- A refused seal changes nothing, or the segment is out and the journal could not be
emptied. -/
theorem sealOpenSegment_error {reason : SealReason} {e : WindowError ε}
    (h : sealOpenSegment sealer reason w = (.error e,next)) :
    (next = w ∧ ∀ id, w.state.firstId = some id → sealer w.journal id ≠ .ok ()) ∨
      (∃ id, w.state.firstId = some id ∧ w.Publishes next id reason) ∧
        next.windows = w.windows ∧ next.state.publishedPendingReset = true := by
  rw [sealOpenSegment] at h
  split at h
  · next hnone => exact .inl ⟨(Prod.mk.inj h).2.symm,fun id hid => by cases hnone.symm.trans hid⟩
  next first hfirst =>
  split at h
  · next hrefused =>
    refine .inl ⟨(Prod.mk.inj h).2.symm,fun id hid => ?_⟩
    obtain rfl := Option.some.inj (hfirst.symm.trans hid)
    rw [hrefused]
    exact fun hok => by cases hok
  dsimp only at h
  split at h
  · obtain ⟨_,rfl⟩ := Prod.mk.inj h
    exact .inr ⟨⟨first,hfirst,rfl,rfl⟩,rfl,rfl⟩
  · cases h

/-- What an accepted append leaves of the handle. -/
theorem Journal.append_accepted {j last : Journal} {segmentId : SegmentId} {part : Bytes}
    {partRef : JournalPartRef} (h : j.append segmentId part = (.ok partRef,last)) :
    last.segmentId = some segmentId ∧ last.parts = j.parts ++ [partRef] ∧
      ∃ nextEnd, j.precheck segmentId part = .ok nextEnd ∧ last.fileEnd = nextEnd := by
  rw [append] at h
  split at h
  · cases h
  next nextEnd hpre =>
  split at h
  · cases h
  obtain ⟨href,rfl⟩ := Prod.mk.inj h
  obtain rfl := Except.ok.inj href
  exact ⟨rfl,rfl,nextEnd,hpre,rfl⟩

/-- Only the checks of an append find the journal full. -/
theorem Journal.append_full {j last : Journal} {segmentId : SegmentId} {part : Bytes} {len max : ℕ}
    (h : j.append segmentId part = (.error (.full len max),last)) :
    j.precheck segmentId part = .error (.full len max) := by
  rw [append] at h
  split at h
  · next e hpre =>
    obtain rfl := Except.error.inj (Prod.mk.inj h).1
    exact hpre
  · split at h
    · next error file _ =>
      rcases hundo : j.undo file error with ⟨e,next⟩
      rw [hundo] at h
      exact absurd (Except.error.inj (Prod.mk.inj h).1) ((undo_frame hundo).2.2.2 len max)
    · cases h

theorem SegmentState.onWindowAppended_frame (s : SegmentState) (id : SegmentId) (now : ℕ) :
    (s.onWindowAppended id now).publishedPendingReset = s.publishedPendingReset ∧
      (s.onWindowAppended id now).firstId = some (s.firstId.getD id) := by
  rw [onWindowAppended]
  cases h : s.firstId <;> simp [h]

/-- The accounting of a window does not touch the clock of its segment. -/
theorem SegmentWriter.accounted_ageExpired (w : SegmentWriter τ) (delta : AdmissionDelta)
    (id : SegmentId) (now maxAge : ℕ) :
    (w.accounted delta id now).state.ageExpired now maxAge =
      (w.state.onWindowAppended id now).ageExpired now maxAge := by
  rw [accounted,SegmentState.ageExpired,SegmentState.ageExpired,SegmentState.onWindowAppended,
    SegmentState.onWindowAppended]
  change Option.any _ (ite (w.state.firstId.isNone = true) _ _ : SegmentState).openedAt = _
  split_ifs <;> rfl

/-- A segment is opened under the identity that its first window is appended with. -/
theorem SegmentWriter.accounted_firstId {id : SegmentId}
    (h : w.state.firstId = none ∨ w.state.firstId = some id) (delta : AdmissionDelta) (now : ℕ) :
    (w.accounted delta id now).state.firstId = some id := by
  rw [accounted,(SegmentState.onWindowAppended_frame _ id now).2]
  change some (w.state.firstId.getD id) = some id
  rcases h with h | h <;> rw [h] <;> rfl

theorem SegmentState.windowId_ok {s : SegmentState} {ts : Int64} {id : SegmentId}
    (h : s.windowId ts = .ok id) : s.firstId = none ∨ s.firstId = some id := by
  rw [windowId] at h
  split at h
  · next first hfirst => exact .inr (hfirst.trans (congrArg some (Except.ok.inj h)))
  · next hnone => exact .inl hnone

/-- The window is in the journal: of the open segment, or behind an early seal. -/
structure SegmentWriter.Takes (registry : Registry) (window : Window τ) (w next : SegmentWriter τ)
    (sealed : List (SegmentId × SealReason)) : Prop where
  allowed : w.state.publishedPendingReset = false
  healthy : next.state.publishedPendingReset = false
  opened : next.state.firstId.isSome
  history : next.history = w.history ++ [window.origin]
  windows : sealed = [] ∧ next.windows = w.windows ++ [window.origin] ∧
      next.published = w.published ∨
    ∃ id reason, w.closesFirst registry window = some id ∧ w.state.firstId = some id ∧
      sealed = [(id,reason)] ∧ next.windows = [window.origin] ∧
      next.published = w.published ++ [⟨id,reason,w.windows⟩]

/-- Everything that a call can do to the windows and the publications. -/
inductive AppendOutcome (registry : Registry) (sealer : Journal → SegmentId → Except ε Unit)
    (config : SegmentConfig) (now : ℕ) (window : Window τ) (w : SegmentWriter τ) :
    Except (WindowError ε) (List (SegmentId × SealReason)) → SegmentWriter τ → Prop
  | refused {e next} (keeps : w.Keeps next) :
      AppendOutcome registry sealer config now window w (.error e) next
  | lost {e next id reason} (publishes : w.Publishes next id reason)
      (left : next.state.publishedPendingReset = true ∨
        next.windows = [] ∧ next.state = .default) :
      AppendOutcome registry sealer config now window w (.error e) next
  | kept {sealed next} (takes : w.Takes registry window next sealed) :
      AppendOutcome registry sealer config now window w (.ok sealed) next
  | unsealed {e sealed next} {j : Journal} {s : SegmentState} {id : SegmentId}
      (takes : w.Takes registry window next sealed) (lands : w.Lands registry window j s id)
      (refused : ¬SealsAppended sealer config now window j s id) :
      AppendOutcome registry sealer config now window w (.error e) next
  | stuck {e sealed next} {id : SegmentId} {reason : SealReason} (mid : SegmentWriter τ)
      (takes : w.Takes registry window mid sealed) (publishes : mid.Publishes next id reason)
      (left : next.state.publishedPendingReset = true) :
      AppendOutcome registry sealer config now window w (.error e) next
  | sealed {sealed next} {id : SegmentId} {reason : SealReason} (mid : SegmentWriter τ)
      (takes : w.Takes registry window mid sealed) (closes : mid.Closes next id reason) :
      AppendOutcome registry sealer config now window w (.ok (sealed ++ [(id,reason)])) next

/-- The end of a call whose window has been appended to `j`. -/
theorem finishWindow_outcome {mid : SegmentWriter τ} {j journal : Journal}
    {partRef : JournalPartRef} {delta : AdmissionDelta}
    {sealed : List (SegmentId × SealReason)} {id : SegmentId}
    (happend : j.append id window.flushed.body = (.ok partRef,journal))
    (hlands : w.Lands registry window j mid.state id)
    (hfirst : mid.state.firstId = none ∨ mid.state.firstId = some id)
    (htakes : w.Takes registry window ((mid.appended journal window.origin).accounted delta id now)
      sealed) :
    AppendOutcome registry sealer config now window w
      (finishWindow sealer config now window.forced delta sealed
        (mid.appended journal window.origin)).1
      (finishWindow sealer config now window.forced delta sealed
        (mid.appended journal window.origin)).2 := by
  have hfinish : finishWindow sealer config now window.forced delta sealed
      (mid.appended journal window.origin) = sealWhenDue sealer
        (sealReason window.forced journal.bytes config.segmentMaxBytes
          ((mid.state.onWindowAppended id now).ageExpired now config.maxAge)) sealed
        ((mid.appended journal window.origin).accounted delta id now) := by
    have hage := (mid.appended journal window.origin).accounted_ageExpired delta id now
      config.maxAge
    change _ = (mid.state.onWindowAppended id now).ageExpired now config.maxAge at hage
    rw [finishWindow,← hage]
    change (match journal.segmentId with | none => _ | some activeId => _) = _
    rw [(Journal.append_accepted happend).1]
    rfl
  rw [hfinish]
  unfold sealWhenDue
  split
  · exact .kept htakes
  next reason hdue =>
  split
  · next e last hseal =>
    rcases sealOpenSegment_error hseal with ⟨rfl,hrefused⟩ | ⟨⟨id',_,hpublishes⟩,_,hleft⟩
    · refine .unsealed htakes hlands fun haccepted => ?_
      refine hrefused id (SegmentWriter.accounted_firstId hfirst delta now) ?_
      exact haccepted partRef journal happend (by rw [hdue]; simp)
    · exact .stuck _ htakes hpublishes hleft
  · next id' last hseal => exact .sealed _ htakes (sealOpenSegment_ok hseal)

/-- The window's own append on the open segment. -/
theorem SegmentWriter.takes_open {journal : Journal}
    (hallowed : w.state.publishedPendingReset = false) (delta : AdmissionDelta) (id : SegmentId)
    (now : ℕ) :
    w.Takes registry window ((w.appended journal window.origin).accounted delta id now) [] where
  allowed := hallowed
  healthy := (SegmentState.onWindowAppended_frame _ id now).1.trans hallowed
  opened := by
    rw [accounted,(SegmentState.onWindowAppended_frame _ id now).2]
    rfl
  history := rfl
  windows := .inl ⟨rfl,rfl,rfl⟩

/-- The append behind an early seal. -/
theorem SegmentWriter.Closes.takes {mid : SegmentWriter τ} {journal : Journal} {id : SegmentId}
    {reason : SealReason} (hallowed : w.state.publishedPendingReset = false)
    (h : w.Closes mid id reason) (hfirst : w.closesFirst registry window = some id)
    (delta : AdmissionDelta) (active : SegmentId) (now : ℕ) :
    w.Takes registry window ((mid.appended journal window.origin).accounted delta active now)
      [(id,reason)] where
  allowed := hallowed
  healthy := by
    refine (SegmentState.onWindowAppended_frame _ active now).1.trans ?_
    change mid.state.publishedPendingReset = false
    rw [h.state]
    rfl
  opened := by
    rw [accounted,(SegmentState.onWindowAppended_frame _ active now).2]
    rfl
  history := by
    change mid.history ++ [window.origin] = _
    rw [h.publishes.history]
  windows := .inr ⟨id,reason,hfirst,h.first,rfl,by
    change mid.windows ++ [window.origin] = [window.origin]
    rw [h.windows,List.nil_append],h.publishes.published⟩

/-- A window that is refused behind an early seal. -/
theorem SegmentWriter.Closes.lost {e : WindowError ε} {id : SegmentId} {reason : SealReason}
    (h : w.Closes next id reason) (journal : Journal) :
    AppendOutcome registry sealer config now window w (.error e) { next with journal } :=
  .lost ⟨h.publishes.published,h.publishes.history⟩ (.inr ⟨h.windows,h.state⟩)

/-- A seal in front of the append that is refused. -/
theorem earlySeal_error {reason : SealReason} {e e' : WindowError ε}
    (h : sealOpenSegment sealer reason w = (.error e,next)) :
    AppendOutcome registry sealer config now window w (.error e') next := by
  rcases sealOpenSegment_error h with ⟨rfl,_⟩ | ⟨⟨id,_,hpublishes⟩,_,hleft⟩
  · exact .refused (.refl _)
  · exact .lost hpublishes (.inl hleft)

theorem appendEmptied_outcome {journal : Journal} {id : SegmentId} {len max : ℕ}
    {delta : AdmissionDelta} (hallowed : w.state.publishedPendingReset = false)
    (hassess : w.state.admission.assess registry window.flushed.summary window.entries = .ok delta)
    (hid : w.state.firstId = some id)
    (happend : w.journal.append id window.flushed.body = (.error (.full len max),journal)) :
    AppendOutcome registry sealer config now window w
      (appendEmptied registry sealer config now window [] { w with journal }).1
      (appendEmptied registry sealer config now window [] { w with journal }).2 := by
  have hpre := Journal.append_full happend
  obtain rfl : w.journal = journal :=
    (Prod.mk.inj ((Journal.append_refused hpre).symm.trans happend)).2
  change AppendOutcome registry sealer config now window w
    (appendEmptied registry sealer config now window [] w).1
    (appendEmptied registry sealer config now window [] w).2
  rw [appendEmptied]
  split
  · exact .refused (.refl _)
  next fresh hfresh =>
  have hcloses : w.closesFirst registry window = some id := by
    rw [SegmentWriter.closesFirst,hid,Option.filter_some,hassess,hpre,hfresh]
    rfl
  split
  · next hseal => exact earlySeal_error hseal
  · next first mid hseal =>
    have hsealed := sealOpenSegment_ok hseal
    obtain rfl := Option.some.inj (hid.symm.trans hsealed.first)
    obtain ⟨nextGeneration,hreset⟩ := hsealed.reset
    split
    · exact hsealed.lost mid.journal
    next segmentId hrange =>
    split
    · next journal _ => exact hsealed.lost journal
    · next partRef journal happended =>
      refine finishWindow_outcome happended ?_ (.inl ?_) (hsealed.takes hallowed hcloses _ _ _)
      · rw [hsealed.state]
        exact .emptied hcloses hreset hrange
      · rw [hsealed.state]
        rfl

/-- What the admission of a window leaves: the open segment, or the emptied journal. -/
theorem prepareWindowAdmission_ok {delta : AdmissionDelta}
    {sealed : List (SegmentId × SealReason)}
    (h : prepareWindowAdmission registry sealer window w = (.ok (delta,sealed),next)) :
    (sealed = [] ∧ next = w ∧
      w.state.admission.assess registry window.flushed.summary window.entries = .ok delta) ∨
    ∃ id reason, sealed = [(id,reason)] ∧ w.Closes next id reason ∧
      w.closesFirst registry window = some id := by
  rw [prepareWindowAdmission] at h
  split at h
  · next hassess =>
    obtain ⟨hok,rfl⟩ := Prod.mk.inj h
    obtain ⟨rfl,rfl⟩ := Prod.mk.inj (Except.ok.inj hok)
    exact .inl ⟨rfl,rfl,hassess⟩
  · next hassess =>
    split_ifs at h with hcapacity
    · split at h
      · cases h
      next hfresh =>
      split at h
      · cases h
      · next id mid hseal =>
        obtain ⟨hok,rfl⟩ := Prod.mk.inj h
        have hcloses := sealOpenSegment_ok hseal
        refine .inr ⟨id,.formatLimit,(Prod.mk.inj (Except.ok.inj hok)).2.symm,hcloses,?_⟩
        rw [SegmentWriter.closesFirst,hcloses.first,Option.filter_some,hassess,hfresh]
        exact if_pos (by dsimp only; rw [(Bool.and_eq_true_iff.mp hcapacity).1]; rfl)
    · cases h

theorem prepareWindowAdmission_error {e : WindowError ε}
    (h : prepareWindowAdmission registry sealer window w = (.error e,next)) :
    AppendOutcome registry sealer config now window w (.error e) next := by
  rw [prepareWindowAdmission] at h
  split at h
  · cases h
  · split_ifs at h
    · split at h
      · rw [← (Prod.mk.inj h).2]
        exact .refused (.refl _)
      · split at h
        · next hseal =>
          obtain ⟨_,rfl⟩ := Prod.mk.inj h
          exact earlySeal_error hseal
        · cases h
    · rw [← (Prod.mk.inj h).2]
      exact .refused (.refl _)

/-- Every call has one of the outcomes. -/
theorem appendWindowAndMaybeSeal_outcome (registry : Registry)
    (sealer : Journal → SegmentId → Except ε Unit) (config : SegmentConfig) (now : ℕ)
    (window : Window τ) (w : SegmentWriter τ) :
    AppendOutcome registry sealer config now window w
      (appendWindowAndMaybeSeal registry sealer config now window w).1
      (appendWindowAndMaybeSeal registry sealer config now window w).2 := by
  rw [appendWindowAndMaybeSeal]
  by_cases hpending : w.state.publishedPendingReset = true
  · rw [if_pos hpending]
    exact .refused (.refl _)
  rw [if_neg hpending]
  rw [Bool.not_eq_true] at hpending
  split
  · next hprepare => exact prepareWindowAdmission_error hprepare
  next delta sealed mid hprepare =>
  rw [appendPrepared]
  rcases prepareWindowAdmission_ok hprepare with ⟨rfl,rfl,hassess⟩ | ⟨id,reason,rfl,hcloses,hfirst⟩
  · split
    · exact .refused (.refl _)
    next segmentId hwindow =>
    split
    · next journal happend =>
      exact finishWindow_outcome happend (.open hassess hwindow)
        (SegmentState.windowId_ok hwindow) (SegmentWriter.takes_open hpending _ _ _)
    · next len max journal happend =>
      split
      · next hopen =>
        have hid := (SegmentState.windowId_ok hwindow).resolve_left
          (Option.isSome_iff_ne_none.mp hopen)
        exact appendEmptied_outcome hpending hassess hid happend
      · exact .refused ⟨rfl,rfl,rfl,rfl⟩
    · exact .refused ⟨rfl,rfl,rfl,rfl⟩
  · obtain ⟨nextGeneration,hreset⟩ := hcloses.reset
    split
    · exact hcloses.lost mid.journal
    next segmentId hwindow =>
    rw [hcloses.state] at hwindow
    split
    · next journal happend =>
      refine finishWindow_outcome happend ?_ (.inl ?_) (hcloses.takes hpending hfirst _ _ _)
      · rw [hcloses.state]
        exact .emptied hfirst hreset hwindow
      · rw [hcloses.state]
        rfl
    · next len max journal happend =>
      rw [if_neg (by rw [hcloses.state]; simp [SegmentState.default])]
      exact hcloses.lost journal
    · next journal _ _ => exact hcloses.lost journal

end Outcomes

end PgKronika
