import PgKronika.DeltaReport
import PgKronika.LiveRefresh
import PgKronika.Sha256

/-! A live builder that is fed every delta of one snapshot. It accepts them all, unless a refresh
sees a committed reset or misses that the journal has been rewritten in place. -/
namespace PgKronika

open ByteCodec CheckedArith

variable {ω υ φ β : Type}

/-- Fold completed parts in their order; the first refusal ends it. -/
def LiveBuilder.foldParts (folder : Folder υ φ β) (units : PartDescriptor → PgmUnit υ) :
    LiveBuilder φ → List PartDescriptor → Except (LiveFoldError β) Unit × LiveBuilder φ
  | b, [] => (.ok (),b)
  | b, part::parts =>
    match b.foldPart folder part (units part) with
    | (.ok _,b) => b.foldParts folder units parts
    | (.error e,b) => (.error e,b)

/-- One delta with the snapshot and the builder it came upon, and the answers to it. -/
structure Delivery (ω φ β : Type) where
  snapshot : LocalDirSnapshot ω
  builder : LiveBuilder φ
  look : DirectoryLook ω
  delta : RefreshDelta
  begun : Except (LiveFoldError β) Unit
  folded : Except (LiveFoldError β) Unit
  completed : Except (LiveFoldError β) Unit

/-- A snapshot and the builder that its deltas go to; `seen` is what the snapshot has read last. -/
structure Feed (ω φ β : Type) where
  snapshot : LocalDirSnapshot ω
  seen : Option Bytes
  builder : LiveBuilder φ
  deliveries : List (Delivery ω φ β)

section Step

variable [DecidableEq ω]

/-- One refresh; its delta is begun, its parts are folded, and it is completed. -/
def Feed.step (app : SnapshotApp) (folder : Folder υ φ β) (feed : Feed ω φ β)
    (look : DirectoryLook ω) (units : PartDescriptor → PgmUnit υ) : Feed ω φ β :=
  match feed.snapshot.refreshIncrementalDelta app look with
  | .error _ => feed
  | .ok (delta,snapshot) =>
    let begun : Except (LiveFoldError β) Unit × LiveBuilder φ := feed.builder.beginRefresh delta
    let folded := begun.2.foldParts folder units delta.journal.completedParts
    let completed : Except (LiveFoldError β) Unit × LiveBuilder φ := folded.2.completeRefresh
    { snapshot
      seen := look.counted.bind JournalLook.file
      builder := completed.2
      deliveries := feed.deliveries ++
        [⟨feed.snapshot,feed.builder,look,delta,begun.1,folded.1,completed.1⟩] }

/-- The runs of a feed in which the file identity tells the journal's versions apart, the digests
compared do not collide, and every completed part folds. -/
inductive FeedRun (app : SnapshotApp) (folder : Folder υ φ β) (start : Feed ω φ β) :
    Feed ω φ β → Prop
  | start : FeedRun app folder start start
  | step {feed : Feed ω φ β} (run : FeedRun app folder start feed) (look : DirectoryLook ω)
      (units : PartDescriptor → PgmUnit υ)
      (hallows : ∀ attempt ∈ look.counted, feed.snapshot.Admits app feed.seen attempt)
      (hfolds : ∀ d ∈ (feed.step app folder look units).deliveries, d.folded = .ok ()) :
      FeedRun app folder start (feed.step app folder look units)

end Step

/-- Neither does the attempt that counts show a committed reset, nor does it miss a rewrite. -/
def LocalDirSnapshot.Undisturbed (s : LocalDirSnapshot ω) (look : DirectoryLook ω) : Prop :=
  ∀ attempt ∈ look.counted, (∀ file ∈ attempt.file, showsCommittedReset file = false) ∧
    (s.deltaInitialized = true → ¬s.MissesRewrite attempt)

/-- The builder accepts the delta. -/
structure Delivery.Accepted (d : Delivery ω φ β) : Prop where
  begun : d.begun = .ok ()
  completed : d.delta.journal.currentPartsComplete = true → d.delta.journal.damages = [] →
    d.completed = .ok ()
  view : d.builder.refreshChangesView d.delta = true → d.delta.viewChanged = true
  generation : d.delta.journal.transition.preservesGeneration = false →
    checkedAdd d.builder.generation 1 = some d.delta.journal.generationId
  previousValidLen : d.delta.journal.bootstrap = false →
    d.delta.journal.transition.preservesGeneration = true →
    d.delta.journal.previousValidLen = d.builder.foldedThroughOffset

section Descriptors

variable {app : SnapshotApp} {generation : ℕ}

theorem validateDescriptors_chain {parts : List ActivePart} {pos stop : ℕ}
    (h : PartChain pos (parts.map ActivePart.part) stop) (hstop : stop+frameHeaderLen ≤ u64Max)
    {seen : Finset PartId} (hseen : ∀ id ∈ seen, id.frameOffset < pos+frameHeaderLen)
    (lastEnd : ℕ) :
    (validateDescriptors generation (pos+frameHeaderLen) seen lastEnd
        (parts.map (partDescriptor app generation)) : Except (LiveFoldError β) ℕ) =
      .ok (if parts = [] then lastEnd else stop) := by
  induction parts generalizing pos seen lastEnd with
  | nil => rfl
  | cons part parts ih =>
    obtain ⟨hoffset,hpos,hrest⟩ := h
    have hle := hrest.le
    have hfh : frameHeaderLen = 16 := rfl
    have hsame : (partDescriptor app generation part).partId.generation = generation := rfl
    rw [List.map_cons,validateDescriptors,if_neg (not_not.mpr hsame),if_neg ?_]
    · have hpart : checkedAdd part.part.offset part.part.len =
          some (part.part.offset+part.part.len) := checkedAdd_of_le (by omega)
      have hsum : checkedAdd (partDescriptor app generation part).partId.frameOffset
          (partDescriptor app generation part).partId.bodyLen =
            some (part.part.offset+part.part.len) := hpart
      rw [hsum]
      dsimp only
      rw [checkedAdd_of_le (by omega)]
      dsimp only
      rw [ih hrest ?_ _,if_neg (List.cons_ne_nil _ _)]
      · split
        · next hnil =>
          rw [hnil] at hrest
          exact congrArg Except.ok hrest
        · rfl
      · intro id hid
        rcases Finset.mem_insert.mp hid with rfl | hid
        · change part.part.offset < _
          omega
        · have hlt := hseen id hid
          omega
    · rintro (hmem | hne)
      · have hlt := hseen _ hmem
        change part.part.offset < _ at hlt
        omega
      · exact hne hoffset

/-- The descriptors of a whole journal are in sequence. -/
theorem validateDescriptorSequence_whole {parts : List ActivePart} {validLen : ℕ}
    (h : WholeJournal (parts.map ActivePart.part) validLen) (hbound : validLen ≤ maxJournalLen) :
    (validateDescriptorSequence (parts.map (partDescriptor app generation)) generation validLen :
      Except (LiveFoldError β) Unit) = .ok () := by
  have hmax : maxJournalLen = 2^30 := rfl
  have hfh : frameHeaderLen = 16 := rfl
  rw [validateDescriptorSequence]
  rcases h with ⟨hnil,hlen⟩ | ⟨hne,hchain⟩
  · rw [List.map_eq_nil_iff.mp hnil,List.map_nil,if_pos rfl,if_pos hlen]
  · have hparts : parts ≠ [] := fun hnil => hne (by rw [hnil]; rfl)
    rw [if_neg (by simpa using hparts),validateDescriptors_chain hchain
      (by rw [u64Max]; omega) (by simp),if_neg hparts]
    exact if_neg (not_not.mpr rfl)

theorem WholeJournal.nodup {parts : List ActivePart} {validLen : ℕ}
    (h : WholeJournal (parts.map ActivePart.part) validLen) :
    (parts.map (partDescriptor app generation)).Nodup := by
  rcases h with ⟨hnil,-⟩ | ⟨-,hchain⟩
  · rw [List.map_eq_nil_iff.mp hnil]
    exact .nil
  · rw [List.Nodup,List.pairwise_map]
    refine (List.pairwise_map.mp hchain.pairwise).imp fun hlt hsame => ?_
    have hoffset := congrArg (fun d : PartDescriptor => d.partId.frameOffset) hsame
    exact absurd hoffset hlt.ne

/-- Where a list of parts has been folded through. -/
def foldedThrough (start : ℕ) (parts : List PartDescriptor) : ℕ :=
  parts.foldl (fun offset part => max offset (part.partId.frameOffset+part.partId.bodyLen)) start

theorem foldedThrough_chain {parts : List ActivePart} {start pos stop : ℕ}
    (h : PartChain pos (parts.map ActivePart.part) stop) (hstart : start ≤ stop) :
    foldedThrough start (parts.map (partDescriptor app generation)) =
      if parts = [] then start else stop := by
  induction parts generalizing start pos with
  | nil => rfl
  | cons part parts ih =>
    obtain ⟨-,-,hrest⟩ := h
    have hle := hrest.le
    have hstep : foldedThrough start ((part::parts).map (partDescriptor app generation)) =
        foldedThrough (max start (part.part.offset+part.part.len))
          (parts.map (partDescriptor app generation)) := rfl
    rw [hstep,ih hrest (max_le hstart hle),if_neg (List.cons_ne_nil _ _)]
    split
    · next hnil =>
      rw [hnil] at hrest
      have hsame : part.part.offset+part.part.len = stop := hrest
      rw [hsame]
      exact max_eq_right hstart
    · rfl

/-- The ends of two whole journals with the same parts count as the same. -/
theorem WholeJournal.equivalent {parts : List ActivePart} {current folded : ℕ}
    (h : WholeJournal (parts.map ActivePart.part) current)
    (h' : WholeJournal (parts.map ActivePart.part) folded) :
    equivalentEmptyJournalOffsets (parts.map (partDescriptor app generation))
      (parts.map (partDescriptor app generation)) current folded = true := by
  rw [equivalentEmptyJournalOffsets]
  rcases h with ⟨hnil,hlen⟩ | ⟨hne,hchain⟩
  · rcases h' with ⟨-,hlen'⟩ | ⟨hne,-⟩
    · rw [List.map_eq_nil_iff.mp hnil,List.map_nil,if_neg (by simp)]
      exact decide_eq_true ⟨hlen,hlen'⟩
    · exact absurd hnil hne
  · rcases h' with ⟨hnil,-⟩ | ⟨-,hchain'⟩
    · exact absurd hnil hne
    · have hparts : parts ≠ [] := fun hnil => hne (by rw [hnil]; rfl)
      rw [if_pos (.inl (by simpa using hparts))]
      exact decide_eq_true (hchain.unique hchain')

/-- A whole journal is folded through from its start. -/
theorem WholeJournal.foldedThrough_all {parts : List ActivePart} {validLen : ℕ}
    (h : WholeJournal (parts.map ActivePart.part) validLen) :
    foldedThrough (if parts.map (partDescriptor app generation) = [] then validLen else 0)
      (parts.map (partDescriptor app generation)) = validLen := by
  rcases h with ⟨hnil,-⟩ | ⟨hne,hchain⟩
  · rw [List.map_eq_nil_iff.mp hnil]
    rfl
  · have hparts : parts ≠ [] := fun hnil => hne (by rw [hnil]; rfl)
    rw [if_neg (by simpa using hparts),foldedThrough_chain hchain (Nat.zero_le _),if_neg hparts]

/-- A whole journal that continues another one is folded through to its end. -/
theorem WholeJournal.foldedThrough_more {previous more : List ActivePart}
    {lastValidLen validLen : ℕ}
    (hprevious : WholeJournal (previous.map ActivePart.part) lastValidLen)
    (h : WholeJournal ((previous ++ more).map ActivePart.part) validLen)
    (hne : previous ++ more ≠ []) :
    foldedThrough lastValidLen (more.map (partDescriptor app generation)) = validLen := by
  have hh : journalHeaderLen = 36 := rfl
  rcases h with ⟨hnil,-⟩ | ⟨-,hchain⟩
  · exact absurd (List.map_eq_nil_iff.mp hnil) hne
  rw [List.map_append] at hchain
  obtain ⟨mid,hbefore,hbehind⟩ := hchain.split
  have hmid := hbefore.le
  have hstop := hbehind.le
  have hstart : lastValidLen ≤ mid ∧ (more = [] → lastValidLen = validLen) := by
    rcases hprevious with ⟨hnil,hlen⟩ | ⟨-,hchain'⟩
    · refine ⟨by omega,fun hmore => absurd ?_ hne⟩
      rw [List.map_eq_nil_iff.mp hnil,hmore]
      rfl
    · obtain rfl := hchain'.unique hbefore
      refine ⟨le_rfl,fun hmore => ?_⟩
      rw [hmore] at hbehind
      exact hbehind
  rw [foldedThrough_chain hbehind (hstart.1.trans hstop)]
  split
  · next hmore => exact hstart.2 hmore
  · rfl

end Descriptors

section Builder

variable {folder : Folder υ φ β} {b b' : LiveBuilder φ} {delta : RefreshDelta}

/-- A part that is folded for the first time is pushed. -/
theorem LiveBuilder.foldPart_push {part : PartDescriptor} {unit : PgmUnit υ} {effect : FoldEffect}
    (h : b.foldPart folder part unit = (.ok effect,b')) (hnew : part ∉ b.foldedParts) :
    ∃ facts usage,
      b' = b.push part facts usage (part.partId.frameOffset+part.partId.bodyLen) := by
  rw [foldPart] at h
  split at h
  · cases (Prod.mk.inj h).1
  split at h
  · cases (Prod.mk.inj h).1
  split at h
  · cases (Prod.mk.inj h).1
  split at h
  · next existing hexisting =>
    split at h
    · next hsame =>
      split at hexisting
      · exact absurd (hsame ▸ List.mem_of_find?_eq_some hexisting) hnew
      · cases hexisting
    · cases (Prod.mk.inj h).1
  split at h
  · cases (Prod.mk.inj h).1
  split at h
  · cases (Prod.mk.inj h).1
  split at h
  · cases (Prod.mk.inj h).1
  next endOffset hend =>
  split at h
  · cases (Prod.mk.inj h).1
  split at h
  · cases (Prod.mk.inj h).1
  next facts _ =>
  split at h
  · cases (Prod.mk.inj h).1
  next usage _ =>
  split at h
  · cases (Prod.mk.inj h).1
  obtain ⟨rfl,-⟩ := checkedAdd_eq_some.mp hend
  exact ⟨facts,usage,(Prod.mk.inj h).2.symm⟩

/-- The builder is ready to fold: what of it the folding of parts leaves alone. -/
structure LiveBuilder.Waits (b : LiveBuilder φ) (delta : RefreshDelta) : Prop where
  pinned : b.baselinePinned = true
  prepared : b.rebaselinePrepared = false
  pending : b.pendingRefresh = some delta.pending
  state : b.state = .warming
  generation : b.generation = delta.journal.generationId
  tail : b.completedTailPending = none

theorem LiveBuilder.Waits.push (h : b.Waits delta) (part : PartDescriptor) (facts : SegmentFacts φ)
    (usage : LiveUsage) (endOffset : ℕ) : (b.push part facts usage endOffset).Waits delta :=
  ⟨h.pinned,h.prepared,h.pending,h.state,h.generation,h.tail⟩

/-- New parts, each of them folded: they stand behind the parts that have been folded before. -/
theorem LiveBuilder.foldParts_ok {units : PartDescriptor → PgmUnit υ} {parts : List PartDescriptor}
    (h : b.foldParts folder units parts = (.ok (),b')) (hwaits : b.Waits delta)
    (hunique : (b.foldedParts ++ parts).Nodup) :
    b'.Waits delta ∧ b'.foldedParts = b.foldedParts ++ parts ∧
      b'.foldedThroughOffset = foldedThrough b.foldedThroughOffset parts := by
  induction parts generalizing b with
  | nil =>
    cases h
    exact ⟨hwaits,(List.append_nil _).symm,rfl⟩
  | cons part parts ih =>
    rw [foldParts] at h
    split at h
    · next effect mid hfold =>
      have hnew : part ∉ b.foldedParts := fun hmem =>
        (List.nodup_append.mp hunique).2.2 part hmem part (by simp) rfl
      obtain ⟨facts,usage,rfl⟩ := foldPart_push hfold hnew
      have hunique' : (b.push part facts usage
          (part.partId.frameOffset+part.partId.bodyLen)).foldedParts ++ parts =
          b.foldedParts ++ (part::parts) := by
        rw [push,List.append_assoc]
        rfl
      obtain ⟨hwaits',hparts,hoffset⟩ := ih h (hwaits.push ..) (hunique' ▸ hunique)
      exact ⟨hwaits',hparts.trans hunique',hoffset⟩
    · cases (Prod.mk.inj h).1

/-- A refresh with every part folded completes. -/
theorem LiveBuilder.Waits.completeRefresh (h : b.Waits delta)
    (hparts : b.foldedParts = delta.journal.currentParts)
    (hoffset : b.foldedThroughOffset = delta.journal.newValidLen)
    (htail : delta.journal.tailPending = none) (hdamages : delta.journal.damages = []) :
    ∃ b' : LiveBuilder φ,
      (b.completeRefresh : Except (LiveFoldError β) Unit × LiveBuilder φ).2 = b' ∧
      b'.baselinePinned = true ∧ b'.rebaselinePrepared = false ∧ b'.pendingRefresh = none ∧
      b'.viewGeneration = delta.newViewGeneration ∧ b'.generation = delta.journal.generationId ∧
      b'.completedTailPending = none ∧
      (delta.journal.currentPartsComplete = true →
        (b.completeRefresh : Except (LiveFoldError β) Unit × LiveBuilder φ).1 = .ok () ∧
        b'.state.Available ∧ b'.foldedParts = delta.journal.currentParts ∧
        b'.foldedThroughOffset = delta.journal.newValidLen) := by
  refine ⟨_,rfl,?_⟩
  rw [LiveBuilder.completeRefresh,h.pending]
  dsimp only
  by_cases hcomplete : delta.journal.currentPartsComplete = true
  · rw [if_neg]
    · refine ⟨h.pinned,h.prepared,rfl,rfl,h.generation,htail,fun _ => ⟨rfl,?_,hparts,hoffset⟩⟩
      dsimp only
      split
      · exact .inl rfl
      · exact .inr rfl
    · rw [h.state,hparts,hoffset]
      simp [RefreshDelta.pending,hcomplete,htail,hdamages,completionDamageIsValid]
  · rw [if_pos (.inr (.inl hcomplete))]
    exact ⟨h.pinned,h.prepared,rfl,rfl,h.generation,h.tail,fun hyes => absurd hyes hcomplete⟩

/-- What the builder's own checks of a baseline, a sequence and a transition lead to. -/
theorem LiveBuilder.beginRefresh_eq {bootstrap : Bool} {baseline accepted : LiveBuilder φ}
    (hbaseline : (b.prepareRefreshBaseline delta : Except (LiveFoldError β) Bool × _) =
      (.ok bootstrap,baseline))
    (hsequence : (validateDescriptorSequence delta.journal.currentParts
      delta.journal.generationId delta.journal.newValidLen : Except (LiveFoldError β) Unit) =
      .ok ())
    (haccepted : (baseline.acceptTransition bootstrap delta.journal :
      Except (LiveFoldError β) Unit × _) = (.ok (),accepted)) :
    (b.beginRefresh delta : Except (LiveFoldError β) Unit × LiveBuilder φ) =
      (.ok (),{ accepted with
        foldedThroughOffset :=
          if delta.journal.currentParts = [] then delta.journal.newValidLen
          else accepted.foldedThroughOffset
        rebaselinePrepared := false
        pendingRefresh := some delta.pending
        state := .warming }) := by
  rw [beginRefresh,hbaseline]
  dsimp only
  rw [hsequence]
  dsimp only
  rw [haccepted]
  rfl

theorem validateViewGeneration_ok {previous new : ℕ} {changed : Bool}
    (h : if changed then checkedAdd previous 1 = some new else new = previous) :
    (validateViewGeneration previous new changed : Except (LiveFoldError β) Unit) = .ok () := by
  rw [validateViewGeneration]
  cases changed with
  | false =>
    have hsame : new = previous := h
    rw [if_pos Bool.false_ne_true,if_pos hsame]
  | true =>
    have hnext : checkedAdd previous 1 = some new := h
    rw [if_neg (by simp),hnext]
    exact if_pos rfl

/-- The first refresh of a builder. -/
structure LiveBuilder.Fresh (b : LiveBuilder φ) : Prop where
  pinned : b.baselinePinned = false
  pending : b.pendingRefresh = none
  generation : b.generation = 0
  parts : b.foldedParts = []
  offset : b.foldedThroughOffset = 0
  tail : b.completedTailPending = none

theorem LiveBuilder.new_fresh {bounds : Bounds} (h : LiveBuilder.new bounds = some b) :
    b.Fresh := by
  rw [new] at h
  split at h
  · cases h
  cases h
  exact ⟨rfl,rfl,rfl,rfl,rfl,rfl⟩

end Builder

section Link

variable {app : SnapshotApp} {s s' : LocalDirSnapshot ω} {b : LiveBuilder φ}
  {delta : RefreshDelta}

/-- A builder that has taken every delta of a snapshot. -/
structure LiveBuilder.Tracks (b : LiveBuilder φ) (app : SnapshotApp) (s : LocalDirSnapshot ω) :
    Prop where
  pinned : b.baselinePinned = true
  prepared : b.rebaselinePrepared = false
  pending : b.pendingRefresh = none
  view : b.viewGeneration = s.viewGeneration
  generation : b.generation = s.journalGeneration
  tail : b.completedTailPending = none
  settled : s.journalDescriptorsComplete = true → b.state.Available ∧
    b.foldedParts = partDescriptors app s.scan s.journalGeneration ∧
    b.foldedThroughOffset = s.lastValidLen

/-- The delta has been begun, and folding what it completes leads to its end. -/
structure LiveBuilder.Began (b : LiveBuilder φ) (delta : RefreshDelta) : Prop where
  waits : b.Waits delta
  parts : b.foldedParts ++ delta.journal.completedParts = delta.journal.currentParts
  offset : foldedThrough b.foldedThroughOffset delta.journal.completedParts =
    delta.journal.newValidLen

/-- The first delta of a snapshot. -/
theorem LiveBuilder.Fresh.begin (h : b.Fresh) (hreports : delta.Reports app s s')
    (hboot : s.deltaInitialized = false)
    (hwhole : WholeJournal (s'.scan.active.parts.map ActivePart.part) s'.lastValidLen)
    (hbound : s'.lastValidLen ≤ maxJournalLen) :
    (b.beginRefresh delta : Except (LiveFoldError β) Unit × LiveBuilder φ).1 = .ok () ∧
      (b.beginRefresh delta : Except (LiveFoldError β) Unit × LiveBuilder φ).2.Began delta := by
  have hbootstrap : delta.journal.bootstrap = true := by
    rw [hreports.bootstrap,hboot]
    rfl
  have hcompleted := hreports.relists (.inl hbootstrap)
  have hview := hreports.viewStep
  rw [← hreports.previousView,← hreports.newView] at hview
  have hbaseline : (b.prepareRefreshBaseline delta : Except (LiveFoldError β) Bool × _) =
      (.ok true,{ b.clearFolded delta.journal.generationId with
        viewGeneration := delta.previousViewGeneration
        baselinePinned := true }) := by
    rw [prepareRefreshBaseline,h.pending,if_neg (by simp)]
    dsimp only
    rw [hbootstrap,h.pinned,if_neg (by simp),if_neg (by simp),if_neg (by simp),if_neg (by simp),
      validateViewGeneration_ok hview]
    rfl
  have hsequence : (validateDescriptorSequence delta.journal.currentParts
      delta.journal.generationId delta.journal.newValidLen : Except (LiveFoldError β) Unit) =
      .ok () := by
    rw [hreports.currentParts,hreports.generation,hreports.newValidLen]
    exact validateDescriptorSequence_whole hwhole hbound
  rw [beginRefresh_eq hbaseline hsequence
    (by rw [acceptTransition,if_pos rfl,if_neg (not_not.mpr hcompleted)])]
  refine ⟨rfl,⟨rfl,rfl,rfl,rfl,rfl,rfl⟩,?_,?_⟩
  · exact hcompleted
  · rw [hcompleted,hreports.currentParts,hreports.newValidLen]
    exact hwhole.foldedThrough_all

/-- A later delta: the journal goes on in its generation, or a new generation begins. -/
theorem LiveBuilder.Tracks.begin (h : b.Tracks app s) (hreports : delta.Reports app s s')
    (hinitialized : s.deltaInitialized = true)
    (hview : b.refreshChangesView delta = true → delta.viewChanged = true)
    (hwhole : WholeJournal (s'.scan.active.parts.map ActivePart.part) s'.lastValidLen)
    (hbound : s'.lastValidLen ≤ maxJournalLen)
    (hlast : WholeJournal (s.scan.active.parts.map ActivePart.part) s.lastValidLen)
    (hcontinues : delta.journal.transition.preservesGeneration = true →
      s.journalDescriptorsComplete = true ∧ ∃ more,
        s'.scan.active.parts = s.scan.active.parts ++ more ∧
        delta.journal.completedParts = more.map (partDescriptor app s'.journalGeneration)) :
    (b.beginRefresh delta : Except (LiveFoldError β) Unit × LiveBuilder φ).1 = .ok () ∧
      (b.beginRefresh delta : Except (LiveFoldError β) Unit × LiveBuilder φ).2.Began delta := by
  have hbootstrap : delta.journal.bootstrap = false := by
    rw [hreports.bootstrap,hinitialized]
    rfl
  have hviewStep := hreports.viewStep
  rw [← hreports.previousView,← hreports.newView] at hviewStep
  have hbaseline : (b.prepareRefreshBaseline delta : Except (LiveFoldError β) Bool × _) =
      (.ok false,b) := by
    rw [prepareRefreshBaseline,h.pending,if_neg (by simp)]
    dsimp only
    rw [hbootstrap,h.pinned,if_neg (by simp),if_neg (by simp),
      if_neg (by simp [hreports.previousView,h.view]),if_neg (by simpa using hview),
      validateViewGeneration_ok hviewStep]
    rfl
  have hsequence : (validateDescriptorSequence delta.journal.currentParts
      delta.journal.generationId delta.journal.newValidLen : Except (LiveFoldError β) Unit) =
      .ok () := by
    rw [hreports.currentParts,hreports.generation,hreports.newValidLen]
    exact validateDescriptorSequence_whole hwhole hbound
  have hgeneration := hreports.generationStep
  by_cases hpreserves : delta.journal.transition.preservesGeneration = true
  · rw [if_pos hpreserves] at hgeneration
    obtain ⟨hcomplete,more,hparts,hcompleted⟩ := hcontinues hpreserves
    obtain ⟨havailable,hfolded,hoffset⟩ := h.settled hcomplete
    have hcurrent : delta.journal.currentParts = b.foldedParts ++ delta.journal.completedParts := by
      rw [hreports.currentParts,hcompleted,hfolded,partDescriptors,partDescriptors,hparts,
        List.map_append,hgeneration]
    have haccepted : (b.acceptTransition false delta.journal :
        Except (LiveFoldError β) Unit × _) = (.ok (),b) := by
      rw [acceptTransition,if_neg Bool.false_ne_true,h.prepared,if_neg Bool.false_ne_true,
        if_pos hpreserves,if_neg,if_neg,if_neg]
      · rintro ⟨-,hne | hne | hne⟩
        · exact hne (hreports.previousValidLen.trans hoffset.symm)
        · rw [hcurrent] at hne
          simp at hne
        · rw [hcurrent,List.drop_left] at hne
          exact hne rfl
      · rw [not_not,hreports.generation,hgeneration,h.generation]
      · rintro (hstate | hstate) <;> rcases havailable with hstate' | hstate' <;>
          cases hstate.symm.trans hstate'
    rw [beginRefresh_eq hbaseline hsequence haccepted]
    refine ⟨rfl,⟨h.pinned,rfl,rfl,rfl,?_,h.tail⟩,hcurrent.symm,?_⟩
    · dsimp only
      rw [h.generation,hreports.generation,hgeneration]
    · dsimp only
      rw [hcompleted,hreports.newValidLen]
      by_cases hnil : delta.journal.currentParts = []
      · have hmore : more = [] := by
          rw [hcurrent,hcompleted] at hnil
          exact List.map_eq_nil_iff.mp (List.append_eq_nil_iff.mp hnil).2
        rw [if_pos hnil,hmore]
        rfl
      · rw [if_neg hnil,hoffset]
        refine hlast.foldedThrough_more (hparts ▸ hwhole) fun hnone => hnil ?_
        rw [hreports.currentParts,partDescriptors,hparts,hnone]
        rfl
  · have hbroken := Bool.not_eq_true _ ▸ hpreserves
    rw [if_neg hpreserves] at hgeneration
    have hcompleted := hreports.relists (.inr hbroken)
    have haccepted : (b.acceptTransition false delta.journal :
        Except (LiveFoldError β) Unit × _) =
        (.ok (),b.clearFolded delta.journal.generationId) := by
      rw [acceptTransition,if_neg Bool.false_ne_true,h.prepared,if_neg Bool.false_ne_true,
        if_neg hpreserves,h.generation,hgeneration]
      dsimp only
      rw [if_neg (not_not.mpr hreports.generation),if_neg fun hboth => hboth.2 hcompleted]
    rw [beginRefresh_eq hbaseline hsequence haccepted]
    refine ⟨rfl,⟨h.pinned,rfl,rfl,rfl,rfl,rfl⟩,hcompleted,?_⟩
    rw [hcompleted,hreports.currentParts,hreports.newValidLen]
    exact hwhole.foldedThrough_all

/-- A delta that reports no change shows the builder none. -/
theorem LiveBuilder.refreshChangesView_quiet (hreports : delta.Reports app s s')
    (hquiet : delta.viewChanged = false) (htail : b.completedTailPending = none)
    (hfolded : delta.journal.currentParts = b.foldedParts)
    (hoffset : equivalentEmptyJournalOffsets delta.journal.currentParts b.foldedParts
      delta.journal.newValidLen b.foldedThroughOffset = true) :
    b.refreshChangesView delta = false := by
  obtain ⟨hadded,hremoved,hcompleted,hpreserves⟩ := hreports.quiet hquiet
  apply decide_eq_false
  rw [hreports.tailPending,htail,hoffset,hadded,hremoved,hcompleted,hpreserves]
  simpa using hfolded

theorem LiveBuilder.Tracks.viewChanged (h : b.Tracks app s) (hreports : delta.Reports app s s')
    (hwhole : WholeJournal (s'.scan.active.parts.map ActivePart.part) s'.lastValidLen)
    (hlast : WholeJournal (s.scan.active.parts.map ActivePart.part) s.lastValidLen)
    (hcontinues : delta.journal.transition.preservesGeneration = true →
      s.journalDescriptorsComplete = true ∧ ∃ more,
        s'.scan.active.parts = s.scan.active.parts ++ more ∧
        delta.journal.completedParts = more.map (partDescriptor app s'.journalGeneration))
    (hchanges : b.refreshChangesView delta = true) : delta.viewChanged = true := by
  by_contra hquiet
  rw [Bool.not_eq_true] at hquiet
  obtain ⟨-,-,hcompleted,hpreserves⟩ := hreports.quiet hquiet
  obtain ⟨hcomplete,more,hparts,hmore⟩ := hcontinues hpreserves
  obtain ⟨-,hfolded,hoffset⟩ := h.settled hcomplete
  have hgeneration := hreports.generationStep
  rw [if_pos hpreserves] at hgeneration
  have hnil : more = [] := List.map_eq_nil_iff.mp (hmore.symm.trans hcompleted)
  rw [hnil,List.append_nil] at hparts
  have hcurrent : delta.journal.currentParts = b.foldedParts := by
    rw [hreports.currentParts,hfolded,partDescriptors,partDescriptors,hparts,hgeneration]
  refine Bool.false_ne_true ((refreshChangesView_quiet hreports hquiet h.tail hcurrent ?_).symm.trans
    hchanges)
  rw [hcurrent,hfolded,hoffset,hreports.newValidLen]
  rw [hparts] at hwhole
  exact hwhole.equivalent hlast

theorem LiveBuilder.Fresh.viewChanged (h : b.Fresh) (hreports : delta.Reports app s s')
    (hboot : s.deltaInitialized = false)
    (hwhole : WholeJournal (s'.scan.active.parts.map ActivePart.part) s'.lastValidLen)
    (hchanges : b.refreshChangesView delta = true) : delta.viewChanged = true := by
  by_contra hquiet
  rw [Bool.not_eq_true] at hquiet
  obtain ⟨-,-,hcompleted,-⟩ := hreports.quiet hquiet
  have hcurrent : delta.journal.currentParts = [] := by
    rw [← hreports.relists (.inl (by rw [hreports.bootstrap,hboot]; rfl)),hcompleted]
  refine Bool.false_ne_true ((refreshChangesView_quiet hreports hquiet h.tail
    (hcurrent.trans h.parts.symm) ?_).symm.trans hchanges)
  have hparts : s'.scan.active.parts = [] := by
    rw [hreports.currentParts] at hcurrent
    exact List.map_eq_nil_iff.mp hcurrent
  rw [hparts] at hwhole
  rw [hcurrent,h.parts,h.offset,hreports.newValidLen]
  rcases hwhole with ⟨-,hlen⟩ | ⟨hne,-⟩
  · rw [equivalentEmptyJournalOffsets,if_neg (by simp)]
    exact decide_eq_true ⟨hlen,.inl rfl⟩
  · exact absurd rfl hne

end Link

/-- A delta that has been begun and folded completes. -/
theorem LiveBuilder.Began.finish {app : SnapshotApp} {folder : Folder υ φ β}
    {s s' : LocalDirSnapshot ω} {b : LiveBuilder φ} {delta : RefreshDelta} (h : b.Began delta)
    (hreports : delta.Reports app s s')
    (hwhole : WholeJournal (s'.scan.active.parts.map ActivePart.part) s'.lastValidLen)
    {units : PartDescriptor → PgmUnit υ}
    (hfolds : (b.foldParts folder units delta.journal.completedParts).1 = .ok ()) :
    ((b.foldParts folder units delta.journal.completedParts).2.completeRefresh :
        Except (LiveFoldError β) Unit × LiveBuilder φ).2.Tracks app s' ∧
      (delta.journal.currentPartsComplete = true →
        ((b.foldParts folder units delta.journal.completedParts).2.completeRefresh :
          Except (LiveFoldError β) Unit × LiveBuilder φ).1 = .ok ()) := by
  have hunique : (b.foldedParts ++ delta.journal.completedParts).Nodup := by
    rw [h.parts,hreports.currentParts]
    exact hwhole.nodup
  obtain ⟨hwaits,hparts,hoffset⟩ := foldParts_ok (Prod.ext hfolds rfl) h.waits hunique
  obtain ⟨b',hb',hpinned,hprepared,hpending,hview,hgeneration,htail,hcompletes⟩ :=
    hwaits.completeRefresh (β := β) (hparts.trans h.parts) (hoffset.trans h.offset)
      hreports.tailPending hreports.damages
  rw [hb']
  refine ⟨⟨hpinned,hprepared,hpending,hview.trans hreports.newView,
    hgeneration.trans hreports.generation,htail,fun hcomplete => ?_⟩,
    fun hcomplete => (hcompletes hcomplete).1⟩
  obtain ⟨-,havailable,hfolded,hthrough⟩ := hcompletes (hreports.complete.trans hcomplete)
  exact ⟨havailable,hfolded.trans hreports.currentParts,hthrough.trans hreports.newValidLen⟩

section Run

variable [DecidableEq ω] {app : SnapshotApp} {folder : Folder υ φ β} {start feed : Feed ω φ β}

/-- The builder has taken every delta, or there was none yet. -/
structure Feed.Linked (app : SnapshotApp) (feed : Feed ω φ β) : Prop where
  sound : ∃ kept, feed.snapshot.Sound app kept feed.seen
  fresh : feed.snapshot.deltaInitialized = false →
    feed.builder.Fresh ∧ feed.snapshot.journalGeneration = 0
  tracks : feed.snapshot.deltaInitialized = true →
    feed.builder.Tracks app feed.snapshot ∧ feed.snapshot.scan.committedReset = false
  accepted : ∀ d ∈ feed.deliveries, d.Accepted

theorem Feed.Linked.step (h : feed.Linked app) {look : DirectoryLook ω}
    {units : PartDescriptor → PgmUnit υ}
    (hallows : ∀ attempt ∈ look.counted, feed.snapshot.Admits app feed.seen attempt)
    (hfolds : ∀ d ∈ (feed.step app folder look units).deliveries, d.folded = .ok ())
    (hundisturbed : ∀ d ∈ (feed.step app folder look units).deliveries,
      d.snapshot.Undisturbed d.look) : (feed.step app folder look units).Linked app := by
  obtain ⟨kept,hsound⟩ := h.sound
  rw [Feed.step] at hfolds hundisturbed ⊢
  cases hr : feed.snapshot.refreshIncrementalDelta app look with
  | error e => exact h
  | ok r =>
    obtain ⟨delta,s'⟩ := r
    rw [hr] at hfolds hundisturbed
    dsimp only at hfolds hundisturbed ⊢
    obtain ⟨attempt,kept',hcounted,hsound',hreports,hcomplete,hcontinues⟩ :=
      hsound.refresh hallows hr
    obtain ⟨hshows,hmisses⟩ :=
      hundisturbed _ (List.mem_append_right _ (List.mem_singleton_self _)) attempt hcounted
    have hfolded := hfolds _ (List.mem_append_right _ (List.mem_singleton_self _))
    have huncommitted : s'.scan.committedReset = false := by
      rw [hsound'.scan.committed]
      cases hfile : attempt.file with
      | none => rfl
      | some file => exact hshows file hfile
    have hwhole := hsound'.scan.whole huncommitted
    have hbound := hsound'.scan.bounded
    have hbegin : (feed.builder.beginRefresh delta : Except (LiveFoldError β) Unit × _).1 = .ok () ∧
        (feed.builder.beginRefresh delta : Except (LiveFoldError β) Unit × _).2.Began delta ∧
        (feed.builder.refreshChangesView delta = true → delta.viewChanged = true) ∧
        (delta.journal.transition.preservesGeneration = false →
          checkedAdd feed.builder.generation 1 = some delta.journal.generationId) ∧
        (delta.journal.bootstrap = false →
          delta.journal.transition.preservesGeneration = true →
          delta.journal.previousValidLen = feed.builder.foldedThroughOffset) := by
      have hgeneration := hreports.generationStep
      rw [← hreports.generation] at hgeneration
      cases hinitialized : feed.snapshot.deltaInitialized with
      | false =>
        obtain ⟨hfresh,hzero⟩ := h.fresh hinitialized
        obtain ⟨hbegun,hbegan⟩ := hfresh.begin (β := β) hreports hinitialized hwhole hbound
        refine ⟨hbegun,hbegan,hfresh.viewChanged hreports hinitialized hwhole,
          fun hbroken => ?_,fun hboot => ?_⟩
        · rwa [if_neg (by simp [hbroken]),hzero,← hfresh.generation] at hgeneration
        · rw [hreports.bootstrap,hinitialized] at hboot
          cases hboot
      | true =>
        obtain ⟨htracks,hbefore⟩ := h.tracks hinitialized
        have hlastWhole := hsound.scan.whole hbefore
        have hmore := fun hpreserves =>
          (hcontinues hbefore huncommitted hpreserves).imp_right fun hmore =>
            hmore hinitialized (hmisses hinitialized)
        have hview := htracks.viewChanged hreports hwhole hlastWhole hmore
        obtain ⟨hbegun,hbegan⟩ := htracks.begin (β := β) hreports hinitialized hview hwhole hbound
          hlastWhole hmore
        refine ⟨hbegun,hbegan,hview,fun hbroken => ?_,fun _ hpreserves => ?_⟩
        · rwa [if_neg (by simp [hbroken]),← htracks.generation] at hgeneration
        · rw [hreports.previousValidLen,(htracks.settled (hmore hpreserves).1).2.2]
    obtain ⟨hbegun,hbegan,hview,hgeneration,hprevious⟩ := hbegin
    obtain ⟨htracks,hcompletes⟩ := hbegan.finish hreports hwhole hfolded
    refine ⟨⟨kept',?_⟩,fun hfresh => ?_,fun _ => ⟨htracks,huncommitted⟩,fun d hd => ?_⟩
    · rw [hcounted]
      exact hsound'
    · cases hreports.initialized.symm.trans hfresh
    · rcases List.mem_append.mp hd with hd | hd
      · exact h.accepted d hd
      · rw [List.mem_singleton.mp hd]
        exact ⟨hbegun,fun hcomplete _ => hcompletes hcomplete,hview,hgeneration,hprevious⟩

theorem Feed.step_deliveries (feed : Feed ω φ β) (look : DirectoryLook ω)
    (units : PartDescriptor → PgmUnit υ) {d : Delivery ω φ β} (hd : d ∈ feed.deliveries) :
    d ∈ (feed.step app folder look units).deliveries := by
  rw [Feed.step]
  split
  · exact hd
  · exact List.mem_append_left _ hd

theorem FeedRun.linked (run : FeedRun app folder start feed) (hstart : start.Linked app)
    (hundisturbed : ∀ d ∈ feed.deliveries, d.snapshot.Undisturbed d.look) : feed.Linked app := by
  induction run with
  | start => exact hstart
  | step run look units hallows hfolds ih =>
    exact (ih fun d hd => hundisturbed d (Feed.step_deliveries _ look units hd)).step hallows
      hfolds hundisturbed

/-- A builder refuses a journal that ends behind its header without any part. -/
theorem LiveBuilder.beginRefresh_refused {b : LiveBuilder φ} {delta : RefreshDelta}
    (hnil : delta.journal.currentParts = []) (hlong : journalHeaderLen < delta.journal.newValidLen) :
    (b.beginRefresh delta : Except (LiveFoldError β) Unit × LiveBuilder φ).1 ≠ .ok () := by
  intro h
  rw [beginRefresh] at h
  split at h
  · cases h
  dsimp only at h
  rw [hnil,validateDescriptorSequence,if_pos rfl,if_neg (by omega)] at h
  cases h

/-- The attempt that counts shows a committed reset. -/
def DirectoryLook.showsCommittedReset (look : DirectoryLook ω) : Prop :=
  ∃ attempt ∈ look.counted, ∃ file ∈ attempt.file, PgKronika.showsCommittedReset file = true

/-- Every committed reset that the builder was shown has been refused. -/
structure Feed.Refuses (app : SnapshotApp) (feed : Feed ω φ β) : Prop where
  sound : ∃ kept, feed.snapshot.Sound app kept feed.seen
  refused : ∀ d ∈ feed.deliveries, d.look.showsCommittedReset → d.begun ≠ .ok ()

theorem Feed.Refuses.step (h : feed.Refuses app) {look : DirectoryLook ω}
    {units : PartDescriptor → PgmUnit υ}
    (hallows : ∀ attempt ∈ look.counted, feed.snapshot.Admits app feed.seen attempt) :
    (feed.step app folder look units).Refuses app := by
  obtain ⟨kept,hsound⟩ := h.sound
  rw [Feed.step]
  cases hr : feed.snapshot.refreshIncrementalDelta app look with
  | error e => exact h
  | ok r =>
    obtain ⟨delta,s'⟩ := r
    obtain ⟨attempt,kept',hcounted,hsound',hreports,-,-⟩ := hsound.refresh hallows hr
    refine ⟨⟨kept',?_⟩,fun d hd hshows => ?_⟩
    · dsimp only
      rw [hcounted]
      exact hsound'
    rcases List.mem_append.mp hd with hd | hd
    · exact h.refused d hd hshows
    rw [List.mem_singleton.mp hd] at hshows ⊢
    obtain ⟨attempt',hcounted',file,hfile,hreset⟩ := hshows
    cases hcounted.symm.trans hcounted'
    have hcommitted : s'.scan.committedReset = true := by
      rw [hsound'.scan.committed,hfile]
      exact hreset
    have hlen : s'.lastValidLen = file.length := by
      rw [hsound'.scan.length,hfile]
      rfl
    refine LiveBuilder.beginRefresh_refused ?_ ?_
    · rw [hreports.currentParts,partDescriptors,hsound'.scan.reset hcommitted,List.map_nil]
    · rw [hreports.newValidLen,hlen]
      exact showsCommittedReset_long hreset

theorem FeedRun.refuses (run : FeedRun app folder start feed) (hstart : start.Refuses app) :
    feed.Refuses app := by
  induction run with
  | start => exact hstart
  | step run look units hallows hfolds ih => exact ih.step hallows

/-- A fresh builder for an opened directory. -/
def Feed.opened (snapshot : LocalDirSnapshot ω) (look : DirectoryLook ω) (builder : LiveBuilder φ) :
    Feed ω φ β := ⟨snapshot,look.counted.bind JournalLook.file,builder,[]⟩

theorem eq_ok_of_isSome {ε α : Type} {x : Except ε α} (h : x.toOption.isSome = true) :
    x = .ok (x.toOption.get h) := by
  cases x with
  | error e => cases h
  | ok a => rfl

theorem FeedRun.single {feed : Feed ω φ β} {look : DirectoryLook ω}
    {units : PartDescriptor → PgmUnit υ}
    (hallows : ∀ attempt ∈ look.counted, feed.snapshot.Admits app feed.seen attempt)
    (hfolds : ((feed.step app folder look units).deliveries.all fun d =>
      d.folded.toOption.isSome) = true) :
    FeedRun app folder feed (feed.step app folder look units) :=
  .step .start look units hallows fun d hd => eq_ok_of_isSome (List.all_eq_true.mp hfolds d hd)

theorem Feed.mem_step {feed : Feed ω φ β} {look : DirectoryLook ω}
    {units : PartDescriptor → PgmUnit υ} {d : Delivery ω φ β}
    (hd : d ∈ (feed.step app folder look units).deliveries) :
    d ∈ feed.deliveries ∨ d.snapshot = feed.snapshot ∧ d.look = look := by
  rw [Feed.step] at hd
  split at hd
  · exact .inl hd
  · refine (List.mem_append.mp hd).imp_right fun hd => ?_
    rw [List.mem_singleton.mp hd]
    exact ⟨rfl,rfl⟩

/-- A builder that is fed every delta of a snapshot accepts them all, while no refresh sees a
committed reset or misses a rewrite; it refuses each one that sees a committed reset. -/
theorem live_feed_accepts (folder : Folder υ φ β) {look : DirectoryLook ω} {s : LocalDirSnapshot ω}
    (hlen : ∀ attempt ∈ look.counted,
      attempt.before.map JournalIdentity.len = attempt.file.map List.length)
    (hopen : LocalDirSnapshot.openDir app look = .ok s) {bounds : Bounds} {b : LiveBuilder φ}
    (hnew : LiveBuilder.new bounds = some b)
    (run : FeedRun app folder (.opened s look b : Feed ω φ β) feed) :
    ((∀ d ∈ feed.deliveries, d.snapshot.Undisturbed d.look) →
      ∀ d ∈ feed.deliveries, d.Accepted) ∧
    ∀ d ∈ feed.deliveries, d.look.showsCommittedReset → d.begun ≠ .ok () := by
  obtain ⟨hsound,hboot,hzero⟩ := LocalDirSnapshot.openDir_sound hlen hopen
  refine ⟨fun hundisturbed => ?_,?_⟩
  · refine (run.linked ⟨hsound,fun _ => ⟨LiveBuilder.new_fresh hnew,hzero⟩,fun hinitialized => ?_,
      fun d hd => ?_⟩ hundisturbed).accepted
    · cases hboot.symm.trans hinitialized
    · cases hd
  · exact (run.refuses ⟨hsound,fun d hd => by cases hd⟩).refused

end Run

section SinglePart

/-- A directory without sealed segments and with this journal. -/
def journalLook (file : Bytes) : DirectoryLook Unit where
  journal := [⟨some ⟨1,1,file.length,0,0⟩,some file,some ⟨1,1,file.length,0,0⟩⟩]
  sealedTree := .ok ([],[])
  generationProof := .ok false

theorem journalLook_counted (file : Bytes) : (journalLook file).counted =
    some ⟨some ⟨1,1,file.length,0,0⟩,some file,some ⟨1,1,file.length,0,0⟩⟩ := by
  simp [DirectoryLook.counted,journalLook,maxConsistentScanAttempts]

theorem journalLook_length (file : Bytes) : ∀ attempt ∈ (journalLook file).counted,
    attempt.before.map JournalIdentity.len = attempt.file.map List.length := by
  rw [journalLook_counted]
  rintro attempt hattempt
  cases hattempt
  rfl

def hashedApp : SnapshotApp :=
  ⟨Sha256.sha256,fun catalog => Sha256.sha256 catalog.encode,exactGrowth⟩

def singleImage : Bytes := (repeatedPart 0).image

/-- The journal of one part behind which a reset has been committed. -/
def resetImage : Bytes := singleImage ++
  (ResetMarker.new (UInt64.ofNat singleImage.length) 0).elim [] ResetMarker.encode

theorem singleImage_opens :
    (LocalDirSnapshot.openDir hashedApp (journalLook singleImage)).toOption.isSome = true := by
  decide +kernel

def singleSnapshot : LocalDirSnapshot Unit :=
  (LocalDirSnapshot.openDir hashedApp (journalLook singleImage)).toOption.get singleImage_opens

theorem singleSnapshot_open :
    LocalDirSnapshot.openDir hashedApp (journalLook singleImage) = .ok singleSnapshot :=
  eq_ok_of_isSome singleImage_opens

/-- Folds every part to one piece of facts. -/
def singleFolder : Folder Unit Unit Unit :=
  ⟨hashedApp.catalogDigest,fun _ _ _ _ => .ok ⟨1,1,0,0,0,()⟩⟩

def singleBuilder : LiveBuilder Unit := (LiveBuilder.new Bounds.limit).get (by decide)

theorem singleBuilder_new : LiveBuilder.new Bounds.limit = some singleBuilder :=
  (Option.some_get _).symm

def singleStart : Feed Unit Unit Unit := .opened singleSnapshot (journalLook singleImage) singleBuilder

def singleUnits (_ : PartDescriptor) : PgmUnit Unit := ⟨sectionCatalog,sectionPart.length,()⟩

/-- The look finds the prefix that the snapshot has digested. -/
theorem singleSnapshot_admits {file : Bytes}
    (hunchanged : some (JournalIdentity.mk 1 1 file.length 0 0) = singleSnapshot.journalIdentity →
      file = singleImage)
    (hinput : singleSnapshot.prefixDigestState.map JournalDigestState.input =
      (journalPrefixState (some ⟨1,1,file.length,0,0⟩) (some file)
        singleSnapshot.lastValidLen).toOption.map JournalDigestState.input) :
    ∀ attempt ∈ (journalLook file).counted,
      singleStart.snapshot.Admits hashedApp singleStart.seen attempt := by
  rw [journalLook_counted,singleStart,Feed.opened,journalLook_counted]
  rintro attempt hattempt
  cases hattempt
  refine ⟨rfl,fun h => congrArg some (hunchanged h),fun kept observed hkept hobserved _ => ?_⟩
  rw [hkept,hobserved] at hinput
  exact (Option.some.inj hinput).symm

/-- A delta with one part is accepted. -/
theorem live_feed_accepts_single :
    let feed := singleStart.step hashedApp singleFolder (journalLook singleImage) singleUnits
    feed.deliveries.length = 1 ∧ ∀ d ∈ feed.deliveries, d.Accepted := by
  intro feed
  have hrun : FeedRun hashedApp singleFolder singleStart feed :=
    .single (singleSnapshot_admits (fun _ => rfl) (by decide +kernel)) (by decide +kernel)
  refine ⟨by decide +kernel,(live_feed_accepts singleFolder (journalLook_length _)
    singleSnapshot_open singleBuilder_new hrun).1 fun d hd => ?_⟩
  rcases Feed.mem_step hd with hd | ⟨hsnapshot,hlook⟩
  · cases hd
  rw [LocalDirSnapshot.Undisturbed,hsnapshot,hlook,journalLook_counted]
  rintro attempt hattempt
  cases hattempt
  refine ⟨?_,fun hinitialized => ?_⟩
  · rintro file hfile
    cases hfile
    decide +kernel
  · have huninitialized : singleStart.snapshot.deltaInitialized = false := by decide +kernel
    cases huninitialized.symm.trans hinitialized

/-- A reset that is committed behind one part is refused. -/
theorem live_feed_refuses_reset :
    ∃ (app : SnapshotApp) (folder : Folder Unit Unit Unit) (look : DirectoryLook Unit)
      (s : LocalDirSnapshot Unit) (b : LiveBuilder Unit) (feed : Feed Unit Unit Unit),
      (∀ attempt ∈ look.counted,
        attempt.before.map JournalIdentity.len = attempt.file.map List.length) ∧
      LocalDirSnapshot.openDir app look = .ok s ∧ LiveBuilder.new Bounds.limit = some b ∧
      FeedRun app folder (.opened s look b) feed ∧
      ∃ d ∈ feed.deliveries, d.look = journalLook resetImage ∧ d.begun ≠ .ok () := by
  have hunchanged : some (JournalIdentity.mk 1 1 resetImage.length 0 0) ≠
      singleSnapshot.journalIdentity := by decide +kernel
  have hrun : FeedRun hashedApp singleFolder singleStart
      (singleStart.step hashedApp singleFolder (journalLook resetImage) singleUnits) :=
    .single (singleSnapshot_admits (fun h => absurd h hunchanged) (by decide +kernel))
      (by decide +kernel)
  refine ⟨hashedApp,singleFolder,journalLook singleImage,singleSnapshot,singleBuilder,_,
    journalLook_length _,singleSnapshot_open,singleBuilder_new,hrun,?_⟩
  have hrefused : (singleStart.step hashedApp singleFolder (journalLook resetImage)
      singleUnits).deliveries.any (fun d => !d.begun.toOption.isSome) = true := by
    decide +kernel
  obtain ⟨d,hd,hbegun⟩ := List.any_eq_true.mp hrefused
  refine ⟨d,hd,?_,fun hok => ?_⟩
  · rcases Feed.mem_step hd with hd | ⟨-,hlook⟩
    · cases hd
    · exact hlook
  · rw [hok] at hbegun
    cases hbegun

end SinglePart

end PgKronika
