import PgKronika.StreamingScan

/-! The two frame scanners side by side: where the strict one stops, and which
damage the two of them name there. -/
namespace PgKronika

open ByteCodec CheckedArith StateLogic

/-- The parts listed before the first damage. -/
def ScanReport.partsBeforeDamage (report : ScanReport) : List PartRef :=
  match report.damages with
  | [] => report.parts
  | d::_ => report.parts.takeWhile fun p => p.offset < d.fromOffset

/-- A strict report says what an in-memory report says up to its first damage. -/
def StrictAgrees (report strict : ScanReport) : Prop :=
  match report.damages with
  | [] => strict = report
  | d::_ =>
    strict.parts = report.partsBeforeDamage ∧ strict.validLen = partsEnd 0 strict.parts ∧
      ∃ kind, strict.damages = [⟨d.fromOffset,kind⟩] ∧
        ((∀ resumedAt, d.kind ≠ .middle resumedAt) → kind = d.kind)

/-- Valid frames, then an oversized frame that ends with the source, then nothing
to resume at. -/
def OversizedTail (bytes : Bytes) (limits : JournalLimits) : Prop :=
  ∃ parts stop, FrameRun bytes limits 0 parts stop ∧
    OversizedFrame bytes limits stop bytes.length ∧
    ∀ later n, stop < later → ¬ ValidFrame bytes limits later n

theorem FrameRun.partsBeforeDamage_eq {bytes : Bytes} {limits : JournalLimits} {stop : ℕ}
    {parts ps : List PartRef} {report : ScanReport} {d : DamageRegion} {ds : List DamageRegion}
    (h : FrameRun bytes limits 0 parts stop) (hparts : report.parts = parts ++ ps)
    (hdamages : report.damages = d::ds) (hd : d.fromOffset = stop)
    (hps : ∀ p ∈ ps, stop < p.offset) : report.partsBeforeDamage = parts := by
  unfold ScanReport.partsBeforeDamage
  rw [hdamages]
  dsimp only
  rw [hparts,hd,List.takeWhile_append_of_pos (fun p hp => by simpa using h.offset_lt hp)]
  cases ps with
  | nil => simp
  | cons p ps =>
    have hp := hps p (by simp)
    rw [List.takeWhile_cons_of_neg (by simpa using hp.le),List.append_nil]

/-- The two classifications of one damaged frame differ exactly when an oversized
frame ends with the source and nothing valid follows. -/
theorem strictKind_eq_iff {bytes : Bytes} {limits : JournalLimits} {stop : ℕ}
    (hb : bytes.length ≤ u64Max) (hnot : ∀ n, ¬ ValidFrame bytes limits stop n) :
    ((∀ resumedAt, firstDamageKind bytes limits stop ≠ .middle resumedAt) →
      strictKind bytes.length (streamingFrame bytes stop limits).toCheck =
        firstDamageKind bytes limits stop) ↔
    ¬ (OversizedFrame bytes limits stop bytes.length ∧
      ∀ later n, stop < later → ¬ ValidFrame bytes limits later n) := by
  rcases toCheck_streamingFrame hb stop limits with ⟨e,hover,hf,hs⟩ | ⟨hno,hs⟩
  · have hnone := @resync_none_iff bytes limits stop none (by simp)
    have hend : OversizedFrame bytes limits stop bytes.length ↔ e = bytes.length := by
      constructor
      · intro h
        obtain ⟨⟨x,hx,_,he⟩,_⟩ := h
        obtain ⟨⟨y,hy,_,he'⟩,_⟩ := hover
        rw [hx] at hy; cases hy
        exact he'.symm.trans he
      · rintro rfl; exact hover
    rw [hs,hend,← hnone]
    simp only [firstDamageKind,hf,strictKind]
    cases hr : resync bytes stop none limits with
    | some next => simp
    | none =>
      by_cases he : e = bytes.length <;> simp [he]
  · refine iff_of_true ?_ (fun h => hno _ h.1)
    rw [hs]
    unfold firstDamageKind
    cases hf : frameAt bytes stop limits with
    | valid n => exact absurd (frameAt_valid_iff.mp hf) (hnot n)
    | torn => exact fun _ => rfl
    | damaged impliedEnd =>
      dsimp only [strictKind]
      cases resync bytes stop impliedEnd limits with
      | some next => exact fun h => absurd rfl (h next)
      | none => exact fun _ => rfl

/-- The strict streaming scan agrees with the in-memory scan up to the first
damage, but for an oversized frame that fills the rest of the source. -/
theorem strict_scan_agrees_iff {bytes : Bytes} {limits : JournalLimits} {maxParts : ℕ}
    (hb : bytes.length < 2^64)
    (hmax : (scanJournal bytes limits).partsBeforeDamage.length ≤ maxParts) :
    (∃ strict, scanJournalStreamingStrictFrom 0 limits maxParts bytes = .ok (strict,bytes) ∧
      StrictAgrees (scanJournal bytes limits) strict) ↔ ¬ OversizedTail bytes limits := by
  have hb' : bytes.length ≤ u64Max := by rw [u64Max]; omega
  obtain ⟨parts,stop,hrun,hnot⟩ := FrameRun.exists_maximal bytes limits 0
  have htail : OversizedTail bytes limits ↔ OversizedFrame bytes limits stop bytes.length ∧
      ∀ later n, stop < later → ¬ ValidFrame bytes limits later n := by
    constructor
    · rintro ⟨parts',stop',hrun',hover,hlater⟩
      obtain ⟨_,rfl⟩ := hrun.maximal_unique hnot hrun' (fun n => hover.not_valid)
      exact ⟨hover,hlater⟩
    · rintro ⟨hover,hlater⟩
      exact ⟨parts,stop,hrun,hover,hlater⟩
  rw [htail]
  rcases Nat.lt_or_ge stop bytes.length with hlt | hge
  · obtain ⟨ps,ds,hparts,hdamages,hps⟩ := scanJournal_damaged hrun hlt hnot
    have hbefore := hrun.partsBeforeDamage_eq hparts hdamages rfl hps
    rw [hbefore] at hmax
    have hstrict := scanStrict_of_maximal (readsAs_bytes bytes) hb'
      (show (0 : UInt64).toNat ≤ bytes.length from Nat.zero_le _) hrun hnot hmax
    rw [if_neg (by omega)] at hstrict
    rw [← strictKind_eq_iff hb' hnot]
    unfold StrictAgrees
    rw [hstrict,hdamages]
    dsimp only
    rw [hbefore]
    constructor
    · rintro ⟨strict,he,_,_,kind,hk,himp⟩ hmid
      cases he
      cases hk
      exact himp hmid
    · intro h
      exact ⟨_,rfl,rfl,hrun.partsEnd_eq.symm,_,rfl,h⟩
  · have hclean := scanJournal_clean hrun hge
    rw [hclean] at hmax
    have hstop := hrun.stop_le (Nat.zero_le _)
    have he : stop = bytes.length := by omega
    subst he
    have hstrict := scanStrict_clean (readsAs_bytes bytes) hb' _ _
      (show (0 : UInt64).toNat ≤ bytes.length from Nat.zero_le _) hrun hmax
    refine iff_of_true ⟨_,hstrict,?_⟩ ?_
    · rw [hclean]; rfl
    · rintro ⟨⟨⟨header,_,_,he⟩,_⟩,_⟩
      have hfh : frameHeaderLen = 16 := rfl
      omega

/-- A header that claims four bytes, the four bytes, and a limit of three. -/
def oversizedSample : Bytes := FrameHeader.encode ⟨4⟩ ++ [0,0,0,0]

theorem strict_scan_agrees_iff_sample :
    (∃ strict, scanJournalStreamingStrictFrom 0 ⟨3⟩ 1 oversizedSample =
        .ok (strict,oversizedSample) ∧ StrictAgrees (scanJournal oversizedSample ⟨3⟩) strict) ↔
      ¬ OversizedTail oversizedSample ⟨3⟩ :=
  strict_scan_agrees_iff (by decide) (by decide +kernel)

/-- The in-memory scanner calls the sample quarantined, the strict one torn. -/
theorem strict_scan_disagrees_sample :
    oversizedSample.length < 2^64 ∧
      (scanJournal oversizedSample ⟨3⟩).partsBeforeDamage.length ≤ 1 ∧
      ¬ ∃ strict, scanJournalStreamingStrictFrom 0 ⟨3⟩ 1 oversizedSample =
          .ok (strict,oversizedSample) ∧
        StrictAgrees (scanJournal oversizedSample ⟨3⟩) strict := by
  have hmemory : scanJournal oversizedSample ⟨3⟩ = ⟨[],[⟨0,.quarantinedTail⟩],0⟩ := by
    decide +kernel
  have hstrict : scanJournalStreamingStrictFrom 0 ⟨3⟩ 1 oversizedSample =
      .ok (⟨[],[⟨0,.tornTail⟩],0⟩,oversizedSample) := by decide +kernel
  rw [hmemory,hstrict]
  refine ⟨by decide,by decide,?_⟩
  rintro ⟨strict,hs,_,_,kind,hk,himp⟩
  cases hs
  cases hk
  have hcontra := himp (by simp)
  cases hcontra

end PgKronika
