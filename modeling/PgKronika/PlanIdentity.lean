import PgKronika.CursorRegistry
import PgKronika.DescriptorSelection
import PgKronika.Utf8Text

/-! The identity of a plan and of its partial loads: what is hashed, and that the hashed
bytes determine the plan. -/
namespace PgKronika

open ByteCodec Utf8Text

section Encodings

variable {α : Type} {encode : α → Bytes} {width : ℕ}

/-- A count, then records of one width. -/
def countedList (encode : α → Bytes) (l : List α) : Bytes :=
  u64Le (UInt64.ofNat l.length) ++ l.flatMap encode

theorem flatMap_append_inj (hwidth : ∀ a, (encode a).length = width)
    (hinj : ∀ a b, encode a = encode b → a = b) {l l' : List α} (hlen : l.length = l'.length)
    {rest rest' : Bytes} (h : l.flatMap encode ++ rest = l'.flatMap encode ++ rest') :
    l = l' ∧ rest = rest' := by
  induction l generalizing l' with
  | nil =>
    obtain rfl := List.eq_nil_of_length_eq_zero hlen.symm
    exact ⟨rfl,h⟩
  | cons a l ih =>
    obtain _ | ⟨b,l'⟩ := l'
    · cases hlen
    rw [List.flatMap_cons,List.flatMap_cons,List.append_assoc,List.append_assoc] at h
    obtain ⟨hhead,htail⟩ := List.append_inj h ((hwidth a).trans (hwidth b).symm)
    obtain ⟨rfl,hrest⟩ := ih (Nat.succ.inj hlen) htail
    exact ⟨by rw [hinj a b hhead],hrest⟩

theorem countedList_append_inj (hwidth : ∀ a, (encode a).length = width)
    (hinj : ∀ a b, encode a = encode b → a = b) {l l' : List α} (hl : l.length < 2^64)
    (hl' : l'.length < 2^64) {rest rest' : Bytes}
    (h : countedList encode l ++ rest = countedList encode l' ++ rest') :
    l = l' ∧ rest = rest' := by
  rw [countedList,countedList,List.append_assoc,List.append_assoc] at h
  obtain ⟨hcount,hbody⟩ := List.append_inj h (by rw [u64Le_length,u64Le_length])
  have hlen := congrArg UInt64.toNat (u64Le_injective hcount)
  rw [UInt64.toNat_ofNat_of_lt' hl,UInt64.toNat_ofNat_of_lt' hl'] at hlen
  exact flatMap_append_inj hwidth hinj hlen hbody

end Encodings

def selectedFactSetDomain : Bytes := utf8 "pgk-overview-selected-fact-set-v1"

def partialFactSetDomain : Bytes := utf8 "pgk-overview-partial-fact-set-v1"

def liveStateTag : LiveState → UInt8
  | .empty => 0
  | .warming => 1
  | .current => 2
  | .needsRebuild => 3
  | .incomplete => 4

theorem liveStateTag_injective {s t : LiveState} (h : liveStateTag s = liveStateTag t) : s = t := by
  cases s <;> cases t <;> first | rfl | exact absurd h (by decide)

def SelectedSealedPlan.entries (plan : SelectedSealedPlan) : List DescriptorEntry :=
  plan.selectedIndices.pmap (fun i hi => plan.view.sealed.get ⟨i,hi⟩) plan.fits.below

theorem entries_bound (plan : SelectedSealedPlan) :
    plan.entries.length ≤ absoluteMaxSelectedSegments := by
  rw [SelectedSealedPlan.entries,List.length_pmap]
  exact Nat.lt_succ_iff.mp plan.fits.short

/-- What names an entry. -/
def DescriptorEntry.identity (entry : DescriptorEntry) : SealedLocator × FactBuildKey :=
  (entry.descriptor.locator,entry.factBuildKey)

def identityBytes (identity : SealedLocator × FactBuildKey) : Bytes :=
  identity.1.asBytes ++ (identity.2.factKey.bytes.toList ++
    identity.2.segmentLineageId.bytes.toList)

def gapBytes (gap : OmittedRange) : Bytes := i64Le gap.span.fromUs ++ i64Le gap.span.toUs

def liveBytes (live : LiveView) : Bytes :=
  u64Le live.generation ++ (u64Le live.foldedThroughOffset ++
    (u64Le live.viewGeneration ++ [liveStateTag live.state]))

/-- The bytes behind the identity of a complete load. -/
def selectedInput (plan : SelectedSealedPlan) : Bytes :=
  selectedFactSetDomain ++ (u64Le plan.view.viewGeneration ++ (i64Le plan.range.fromUs ++
    (i64Le plan.range.toUs ++ (countedList identityBytes (plan.entries.map DescriptorEntry.identity) ++
      (countedList gapBytes plan.omittedRanges ++ liveBytes plan.view.live)))))

/-- The bytes behind the identity of a load with further gaps. -/
def partialInput (factSetId : FactSetId) (gaps : List OmittedRange) : Bytes :=
  partialFactSetDomain ++ (factSetId.asBytes ++ countedList gapBytes gaps)

variable (sha256 : Bytes → Digest)

def SelectedSealedPlan.factSetId (plan : SelectedSealedPlan) : FactSetId :=
  sha256 (selectedInput plan)

def SelectedSealedPlan.factSetIdWithGaps (plan : SelectedSealedPlan) (gaps : List OmittedRange) :
    FactSetId :=
  if gaps = plan.omittedRanges then plan.factSetId sha256
  else sha256 (partialInput (plan.factSetId sha256) gaps)

variable {sha256}

theorem gapBytes_length (gap : OmittedRange) : (gapBytes gap).length = 16 := by
  rw [gapBytes,List.length_append,i64Le_length,i64Le_length]

theorem gapBytes_injective {a b : OmittedRange} (h : gapBytes a = gapBytes b) : a = b := by
  obtain ⟨hfrom,hto⟩ := List.append_inj h (by rw [i64Le_length,i64Le_length])
  obtain ⟨⟨a,a',ha⟩⟩ := a
  obtain ⟨⟨b,b',hb⟩⟩ := b
  obtain rfl := i64Le_injective hfrom
  obtain rfl := i64Le_injective hto
  rfl

theorem asBytes_length (locator : SealedLocator) : locator.asBytes.length = 8 := by
  rw [SealedLocator.asBytes,List.length_reverse,i64Le_length]

theorem identityBytes_length (identity : SealedLocator × FactBuildKey) :
    (identityBytes identity).length = 72 := by
  rw [identityBytes,List.length_append,List.length_append,asBytes_length,Vector.length_toList,
    Vector.length_toList]

theorem identityBytes_injective {a b : SealedLocator × FactBuildKey}
    (h : identityBytes a = identityBytes b) : a = b := by
  obtain ⟨hlocator,hkey⟩ := List.append_inj h (by rw [asBytes_length,asBytes_length])
  obtain ⟨hfact,hlineage⟩ := List.append_inj hkey
    (by rw [Vector.length_toList,Vector.length_toList])
  obtain ⟨⟨⟨a,ha⟩⟩,⟨⟨fact⟩,⟨lineage⟩⟩⟩ := a
  obtain ⟨⟨⟨b,hb⟩⟩,⟨⟨fact'⟩,⟨lineage'⟩⟩⟩ := b
  obtain rfl := i64Le_injective (List.reverse_injective hlocator)
  obtain rfl := Vector.toList_inj.mp hfact
  obtain rfl := Vector.toList_inj.mp hlineage
  rfl

theorem liveBytes_injective {a b : LiveView} (h : liveBytes a = liveBytes b) : a = b := by
  obtain ⟨hgen,h⟩ := List.append_inj h (by rw [u64Le_length,u64Le_length])
  obtain ⟨hfold,h⟩ := List.append_inj h (by rw [u64Le_length,u64Le_length])
  obtain ⟨hview,h⟩ := List.append_inj h (by rw [u64Le_length,u64Le_length])
  obtain ⟨a,a',a'',s⟩ := a
  obtain ⟨b,b',b'',t⟩ := b
  obtain rfl := u64Le_injective hgen
  obtain rfl := u64Le_injective hfold
  obtain rfl := u64Le_injective hview
  obtain rfl := liveStateTag_injective (List.singleton_inj.mp h)
  rfl

/-- What the hashed bytes of a plan determine. -/
structure SameIdentity (plan plan' : SelectedSealedPlan) : Prop where
  viewGeneration : plan.view.viewGeneration = plan'.view.viewGeneration
  range : plan.range = plan'.range
  entries : plan.entries.map DescriptorEntry.identity = plan'.entries.map DescriptorEntry.identity
  omittedRanges : plan.omittedRanges = plan'.omittedRanges
  live : plan.view.live = plan'.view.live

theorem selectedInput_injective {plan plan' : SelectedSealedPlan}
    (h : selectedInput plan = selectedInput plan') : SameIdentity plan plan' := by
  have hentries (p : SelectedSealedPlan) :
      (p.entries.map DescriptorEntry.identity).length < 2^64 := by
    have hbound := entries_bound p
    rw [List.length_map]
    rw [absoluteMaxSelectedSegments] at hbound
    omega
  have hgaps (p : SelectedSealedPlan) : p.omittedRanges.length < 2^64 := by
    have hbound := p.omittedBound
    rw [absoluteMaxSelectedSegments] at hbound
    omega
  have h := List.append_cancel_left h
  obtain ⟨hgen,h⟩ := List.append_inj h (by rw [u64Le_length,u64Le_length])
  obtain ⟨hfrom,h⟩ := List.append_inj h (by rw [i64Le_length,i64Le_length])
  obtain ⟨hto,h⟩ := List.append_inj h (by rw [i64Le_length,i64Le_length])
  obtain ⟨hentry,h⟩ := countedList_append_inj identityBytes_length
    (fun _ _ => identityBytes_injective) (hentries plan) (hentries plan') h
  obtain ⟨hgap,h⟩ := countedList_append_inj gapBytes_length (fun _ _ => gapBytes_injective)
    (hgaps plan) (hgaps plan') h
  refine ⟨u64Le_injective hgen,?_,hentry,hgap,liveBytes_injective h⟩
  have hspan : gapBytes ⟨plan.range⟩ = gapBytes ⟨plan'.range⟩ := by
    rw [gapBytes,gapBytes,hfrom,hto]
  exact congrArg OmittedRange.span (gapBytes_injective hspan)

theorem partialInput_injective {id id' : FactSetId} {gaps gaps' : List OmittedRange}
    (hgaps : gaps.length < 2^64) (hgaps' : gaps'.length < 2^64)
    (h : partialInput id gaps = partialInput id' gaps') : id = id' ∧ gaps = gaps' := by
  have h := List.append_cancel_left h
  obtain ⟨hid,h⟩ := List.append_inj h (by rw [Digest.asBytes_length,Digest.asBytes_length])
  have hcounted : countedList gapBytes gaps ++ [] = countedList gapBytes gaps' ++ [] := by
    rw [h]
  exact ⟨Digest.asBytes_injective hid,(countedList_append_inj gapBytes_length (fun _ _ => gapBytes_injective)
    hgaps hgaps' hcounted).1⟩

/-- The two domains keep the two kinds of identity apart. -/
theorem selectedInput_ne_partialInput (plan : SelectedSealedPlan) (id : FactSetId)
    (gaps : List OmittedRange) : selectedInput plan ≠ partialInput id gaps := by
  have hdomain : selectedFactSetDomain.take 14 ≠ partialFactSetDomain.take 14 := by decide
  have hleft : 14 ≤ selectedFactSetDomain.length := by decide
  have hright : 14 ≤ partialFactSetDomain.length := by decide
  intro h
  have htake := congrArg (List.take 14) h
  rw [selectedInput,partialInput,List.take_append_of_le_length hleft,
    List.take_append_of_le_length hright] at htake
  exact hdomain htake

end PgKronika
