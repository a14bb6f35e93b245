import PgKronika.JournalRuns
import PgKronika.SealedBounds

/-! What the sealer reads from a journal: the sections of all parts grouped by type,
and the checked bodies behind them. -/
namespace PgKronika

open ByteCodec CheckedArith

inductive SealError
  | journal (error : JournalError)
  | part (error : PartError)
  | codec (error : CodecError)
  | catalogTooLarge (attemptedEntries maxEntries : ℕ)
  | unsupportedFormat (version : UInt32)
  | rowCountMismatch (typeId declared : UInt32) (decoded : ℕ)
  | dictionaryConflict (strId : UInt64)
  | arithmeticOverflow (what : String)
  | tooManySections (sections max : ℕ)
  deriving DecidableEq

structure SectionDescriptor where
  part : JournalPartRef
  entry : Entry
  deriving DecidableEq

instance uint32LinearOrder : LinearOrder UInt32 where
  le_refl := UInt32.le_refl
  le_trans _ _ _ := UInt32.le_trans
  le_antisymm _ _ := UInt32.le_antisymm
  le_total := UInt32.le_total
  lt_iff_le_not_ge a b := by simp only [UInt32.lt_iff_toNat_lt,UInt32.le_iff_toNat_le]; omega
  toDecidableLE := inferInstance
  toDecidableLT := inferInstance
  toDecidableEq := inferInstance

/-- Descriptors by type, in the order of the journal. -/
abbrev ByType := OrderedMap UInt32 (List SectionDescriptor)

def ByType.push (byType : ByType) (d : SectionDescriptor) : ByType :=
  byType.insert d.entry.typeId ((byType.lookup d.entry.typeId).getD [] ++ [d])

structure SegmentPlan where
  byType : ByType
  minTs : Int64
  maxTs : Int64
  windowCount : UInt32

/-- The sections of one part join the plan, up to the descriptor cap. -/
def planEntries (part : JournalPartRef) (sections : ℕ) (byType : ByType) :
    List Entry → Except SealError (ℕ × ByType)
  | [] => .ok (sections,byType)
  | entry::entries =>
    match checkedAdd sections 1 with
    | none => .error (.arithmeticOverflow "section descriptor count")
    | some sections =>
      if maxSectionRows < sections then .error (.tooManySections sections maxSectionRows)
      else planEntries part sections (byType.push ⟨part,entry⟩) entries

structure PlanState where
  sections : ℕ
  byType : ByType
  minTs : Int64
  maxTs : Int64

/-- The parts are checked again before publication. -/
def planParts (journal : Journal) (s : PlanState) :
    List JournalPartRef → Except SealError PlanState
  | [] => .ok s
  | part::parts =>
    match journal.readPart part with
    | .error e => .error (.journal e)
    | .ok bytes =>
      match decodeAndBound bytes with
      | .error e => .error (.part e)
      | .ok catalog =>
        if catalog.formatVersion ≠ formatVersion then
          .error (.unsupportedFormat catalog.formatVersion)
        else
          match planEntries part s.sections s.byType catalog.entries with
          | .error e => .error e
          | .ok (sections,byType) =>
            planParts journal ⟨sections,byType,min s.minTs catalog.minTs,max s.maxTs catalog.maxTs⟩
              parts

def planRange (minTs maxTs : Int64) : Int64 × Int64 :=
  if maxTs < minTs then (0,0) else (minTs,maxTs)

def planSegment (journal : Journal) : Except SealError SegmentPlan :=
  if 2^32 ≤ journal.parts.length then .error (.arithmeticOverflow "window count")
  else
    match planParts journal ⟨0,.empty,Int64.maxValue,Int64.minValue⟩ journal.parts with
    | .error e => .error e
    | .ok s =>
      .ok ⟨s.byType,(planRange s.minTs s.maxTs).1,(planRange s.minTs s.maxTs).2,
        UInt32.ofNat journal.parts.length⟩

/-- The section's bytes, checked against the catalog's checksum. -/
def readVerifiedBody (journal : Journal) (d : SectionDescriptor) : Except SealError Bytes :=
  match journal.readPartRange d.part d.entry.offset.toNat d.entry.len.toNat with
  | .error e => .error (.journal e)
  | .ok body =>
    let got := Crc32c.crc32c body
    if got = d.entry.crc32c then .ok body
    else .error (.codec (.sectionCrcMismatch d.entry.crc32c got))

theorem ByType.lookup_push (byType : ByType) (d : SectionDescriptor) (typeId : UInt32) :
    ((byType.push d).lookup typeId).getD [] =
      (byType.lookup typeId).getD [] ++ if d.entry.typeId = typeId then [d] else [] := by
  rw [push,OrderedMap.lookup_insert]
  by_cases h : d.entry.typeId = typeId
  · subst h
    simp
  · simp [h,Ne.symm h]

/-- All sections of the parts, in journal order. -/
def descriptorsOf (parts : List (JournalPartRef × Catalog)) : List SectionDescriptor :=
  parts.flatMap fun p => p.2.entries.map fun entry => ⟨p.1,entry⟩

theorem descriptorsOf_cons (part : JournalPartRef) (catalog : Catalog)
    (parts : List (JournalPartRef × Catalog)) :
    descriptorsOf ((part,catalog)::parts) =
      catalog.entries.map (fun entry => ⟨part,entry⟩) ++ descriptorsOf parts := rfl

def ofType (typeId : UInt32) (ds : List SectionDescriptor) : List SectionDescriptor :=
  ds.filter fun d => d.entry.typeId == typeId

theorem planEntries_ok {part : JournalPartRef} {sections sections' : ℕ} {byType byType' : ByType}
    {entries : List Entry}
    (h : planEntries part sections byType entries = .ok (sections',byType')) :
    sections' = sections + entries.length ∧
    byType' = (entries.map fun entry => SectionDescriptor.mk part entry).foldl ByType.push byType := by
  induction entries generalizing sections byType with
  | nil =>
    cases h
    exact ⟨rfl,rfl⟩
  | cons entry entries ih =>
    rw [planEntries] at h
    split at h
    · cases h
    · rename_i next hnext
      split_ifs at h with hcap
      obtain ⟨hs,hb⟩ := ih h
      obtain ⟨rfl,_⟩ := checkedAdd_eq_some.mp hnext
      exact ⟨by rw [hs,List.length_cons]; omega,hb⟩

theorem planEntries_of_le (part : JournalPartRef) {sections : ℕ} (byType : ByType)
    {entries : List Entry} (h : sections + entries.length ≤ maxSectionRows) :
    ∃ r, planEntries part sections byType entries = .ok r := by
  have hmax : maxSectionRows = 65536 := rfl
  induction entries generalizing sections byType with
  | nil => exact ⟨_,rfl⟩
  | cons entry entries ih =>
    rw [List.length_cons] at h
    rw [planEntries,checkedAdd_of_le (by rw [u64Max]; omega)]
    dsimp only
    rw [if_neg (by omega)]
    exact ih _ (by omega)

/-- A nonempty group, as a map holds it. -/
def present (ds : List SectionDescriptor) : Option (List SectionDescriptor) :=
  if ds = [] then none else some ds

@[simp] theorem present_getD (ds : List SectionDescriptor) : (present ds).getD [] = ds := by
  unfold present
  split_ifs with h <;> simp [h]

def groupByType (ds : List SectionDescriptor) : ByType := ds.foldl ByType.push .empty

theorem groupByType_lookup (ds : List SectionDescriptor) (typeId : UInt32) :
    (groupByType ds).lookup typeId = present (ofType typeId ds) := by
  induction ds using List.reverseRecOn with
  | nil => rfl
  | append_singleton ds d ih =>
    have hgroup : groupByType (ds++[d]) = (groupByType ds).push d := by
      rw [groupByType,List.foldl_append]; rfl
    by_cases h : d.entry.typeId = typeId
    · subst h
      rw [hgroup,ByType.push,OrderedMap.lookup_insert_self,ih,present_getD]
      simp [ofType,present]
    · rw [hgroup,ByType.push,OrderedMap.lookup_insert_of_ne _ (Ne.symm h),ih]
      simp [ofType,h]

/-- The parts of the journal read as these bodies. -/
structure Journal.Reads (j : Journal) (bodies : List Bytes) : Prop where
  parts : j.parts.map j.readPart = bodies.map .ok
  ranges : ∀ p ∈ j.parts.zip bodies, ∀ offset len, offset+len ≤ p.2.length →
    j.readPartRange p.1 offset len = .ok (slice p.2 offset len)

/-- A handle that holds a generation reads its bodies. -/
theorem Journal.Holds.reads {j : Journal} {g : Generation} (h : j.Holds g) : j.Reads g.bodies := by
  have hle := h.fits.len_lt h.config
  have hslices := slice_framesFrom g.header.encode [] g.bodies
  rw [List.append_nil,← Generation.image,JournalHeader.encode_length] at hslices
  have hbounds := (framesFrom_ascending journalHeaderLen g.bodies).2
  have hparts := h.parts
  generalize framesFrom journalHeaderLen g.bodies = frames at hslices hbounds hparts
  refine ⟨h.readPart_parts,?_⟩
  intro p hp offset len hfit
  rw [hparts,← hslices,List.zip_map'] at hp
  obtain ⟨raw,hraw,rfl⟩ := List.mem_map.mp hp
  have hmem : (⟨raw,j.generation⟩ : JournalPartRef) ∈ j.parts := by
    rw [hparts]; exact List.mem_map_of_mem hraw
  have hstop := (hbounds raw hraw).2
  have hin : raw.offset+raw.len ≤ g.image.length := by rw [g.image_length]; exact hstop
  dsimp only at hfit ⊢
  rw [slice_length_of_le hin] at hfit
  rw [readPartRange,h.checkPartRef_mem hmem,checkedAdd_of_le (by rw [u64Max]; omega)]
  dsimp only
  rw [if_neg (by omega),checkedAdd_of_le (by rw [u64Max]; omega)]
  dsimp only [readFile]
  rw [h.file,(readsAs_bytes g.image).read (by omega),slice_slice hfit]
  rfl

section Plan

variable {j : Journal}

theorem planParts_ok {s s' : PlanState} {parts : List JournalPartRef} {bodies : List Bytes}
    {catalogs : List Catalog} (hread : parts.map j.readPart = bodies.map .ok)
    (hcatalogs : bodies.map decodeAndBound = catalogs.map .ok)
    (h : planParts j s parts = .ok s') :
    s'.byType = (descriptorsOf (parts.zip catalogs)).foldl ByType.push s.byType ∧
    s'.minTs = (catalogs.map Catalog.minTs).foldl min s.minTs ∧
    s'.maxTs = (catalogs.map Catalog.maxTs).foldl max s.maxTs := by
  induction parts generalizing s bodies catalogs with
  | nil =>
    cases h
    cases bodies with
    | cons _ _ => cases hread
    | nil =>
      cases catalogs with
      | cons _ _ => cases hcatalogs
      | nil => exact ⟨rfl,rfl,rfl⟩
  | cons part parts ih =>
    cases bodies with
    | nil => cases hread
    | cons bytes bodies =>
      cases catalogs with
      | nil => cases hcatalogs
      | cons catalog catalogs =>
        simp only [List.map_cons,List.cons.injEq] at hread hcatalogs
        rw [planParts,hread.1] at h
        dsimp only at h
        rw [hcatalogs.1] at h
        dsimp only at h
        split_ifs at h with hversion
        split at h
        · cases h
        · rename_i sections byType hentries
          obtain ⟨hb,hmin,hmax⟩ := ih hread.2 hcatalogs.2 h
          rw [(planEntries_ok hentries).2] at hb
          refine ⟨?_,hmin,hmax⟩
          rw [hb,List.zip_cons_cons,descriptorsOf_cons,List.foldl_append]

/-- What a plan holds, for parts whose catalogs decode. -/
theorem planSegment_ok {bodies : List Bytes} {catalogs : List Catalog} (hread : j.Reads bodies)
    (hcatalogs : bodies.map decodeAndBound = catalogs.map .ok) {plan : SegmentPlan}
    (h : planSegment j = .ok plan) :
    plan.byType = groupByType (descriptorsOf (j.parts.zip catalogs)) ∧
    plan.windowCount = UInt32.ofNat j.parts.length ∧
    (plan.minTs,plan.maxTs) =
      planRange ((catalogs.map Catalog.minTs).foldl min Int64.maxValue)
        ((catalogs.map Catalog.maxTs).foldl max Int64.minValue) := by
  unfold planSegment at h
  split_ifs at h with hcount
  split at h
  · cases h
  · rename_i s hs
    obtain ⟨hb,hmin,hmax⟩ := planParts_ok hread.parts hcatalogs hs
    cases h
    exact ⟨hb,rfl,by rw [← hmin,← hmax]⟩

/-- Which refusals a plan can meet when its sections stay under the cap. -/
theorem planParts_of_le {s : PlanState} {parts : List JournalPartRef} {bodies : List Bytes}
    {catalogs : List Catalog} (hread : parts.map j.readPart = bodies.map .ok)
    (hcatalogs : bodies.map decodeAndBound = catalogs.map .ok)
    (hle : s.sections + (catalogs.map fun c => c.entries.length).sum ≤ maxSectionRows) :
    (∃ s', planParts j s parts = .ok s') ∨
      ∃ version, planParts j s parts = .error (.unsupportedFormat version) := by
  induction parts generalizing s bodies catalogs with
  | nil => exact .inl ⟨s,rfl⟩
  | cons part parts ih =>
    cases bodies with
    | nil => cases hread
    | cons bytes bodies =>
      cases catalogs with
      | nil => cases hcatalogs
      | cons catalog catalogs =>
        simp only [List.map_cons,List.cons.injEq,List.sum_cons] at hread hcatalogs hle
        rw [planParts,hread.1]
        dsimp only
        rw [hcatalogs.1]
        dsimp only
        split_ifs with hversion
        · exact .inr ⟨_,rfl⟩
        · obtain ⟨⟨sections,byType⟩,hentries⟩ := @planEntries_of_le part s.sections
            s.byType catalog.entries (by omega)
          rw [hentries]
          have hs := (planEntries_ok hentries).1
          exact ih hread.2 hcatalogs.2 (by dsimp only; omega)

/-- A section reads as its body when its catalog checks the body. -/
theorem Journal.Reads.verifiedBody {bodies : List Bytes} (hread : j.Reads bodies)
    {part : JournalPartRef} {bytes : Bytes} (hp : (part,bytes) ∈ j.parts.zip bodies) {entry : Entry}
    (hfit : entry.offset.toNat + entry.len.toNat ≤ bytes.length)
    (hcrc : Crc32c.crc32c (entry.body bytes) = entry.crc32c) :
    readVerifiedBody j ⟨part,entry⟩ = .ok (entry.body bytes) := by
  unfold readVerifiedBody
  rw [hread.ranges _ hp _ _ hfit]
  exact if_pos hcrc

end Plan

end PgKronika
