import PgKronika.SidecarGc

/-! The accounting of derived files against the files themselves: through the inventory, the two
loops of a sweep, and the publication of a file. -/
namespace PgKronika
namespace SidecarGc

open ByteCodec CheckedArith FactContainer

namespace GcCategoryUsage

/-- The exact totals of some files. -/
def total (files : List FileUsage) : GcCategoryUsage where
  files := files.length
  logicalBytes := (files.map FileUsage.logicalBytes).sum
  allocatedBytes := (files.map FileUsage.allocatedBytes).sum

/-- Totals that 64-bit counters can hold. -/
structure Fits (usage : GcCategoryUsage) : Prop where
  files : usage.files ≤ u64Max
  logicalBytes : usage.logicalBytes ≤ u64Max
  allocatedBytes : usage.allocatedBytes ≤ u64Max

@[simp] theorem total_nil : total [] = {} := rfl

theorem Fits.of_append {some_ rest : List FileUsage} (h : Fits (total (some_++rest))) :
    Fits (total some_) := by
  have hf := h.files
  have hl := h.logicalBytes
  have ha := h.allocatedBytes
  simp only [total,List.length_append,List.map_append,List.sum_append] at hf hl ha
  constructor <;> simp only [total] <;> omega

theorem add_total {files : List FileUsage} {file : FileUsage} (h : Fits (total (files++[file]))) :
    (total files).add file = total (files++[file]) := by
  have hf := h.files
  have hl := h.logicalBytes
  have ha := h.allocatedBytes
  simp only [total,List.length_append,List.map_append,List.sum_append,List.map_cons,List.map_nil,
    List.sum_cons,List.sum_nil,List.length_cons,List.length_nil,Nat.add_zero,Nat.zero_add] at hf hl ha
  simp only [add,total,saturatingAdd,List.length_append,List.map_append,List.sum_append,
    List.map_cons,List.map_nil,List.sum_cons,List.sum_nil,List.length_cons,List.length_nil,
    Nat.add_zero,Nat.zero_add,min_eq_left hf,min_eq_left hl,min_eq_left ha]

theorem remove_total (before after : List FileUsage) (file : FileUsage) :
    (total (before++file::after)).remove file = total (before++after) := by
  simp only [remove,total,List.length_append,List.length_cons,List.map_append,List.map_cons,
    List.sum_append,List.sum_cons,mk.injEq]
  omega

/-- Saturating additions are exact while the totals fit. -/
theorem foldl_add (before files : List FileUsage) (h : Fits (total (before++files))) :
    files.foldl add (total before) = total (before++files) := by
  induction files generalizing before with
  | nil => simp
  | cons file files ih =>
    have happ : before++file::files = (before++[file])++files := by simp
    rw [happ] at h ⊢
    rw [List.foldl_cons,add_total h.of_append]
    exact ih _ h

end GcCategoryUsage

open GcCategoryUsage

section Keyed

theorem key_mem {α β : Type} {key : α} {value : β} {pairs : List (α × β)}
    (h : (key,value) ∈ pairs) : key ∈ pairs.map Prod.fst :=
  List.mem_map.mpr ⟨_,h,rfl⟩

variable {α β : Type} [DecidableEq α]

/-- The pairs under another key. -/
def without (key : α) (pairs : List (α × β)) : List (α × β) := pairs.filter fun pair => pair.1 ≠ key

theorem mem_without {key : α} {pairs : List (α × β)} {pair : α × β} :
    pair ∈ without key pairs ↔ pair ∈ pairs ∧ pair.1 ≠ key := by
  simp [without]

theorem without_eq_self {key : α} {pairs : List (α × β)} (h : key ∉ pairs.map Prod.fst) :
    without key pairs = pairs := by
  apply List.filter_eq_self.mpr
  intro pair hpair
  have hne : pair.1 ≠ key := fun heq => h (heq ▸ List.mem_map_of_mem hpair)
  simpa using hne

theorem without_append (key : α) (before after : List (α × β)) :
    without key (before++after) = without key before++without key after := by
  simp [without]

theorem without_cons_self (key : α) (value : β) (pairs : List (α × β)) :
    without key ((key,value)::pairs) = without key pairs := by
  simp [without]

theorem without_nodup {key : α} {pairs : List (α × β)} (h : (pairs.map Prod.fst).Nodup) :
    ((without key pairs).map Prod.fst).Nodup :=
  h.sublist (List.filter_sublist.map _)

/-- A key is at most once in the pairs, so dropping it drops one pair. -/
theorem without_split {key : α} {value : β} {pairs : List (α × β)} (hn : (pairs.map Prod.fst).Nodup)
    (h : (key,value) ∈ pairs) :
    ∃ before after, pairs = before++(key,value)::after ∧ without key pairs = before++after := by
  obtain ⟨before,after,rfl⟩ := List.append_of_mem h
  simp only [List.map_append,List.map_cons] at hn
  have hboth := List.nodup_middle.mp hn
  simp only [List.nodup_cons,List.mem_append,not_or] at hboth
  refine ⟨before,after,rfl,?_⟩
  have hb := without_eq_self hboth.1.1
  have ha := without_eq_self hboth.1.2
  rw [without_append,without_cons_self,hb,ha]

theorem collected_foldl (pairs : List (α × β)) (start : α → Option β) (key : α) :
    pairs.foldl (fun (map : α → Option β) pair => Function.update map pair.1 (some pair.2)) start key =
      (collected pairs key).or (start key) := by
  induction pairs generalizing start with
  | nil => rfl
  | cons pair pairs ih =>
    rw [collected,List.foldl_cons,List.foldl_cons,ih,ih]
    by_cases hkey : key = pair.1
    · subst hkey
      cases collected pairs pair.1 <;> simp
    · simp [Function.update_of_ne hkey]

theorem collected_eq_some {pairs : List (α × β)} (hn : (pairs.map Prod.fst).Nodup) {key : α}
    {value : β} : collected pairs key = some value ↔ (key,value) ∈ pairs := by
  induction pairs generalizing value with
  | nil => simp [collected]
  | cons pair pairs ih =>
    obtain ⟨head,stored⟩ := pair
    simp only [List.map_cons,List.nodup_cons] at hn
    rw [collected,List.foldl_cons,collected_foldl]
    by_cases hkey : key = head
    · subst hkey
      have hnone : collected pairs key = none := by
        cases hc : collected pairs key with
        | none => rfl
        | some other => exact absurd (key_mem ((ih hn.2).mp hc)) hn.1
      have hnot : (key,value) ∉ pairs := fun hmem => hn.1 (key_mem hmem)
      simp [hnone,hnot,eq_comm]
    · simp [ih hn.2,hkey]

end Keyed

/-- The derived files that are there: sidecars by address, temporary files by location. -/
structure Ledger where
  sidecars : List (SegmentAddress × FileUsage)
  temporaries : List (ArtifactLocation × FileUsage)

namespace Ledger

def usage (ledger : Ledger) : GcUsage where
  sidecars := total (ledger.sidecars.map Prod.snd)
  temporary := total (ledger.temporaries.map Prod.snd)

/-- The totals of each category are 64-bit numbers. -/
structure Fits (ledger : Ledger) : Prop where
  sidecars : ledger.usage.sidecars.Fits
  temporary : ledger.usage.temporary.Fits

def dropSidecar (ledger : Ledger) (address : SegmentAddress) : Ledger :=
  {ledger with sidecars := without address ledger.sidecars}

def dropTemporary (ledger : Ledger) (location : ArtifactLocation) : Ledger :=
  {ledger with temporaries := without location ledger.temporaries}

/-- A sidecar published at an address replaces what was there. -/
def publish (ledger : Ledger) (address : SegmentAddress) (usage : FileUsage) : Ledger where
  sidecars := without address ledger.sidecars ++ [(address,usage)]
  temporaries := without (.overview address) ledger.temporaries

end Ledger

/-- Accounting that is equal to the files category by category. -/
structure Balanced (quota : QuotaState) (ledger : Ledger) : Prop where
  usage : quota.usage = ledger.usage
  addresses : (ledger.sidecars.map Prod.fst).Nodup
  locations : (ledger.temporaries.map Prod.fst).Nodup
  sidecars : ∀ address usage, quota.sidecars address = some usage ↔ (address,usage) ∈ ledger.sidecars
  invalidOverviews : ∀ address usage, quota.invalidOverviews address = some usage ↔
    (ArtifactLocation.overview address,usage) ∈ ledger.temporaries

namespace Balanced

variable {quota : QuotaState} {ledger : Ledger} {file : FileUsage}

theorem removeSidecar (h : Balanced quota ledger) {address : SegmentAddress}
    (hmem : (address,file) ∈ ledger.sidecars) :
    Balanced (quota.removeSidecar address file) (ledger.dropSidecar address) := by
  constructor
  · obtain ⟨before,after,hsplit,hwithout⟩ := without_split h.addresses hmem
    simp only [QuotaState.removeSidecar,GcUsage.removeSidecar,Ledger.dropSidecar,Ledger.usage,h.usage,
      hwithout]
    rw [hsplit,List.map_append,List.map_cons,remove_total,List.map_append]
  · exact without_nodup h.addresses
  · exact h.locations
  · intro other usage
    by_cases heq : other = address
    · simp [QuotaState.removeSidecar,Ledger.dropSidecar,mem_without,heq]
    · simp [QuotaState.removeSidecar,Ledger.dropSidecar,mem_without,heq,h.sidecars]
  · exact h.invalidOverviews

theorem removeArtifact (h : Balanced quota ledger) {location : ArtifactLocation}
    (hmem : (location,file) ∈ ledger.temporaries) :
    Balanced (quota.removeArtifact location file) (ledger.dropTemporary location) := by
  constructor
  · obtain ⟨before,after,hsplit,hwithout⟩ := without_split h.locations hmem
    simp only [QuotaState.removeArtifact,GcUsage.removeTemporary,Ledger.dropTemporary,Ledger.usage,
      h.usage,hwithout]
    rw [hsplit,List.map_append,List.map_cons,remove_total,List.map_append]
  · exact h.addresses
  · exact without_nodup h.locations
  · exact h.sidecars
  · intro other usage
    cases location with
    | overview address =>
      by_cases heq : other = address
      · simp [QuotaState.removeArtifact,Ledger.dropTemporary,mem_without,heq]
      · simp [QuotaState.removeArtifact,Ledger.dropTemporary,mem_without,heq,h.invalidOverviews]
    | temporary temporary =>
      simp [QuotaState.removeArtifact,Ledger.dropTemporary,mem_without,h.invalidOverviews]

theorem dropSidecar (h : Balanced quota ledger) (address : SegmentAddress) :
    Balanced (quota.dropSidecar address) (ledger.dropSidecar address) := by
  unfold QuotaState.dropSidecar
  cases hq : quota.sidecars address with
  | some previous => exact h.removeSidecar ((h.sidecars _ _).mp hq)
  | none =>
    have hnot : address ∉ ledger.sidecars.map Prod.fst := by
      intro hmem
      obtain ⟨⟨_,usage⟩,hpair,rfl⟩ := List.mem_map.mp hmem
      simp [(h.sidecars _ _).mpr hpair] at hq
    have hsame : ledger.dropSidecar address = ledger := by
      simp [Ledger.dropSidecar,without_eq_self hnot]
    simpa only [hsame] using h

theorem dropInvalid (h : Balanced quota ledger) (address : SegmentAddress) :
    Balanced (quota.dropInvalid address) (ledger.dropTemporary (.overview address)) := by
  unfold QuotaState.dropInvalid
  cases hq : quota.invalidOverviews address with
  | some previous => exact h.removeArtifact ((h.invalidOverviews _ _).mp hq)
  | none =>
    have hnot : ArtifactLocation.overview address ∉ ledger.temporaries.map Prod.fst := by
      intro hmem
      obtain ⟨⟨location,usage⟩,hpair,heq⟩ := List.mem_map.mp hmem
      simp only at heq
      subst heq
      simp [(h.invalidOverviews _ _).mpr hpair] at hq
    have hsame : ledger.dropTemporary (.overview address) = ledger := by
      simp [Ledger.dropTemporary,without_eq_self hnot]
    simpa only [hsame] using h

theorem insertSidecar (h : Balanced quota ledger) {address : SegmentAddress}
    (hnew : address ∉ ledger.sidecars.map Prod.fst)
    (hfits : (total ((ledger.sidecars++[(address,file)]).map Prod.snd)).Fits) :
    Balanced (quota.insertSidecar address file)
      {ledger with sidecars := ledger.sidecars++[(address,file)]} := by
  constructor
  · simp only [List.map_append,List.map_cons,List.map_nil] at hfits
    simp only [QuotaState.insertSidecar,Ledger.usage,h.usage,List.map_append,List.map_cons,
      List.map_nil,add_total hfits]
  · simp only [List.map_append,List.map_cons,List.map_nil]
    exact List.nodup_append.mpr ⟨h.addresses,by simp,by
      intro a ha b hb
      simp only [List.mem_singleton] at hb
      exact fun heq => hnew (hb ▸ heq ▸ ha)⟩
  · exact h.locations
  · intro other usage
    by_cases heq : other = address
    · subst heq
      have hnot : (other,usage) ∉ ledger.sidecars := fun hmem => hnew (key_mem hmem)
      simp [QuotaState.insertSidecar,hnot,eq_comm]
    · simp [QuotaState.insertSidecar,heq,h.sidecars]
  · exact h.invalidOverviews

/-- A publication replaces the file at its address. -/
theorem publish (h : Balanced quota ledger) (address : SegmentAddress)
    (hfits : (ledger.publish address file).Fits) :
    Balanced (((quota.dropSidecar address).dropInvalid address).insertSidecar address file)
      (ledger.publish address file) := by
  have hboth := (h.dropSidecar address).dropInvalid address
  refine hboth.insertSidecar ?_ hfits.sidecars
  intro hmem
  obtain ⟨pair,hpair,heq⟩ := List.mem_map.mp hmem
  exact (mem_without.mp hpair).2 heq

end Balanced

/-! The inventory. -/

def Inventory.ledger (inventory : Inventory) : Ledger where
  sidecars := inventory.sidecars.map fun candidate => (candidate.address,candidate.usage)
  temporaries := inventory.artifacts.map fun artifact => (artifact.location,artifact.usage)

/-- An inventory of some of the files in `locations`, each one at most once. -/
structure Scanned (locations : List ArtifactLocation) (inventory : Inventory) : Prop where
  sidecars : (inventory.sidecars.map fun candidate =>
    ArtifactLocation.overview candidate.address).Sublist locations
  artifacts : (inventory.artifacts.map ArtifactCandidate.location).Sublist locations
  sidecarUsage : inventory.usage.sidecars =
    (inventory.sidecars.map SidecarCandidate.usage).foldl GcCategoryUsage.add {}
  temporaryUsage : inventory.usage.temporary =
    (inventory.artifacts.map ArtifactCandidate.usage).foldl GcCategoryUsage.add {}
  locks : inventory.usage.locks = {}

namespace Scanned

variable {φ : Type} [ReadAt φ] {disk : Disk φ} {locations more : List ArtifactLocation}
variable {inventory next : Inventory}

theorem skip (h : Scanned locations inventory) : Scanned (locations++more) inventory where
  sidecars := h.sidecars.trans (List.sublist_append_left _ _)
  artifacts := h.artifacts.trans (List.sublist_append_left _ _)
  sidecarUsage := h.sidecarUsage
  temporaryUsage := h.temporaryUsage
  locks := h.locks

theorem addSidecar (h : Scanned locations inventory) {file : OpenedFile φ} {address : SegmentAddress}
    {candidate : SidecarCandidate} (hc : validateSidecar file address = some candidate) :
    Scanned (locations++[.overview address]) (inventory.addSidecar candidate) := by
  have haddress : candidate.address = address := by
    simp only [validateSidecar,Option.bind_eq_bind,Option.bind_eq_some_iff] at hc
    obtain ⟨_,_,_,_,_,_,hc⟩ := hc
    cases hc
    rfl
  constructor
  · simp only [Inventory.addSidecar,List.map_append,List.map_cons,List.map_nil,haddress]
    exact h.sidecars.append (List.Sublist.refl _)
  · exact h.artifacts.trans (List.sublist_append_left _ _)
  · simp [Inventory.addSidecar,h.sidecarUsage]
  · exact h.temporaryUsage
  · exact h.locks

omit [ReadAt φ] in
theorem addArtifact (h : Scanned locations inventory) {file : Option (OpenedFile φ)}
    {location : ArtifactLocation} (hnext : inventory.addArtifact file location = .ok next) :
    Scanned (locations++[location]) next := by
  unfold Inventory.addArtifact at hnext
  split at hnext
  · cases hnext
  next candidate hc =>
    cases hnext
    have hlocation : candidate.location = location := by
      simp only [validateArtifact,Option.bind_eq_bind,Option.bind_eq_some_iff] at hc
      obtain ⟨_,_,_,_,_,_,hc⟩ := hc
      cases hc
      rfl
    constructor
    · exact h.sidecars.trans (List.sublist_append_left _ _)
    · simp only [List.map_append,List.map_cons,List.map_nil,hlocation]
      exact h.artifacts.append (List.Sublist.refl _)
    · exact h.sidecarUsage
    · simp [h.temporaryUsage]
    · exact h.locks

theorem segment (h : Scanned locations inventory) {segment : SegmentArtifacts}
    (hnext : scanSegment disk inventory segment = .ok next) :
    Scanned (locations++[.overview segment.address]) next := by
  unfold scanSegment at hnext
  split_ifs at hnext
  · cases hnext
    exact h.skip
  · split at hnext
    · cases hnext
    · split at hnext
      next candidate hc =>
        cases hnext
        exact h.addSidecar hc
      · exact h.addArtifact hnext

omit [ReadAt φ] in
theorem temporary (h : Scanned locations inventory) {temporary : TemporaryObject}
    (hnext : scanTemporary disk inventory temporary = .ok next) :
    Scanned (locations++[.temporary temporary]) next := by
  unfold scanTemporary at hnext
  split_ifs at hnext
  · cases hnext
    exact h.skip
  · exact h.addArtifact hnext

end Scanned

theorem scanDirectory_scanned {φ : Type} [ReadAt φ] {disk : Disk φ} {maxEntries : ℕ}
    {inventory : Inventory} (h : scanDirectory disk maxEntries = .ok inventory) :
    ∃ locations, locations.Nodup ∧ Scanned locations inventory := by
  obtain ⟨snapshot,_,h⟩ := bind_ok h
  obtain ⟨segments,hsegments,h⟩ := bind_ok h
  obtain ⟨orphans,horphans,h⟩ := bind_ok h
  have hempty : Scanned [] {scanned := snapshot.visitedEntries} := by
    constructor <;> simp
  refine ⟨ovfLocations snapshot.toLayoutSnapshot,snapshot.distinct,?_⟩
  have hsegment := foldlM_run (fun done inventory => Scanned
    (done.map fun segment => ArtifactLocation.overview segment.address) inventory)
    (fun hs hnext => by simpa using hs.segment hnext) [] hempty hsegments
  have horphan := foldlM_run (fun done inventory => Scanned
    ((snapshot.segments.map fun segment => ArtifactLocation.overview segment.address) ++
      done.map ArtifactLocation.overview) inventory)
    (fun hs hnext => by simpa using hs.addArtifact hnext) [] (by simpa using hsegment) horphans
  have htemporary := foldlM_run (fun done inventory => Scanned
    ((snapshot.segments.map fun segment => ArtifactLocation.overview segment.address) ++
      snapshot.orphanOverviews.map ArtifactLocation.overview ++
      done.map ArtifactLocation.temporary) inventory)
    (fun hs hnext => by simpa using hs.temporary hnext) [] (by simpa using horphan) h
  exact htemporary

theorem mem_filterMap_overview {artifacts : List ArtifactCandidate} {address : SegmentAddress}
    {usage : FileUsage} : (address,usage) ∈ artifacts.filterMap invalidOverview ↔
      (ArtifactLocation.overview address,usage) ∈
        artifacts.map fun artifact => (artifact.location,artifact.usage) := by
  simp only [List.mem_filterMap,List.mem_map]
  refine exists_congr fun artifact => and_congr_right fun _ => ?_
  unfold invalidOverview
  cases artifact.location <;> simp

theorem filterMap_overview_nodup {artifacts : List ArtifactCandidate}
    (h : (artifacts.map ArtifactCandidate.location).Nodup) :
    ((artifacts.filterMap invalidOverview).map Prod.fst).Nodup := by
  induction artifacts with
  | nil => simp
  | cons artifact artifacts ih =>
    simp only [List.map_cons,List.nodup_cons] at h
    cases hl : artifact.location with
    | temporary temporary =>
      have hnone : invalidOverview artifact = none := by simp [invalidOverview,hl]
      simpa [hnone] using ih h.2
    | overview address =>
      have hsome : invalidOverview artifact = some (address,artifact.usage) := by
        simp [invalidOverview,hl]
      simp only [List.filterMap_cons,hsome,List.map_cons,List.nodup_cons]
      refine ⟨?_,ih h.2⟩
      intro hmem
      obtain ⟨⟨_,usage⟩,hpair,rfl⟩ := List.mem_map.mp hmem
      obtain ⟨other,hother,heq⟩ := List.mem_map.mp (mem_filterMap_overview.mp hpair)
      have hlocation := congrArg Prod.fst heq
      simp only at hlocation
      exact h.1 (List.mem_map.mpr ⟨other,hother,hlocation.trans hl.symm⟩)

/-- The accounting of an inventory is that of its files. -/
theorem Scanned.balanced {locations : List ArtifactLocation} {inventory : Inventory}
    (h : Scanned locations inventory) (hn : locations.Nodup) (hfits : inventory.ledger.Fits) :
    Balanced inventory.quotaState inventory.ledger := by
  have haddresses : (inventory.ledger.sidecars.map Prod.fst).Nodup := by
    have hover : ((inventory.ledger.sidecars.map Prod.fst).map ArtifactLocation.overview).Nodup := by
      simpa [Inventory.ledger,Function.comp_def] using hn.sublist h.sidecars
    exact hover.of_map _
  have hlocations : (inventory.ledger.temporaries.map Prod.fst).Nodup := by
    simpa [Inventory.ledger,Function.comp_def] using hn.sublist h.artifacts
  constructor
  · have hs : inventory.usage.sidecars = inventory.ledger.usage.sidecars := by
      rw [h.sidecarUsage]
      have hf := hfits.sidecars
      simp only [Ledger.usage,Inventory.ledger,List.map_map,Function.comp_def] at hf ⊢
      exact foldl_add [] _ hf
    have ht : inventory.usage.temporary = inventory.ledger.usage.temporary := by
      rw [h.temporaryUsage]
      have hf := hfits.temporary
      simp only [Ledger.usage,Inventory.ledger,List.map_map,Function.comp_def] at hf ⊢
      exact foldl_add [] _ hf
    have hl : inventory.usage.locks = inventory.ledger.usage.locks := h.locks
    show inventory.usage = inventory.ledger.usage
    cases hu : inventory.usage
    simp_all
  · exact haddresses
  · exact hlocations
  · intro address usage
    exact collected_eq_some haddresses
  · intro address usage
    rw [Inventory.quotaState,collected_eq_some (filterMap_overview_nodup (hn.sublist h.artifacts))]
    exact mem_filterMap_overview

/-! The two loops of the sweep. -/

/-- The files left when some names are unlinked. -/
def Ledger.minus (ledger : Ledger) (addresses : List SegmentAddress)
    (locations : List ArtifactLocation) : Ledger where
  sidecars := ledger.sidecars.filter fun pair => pair.1 ∉ addresses
  temporaries := ledger.temporaries.filter fun pair => pair.1 ∉ locations

namespace Ledger

variable (ledger : Ledger) (addresses : List SegmentAddress) (locations : List ArtifactLocation)

@[simp] theorem minus_nil : ledger.minus [] [] = ledger := by
  simp [minus]

theorem minus_dropSidecar (address : SegmentAddress) :
    (ledger.minus addresses locations).dropSidecar address =
      ledger.minus (addresses++[address]) locations := by
  simp only [minus,dropSidecar,without,List.filter_filter,mk.injEq,and_true]
  congr 1
  funext pair
  by_cases heq : pair.1 = address <;> simp [heq]

theorem minus_dropTemporary (location : ArtifactLocation) :
    (ledger.minus addresses locations).dropTemporary location =
      ledger.minus addresses (locations++[location]) := by
  simp only [minus,dropTemporary,without,List.filter_filter,mk.injEq,true_and]
  congr 1
  funext pair
  by_cases heq : pair.1 = location <;> simp [heq]

end Ledger

section Sweep

variable {φ : Type} [ReadAt φ] {disk : Disk φ} {mark : GcMark} {config : GcConfig} {now : ℤ}
variable {ledger : Ledger}

omit [ReadAt φ] in
/-- An artifact is left alone, or unlinked and accounted for. -/
theorem deleteStaleArtifact_cases {artifact : ArtifactCandidate} (sweep : ArtifactSweep)
    (hsync : (disk.removal artifact.location).unlinks = true →
      (disk.removal artifact.location).syncs = true) :
    deleteStaleArtifact disk config now sweep artifact = sweep ∨
      (deleteStaleArtifact disk config now sweep artifact).unlinked = sweep.unlinked++[artifact] ∧
      (deleteStaleArtifact disk config now sweep artifact).outcome.usage =
        sweep.outcome.usage.removeTemporary artifact.usage ∧
      (deleteStaleArtifact disk config now sweep artifact).quota =
        sweep.quota.removeArtifact artifact.location artifact.usage := by
  have hboth := Removal.ifIdentity_synced artifact.device artifact.inode hsync
  unfold deleteStaleArtifact
  by_cases hold : oldEnough artifact.modified now config.artifactGrace = true
  · simp only [if_pos hold]
    by_cases hremoved :
        ((disk.removal artifact.location).ifIdentity artifact.device artifact.inode).1 = true
    · right
      simp [ArtifactSweep.note,GcOutcome.unlinked,hremoved,hboth.mp hremoved]
    · left
      have hanswer := mt hboth.mpr hremoved
      simp [ArtifactSweep.note,hremoved,hanswer]
  · exact .inl (if_neg hold)

/-- The outcome and the quota agree with the files of a ledger. -/
structure Accounted (outcome : GcOutcome) (quota : QuotaState) (ledger : Ledger) : Prop where
  usage : outcome.usage = quota.usage
  balanced : Balanced quota ledger

/-- Every unlinked name of these places is followed by a synchronized directory. -/
def Syncs (disk : Disk φ) (locations : List ArtifactLocation) : Prop :=
  ∀ location ∈ locations, (disk.removal location).unlinks = true →
    (disk.removal location).syncs = true

omit [ReadAt φ] in
theorem deleteStale_accounted (config : GcConfig) (now : ℤ) (ledger : Ledger)
    (sweep : ArtifactSweep) {artifacts : List ArtifactCandidate}
    (hsync : Syncs disk (artifacts.map ArtifactCandidate.location))
    (hn : (artifacts.map ArtifactCandidate.location).Nodup)
    (hmem : ∀ artifact ∈ artifacts, (artifact.location,artifact.usage) ∈ ledger.temporaries ∧
      artifact.location ∉ sweep.unlinked.map ArtifactCandidate.location)
    (h : Accounted sweep.outcome sweep.quota
      (ledger.minus [] (sweep.unlinked.map ArtifactCandidate.location))) :
    Accounted (artifacts.foldl (deleteStaleArtifact disk config now) sweep).outcome
      (artifacts.foldl (deleteStaleArtifact disk config now) sweep).quota
      (ledger.minus [] ((artifacts.foldl (deleteStaleArtifact disk config now) sweep).unlinked.map
        ArtifactCandidate.location)) := by
  induction artifacts generalizing sweep with
  | nil => exact h
  | cons artifact artifacts ih =>
    simp only [List.map_cons,List.nodup_cons] at hn
    simp only [List.mem_cons,forall_eq_or_imp] at hmem
    have hrest : Syncs disk (artifacts.map ArtifactCandidate.location) :=
      fun location hlocation => hsync location (List.mem_cons_of_mem _ hlocation)
    rw [List.foldl_cons]
    rcases deleteStaleArtifact_cases sweep (hsync artifact.location (by simp)) with
      hsame | ⟨hunlinked,husage,hquota⟩
    · rw [hsame]
      exact ih _ hrest hn.2 hmem.2 h
    · refine ih _ hrest hn.2 ?_ ?_
      · intro other hother
        have hne : other.location ≠ artifact.location := fun heq =>
          hn.1 (heq ▸ List.mem_map_of_mem hother)
        have hnew := (hmem.2 other hother).2
        simp only [hunlinked,List.map_append,List.map_cons,List.map_nil,List.mem_append,
          List.mem_singleton,not_or]
        exact ⟨(hmem.2 other hother).1,hnew,hne⟩
      · have hin : (artifact.location,artifact.usage) ∈
            (ledger.minus [] (sweep.unlinked.map ArtifactCandidate.location)).temporaries :=
          List.mem_filter.mpr ⟨hmem.1.1,by simpa using hmem.1.2⟩
        rw [hunlinked,hquota,List.map_append,List.map_cons,List.map_nil,
          ← Ledger.minus_dropTemporary]
        refine ⟨?_,h.balanced.removeArtifact hin⟩
        rw [husage,h.usage]
        rfl

/-- A sidecar is unlinked exactly when its usage comes back. -/
theorem deleteSidecar_cases {candidate : SidecarCandidate}
    (hsync : (disk.removal (.overview candidate.address)).unlinks = true →
      (disk.removal (.overview candidate.address)).syncs = true) :
    deleteSidecar disk candidate = (true,.ok (some candidate.usage)) ∨
      (deleteSidecar disk candidate).1 = false ∧
        ∀ usage, (deleteSidecar disk candidate).2 ≠ .ok (some usage) := by
  have hboth := Removal.ifIdentity_synced candidate.device candidate.inode hsync
  unfold deleteSidecar
  split
  · simp
  · split_ifs
    · simp
    · generalize (disk.removal (.overview candidate.address)).ifIdentity candidate.device
        candidate.inode = removed at hboth
      obtain ⟨unlinked,answer⟩ := removed
      cases unlinked with
      | true =>
        left
        have hanswer : answer = .ok true := hboth.mp rfl
        subst hanswer
        rfl
      | false =>
        right
        refine ⟨rfl,fun usage heq => ?_⟩
        cases answer with
        | error _ => cases heq
        | ok deleted =>
          cases deleted with
          | true => exact absurd (hboth.mpr rfl) Bool.false_ne_true
          | false => simp [Except.map] at heq

/-- What a step of the sweep does. -/
theorem sweepSidecar_step (disk : Disk φ) (mark : GcMark) (config : GcConfig) (now : ℤ)
    (sweep : SidecarSweep) (candidate : SidecarCandidate) :
    sweepSidecar disk mark config now sweep candidate = sweep.keepLive candidate ∧
      sweep.protects mark candidate.key = true ∨
    sweep.protects mark candidate.key = false ∧
      ∃ entry, entry = PendingEntry.observe (sweep.state.pending candidate.key) mark.generation now ∧
      (sweepSidecar disk mark config now sweep candidate = sweep.keepPending candidate entry ∨
        entry.due config now = true ∧
        ((∃ usage, (deleteSidecar disk candidate).2 = .ok (some usage) ∧
          sweepSidecar disk mark config now sweep candidate =
            (sweep.note candidate (deleteSidecar disk candidate).1).countDeleted candidate usage) ∨
          (∀ usage, (deleteSidecar disk candidate).2 ≠ .ok (some usage)) ∧
          sweepSidecar disk mark config now sweep candidate =
            (sweep.note candidate (deleteSidecar disk candidate).1).keepPending candidate entry)) := by
  unfold sweepSidecar
  by_cases hlive : sweep.protects mark candidate.key = true
  · exact .inl ⟨if_pos hlive,hlive⟩
  · refine .inr ⟨by simpa using hlive,_,rfl,?_⟩
    rw [if_neg hlive]
    by_cases hdue : (PendingEntry.observe (sweep.state.pending candidate.key) mark.generation
        now).due config now = true
    · right
      refine ⟨hdue,?_⟩
      simp only [if_pos hdue]
      split
      next usage heq => exact .inl ⟨usage,heq,rfl⟩
      next hother => exact .inr ⟨hother,rfl⟩
    · left
      exact if_neg hdue

/-- What a step of the sweep does to the accounting. -/
theorem sweepSidecar_cases {candidate : SidecarCandidate} (sweep : SidecarSweep)
    (hsync : (disk.removal (.overview candidate.address)).unlinks = true →
      (disk.removal (.overview candidate.address)).syncs = true) :
    ((sweepSidecar disk mark config now sweep candidate).unlinked = sweep.unlinked ∧
      (sweepSidecar disk mark config now sweep candidate).outcome.usage = sweep.outcome.usage ∧
      (sweepSidecar disk mark config now sweep candidate).quota = sweep.quota) ∨
    ((sweepSidecar disk mark config now sweep candidate).unlinked = sweep.unlinked++[candidate] ∧
      (sweepSidecar disk mark config now sweep candidate).outcome.usage =
        sweep.outcome.usage.removeSidecar candidate.usage ∧
      (sweepSidecar disk mark config now sweep candidate).quota =
        sweep.quota.removeSidecar candidate.address candidate.usage) := by
  rcases sweepSidecar_step disk mark config now sweep candidate with
    ⟨hstep,_⟩ | ⟨_,entry,_,hstep | ⟨_,⟨usage,hanswer,hstep⟩ | ⟨hanswer,hstep⟩⟩⟩
  · rw [hstep]
    exact .inl ⟨rfl,rfl,rfl⟩
  · rw [hstep]
    exact .inl ⟨rfl,rfl,rfl⟩
  · rcases deleteSidecar_cases hsync with hdeleted | ⟨_,hnone⟩
    · right
      rw [hdeleted] at hanswer hstep
      cases hanswer
      rw [hstep]
      exact ⟨rfl,rfl,rfl⟩
    · exact absurd hanswer (hnone usage)
  · rcases deleteSidecar_cases hsync with hdeleted | ⟨hkept,_⟩
    · exact absurd (congrArg Prod.snd hdeleted) (hanswer _)
    · left
      rw [hstep,hkept]
      exact ⟨by simp [SidecarSweep.note,SidecarSweep.keepPending],rfl,rfl⟩

theorem sweep_accounted (mark : GcMark) (config : GcConfig) (now : ℤ) (ledger : Ledger)
    (sweep : SidecarSweep) {candidates : List SidecarCandidate} {locations : List ArtifactLocation}
    (hsync : Syncs disk (candidates.map fun candidate => .overview candidate.address))
    (hn : (candidates.map SidecarCandidate.address).Nodup)
    (hmem : ∀ candidate ∈ candidates, (candidate.address,candidate.usage) ∈ ledger.sidecars ∧
      candidate.address ∉ sweep.unlinked.map SidecarCandidate.address)
    (h : Accounted sweep.outcome sweep.quota
      (ledger.minus (sweep.unlinked.map SidecarCandidate.address) locations)) :
    Accounted (candidates.foldl (sweepSidecar disk mark config now) sweep).outcome
      (candidates.foldl (sweepSidecar disk mark config now) sweep).quota
      (ledger.minus ((candidates.foldl (sweepSidecar disk mark config now) sweep).unlinked.map
        SidecarCandidate.address) locations) := by
  induction candidates generalizing sweep with
  | nil => exact h
  | cons candidate candidates ih =>
    simp only [List.map_cons,List.nodup_cons] at hn
    simp only [List.mem_cons,forall_eq_or_imp] at hmem
    have hrest : Syncs disk (candidates.map fun candidate => .overview candidate.address) :=
      fun location hlocation => hsync location (List.mem_cons_of_mem _ hlocation)
    rw [List.foldl_cons]
    rcases sweepSidecar_cases sweep (hsync (.overview candidate.address) (by simp)) with
      ⟨hunlinked,husage,hquota⟩ | ⟨hunlinked,husage,hquota⟩
    · refine ih _ hrest hn.2 (by rw [hunlinked]; exact hmem.2) ?_
      rw [hunlinked,hquota]
      exact ⟨husage.trans h.usage,h.balanced⟩
    · refine ih _ hrest hn.2 ?_ ?_
      · intro other hother
        have hne : other.address ≠ candidate.address := fun heq =>
          hn.1 (heq ▸ List.mem_map_of_mem hother)
        have hnew := (hmem.2 other hother).2
        simp only [hunlinked,List.map_append,List.map_cons,List.map_nil,List.mem_append,
          List.mem_singleton,not_or]
        exact ⟨(hmem.2 other hother).1,hnew,hne⟩
      · have hin : (candidate.address,candidate.usage) ∈ (ledger.minus
            (sweep.unlinked.map SidecarCandidate.address) locations).sidecars :=
          List.mem_filter.mpr ⟨hmem.1.1,by simpa using hmem.1.2⟩
        rw [hunlinked,hquota,List.map_append,List.map_cons,List.map_nil,
          ← Ledger.minus_dropSidecar]
        refine ⟨?_,h.balanced.removeSidecar hin⟩
        rw [husage,h.usage]
        rfl

/-- The files that a complete call leaves of its inventory. -/
def Inventory.kept (inventory : Inventory) (collection : Collection) : Ledger :=
  inventory.ledger.minus (collection.unlinkedSidecars.map SidecarCandidate.address)
    (collection.unlinkedArtifacts.map ArtifactCandidate.location)

/-- The places of the files of an inventory. -/
def Inventory.locations (inventory : Inventory) : List ArtifactLocation :=
  (inventory.sidecars.map fun candidate => .overview candidate.address) ++
    inventory.artifacts.map ArtifactCandidate.location

/-- A complete call leaves its accounting equal to the files it did not unlink. -/
theorem collectInventory_accounted (disk : Disk φ) (mark : GcMark) (config : GcConfig) (now : ℤ)
    {inventory : Inventory} {places : List ArtifactLocation}
    (hscanned : Scanned places inventory) (hplaces : places.Nodup) (hfits : inventory.ledger.Fits)
    (hsync : Syncs disk inventory.locations) (state : GcState) :
    ∃ quota, (collectInventory disk mark config now inventory state).state.quota = some quota ∧
      Accounted (collectInventory disk mark config now inventory state).outcome quota
        (inventory.kept (collectInventory disk mark config now inventory state)) := by
  have hstart := hscanned.balanced hplaces hfits
  have hartifacts := deleteStale_accounted config now inventory.ledger
    ⟨inventory.outcome,inventory.quotaState,[]⟩
    (fun location hlocation => hsync location (List.mem_append_right _ hlocation))
    (hplaces.sublist hscanned.artifacts)
    (fun artifact hartifact => ⟨List.mem_map.mpr ⟨artifact,hartifact,rfl⟩,by simp⟩)
    ⟨rfl,by simpa using hstart⟩
  have haddresses : (inventory.sidecars.map SidecarCandidate.address).Nodup := by
    have h := hstart.addresses
    simpa [Inventory.ledger,Function.comp_def] using h
  have hsidecars := sweep_accounted mark config now inventory.ledger
    ⟨_,({state with lastAuthoritativeMark := some mark} : GcState).retainSeen
      (inventory.sidecars.map SidecarCandidate.key) config.wallGrace now,_,[]⟩
    (fun location hlocation => hsync location (List.mem_append_left _ hlocation)) haddresses
    (fun candidate hcandidate => ⟨List.mem_map.mpr ⟨candidate,hcandidate,rfl⟩,by simp⟩) hartifacts
  exact ⟨_,rfl,rfl,hsidecars.usage ▸ hsidecars.balanced⟩

end Sweep

end SidecarGc
end PgKronika
