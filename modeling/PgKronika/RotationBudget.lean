import PgKronika.GreedyPrefix
import PgKronika.Rotation

/-! A fixed-budget pass over a data tree that only the pass changes. -/
namespace PgKronika
open CheckedArith GreedyPrefix

def SegmentArtifacts.bytes (segment : SegmentArtifacts) : ℕ :=
  segment.pgmBytes + segment.ovfBytes.getD 0

/-- The data tree on disk: what a scan reports, with the sizes of the orphan overviews, the
quarantine and the active journal. -/
structure Tree extends LayoutSnapshot where
  overviewBytes : SegmentAddress → ℕ
  quarantine : List QuarantineEntry
  journalBytes : ℕ
  inOrder : segments.Pairwise fun a b => a.address.id.get < b.address.id.get

namespace Tree

variable (tree : Tree)

def dropTemporary (temporary : TemporaryObject) : Tree :=
  {tree with temporaries := tree.temporaries.erase temporary}

def dropOverview (address : SegmentAddress) : Tree :=
  {tree with orphanOverviews := tree.orphanOverviews.erase address}

def dropEvidence (entry : QuarantineEntry) : Tree :=
  {tree with quarantine := tree.quarantine.erase entry}

def findSegment (address : SegmentAddress) : Option SegmentArtifacts :=
  tree.segments.find? fun segment => segment.address = address

def dropSegment (address : SegmentAddress) : Tree :=
  {tree with
    segments := tree.segments.eraseP fun segment => segment.address = address
    inOrder := tree.inOrder.sublist List.eraseP_sublist}

/-- The root of a tree that only its owner changes, with no call failing on what is there. -/
def owner : WriterOwner Tree where
  scan tree := (some tree.toLayoutSnapshot,tree)
  scanQuarantine tree := (some tree.quarantine,tree)
  filesystemUsage tree := (none,tree)
  removeTemporary temporary tree :=
    if temporary.kind = .pgm ∧ temporary ∈ tree.temporaries then
      (some (),tree.dropTemporary temporary)
    else (none,tree)
  removeOrphanOverview address tree :=
    if address ∈ tree.orphanOverviews then
      (some (tree.overviewBytes address),tree.dropOverview address)
    else (some 0,tree)
  removeQuarantineEntry entry tree :=
    if entry.fileType = .regularFile ∧ entry ∈ tree.quarantine then
      (some entry.file.len,tree.dropEvidence entry)
    else (some 0,tree)
  removeSealedSegment address tree :=
    match tree.findSegment address with
    | some segment => (some ⟨segment.pgmBytes,segment.ovfBytes⟩,tree.dropSegment address)
    | none => (some ⟨0,none⟩,tree)

def evidence : List QuarantineEntry :=
  tree.quarantine.filter fun entry => entry.fileType = .regularFile

/-- The deletion order of a pass over the tree. -/
def victims : List Victim :=
  planVictims tree.toLayoutSnapshot (sortQuarantineOldestFirst tree.evidence)

/-- The tree without one victim. -/
def without : Victim → Tree
  | .temporary temporary => tree.dropTemporary temporary
  | .orphanOverview address => tree.dropOverview address
  | .quarantine entry => tree.dropEvidence entry
  | .segment address => tree.dropSegment address

def withoutAll (gone : List Victim) : Tree := gone.foldl without tree

/-- The bytes that a victim takes on disk. -/
def size : Victim → ℕ
  | .temporary temporary => temporary.identity.len
  | .orphanOverview address => tree.overviewBytes address
  | .quarantine entry => entry.file.len
  | .segment address => (tree.findSegment address).elim 0 SegmentArtifacts.bytes

/-- The bytes that its removal reports. -/
def freed : Victim → ℕ
  | .segment address => (tree.findSegment address).elim 0 fun segment =>
      SegmentRemoval.totalBytes ⟨segment.pgmBytes,segment.ovfBytes⟩
  | victim => tree.size victim

/-- The bytes that the counted total holds for a victim: an orphan overview is not counted. -/
def counted : Victim → ℕ
  | .orphanOverview _ => 0
  | victim => tree.size victim

/-- The bytes that the incremental counter holds for a victim. -/
def sized (victim : Victim) : ℕ := if victim.countedInTree then tree.size victim else 0

/-- What a removal takes of the incremental counter. -/
def debit (victim : Victim) : ℕ := if victim.countedInTree then tree.freed victim else 0

/-- The bytes of the files whose sizes the scan reports. -/
def sizedBytes : ℕ :=
  (tree.segments.map SegmentArtifacts.bytes).sum +
    (tree.temporaries.map fun temporary => temporary.identity.len).sum

def evidenceBytes : ℕ := (tree.evidence.map fun entry => entry.file.len).sum

/-- The counted total: segments, temporaries, quarantined evidence and the journal. -/
def countedTotal : ℕ := tree.sizedBytes + tree.journalBytes + tree.evidenceBytes

/-- The rotation once the scan has seeded its counter again. -/
def reseeded (r : Rotation) (now : ℕ) : Rotation :=
  {r with nonJournalBytes := countableBytes tree.toLayoutSnapshot,lastRecount := now}

variable {tree}

theorem find_split {address : SegmentAddress} {segment : SegmentArtifacts}
    (h : tree.findSegment address = some segment) :
    segment.address = address ∧ ∃ before after, tree.segments = before ++ segment::after ∧
      (tree.dropSegment address).segments = before ++ after ∧
        ∀ other ∈ before, other.address ≠ address := by
  obtain ⟨haddr,before,after,hsplit,hbefore⟩ := List.find?_eq_some_iff_append.mp h
  have haddr := of_decide_eq_true haddr
  have hother : ∀ other ∈ before, other.address ≠ address := fun other hmem => by
    simpa using hbefore other hmem
  refine ⟨haddr,before,after,hsplit,?_,hother⟩
  change tree.segments.eraseP _ = _
  rw [hsplit,List.eraseP_append_right _ fun other hmem => by
    simpa using hother other hmem,List.eraseP_cons_of_pos (by simpa using haddr)]

/-- A segment that is a candidate is found, and not as the newest one. -/
theorem find_candidate {address : SegmentAddress}
    (h : ∃ segment ∈ tree.segments.dropLast, segment.address = address) :
    ∃ segment before next after, tree.findSegment address = some segment ∧
      segment.address = address ∧ tree.segments = before ++ segment::next::after ∧
      (tree.dropSegment address).segments = before ++ next::after := by
  obtain ⟨candidate,hmem,haddr⟩ := h
  have hfound : (tree.findSegment address).isSome := List.find?_isSome.mpr
    ⟨candidate,List.dropLast_subset _ hmem,by simpa using haddr⟩
  obtain ⟨segment,hsegment⟩ := Option.isSome_iff_exists.mp hfound
  obtain ⟨hself,before,after,hsplit,hdrop,hbefore⟩ := find_split hsegment
  cases after with
  | nil =>
    rw [hsplit,List.dropLast_concat] at hmem
    exact absurd haddr (hbefore candidate hmem)
  | cons next after => exact ⟨segment,before,next,after,hsegment,hself,hsplit,hdrop⟩

/-- The candidates, the evidence unsorted. -/
theorem victims_perm_listed : tree.victims.Perm
    ((tree.temporaries.filter fun temporary => temporary.kind = .pgm).map .temporary ++
      tree.orphanOverviews.map .orphanOverview ++ tree.evidence.map .quarantine ++
      tree.segments.dropLast.map fun segment => .segment segment.address) := by
  rw [victims,planVictims,← List.dropLast_eq_take]
  exact (((sortQuarantine_perm tree.evidence).map _).append_left _).append_right _

theorem mem_victims {victim : Victim} : victim ∈ tree.victims ↔
    match victim with
    | .temporary temporary => temporary ∈ tree.temporaries ∧ temporary.kind = .pgm
    | .orphanOverview address => address ∈ tree.orphanOverviews
    | .quarantine entry => entry ∈ tree.quarantine ∧ entry.fileType = .regularFile
    | .segment address => ∃ segment ∈ tree.segments.dropLast, segment.address = address := by
  rw [victims_perm_listed.mem_iff]
  cases victim <;> simp [evidence,-List.map_dropLast]

/-- A candidate that goes leaves the other candidates. -/
theorem victims_without {victim : Victim} (h : victim ∈ tree.victims) :
    tree.victims.Perm (victim::(tree.without victim).victims) := by
  refine victims_perm_listed.trans (.trans ?_ (victims_perm_listed.symm.cons victim))
  cases victim with
  | temporary temporary =>
    obtain ⟨hmem,hkind⟩ := mem_victims.1 h
    have hfilter := (List.perm_cons_erase hmem).filter fun temporary => decide (temporary.kind = .pgm)
    rw [List.filter_cons_of_pos (by simpa using hkind)] at hfilter
    exact (((hfilter.map Victim.temporary).append_right _).append_right _).append_right _
  | orphanOverview address =>
    have horphans := (List.perm_cons_erase (mem_victims.1 h)).map Victim.orphanOverview
    refine .trans (((horphans.append_left _).append_right _).append_right _) ?_
    simp only [List.map_cons,List.append_assoc,List.cons_append]
    exact List.perm_middle
  | quarantine entry =>
    obtain ⟨hmem,hregular⟩ := mem_victims.1 h
    have hfilter := (List.perm_cons_erase hmem).filter fun entry =>
      decide (entry.fileType = .regularFile)
    rw [List.filter_cons_of_pos (by simpa using hregular)] at hfilter
    refine .trans (((hfilter.map Victim.quarantine).append_left _).append_right _) ?_
    simp only [List.map_cons,List.append_assoc,List.cons_append]
    rw [← List.append_assoc]
    refine .trans List.perm_middle (.cons _ ?_)
    rw [List.append_assoc]
    rfl
  | segment address =>
    obtain ⟨segment,before,next,after,-,haddr,hsplit,hdrop⟩ := find_candidate (mem_victims.1 h)
    have hbefore : tree.segments.dropLast = before ++ segment::(next::after).dropLast := by
      rw [hsplit,List.dropLast_append_of_ne_nil (List.cons_ne_nil _ _),
        List.dropLast_cons_of_ne_nil (List.cons_ne_nil _ _)]
    have hafter : (tree.dropSegment address).segments.dropLast =
        before ++ (next::after).dropLast := by
      rw [hdrop,List.dropLast_append_of_ne_nil (List.cons_ne_nil _ _)]
    rw [without,hbefore,hafter,List.map_append,List.map_append,List.map_cons,haddr]
    simp only [← List.append_assoc]
    exact List.perm_middle

/-- The dropped segment was the only one of its address. -/
theorem address_ne_of_dropped {address : SegmentAddress} {segment : SegmentArtifacts}
    (h : segment ∈ (tree.dropSegment address).segments) : segment.address ≠ address := by
  cases hfound : tree.findSegment address with
  | none =>
    have hother := List.find?_eq_none.mp hfound segment (List.eraseP_subset h)
    simpa using hother
  | some first =>
    obtain ⟨rfl,before,after,hsplit,hdrop,hbefore⟩ := find_split hfound
    rw [hdrop,List.mem_append] at h
    refine h.elim (hbefore segment) fun hafter heq => ?_
    have hlater := (List.pairwise_cons.mp (List.pairwise_append.mp (hsplit ▸ tree.inOrder)).2.1).1
      segment hafter
    rw [heq] at hlater
    exact Int64.lt_irrefl hlater

theorem findSegment_dropSegment {address other : SegmentAddress} (h : other ≠ address) :
    (tree.dropSegment address).findSegment other = tree.findSegment other := by
  rw [findSegment,findSegment]
  cases hfound : tree.findSegment address with
  | none =>
    change (tree.segments.eraseP _).find? _ = _
    rw [List.eraseP_of_forall_not fun segment hmem => List.find?_eq_none.mp hfound segment hmem]
  | some segment =>
    obtain ⟨haddr,before,after,hsplit,hdrop,-⟩ := find_split hfound
    rw [hdrop,hsplit,List.find?_append,List.find?_append,List.find?_cons_of_neg]
    simpa [haddr] using h.symm

theorem findSegment_without {victim : Victim} {address : SegmentAddress}
    (h : .segment address ∈ (tree.without victim).victims) :
    (tree.without victim).findSegment address = tree.findSegment address := by
  cases victim with
  | segment gone =>
    obtain ⟨segment,hmem,rfl⟩ := mem_victims.1 h
    exact findSegment_dropSegment (address_ne_of_dropped (List.dropLast_subset _ hmem))
  | _ => rfl

/-- The other candidates keep their sizes. -/
theorem size_without {gone victim : Victim} (h : victim ∈ (tree.without gone).victims) :
    (tree.without gone).size victim = tree.size victim := by
  cases victim with
  | segment address => rw [size,size,findSegment_without h]
  | _ => cases gone <;> rfl

theorem freed_without {gone victim : Victim} (h : victim ∈ (tree.without gone).victims) :
    (tree.without gone).freed victim = tree.freed victim := by
  cases victim with
  | segment address => rw [freed,freed,findSegment_without h]
  | _ => exact size_without h

theorem removal_totalBytes (segment : SegmentArtifacts) :
    min segment.bytes u64Max ≤ SegmentRemoval.totalBytes ⟨segment.pgmBytes,segment.ovfBytes⟩ ∧
      SegmentRemoval.totalBytes ⟨segment.pgmBytes,segment.ovfBytes⟩ ≤ segment.bytes := by
  rw [SegmentRemoval.totalBytes,SegmentArtifacts.bytes]
  cases segment.ovfBytes with
  | none => exact ⟨min_le_left _ _,le_refl _⟩
  | some ovf => exact ⟨le_refl _,min_le_left _ _⟩

/-- What a removal reports is the size, but for a saturated sum. -/
theorem freed_bounds (victim : Victim) :
    min (tree.size victim) u64Max ≤ tree.freed victim ∧ tree.freed victim ≤ tree.size victim := by
  cases victim with
  | segment address =>
    rw [freed,size]
    cases tree.findSegment address with
    | none => exact ⟨min_le_left _ _,le_refl _⟩
    | some segment => exact removal_totalBytes segment
  | _ => exact ⟨min_le_left _ _,le_refl _⟩

/-- A candidate is removed, and its bytes are reported. -/
theorem removeVictim_owner {victim : Victim} (h : victim ∈ tree.victims) :
    removeVictim owner victim tree = (some (tree.freed victim),tree.without victim) := by
  cases victim with
  | temporary temporary => simp only [removeVictim,owner,if_pos (mem_victims.1 h).symm]; rfl
  | orphanOverview address => exact if_pos (mem_victims.1 h)
  | quarantine entry => exact if_pos (mem_victims.1 h).symm
  | segment address =>
    obtain ⟨segment,-,-,-,hfound,-,-,-⟩ := find_candidate (mem_victims.1 h)
    simp only [removeVictim,owner,freed,hfound]
    rfl

/-- What a candidate takes of the counted bytes goes with it. -/
theorem bytes_without {victim : Victim} (h : victim ∈ tree.victims) :
    (tree.without victim).sizedBytes + tree.sized victim = tree.sizedBytes ∧
      (tree.without victim).countedTotal + tree.counted victim = tree.countedTotal := by
  suffices hparts : (tree.without victim).sizedBytes + tree.sized victim = tree.sizedBytes ∧
      (tree.without victim).evidenceBytes + tree.counted victim =
        tree.evidenceBytes + tree.sized victim ∧
      (tree.without victim).journalBytes = tree.journalBytes by
    obtain ⟨hsized,hevidence,hjournal⟩ := hparts
    refine ⟨hsized,?_⟩
    rw [countedTotal,countedTotal,hjournal]
    omega
  cases victim with
  | temporary temporary =>
    refine ⟨?_,rfl,rfl⟩
    have hsum := ((List.perm_cons_erase (mem_victims.1 h).1).map fun temporary =>
      temporary.identity.len).sum_eq
    rw [List.map_cons,List.sum_cons] at hsum
    rw [sizedBytes,sizedBytes,hsum,add_assoc,Nat.add_comm (temporary.identity.len)]
    rfl
  | orphanOverview address => exact ⟨rfl,rfl,rfl⟩
  | quarantine entry =>
    refine ⟨rfl,?_,rfl⟩
    obtain ⟨hmem,hregular⟩ := mem_victims.1 h
    have hsum := (((List.perm_cons_erase hmem).filter fun entry =>
      decide (entry.fileType = .regularFile)).map fun entry => entry.file.len).sum_eq
    rw [List.filter_cons_of_pos (by simpa using hregular),List.map_cons,List.sum_cons] at hsum
    exact (Nat.add_comm _ _).trans hsum.symm
  | segment address =>
    obtain ⟨segment,before,next,after,hfound,-,hsplit,hdrop⟩ := find_candidate (mem_victims.1 h)
    have hsize : tree.sized (.segment address) = segment.bytes := by
      change (tree.findSegment address).elim 0 SegmentArtifacts.bytes = _
      rw [hfound]
      rfl
    refine ⟨?_,rfl,rfl⟩
    rw [sizedBytes,sizedBytes,without,hdrop,hsplit,hsize]
    simp only [List.map_append,List.map_cons,List.sum_append,List.sum_cons]
    change _ + (tree.temporaries.map _).sum + _ = _
    omega

theorem newest_without {victim : Victim} (h : victim ∈ tree.victims) :
    (tree.without victim).segments.getLast? = tree.segments.getLast? := by
  cases victim with
  | segment address =>
    obtain ⟨segment,before,next,after,-,-,hsplit,hdrop⟩ := find_candidate (mem_victims.1 h)
    rw [without,hdrop,hsplit,List.getLast?_append_cons,List.getLast?_append_cons,
      List.getLast?_cons_cons]
  | _ => rfl

/-- Candidates that go one after the other leave the others, and take their bytes with them. -/
theorem withoutAll_spec {gone rest : List Victim} (h : (gone ++ rest).Perm tree.victims) :
    rest.Perm (tree.withoutAll gone).victims ∧
      (tree.withoutAll gone).sizedBytes + total tree.sized gone = tree.sizedBytes ∧
      (tree.withoutAll gone).countedTotal + total tree.counted gone = tree.countedTotal ∧
      (tree.withoutAll gone).segments.getLast? = tree.segments.getLast? ∧
      (tree.withoutAll gone).journalBytes = tree.journalBytes := by
  induction gone generalizing tree with
  | nil => exact ⟨h,rfl,rfl,rfl,rfl⟩
  | cons victim gone ih =>
    have hmem : victim ∈ tree.victims := h.subset List.mem_cons_self
    have hrest : (gone ++ rest).Perm (tree.without victim).victims :=
      (h.trans (victims_without hmem)).cons_inv
    obtain ⟨hperm,hsized,hcounted,hnewest,hjournal⟩ := ih hrest
    have hsize : ∀ other ∈ gone, (tree.without victim).size other = tree.size other :=
      fun other hother => size_without (hrest.subset (List.mem_append_left _ hother))
    have hsame : total (tree.without victim).sized gone = total tree.sized gone :=
      total_congr fun other hother => by rw [sized,sized,hsize other hother]
    have hsameCounted : total (tree.without victim).counted gone = total tree.counted gone :=
      total_congr fun other hother => by
        have hother := hsize other hother
        cases other <;> first | rfl | exact hother
    obtain ⟨hbytes,htotal⟩ := bytes_without hmem
    refine ⟨hperm,?_,?_,hnewest.trans (newest_without hmem),hjournal.trans (by cases victim <;> rfl)⟩
    · rw [total_cons,← hbytes,← hsized,hsame]
      exact (Nat.add_left_comm _ _ _).trans (Nat.add_comm _ _)
    · rw [total_cons,← htotal,← hcounted,hsameCounted]
      exact (Nat.add_left_comm _ _ _).trans (Nat.add_comm _ _)

/-- The loop removes the shortest prefix that frees the deficit. -/
theorem deleteVictims_owner {victims : List Victim} (h : victims.Perm tree.victims) (r : Rotation)
    (deficit freedTotal : ℕ) :
    (r.deleteVictims owner tree deficit freedTotal victims).root =
        tree.withoutAll (reach tree.freed deficit victims) ∧
      (r.deleteVictims owner tree deficit freedTotal victims).removed.map Prod.fst =
        reach tree.freed deficit victims ∧
      (r.deleteVictims owner tree deficit freedTotal victims).rotation.nonJournalBytes =
        r.nonJournalBytes - total tree.debit (reach tree.freed deficit victims) := by
  induction victims generalizing tree r deficit freedTotal with
  | nil => exact ⟨rfl,rfl,rfl⟩
  | cons victim victims ih =>
    rw [Rotation.deleteVictims,reach]
    split_ifs with hzero
    · exact ⟨rfl,rfl,rfl⟩
    · have hmem : victim ∈ tree.victims := h.subset List.mem_cons_self
      have hrest : victims.Perm (tree.without victim).victims :=
        (h.trans (victims_without hmem)).cons_inv
      have hfreed : ∀ other ∈ victims, (tree.without victim).freed other = tree.freed other :=
        fun other hother => freed_without (hrest.subset hother)
      rw [removeVictim_owner hmem]
      obtain ⟨hroot,hremoved,hbytes⟩ := ih hrest (r.confirmRemoval victim (tree.freed victim))
        (deficit - tree.freed victim) (saturatingAdd freedTotal (tree.freed victim))
      rw [reach_congr hfreed] at hroot hremoved hbytes
      refine ⟨hroot,congrArg (victim::·) hremoved,hbytes.trans ?_⟩
      have hsame : total (tree.without victim).debit
          (reach tree.freed (deficit - tree.freed victim) victims) =
            total tree.debit (reach tree.freed (deficit - tree.freed victim) victims) :=
        total_congr fun other hother => by
          rw [debit,debit,hfreed other ((reach_starts _ _).subset hother)]
      rw [total_cons,hsame,Rotation.confirmRemoval_nonJournalBytes,debit,Nat.sub_sub]

theorem countableBytes_eq : countableBytes tree.toLayoutSnapshot = min tree.sizedBytes u64Max := by
  rw [countableBytes,saturatingSum_eq,saturatingSum_eq,sizedBytes,saturatingAdd]
  suffices hsegments : min (tree.segments.map fun segment =>
      saturatingAdd segment.pgmBytes (segment.ovfBytes.getD 0)).sum u64Max =
        min (tree.segments.map SegmentArtifacts.bytes).sum u64Max by
    omega
  induction tree.segments with
  | nil => rfl
  | cons segment segments ih =>
    rw [List.map_cons,List.map_cons,List.sum_cons,List.sum_cons,SegmentArtifacts.bytes,saturatingAdd]
    omega

/-- The bytes of the quarantine, as a pass adds them up. -/
theorem quarantineBytes_eq :
    saturatingSum ((sortQuarantineOldestFirst tree.evidence).map fun entry => entry.file.len) =
      min tree.evidenceBytes u64Max := by
  rw [saturatingSum_eq,((sortQuarantine_perm tree.evidence).map fun entry => entry.file.len).sum_eq]
  rfl

/-- The reseeded figure is the counted total, saturated. -/
theorem reseeded_treeBytes {r : Rotation} (h : r.nonJournalBytes = countableBytes tree.toLayoutSnapshot) :
    r.treeBytes tree.journalBytes (min tree.evidenceBytes u64Max) = min tree.countedTotal u64Max := by
  rw [Rotation.treeBytes,h,countableBytes_eq,saturatingAdd,saturatingAdd,countedTotal]
  omega

theorem owner_scanQuarantine : owner.scanQuarantine tree = (some tree.quarantine,tree) := rfl

theorem owner_scan : owner.scan tree = (some tree.toLayoutSnapshot,tree) := rfl

/-- A pass that scans deletes against the excess of the counted total. -/
theorem enforce_scanned {r : Rotation} {budget now : ℕ} (hconfig : r.config = .fixed budget)
    (h : (r.enforce owner tree.journalBytes now tree).scanned = true) :
    r.enforce owner tree.journalBytes now tree =
      (tree.reseeded r now).deleteOldest owner (min tree.countedTotal u64Max) budget tree.victims
        now tree := by
  have hreseeded : (tree.reseeded r now).config = .fixed budget := hconfig
  have hfigure := reseeded_treeBytes (r := tree.reseeded r now) rfl
  rw [reseeded] at hreseeded hfigure
  simp only [Rotation.enforce,owner_scanQuarantine,Rotation.target_fixed _ _ hconfig] at h ⊢
  split_ifs at h ⊢ with hbelow
  simp only [owner_scan,Rotation.target_fixed _ _ hreseeded] at h ⊢
  rw [reseeded,victims,← hfigure,← quarantineBytes_eq]
  rfl

/-- A pass behind its scan removes the shortest prefix that frees the excess. -/
theorem deleteOldest_owner (r : Rotation) (current threshold now : ℕ) :
    (r.deleteOldest owner current threshold tree.victims now tree).root =
        tree.withoutAll (reach tree.freed (current - threshold) tree.victims) ∧
      (r.deleteOldest owner current threshold tree.victims now tree).removed.map Prod.fst =
        reach tree.freed (current - threshold) tree.victims ∧
      (r.deleteOldest owner current threshold tree.victims now tree).rotation.nonJournalBytes =
        r.nonJournalBytes - total tree.debit (reach tree.freed (current - threshold) tree.victims) := by
  rw [Rotation.deleteOldest]
  split_ifs with hzero
  · rw [hzero,reach_zero]
    exact ⟨rfl,rfl,rfl⟩
  · obtain ⟨hroot,hremoved,hbytes⟩ := deleteVictims_owner (List.Perm.refl tree.victims) r
      (current - threshold) 0
    dsimp only
    split_ifs
    · exact ⟨hroot,hremoved,(Rotation.logDegradation_nonJournalBytes _ _).trans hbytes⟩
    · exact ⟨hroot,hremoved,(Rotation.logDegradation_nonJournalBytes _ _).trans hbytes⟩
    · exact ⟨hroot,hremoved,hbytes⟩

end Tree

/-- The order that deletion keeps to: PGM temporaries, orphan overviews, quarantined evidence from
the oldest on, sealed segments in the order of their identities, without the newest. -/
def Tree.DeletionOrder (tree : Tree) (order : List Victim) : Prop :=
  ∃ evidence : List QuarantineEntry, evidence.Perm tree.evidence ∧
    (evidence.Pairwise fun first second => first.age ≤ second.age) ∧
    order = (tree.temporaries.filter fun temporary => temporary.kind = .pgm).map .temporary ++
      tree.orphanOverviews.map .orphanOverview ++ evidence.map .quarantine ++
      tree.segments.dropLast.map fun segment => .segment segment.address

/-- What a fixed-budget pass is for. -/
structure ReachesBudgetMinimally (tree : Tree) (budget : ℕ) (pass : Pass Tree) : Prop where
  removesPrefix : ∃ order, tree.DeletionOrder order ∧ pass.removed.map Prod.fst <+: order
  removesNothingElse : pass.root = tree.withoutAll (pass.removed.map Prod.fst)
  keepsNewest : pass.root.segments.getLast? = tree.segments.getLast?
  keepsJournal : pass.root.journalBytes = tree.journalBytes
  reachesBudget : pass.root.countedTotal ≤ budget ∨ pass.root.victims = []
  minimal : ∀ short last, pass.removed.map Prod.fst = short ++ [last] →
    budget < (tree.withoutAll short).countedTotal
  recounted : pass.rotation.nonJournalBytes = countableBytes pass.root.toLayoutSnapshot

namespace Tree

variable (tree : Tree) (budget : ℕ)

/-- The deficit of a pass over the tree. -/
def deficit : ℕ := min tree.countedTotal u64Max - budget

/-- A prefix of the deletion order that takes the deficit in file sizes, or the whole order. -/
def Enough (gone : List Victim) : Prop :=
  gone <+: tree.victims ∧ (gone = tree.victims ∨ tree.deficit budget ≤ total tree.size gone)

variable {tree budget}

theorem enough_iff_freed {gone : List Victim} : tree.Enough budget gone ↔
    gone <+: tree.victims ∧ (gone = tree.victims ∨ tree.deficit budget ≤ total tree.freed gone) := by
  obtain ⟨hle,hge⟩ := total_capped tree.freed_bounds gone
  have hmax : tree.deficit budget ≤ u64Max := (Nat.sub_le _ _).trans (min_le_right _ _)
  have hsame : tree.deficit budget ≤ total tree.size gone ↔
      tree.deficit budget ≤ total tree.freed gone := by omega
  rw [Enough,hsame]

theorem counted_le (victim : Victim) : tree.counted victim ≤ tree.size victim := by
  cases victim with
  | orphanOverview address => exact Nat.zero_le _
  | _ => exact le_refl _

theorem debit_bounds (victim : Victim) :
    min (tree.sized victim) u64Max ≤ tree.debit victim ∧ tree.debit victim ≤ tree.sized victim := by
  rw [sized,debit]
  split_ifs
  · exact tree.freed_bounds victim
  · exact ⟨min_le_left _ _,le_refl _⟩

theorem victims_deletionOrder : tree.DeletionOrder tree.victims := by
  refine ⟨_,sortQuarantine_perm _,sortQuarantine_sorted _,?_⟩
  rw [victims,planVictims,← List.dropLast_eq_take]

variable (tree budget)

/-- The victims of a pass over the tree. -/
def removal : List Victim := reach tree.freed (tree.deficit budget) tree.victims

variable {tree budget}

theorem removal_enough (tree : Tree) (budget : ℕ) : tree.Enough budget (tree.removal budget) :=
  enough_iff_freed.2 ⟨reach_starts _ _,reach_enough _ _⟩

theorem removal_least {gone : List Victim} (h : tree.Enough budget gone) :
    tree.removal budget <+: gone :=
  reach_least (enough_iff_freed.1 h).1 (enough_iff_freed.1 h).2

/-- What a prefix of the deletion order leaves. -/
theorem withoutAll_start {gone : List Victim} (h : gone <+: tree.victims) :
    ((tree.withoutAll gone).victims = [] ↔ gone = tree.victims) ∧
      (tree.withoutAll gone).sizedBytes + total tree.sized gone = tree.sizedBytes ∧
      (tree.withoutAll gone).countedTotal + total tree.counted gone = tree.countedTotal ∧
      (tree.withoutAll gone).segments.getLast? = tree.segments.getLast? ∧
      (tree.withoutAll gone).journalBytes = tree.journalBytes := by
  obtain ⟨rest,hrest⟩ := h
  obtain ⟨hleft,hparts⟩ := withoutAll_spec (List.Perm.of_eq hrest)
  refine ⟨?_,hparts⟩
  constructor
  · intro hnil
    rw [hnil,List.perm_nil] at hleft
    rw [← hrest,hleft,List.append_nil]
  · rintro rfl
    rw [List.append_right_eq_self.mp hrest] at hleft
    exact List.nil_perm.mp hleft

/-- One victim fewer leaves the counted total above the budget. -/
theorem removal_minimal {short : List Victim} {last : Victim}
    (h : tree.removal budget = short ++ [last]) :
    budget < (tree.withoutAll short).countedTotal := by
  have hshort : total tree.freed short < tree.deficit budget :=
    @reach_minimal _ tree.freed _ tree.victims short last (h ▸ List.prefix_rfl)
  have hfront : short <+: tree.victims :=
    (List.prefix_append short [last]).trans (h ▸ (removal_enough tree budget).1)
  have htotal := (withoutAll_start hfront).2.2.1
  have hsize := (total_capped tree.freed_bounds short).1
  have hcounted : total tree.counted short ≤ total tree.size short := total_le_total counted_le short
  rw [deficit] at hshort
  omega

theorem removal_reaches_iff :
    ((tree.withoutAll (tree.removal budget)).countedTotal ≤ budget ∨
        (tree.withoutAll (tree.removal budget)).victims = []) ↔
      ∀ gone, tree.Enough budget gone →
        gone = tree.victims ∨ tree.countedTotal ≤ budget + total tree.counted gone := by
  obtain ⟨hall,-,htotal,-,-⟩ := withoutAll_start (removal_enough tree budget).1
  rw [hall]
  constructor
  · intro h gone hgone
    have hfront := removal_least hgone
    rcases h with hle | hvictims
    · have hmore : total tree.counted (tree.removal budget) ≤ total tree.counted gone :=
        total_le_of_start hfront
      exact .inr (by omega)
    · rw [hvictims] at hfront
      exact .inl (hgone.1.eq_of_length_le hfront.length_le)
  · intro h
    rcases h _ (removal_enough tree budget) with hvictims | hle
    · exact .inr hvictims
    · exact .inl (by omega)

theorem removal_recounted_iff :
    countableBytes tree.toLayoutSnapshot - total tree.debit (tree.removal budget) =
        countableBytes (tree.withoutAll (tree.removal budget)).toLayoutSnapshot ↔
      tree.sizedBytes ≤ u64Max ∨
        (∃ gone, tree.Enough budget gone ∧ total tree.sized gone = 0) ∨
        ∀ gone, tree.Enough budget gone → total tree.sized gone = tree.sizedBytes := by
  have hnone : (∃ gone, tree.Enough budget gone ∧ total tree.sized gone = 0) ↔
      total tree.sized (tree.removal budget) = 0 := by
    refine ⟨fun ⟨gone,hgone,hzero⟩ => ?_,fun h => ⟨_,removal_enough tree budget,h⟩⟩
    exact Nat.le_zero.mp (hzero ▸ total_le_of_start (removal_least hgone))
  have hall : (∀ gone, tree.Enough budget gone → total tree.sized gone = tree.sizedBytes) ↔
      total tree.sized (tree.removal budget) = tree.sizedBytes := by
    refine ⟨fun h => h _ (removal_enough tree budget),fun h gone hgone => ?_⟩
    have hmore : total tree.sized (tree.removal budget) ≤ total tree.sized gone :=
      total_le_of_start (removal_least hgone)
    have hbytes := (withoutAll_start hgone.1).2.1
    omega
  have hbytes := (withoutAll_start (removal_enough tree budget).1).2.1
  obtain ⟨hdebit,hdebits⟩ := total_capped tree.debit_bounds (tree.removal budget)
  rw [hnone,hall,countableBytes_eq,countableBytes_eq]
  have hmax : 0 < u64Max := by decide
  generalize total tree.debit (tree.removal budget) = debit at *
  generalize total tree.sized (tree.removal budget) = sized at *
  constructor
  · intro h
    omega
  · intro h
    omega

end Tree

theorem fixed_pass_minimal_iff (tree : Tree) (r : Rotation) (budget now : ℕ)
    (hconfig : r.config = .fixed budget)
    (hscanned : (r.enforce Tree.owner tree.journalBytes now tree).scanned = true) :
    ReachesBudgetMinimally tree budget (r.enforce Tree.owner tree.journalBytes now tree) ↔
      (∀ gone, tree.Enough budget gone →
        gone = tree.victims ∨ tree.countedTotal ≤ budget + total tree.counted gone) ∧
      (tree.sizedBytes ≤ u64Max ∨
        (∃ gone, tree.Enough budget gone ∧ total tree.sized gone = 0) ∨
        ∀ gone, tree.Enough budget gone → total tree.sized gone = tree.sizedBytes) := by
  obtain ⟨hroot,hremoved,hbytes⟩ := @Tree.deleteOldest_owner tree (tree.reseeded r now)
    (min tree.countedTotal u64Max) budget now
  rw [← Tree.enforce_scanned hconfig hscanned] at hroot hremoved hbytes
  have hfront := (Tree.removal_enough tree budget).1
  obtain ⟨-,-,-,hnewest,hjournal⟩ := Tree.withoutAll_start hfront
  rw [← Tree.removal_reaches_iff,← Tree.removal_recounted_iff]
  generalize r.enforce Tree.owner tree.journalBytes now tree = pass at *
  change pass.root = tree.withoutAll (tree.removal budget) at hroot
  change _ = tree.removal budget at hremoved
  change _ = countableBytes tree.toLayoutSnapshot - total tree.debit (tree.removal budget) at hbytes
  rw [← hbytes,← hroot]
  constructor
  · exact fun h => ⟨h.reachesBudget,h.recounted⟩
  · rintro ⟨hreaches,hrecounted⟩
    exact ⟨⟨_,tree.victims_deletionOrder,hremoved ▸ hfront⟩,hremoved ▸ hroot,hroot ▸ hnewest,
      hroot ▸ hjournal,hreaches,fun short last h => Tree.removal_minimal (hremoved.symm.trans h),
      hrecounted⟩

/-- Two segments of ten bytes, and ten bytes of an overview without a segment. -/
def mixedTree : Tree where
  segments := [⟨⟨⟨1,segmentIdInRange_one⟩⟩,10,none⟩,⟨⟨⟨2,segmentIdInRange_two⟩⟩,10,none⟩]
  orphanOverviews := [⟨⟨3,segmentIdInRange_three⟩⟩]
  temporaries := []
  overviewBytes := fun _ => 10
  quarantine := []
  journalBytes := 0
  inOrder := by decide

def mixedPass : Pass Tree :=
  (Rotation.new (.fixed 15) mixedTree.toLayoutSnapshot 0).enforce Tree.owner 0 0 mixedTree

theorem fixed_pass_minimal_iff_mixed : ReachesBudgetMinimally mixedTree 15 mixedPass ↔
    (∀ gone, mixedTree.Enough 15 gone →
      gone = mixedTree.victims ∨ mixedTree.countedTotal ≤ 15 + total mixedTree.counted gone) ∧
    (mixedTree.sizedBytes ≤ u64Max ∨
      (∃ gone, mixedTree.Enough 15 gone ∧ total mixedTree.sized gone = 0) ∨
      ∀ gone, mixedTree.Enough 15 gone → total mixedTree.sized gone = mixedTree.sizedBytes) :=
  fixed_pass_minimal_iff mixedTree _ 15 0 rfl (by decide)

/-- The bytes of the overview end the pass, and twenty counted bytes stay with a candidate. -/
theorem orphan_overview_ends_pass : mixedPass.scanned = true ∧ mixedPass.failed = none ∧
    mixedPass.removed.map Prod.fst = [.orphanOverview ⟨⟨3,by decide⟩⟩] ∧
    mixedPass.root.countedTotal = 20 ∧
    mixedPass.root.victims = [.segment ⟨⟨1,by decide⟩⟩] ∧
    ¬ReachesBudgetMinimally mixedTree 15 mixedPass := by
  refine ⟨by decide,by decide,by decide,by decide,by decide,fun h => ?_⟩
  exact absurd h.reachesBudget (by decide)

end PgKronika
