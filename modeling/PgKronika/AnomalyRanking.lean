import PgKronika.AnomalyHits
import PgKronika.AnomalyWindows

/-! The ranking of anomaly hits: cutting the hits within a section, at its end and between sections
leaves the first of all hits, and the counters tell how many are gone. -/
namespace PgKronika
namespace Anomaly

open CheckedArith SortedFront

theorem saturatingAdd_min (a b : ℕ) : saturatingAdd (min a u64Max) b = min (a+b) u64Max := by
  unfold saturatingAdd
  omega

theorem tally_truncated (profile : List (Int64 × Scored)) (counts : ScanCounts) :
    (tally profile counts).episodesTruncated = counts.episodesTruncated := by
  induction profile generalizing counts with
  | nil => rfl
  | cons p profile ih =>
    change (tally profile (counts.tallyOne p.2)).episodesTruncated = _
    rw [ih]
    unfold ScanCounts.tallyOne
    split <;> rfl

section Timelines

variable {scanPositions : List Int64} {params : ScanParams} {limit : ℕ}

/-- All hits of timelines. -/
def allHits (scanPositions : List Int64) (params : ScanParams) :
    List Timeline → Option (List EpisodeHit)
  | [] => some []
  | timeline::rest => do
    let profile ← timeline.profile scanPositions params
    let hits ← allHits scanPositions params rest
    return timeline.hitsOf params profile ++ hits

/-- What is kept of hits has their front, and the rest is counted. -/
structure Kept (limit : ℕ) (all hits : List EpisodeHit) (counts : ScanCounts) : Prop where
  same : front compareHits hits limit = front compareHits all limit
  counted : ∃ removed, counts.episodesTruncated = min removed u64Max ∧
    hits.length+removed = all.length

variable {all hits : List EpisodeHit} {counts : ScanCounts}

theorem Kept.append (h : Kept limit all hits counts) (more : List EpisodeHit) {counts' : ScanCounts}
    (hcounts : counts'.episodesTruncated = counts.episodesTruncated) :
    Kept limit (all ++ more) (hits ++ more) counts' where
  same := front_append_congr h.same more
  counted := by
    obtain ⟨removed,hremoved,hlength⟩ := h.counted
    refine ⟨removed,by rw [hcounts,hremoved],?_⟩
    rw [List.length_append,List.length_append]
    omega

theorem Kept.rankSection (h : Kept limit all hits counts) :
    Kept limit all (rankSection hits limit).1 (counts.truncate (rankSection hits limit).2) := by
  obtain ⟨removed,hremoved,hlength⟩ := h.counted
  unfold Anomaly.rankSection
  split_ifs with hshort
  · refine ⟨h.same,removed,?_,hlength⟩
    rw [ScanCounts.truncate,hremoved,saturatingAdd_min,Nat.add_zero]
  · refine ⟨by rw [front_idem,h.same],removed+(hits.length-limit),?_,?_⟩
    · rw [ScanCounts.truncate,hremoved,saturatingAdd_min]
    · rw [front_length]
      omega

theorem Kept.scanTimeline {state next : ScanCounts × List EpisodeHit}
    {timeline : Timeline} (h : Kept limit all state.2 state.1)
    (hscan : scanTimeline scanPositions params limit state timeline = some next) :
    ∃ profile, timeline.profile scanPositions params = some profile ∧
      Kept limit (all ++ timeline.hitsOf params profile) next.2 next.1 := by
  obtain ⟨profile,hprofile,rfl⟩ := Option.map_eq_some_iff.1 hscan
  refine ⟨profile,hprofile,?_⟩
  have happend := h.append (timeline.hitsOf params profile)
    (tally_truncated profile { state.1 with nodataPoints := state.1.nodataPoints+timeline.nodataPoints })
  dsimp only
  split_ifs
  · exact happend.rankSection
  · exact happend

theorem Kept.foldlM {timelines : List Timeline} {state next : ScanCounts × List EpisodeHit}
    (h : Kept limit all state.2 state.1)
    (hscan : timelines.foldlM (Anomaly.scanTimeline scanPositions params limit) state = some next) :
    ∃ more, allHits scanPositions params timelines = some more ∧
      Kept limit (all ++ more) next.2 next.1 := by
  induction timelines generalizing state all with
  | nil =>
    cases hscan
    exact ⟨[],rfl,by rwa [List.append_nil]⟩
  | cons timeline timelines ih =>
    rw [List.foldlM_cons] at hscan
    obtain ⟨middle,hmiddle,hscan⟩ := Option.bind_eq_some_iff.1 hscan
    obtain ⟨profile,hprofile,hkept⟩ := h.scanTimeline hmiddle
    obtain ⟨more,hmore,hkept⟩ := ih hkept hscan
    refine ⟨timeline.hitsOf params profile ++ more,?_,by rwa [← List.append_assoc]⟩
    rw [allHits,hprofile,hmore]
    rfl

theorem rankSection_length (hits : List EpisodeHit) (limit : ℕ) :
    (rankSection hits limit).1.length ≤ limit := by
  unfold rankSection
  split_ifs with hshort
  · exact hshort
  · rw [front_length]
    exact min_le_left _ _

end Timelines

section Sections

variable {fuel limit : ℕ} {scan : ScanParams}

/-- All hits of a section. -/
def sectionHits (fuel : ℕ) (scan : ScanParams) (input : SectionInput) : Option (List EpisodeHit) :=
  (positions fuel scan).bind fun scanPositions =>
    allHits scanPositions scan (timelines scan input.diffs input.gauges)

theorem scanSection_kept {input : SectionInput} {maxWork work : ℕ} {hits : List EpisodeHit}
    {counts : ScanCounts} (h : scanSection fuel scan input.diffs input.gauges maxWork limit =
      some (.ok (hits,counts,work))) :
    ∃ all, sectionHits fuel scan input = some all ∧ Kept limit all hits counts := by
  obtain ⟨scanPositions,hpositions,h⟩ := Option.bind_eq_some_iff.1 h
  split at h
  · cases h
  · split_ifs at h
    · cases h
    · obtain ⟨scanned,hscanned,heq⟩ := Option.map_eq_some_iff.1 h
      have hempty : Kept limit [] [] { seriesTotal := max input.diffs.length input.gauges.length } :=
        ⟨rfl,0,rfl,rfl⟩
      obtain ⟨all,hall,hkept⟩ := hempty.foldlM hscanned
      cases heq
      refine ⟨all,?_,hkept.rankSection⟩
      rw [sectionHits,hpositions]
      exact hall

/-- All hits of sections, with their names. -/
def scannedHits (fuel : ℕ) (scan : ScanParams) :
    List SectionInput → Option (List (String × EpisodeHit))
  | [] => some []
  | input::rest => do
    let hits ← sectionHits fuel scan input
    let others ← scannedHits fuel scan rest
    return (hits.map fun hit => (input.name,hit)) ++ others

theorem scannedHits_append {sections : List SectionInput} {input : SectionInput}
    {all : List (String × EpisodeHit)} {hits : List EpisodeHit}
    (h : scannedHits fuel scan sections = some all) (hinput : sectionHits fuel scan input = some hits) :
    scannedHits fuel scan (sections ++ [input]) =
      some (all ++ hits.map fun hit => (input.name,hit)) := by
  induction sections generalizing all with
  | nil =>
    cases h
    rw [List.nil_append,List.nil_append,scannedHits,hinput]
    simp [scannedHits]
  | cons first sections ih =>
    rw [scannedHits] at h
    obtain ⟨firstHits,hfirst,h⟩ := Option.bind_eq_some_iff.1 h
    obtain ⟨others,hothers,h⟩ := Option.bind_eq_some_iff.1 h
    cases h
    rw [List.cons_append,scannedHits,hfirst,ih hothers]
    simp

/-- The request so far: the hits are the first of all, the others are counted. -/
structure Ranked (fuel : ℕ) (scan : ScanParams) (limit : ℕ) (done : List SectionInput)
    (state : RankedHits) : Prop where
  hits : ∃ scanned all, scanned.Sublist done ∧ scanned.map SectionInput.name = state.scanned ∧
    scanned.length+state.skipped.length = done.length ∧
    scannedHits fuel scan scanned = some all ∧ state.hits = front compareRanked all limit ∧
    ∃ inSections between, state.sectionEpisodesDropped = min inSections u64Max ∧
      state.globalEpisodesDropped = min between u64Max ∧
      state.hits.length+inSections+between = all.length

theorem ranked_start : Ranked fuel scan limit [] {} :=
  ⟨[],[],.refl _,rfl,rfl,rfl,by simp [front,sortBy],0,0,rfl,rfl,rfl⟩

theorem Ranked.step {done : List SectionInput} {state next : RankedHits} {input : SectionInput}
    (h : Ranked fuel scan limit done state) (hnext : runSection fuel scan limit state input = some next) :
    Ranked fuel scan limit (done ++ [input]) next := by
  obtain ⟨scanned,all,hsub,hnames,hcount,hall,hhits,inSections,between,hin,hbetween,htotal⟩ := h.hits
  obtain ⟨outcome,houtcome,rfl⟩ := Option.map_eq_some_iff.1 hnext
  cases outcome with
  | error reason =>
    refine ⟨scanned,all,hsub.trans (List.sublist_append_left _ _),hnames,?_,hall,hhits,inSections,
      between,hin,hbetween,htotal⟩
    simp only [List.length_append,List.length_singleton]
    omega
  | ok result =>
    obtain ⟨hits,counts,work⟩ := result
    obtain ⟨sectionAll,hsection,hkept⟩ := scanSection_kept houtcome
    obtain ⟨removed,hremoved,hlength⟩ := hkept.counted
    have hnamed : front compareRanked (hits.map fun hit => (input.name,hit)) limit =
        front compareRanked (sectionAll.map fun hit => (input.name,hit)) limit := by
      rw [front_map (compareRanked_section input.name),front_map (compareRanked_section input.name),
        hkept.same]
    have hfront : front compareRanked (state.hits ++ hits.map fun hit => (input.name,hit)) limit =
        front compareRanked (all ++ sectionAll.map fun hit => (input.name,hit)) limit := by
      rw [hhits,front_append,front_of_perm List.perm_append_comm,
        front_append_congr hnamed all,front_of_perm List.perm_append_comm]
    refine ⟨scanned ++ [input],all ++ sectionAll.map fun hit => (input.name,hit),
      List.Sublist.append hsub (.refl _),?_,?_,scannedHits_append hall hsection,hfront,
      inSections+removed,between+(state.hits.length+hits.length-limit),?_,?_,?_⟩
    · simp [RankedHits.rank,hnames]
    · simp only [RankedHits.rank,List.length_append,List.length_singleton]
      omega
    · simp only [RankedHits.rank]
      rw [hin,hremoved]
      unfold saturatingAdd
      omega
    · simp only [RankedHits.rank,Anomaly.rank,List.length_append,List.length_map]
      rw [hbetween,saturatingAdd_min]
    · simp only [RankedHits.rank,Anomaly.rank,front_length,List.length_append,List.length_map]
      omega

theorem Ranked.foldlM {sections : List SectionInput} {state : RankedHits}
    (h : sections.foldlM (runSection fuel scan limit) {} = some state) :
    Ranked fuel scan limit sections state := by
  have hrun : ∀ (rest done : List SectionInput) (s : RankedHits), Ranked fuel scan limit done s →
      rest.foldlM (runSection fuel scan limit) s = some state →
      Ranked fuel scan limit (done ++ rest) state := by
    intro rest
    induction rest with
    | nil =>
      intro done s hs heq
      cases heq
      rwa [List.append_nil]
    | cons input rest ih =>
      intro done s hs heq
      rw [List.foldlM_cons] at heq
      obtain ⟨next,hnext,heq⟩ := Option.bind_eq_some_iff.1 heq
      have hrest := ih (done ++ [input]) next (hs.step hnext) heq
      rwa [List.append_assoc,List.singleton_append] at hrest
  exact hrun sections [] {} ranked_start h

end Sections

section Total

variable {fuel limit : ℕ} {scan : ScanParams}

/-- Points and breaks in the order of time. -/
structure Timeline.Ordered (timeline : Timeline) : Prop where
  points : timeline.points.Pairwise fun a b => a.1 ≤ b.1
  breaks : timeline.breaks.Pairwise (· ≤ ·)

/-- Each timeline of a section is in the order of time. -/
def SectionInput.Ordered (scan : ScanParams) (input : SectionInput) : Prop :=
  ∀ timeline ∈ timelines scan input.diffs input.gauges, timeline.Ordered

theorem foldlM_total {α β : Type} {f : β → α → Option β} {l : List α}
    (h : ∀ b, ∀ a ∈ l, ∃ next, f b a = some next) (b : β) : ∃ last, l.foldlM f b = some last := by
  induction l generalizing b with
  | nil => exact ⟨b,rfl⟩
  | cons a l ih =>
    obtain ⟨next,hnext⟩ := h b a List.mem_cons_self
    obtain ⟨last,hlast⟩ := ih (fun b a ha => h b a (List.mem_cons_of_mem _ ha)) next
    refine ⟨last,?_⟩
    rw [List.foldlM_cons,hnext]
    exact hlast

/-- With fuel for all positions a section is scanned. -/
theorem scanSection_total (hwindow : 0 < scan.window) (hstep : 0 < scan.step) (hfuel : 2^64 ≤ fuel)
    {input : SectionInput} (hordered : input.Ordered scan) (maxWork : ℕ) :
    ∃ result, scanSection fuel scan input.diffs input.gauges maxWork limit = some result := by
  obtain ⟨scanPositions,hpositions,hscan⟩ := positions_isScan hstep
  have htimelines : ∀ (state : ScanCounts × List EpisodeHit),
      ∀ timeline ∈ timelines scan input.diffs input.gauges,
        ∃ next, scanTimeline scanPositions scan limit state timeline = some next := by
    intro state timeline hmem
    obtain ⟨profile,hprofile,-⟩ := scoreSeries_exact (hordered timeline hmem).points
      (hordered timeline hmem).breaks hwindow timeline.score none hscan.starts
    exact ⟨_,Option.map_eq_some_iff.2 ⟨profile,hprofile,rfl⟩⟩
  rw [scanSection,hpositions fuel hfuel,Option.bind_some]
  split
  · exact ⟨_,rfl⟩
  · split_ifs
    · exact ⟨_,rfl⟩
    · obtain ⟨scanned,hscanned⟩ := foldlM_total htimelines
        ({ seriesTotal := max input.diffs.length input.gauges.length },[])
      exact ⟨_,Option.map_eq_some_iff.2 ⟨scanned,hscanned,rfl⟩⟩

/-- A request answers with the first hits of all that the scanned sections have, in the order of the
ranking, whatever the order of the scan. The counters tell how many others there are. -/
theorem run_ranks (hwindow : 0 < scan.window) (hstep : 0 < scan.step) (hfuel : 2^64 ≤ fuel)
    {sections : List SectionInput} (hordered : ∀ input ∈ sections, input.Ordered scan) (limit : ℕ) :
    ∃ outcome scanned all, run fuel scan limit sections = some outcome ∧
      scanned.Sublist sections ∧ scanned.map SectionInput.name = outcome.scanned ∧
      scanned.length+outcome.skipped.length = sections.length ∧
      scannedHits fuel scan scanned = some all ∧
      (∀ sorted : List (String × EpisodeHit), sorted.Perm all → (sorted.Pairwise fun a b => (compareRanked a b).isLE) →
        outcome.hits = sorted.take limit) ∧
      (all.length ≤ u64Max → outcome.sectionEpisodesDropped+outcome.globalEpisodesDropped+
        outcome.hits.length = all.length) := by
  obtain ⟨state,hstate⟩ := foldlM_total (f := runSection fuel scan limit) (l := sections)
    (fun s input hinput => by
      obtain ⟨result,hresult⟩ := scanSection_total hwindow hstep hfuel (hordered input hinput)
        s.remainingWork
      exact ⟨_,Option.map_eq_some_iff.2 ⟨result,hresult,rfl⟩⟩) {}
  obtain ⟨scanned,all,hsub,hnames,hcount,hall,hhits,inSections,between,hin,hbetween,htotal⟩ :=
    (Ranked.foldlM hstate).hits
  have hlast : (state.rank limit).hits = state.hits := by
    rw [RankedHits.rank,Anomaly.rank,hhits,front_idem]
  have hnone : state.hits.length-limit = 0 := by
    rw [hhits,front_length]
    omega
  refine ⟨state.rank limit,scanned,all,?_,hsub,hnames,hcount,hall,fun sorted hperm hsorted => ?_,
    fun hfits => ?_⟩
  · rw [run,hstate]
    rfl
  · rw [hlast,hhits,front,eq_sortBy hperm hsorted]
  · rw [hlast]
    simp only [RankedHits.rank,Anomaly.rank,hnone]
    rw [hin,hbetween]
    unfold saturatingAdd
    omega

def sampleSection : SectionInput :=
  ⟨"s",[],[⟨[.i64 1],[⟨"g",[(1,2),(5,3)],[6],1⟩]⟩],fun _ => 0⟩

theorem sampleSection_ordered : sampleSection.Ordered sampleScan := by
  intro timeline htimeline
  obtain rfl : timeline = gaugeTimeline sampleScan [.i64 1] ⟨"g",[(1,2),(5,3)],[6],1⟩ :=
    List.mem_singleton.1 htimeline
  constructor <;> simp [gaugeTimeline]

theorem run_ranks_sample : ∃ outcome scanned all,
    run (2^64) sampleScan 8 [sampleSection] = some outcome ∧
      scannedHits (2^64) sampleScan scanned = some all ∧
      scanned.length+outcome.skipped.length = 1 := by
  obtain ⟨outcome,scanned,all,hrun,-,-,hcount,hall,-⟩ := @run_ranks (2^64) sampleScan (by decide)
    (by decide) (le_refl _) [sampleSection]
    (fun input hinput => List.mem_singleton.1 hinput ▸ sampleSection_ordered) 8
  exact ⟨outcome,scanned,all,hrun,hall,hcount⟩

end Total

end Anomaly
end PgKronika
