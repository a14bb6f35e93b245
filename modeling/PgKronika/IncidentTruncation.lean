import PgKronika.LensEvaluation

/-! What limits do to an analysis: its incidents are those of the unlimited one, up to the cluster in
which a limit is met. -/
namespace PgKronika
namespace Incident

open ByteCodec CheckedArith LatchedPrograms

variable {Series Typed : Type}

/-! The findings of granted requests, and what they count for. -/

def EngineRequest.finding : EngineRequest → Option Finding
  | .emit lensId cap draft => some (.fromDraft lensId cap draft)
  | _ => none

theorem foldl_add_findings (requests : List EngineRequest) (books : Books) :
    (requests.foldl Books.add books).findings =
      books.findings ++ requests.filterMap EngineRequest.finding := by
  induction requests generalizing books with
  | nil => simp
  | cons request requests ih =>
    rw [List.foldl_cons,ih]
    cases request with
    | evaluate lensId => rfl
    | charge points => rfl
    | emit lensId cap draft => simp [Books.add,EngineRequest.finding]

theorem finding_supported {requests : List EngineRequest} {finding : Finding}
    (h : finding ∈ requests.filterMap EngineRequest.finding) : finding.Supported := by
  obtain ⟨request,-,hfinding⟩ := List.mem_filterMap.mp h
  cases request with
  | evaluate lensId => cases hfinding
  | charge points => cases hfinding
  | emit lensId cap draft =>
    cases hfinding
    exact fromDraft_supported lensId cap draft

def Finding.outputBytes (finding : Finding) : ℕ :=
  saturatingSum 512 [finding.lensId.len,identityJsonUpperBound finding.scope.identity,
    saturatingSum 0 (finding.evidence.map Evidence.outputBytes)]

/-- The findings, their evidence items and their bytes, counted in 64 bits. -/
def tally (findings : List Finding) : OutputCounts :=
  { findings := min findings.length u64Max
    evidenceRows := min (findings.map fun finding => finding.evidence.length).sum u64Max
    outputBytes := min (findings.map Finding.outputBytes).sum u64Max }

theorem tally_perm {first second : List Finding} (h : first.Perm second) :
    tally first = tally second := by
  simp only [tally,h.length_eq,(h.map _).sum_eq]

theorem tally_emit (found : List Finding) (lensId : Text) (cap : ConfidenceCap)
    (draft : FindingDraft) (books : Books) (h : books.counts = tally found) :
    (books.add (.emit lensId cap draft)).counts =
      tally (found ++ [Finding.fromDraft lensId cap draft]) := by
  have hbytes : (Finding.fromDraft lensId cap draft).outputBytes =
      draft.outputBytesUpperBound lensId := rfl
  have hrows : (Finding.fromDraft lensId cap draft).evidence = draft.evidence := rfl
  simp only [Books.add,h,tally,saturatingAdd,List.length_append,List.length_singleton,
    List.map_append,List.map_singleton,List.sum_append,List.sum_singleton,hbytes,hrows]
  congr 1 <;> omega

theorem foldl_add_counts (found : List Finding) (requests : List EngineRequest) (books : Books)
    (h : books.counts = tally found) :
    (requests.foldl Books.add books).counts =
      tally (found ++ requests.filterMap EngineRequest.finding) := by
  induction requests generalizing books found with
  | nil => simpa using h
  | cons request requests ih =>
    rw [List.foldl_cons]
    cases request with
    | evaluate lensId => exact ih found _ h
    | charge points => exact ih found _ h
    | emit lensId cap draft =>
      rw [ih _ _ (tally_emit found lensId cap draft books h)]
      simp [EngineRequest.finding]

/-! What the clusters of a run should come to. -/

/-- A cluster with the findings that its lenses emit before a limit is met. -/
structure Emission where
  cluster : Cluster
  findings : List Finding
  complete : Bool

section Clusters

variable (series : Series) (typed : Typed) (lenses : List (Lens Series Typed))
  (config : IncidentConfig)

def clusterRequests (cluster : Cluster) : List EngineRequest :=
  (candidates lenses cluster).flatMap (Lens.requests series typed cluster
    ⟨cluster.startUs,cluster.endUs,config.clockRelation⟩)

/-- The books with the findings of a cluster closed. -/
def Books.turn (books : Books) : Books := { books with findings := [] }

/-- The clusters in order, up to the first whose requests do not all fit the limits. -/
def emissions (limits : Limits) : Books → List Cluster → List Emission
  | _,[] => []
  | books,cluster::rest =>
    let requests := clusterRequests series typed lenses config cluster
    let fits := granted limits books requests
    if fits.length = requests.length then
      ⟨cluster,fits.filterMap EngineRequest.finding,true⟩ ::
        emissions limits (fits.foldl Books.add books).turn rest
    else [⟨cluster,fits.filterMap EngineRequest.finding,false⟩]

/-- The incidents of emissions, with the keys that the limits on keys allow. -/
def keyed : List Emission → ℕ → Except AnalyzeError (List IncidentReport)
  | [],_ => .ok []
  | emission::rest,spent => do
    let charged ← chargeKey config emission.cluster spent
    let incidents ← keyed rest charged.2
    .ok (.of emission.cluster charged.1 emission.findings emission.complete :: incidents)

/-! Emissions under tighter and wider limits. -/

/-- Equal but for the last item of the first list, where the first list may stop. -/
inductive CutShort {α : Type} (shortens : α → α → Prop) : List α → List α → Prop
  | same (items : List α) : CutShort shortens items items
  | last {cut whole : α} (rest : List α) (h : shortens cut whole) :
    CutShort shortens [cut] (whole::rest)
  | cons {cut whole : List α} (item : α) (h : CutShort shortens cut whole) :
    CutShort shortens (item::cut) (item::whole)

structure Emission.Shortens (cut whole : Emission) : Prop where
  cluster : cut.cluster = whole.cluster
  findings : cut.findings <+: whole.findings
  incomplete : cut.complete = false

structure IncidentReport.Shortens (cut whole : IncidentReport) : Prop where
  key : cut.key = whole.key
  startUs : cut.startUs = whole.startUs
  endUs : cut.endUs = whole.endUs
  members : cut.members = whole.members
  findings : ∃ emitted later, cut.findings = sortFindings emitted ∧
    whole.findings = sortFindings (emitted ++ later)
  incomplete : cut.evaluationComplete = false

variable {series typed lenses config}

theorem granted_length_iff {limits : Limits} {books : Books} {requests : List EngineRequest} :
    (granted limits books requests).length = requests.length ↔
      granted limits books requests = requests := by
  constructor
  · intro h
    by_contra hpart
    exact absurd h (length_granted hpart).ne
  · exact congrArg List.length

theorem emissions_cutShort {limits wider : Limits}
    (h : ∀ books : Books, books.Within limits → books.Within wider) (clusters : List Cluster)
    (books : Books) :
    CutShort Emission.Shortens (emissions series typed lenses config limits books clusters)
      (emissions series typed lenses config wider books clusters) := by
  induction clusters generalizing books with
  | nil => exact .same []
  | cons cluster rest ih =>
    simp only [emissions]
    generalize clusterRequests series typed lenses config cluster = requests
    have hmono : granted limits books requests <+: granted wider books requests :=
      affordable_mono h books requests
    have hwide : granted wider books requests <+: requests := affordable_prefix books requests
    by_cases hall : granted limits books requests = requests
    · have hsame : granted wider books requests = requests :=
        hwide.eq_of_length (le_antisymm hwide.length_le
          ((congrArg List.length hall).symm.trans_le hmono.length_le))
      simp only [hall,hsame,if_true]
      exact .cons _ (ih _)
    · rw [if_neg fun hlen => hall (granted_length_iff.mp hlen)]
      by_cases hsame : (granted wider books requests).length = requests.length
      · rw [if_pos hsame]
        exact .last _ ⟨rfl,hmono.filterMap _,rfl⟩
      · rw [if_neg hsame]
        exact .last _ ⟨rfl,hmono.filterMap _,rfl⟩

theorem keyed_cutShort {cut whole : List Emission} (h : CutShort Emission.Shortens cut whole)
    {spent : ℕ} {incidents : List IncidentReport} (hwhole : keyed config whole spent = .ok incidents) :
    ∃ reported, keyed config cut spent = .ok reported ∧
      CutShort IncidentReport.Shortens reported incidents := by
  induction h generalizing spent incidents with
  | same emissions => exact ⟨incidents,hwhole,.same incidents⟩
  | @last cut whole rest hshortens =>
    obtain ⟨charged,hcharged,hrest⟩ := bind_ok hwhole
    obtain ⟨later,-,hincidents⟩ := bind_ok hrest
    cases hincidents
    obtain ⟨after,hafter⟩ := hshortens.findings
    refine ⟨[.of cut.cluster charged.1 cut.findings cut.complete],?_,.last _ ?_⟩
    · rw [keyed,hshortens.cluster,hcharged]
      rfl
    · refine ⟨rfl,?_,?_,?_,⟨cut.findings,after,rfl,?_⟩,hshortens.incomplete⟩
      · exact congrArg Cluster.startUs hshortens.cluster
      · exact congrArg Cluster.endUs hshortens.cluster
      · exact congrArg Cluster.members hshortens.cluster
      · rw [hafter]
        rfl
  | @cons cut whole emission h ih =>
    obtain ⟨charged,hcharged,hrest⟩ := bind_ok hwhole
    obtain ⟨later,hlater,hincidents⟩ := bind_ok hrest
    cases hincidents
    obtain ⟨reported,hreported,hcut⟩ := ih hlater
    refine ⟨_,?_,hcut.cons _⟩
    rw [keyed,hcharged]
    simp only [Except.bind,bind,hreported]

/-! The engine reports the emissions that its limits leave room for. -/

variable (series typed) in
theorem evaluateCluster_evaluated (honest : ∀ lens ∈ lenses, lens.Honest) {run : EngineRun}
    (h : run.Ready config.limits []) (cluster : Cluster) :
    Evaluated config.limits (clusterRequests series typed lenses config cluster) [] run
      (evaluateCluster series typed lenses config cluster run) := by
  apply evaluateLenses_evaluated
  · intro lens hlens
    obtain ⟨index,-,hindex⟩ := List.mem_filterMap.mp hlens
    exact honest lens (List.mem_of_getElem? hindex)
  · exact h

theorem Evaluated.findings {limits : Limits} {requests : List EngineRequest} {run : EngineRun}
    {result : ClusterRun} (h : Evaluated limits requests [] run result) :
    result.findings =
      (granted limits (run.books []) requests).filterMap EngineRequest.finding := by
  have hfound := congrArg Books.findings h.booked
  rw [foldl_add_findings] at hfound
  exact hfound

theorem Evaluated.complete_iff {limits : Limits} {requests : List EngineRequest} {run : EngineRun}
    {result : ClusterRun} (h : Evaluated limits requests [] run result) :
    result.complete = true ↔
      (granted limits (run.books []) requests).length = requests.length := by
  rw [granted_length_iff]
  constructor
  · exact fun hwhole => (h.whole hwhole).1
  · intro hall
    by_contra hcut
    exact (h.cut (Bool.eq_false_of_not_eq_true hcut)).1 hall

/-- A run with one more incident. -/
def EngineRun.report (run : EngineRun) (keyBytes : ℕ) (incident : IncidentReport) : EngineRun :=
  { run with keyBytes, incidents := run.incidents ++ [incident] }

@[simp]
theorem EngineRun.report_books (run : EngineRun) (keyBytes : ℕ) (incident : IncidentReport)
    (findings : List Finding) : (run.report keyBytes incident).books findings = run.books findings :=
  rfl

theorem EngineRun.Ready.report {limits : Limits} {run : EngineRun} {findings : List Finding}
    (h : run.Ready limits findings) (keyBytes : ℕ) (incident : IncidentReport) :
    (run.report keyBytes incident).Ready limits [] :=
  ⟨h.usable,h.workLimit,h.within.evaluations,h.within.work,h.within.findings,h.within.evidenceRows,
    h.within.outputBytes⟩

variable (series typed) in
theorem analyzeClusters_keyed (honest : ∀ lens ∈ lenses, lens.Honest) {run : EngineRun}
    (h : run.Ready config.limits []) (clusters : List Cluster) :
    (analyzeClusters series typed lenses config clusters run).map EngineRun.incidents =
      (keyed config (emissions series typed lenses config config.limits (run.books []) clusters)
        run.keyBytes).map (run.incidents ++ ·) := by
  induction clusters generalizing run with
  | nil => simp [analyzeClusters,emissions,keyed,Except.map]
  | cons cluster rest ih =>
    have hevaluated := evaluateCluster_evaluated series typed honest h cluster
    rw [analyzeClusters,emissions]
    generalize evaluateCluster series typed lenses config cluster run = result at hevaluated
    dsimp only
    have hfindings := hevaluated.findings
    have hcomplete := hevaluated.complete_iff
    cases hkey : chargeKey config cluster run.keyBytes with
    | error e =>
      refine (show _ = Except.error e from rfl).trans ?_
      split_ifs
      · simp only [keyed,hkey,bind,Except.bind,Except.map]
      · simp only [keyed,hkey,bind,Except.bind,Except.map]
    | ok charged =>
      by_cases hwhole : result.complete = true
      · obtain ⟨hall,hready,-,-⟩ := hevaluated.whole hwhole
        rw [if_pos (hcomplete.mp hwhole)]
        simp only [keyed,hkey,bind,Except.bind,hwhole,if_true,← hfindings]
        have hbooks : result.run.books [] =
            ((granted config.limits (run.books []) (clusterRequests series typed lenses config
              cluster)).foldl Books.add (run.books [])).turn := by
          rw [← hevaluated.booked]
          rfl
        refine (ih (hready.report charged.2
          (.of cluster charged.1 result.findings true))).trans ?_
        rw [← hbooks,EngineRun.report_books]
        simp only [EngineRun.report,hevaluated.incidents]
        cases keyed config (emissions series typed lenses config config.limits
          (result.run.books []) rest) charged.2 with
        | error e => rfl
        | ok incidents => simp [Except.map]
      · have hcut : result.complete = false := Bool.eq_false_of_not_eq_true hwhole
        rw [if_neg fun hlen => hwhole (hcomplete.mpr hlen)]
        simp only [keyed,hkey,bind,Except.bind,hcut,Bool.false_eq_true,if_false,Except.map,
          ← hfindings,hevaluated.incidents]

/-! What holds of every run, however its limits cut it. -/

/-- A run within its limits, with what it counted and what it recorded. -/
structure EngineRun.Bounded (limits : Limits) (run : EngineRun) : Prop where
  evaluations : run.lensEvaluations ≤ limits.evaluations
  work : run.budget.spent ≤ limits.work
  counts : run.outputCounts = tally (run.incidents.flatMap IncidentReport.findings)
  findings : run.outputCounts.findings ≤ limits.output.findings
  evidenceRows : run.outputCounts.evidenceRows ≤ limits.output.evidenceRows
  outputBytes : run.outputCounts.outputBytes ≤ limits.output.outputBytes
  incomplete : run.complete = false ↔ run.skipped ≠ []
  supported : ∀ incident ∈ run.incidents, ∀ finding ∈ incident.findings, finding.Supported

theorem Evaluated.bounded {limits : Limits} {requests : List EngineRequest} {run : EngineRun}
    {result : ClusterRun} (h : Evaluated limits requests [] run result)
    (hrun : run.Ready limits []) (hbounded : run.Bounded limits) (cluster : Cluster) (key : Bytes)
    (keyBytes : ℕ) :
    (result.run.report keyBytes (.of cluster key result.findings result.complete)).Bounded limits := by
  have hfindings := h.findings
  have hwithin : (result.run.books result.findings).Within limits := by
    rw [h.booked]
    exact affordable_within hrun.within requests
  have hcounts := foldl_add_counts _ (granted limits (run.books []) requests) (run.books [])
    hbounded.counts
  rw [← h.booked,← hfindings] at hcounts
  constructor
  · exact hwithin.evaluations
  · exact hwithin.work
  · simp only [EngineRun.report,h.incidents,List.flatMap_append,List.flatMap_singleton]
    refine hcounts.trans (tally_perm ?_)
    exact (List.mergeSort_perm result.findings _).symm.append_left _
  · exact hwithin.findings
  · exact hwithin.evidenceRows
  · exact hwithin.outputBytes
  · by_cases hwhole : result.complete = true
    · obtain ⟨-,-,hskipped,hruns⟩ := h.whole hwhole
      simp only [EngineRun.report,hskipped,hruns]
      exact hbounded.incomplete
    · obtain ⟨-,hskipped,hruns⟩ := h.cut (Bool.eq_false_of_not_eq_true hwhole)
      exact ⟨fun _ => hskipped,fun _ => hruns⟩
  · intro incident hincident finding hfinding
    simp only [EngineRun.report,h.incidents,List.mem_append,List.mem_singleton] at hincident
    rcases hincident with hold | rfl
    · exact hbounded.supported incident hold finding hfinding
    · have hfound : finding ∈ result.findings := List.mem_mergeSort.mp hfinding
      rw [hfindings] at hfound
      exact finding_supported hfound

theorem analyzeClusters_bounded (honest : ∀ lens ∈ lenses, lens.Honest) {run final : EngineRun}
    (h : run.Ready config.limits []) (hbounded : run.Bounded config.limits) {clusters : List Cluster}
    (hfinal : analyzeClusters series typed lenses config clusters run = .ok final) :
    final.Bounded config.limits := by
  induction clusters generalizing run with
  | nil =>
    cases hfinal
    exact hbounded
  | cons cluster rest ih =>
    have hevaluated := evaluateCluster_evaluated series typed honest h cluster
    obtain ⟨charged,-,hnext⟩ := bind_ok hfinal
    have hreported := hevaluated.bounded h hbounded cluster charged.1 charged.2
    by_cases hwhole :
        (evaluateCluster series typed lenses config cluster run).complete = true
    · rw [if_pos hwhole] at hnext
      exact ih ((hevaluated.whole hwhole).2.1.report _ _) hreported hnext
    · rw [if_neg hwhole] at hnext
      cases hnext
      exact hreported

end Clusters

/-! The limits of a request and no limits. -/

def IncidentConfig.unlimited (config : IncidentConfig) : IncidentConfig :=
  { config with
    workLimit := u64Max
    maxLensEvaluations := u64Max
    maxFindings := u64Max
    maxEvidenceRows := u64Max
    maxOutputBytes := u64Max }

/-- Limits of 64 bits. -/
structure IncidentConfig.Representable (config : IncidentConfig) : Prop where
  work : config.workLimit ≤ u64Max
  evaluations : config.maxLensEvaluations ≤ u64Max
  findings : config.maxFindings ≤ u64Max
  evidenceRows : config.maxEvidenceRows ≤ u64Max
  outputBytes : config.maxOutputBytes ≤ u64Max

theorem IncidentConfig.Representable.wider {config : IncidentConfig} (h : config.Representable)
    (books : Books) (hwithin : books.Within config.limits) :
    books.Within config.unlimited.limits where
  evaluations := hwithin.evaluations.trans h.evaluations
  work := hwithin.work.trans h.work
  findings := hwithin.findings.trans h.findings
  evidenceRows := hwithin.evidenceRows.trans h.evidenceRows
  outputBytes := hwithin.outputBytes.trans h.outputBytes

theorem EngineRun.start_ready (config : IncidentConfig) :
    (EngineRun.start config).Ready config.limits [] := by
  refine ⟨rfl,rfl,Nat.zero_le _,?_,Nat.zero_le _,Nat.zero_le _,Nat.zero_le _⟩
  simp [EngineRun.start,EngineRun.books,WorkBudget.new,WorkBudget.spent]

theorem EngineRun.start_books (config : IncidentConfig) :
    (EngineRun.start config).books [] = ⟨0,0,⟨0,0,0⟩,[]⟩ := by
  simp [EngineRun.start,EngineRun.books,WorkBudget.new,WorkBudget.spent]

theorem EngineRun.start_bounded (config : IncidentConfig) :
    (EngineRun.start config).Bounded config.limits := by
  have hready := (start_ready config).within
  refine ⟨hready.evaluations,hready.work,rfl,hready.findings,hready.evidenceRows,
    hready.outputBytes,?_,?_⟩
  · simp [EngineRun.start]
  · simp [EngineRun.start]

section Analysis

variable {series : Series} {typed : Typed} {lenses : List (Lens Series Typed)}
  {config : IncidentConfig} {episodes : List EpisodeRefV1}

theorem keyed_unlimited (emissions : List Emission) (spent : ℕ) :
    keyed config.unlimited emissions spent = keyed config emissions spent := by
  induction emissions generalizing spent with
  | nil => rfl
  | cons emission rest ih =>
    have hkey : chargeKey config.unlimited emission.cluster spent =
        chargeKey config emission.cluster spent := rfl
    simp only [keyed,hkey,ih]

theorem emissions_unlimited (limits : Limits) (books : Books) (clusters : List Cluster) :
    emissions series typed lenses config.unlimited limits books clusters =
      emissions series typed lenses config limits books clusters := by
  induction clusters generalizing books with
  | nil => rfl
  | cons cluster rest ih =>
    have hrequests : clusterRequests series typed lenses config.unlimited cluster =
        clusterRequests series typed lenses config cluster := rfl
    simp only [emissions,hrequests,ih]

theorem analyzeRun_ok {found : ClusterOutcome × EngineRun}
    (h : analyzeRun series typed lenses config episodes = .ok found) :
    prepareClusters episodes config = .ok found.1 ∧
      duplicateLensId [] (lenses.map Lens.id) = none ∧
        analyzeClusters series typed lenses config found.1.clusters (.start config) =
          .ok found.2 := by
  obtain ⟨clustered,hclustered,hrest⟩ := bind_ok h
  cases hduplicate : duplicateLensId [] (lenses.map Lens.id) with
  | some lensId =>
    rw [hduplicate] at hrest
    cases hrest
  | none =>
    rw [hduplicate] at hrest
    obtain ⟨run,hrun,hfound⟩ := map_ok hrest
    subst hfound
    exact ⟨hclustered,rfl,hrun⟩

theorem analyzeRun_of {clustered : ClusterOutcome} {run : EngineRun}
    (hclustered : prepareClusters episodes config = .ok clustered)
    (hduplicate : duplicateLensId [] (lenses.map Lens.id) = none)
    (hrun : analyzeClusters series typed lenses config clustered.clusters (.start config) = .ok run) :
    analyzeRun series typed lenses config episodes = .ok (clustered,run) := by
  simp only [analyzeRun,hclustered,hduplicate,hrun,bind,Except.bind,Except.map]

/-- What an analysis under limits comes to, next to the unlimited one. -/
structure Truncated (series : Series) (typed : Typed) (lenses : List (Lens Series Typed))
    (config : IncidentConfig) (clusters : List Cluster) (cut : EngineRun) (whole : EngineOutcome) :
    Prop where
  emitted : keyed config (emissions series typed lenses config config.limits
    ⟨0,0,⟨0,0,0⟩,[]⟩ clusters) 0 = .ok cut.incidents
  truncated : CutShort IncidentReport.Shortens cut.incidents whole.incidents
  bounded : cut.Bounded config.limits

end Analysis

/-! A lens with two findings, of which the limits leave one. -/

def noItems (α : Type) : Vec α := ⟨[],Nat.two_pow_pos 63⟩

def idleName : Text := ⟨noItems UInt8⟩

def idleDraft : FindingDraft := ⟨.coincident,⟨idleName,idleName,[]⟩,[]⟩

def twiceLens : Lens Unit Unit where
  id := idleName
  inputs := [⟨idleName,idleName⟩]
  confidenceCap := .low
  evaluate _ _ _ _ := .ask (.emit idleDraft) fun _ => .ask (.emit idleDraft) fun _ => .done none

def oneFindingConfig : IncidentConfig :=
  { epsilonUs := 0
    maxClusterSpanUs := 10
    clockRelation := .unknown
    workLimit := 10
    maxEpisodes := 1
    maxClusters := 1
    maxKeyBytes := 1000
    maxTotalKeyBytes := 1000
    maxLensEvaluations := 1
    maxFindings := 1
    maxEvidenceRows := 1
    maxOutputBytes := 10000 }

def idleEpisode : EpisodeRefV1 := ⟨noItems UInt8,noItems UInt8,noItems IdentityValue,0,0,0⟩

theorem twiceLens_honest : ∀ lens ∈ [twiceLens], lens.Honest := by
  intro lens hlens cluster series typed context
  cases List.mem_singleton.mp hlens
  intro first second e he
  cases he

theorem twice_analyzed : (analyze () () [twiceLens] oneFindingConfig.unlimited [idleEpisode]).isOk =
    true := by
  decide +kernel

end Incident

end PgKronika
