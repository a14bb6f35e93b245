import PgKronika.FindingSink

/-! The incident engine. It evaluates the lenses of every cluster until a limit is met. -/
namespace PgKronika
namespace Incident

open ByteCodec CheckedArith LatchedPrograms

structure SectionColumn where
  sectionName : Text
  column : Text
  deriving DecidableEq

inductive ClockRelation
  | simultaneous | unknown
  deriving DecidableEq

structure EvalContext where
  incidentStartUs : Int64
  incidentEndUs : Int64
  clockRelation : ClockRelation

/-- A lens, deterministic in what it reads and seen through its sink alone. -/
structure Lens (Series Typed : Type) where
  id : Text
  inputs : List SectionColumn
  confidenceCap : ConfidenceCap
  evaluate : Cluster → Series → Typed → EvalContext →
    Program SinkRequest LimitHit (Option LimitHit)

structure IncidentConfig where
  epsilonUs : Int64
  maxClusterSpanUs : Int64
  clockRelation : ClockRelation
  workLimit : ℕ
  maxEpisodes : ℕ
  maxClusters : ℕ
  maxKeyBytes : ℕ
  maxTotalKeyBytes : ℕ
  maxLensEvaluations : ℕ
  maxFindings : ℕ
  maxEvidenceRows : ℕ
  maxOutputBytes : ℕ

structure IncidentReport where
  key : Bytes
  startUs : Int64
  endUs : Int64
  members : List EpisodeRefV1
  findings : List Finding
  evaluationComplete : Bool

structure EngineSkip where
  lensId : Option Text
  limit : LimitHit
  deriving DecidableEq

structure EngineOutcome where
  incidents : List IncidentReport
  spanSplits : ℕ
  complete : Bool
  skipped : List EngineSkip
  evaluatedLensIds : Finset Text

inductive AnalyzeError
  | episodeLimit (observed limit : ℕ)
  | clusterLimit (observed limit : ℕ)
  | duplicateLensId (lensId : Text)
  | key (error : KeyTooLarge)
  | keyBudget (observed limit : ℕ)
  | cluster (error : ClusterError)

/-! Which lenses read a cluster. -/

def indexInputs (lens : ℕ) (index : Text → List ℕ) (inputs : List SectionColumn) : Text → List ℕ :=
  inputs.foldl (fun index input =>
    if (index input.sectionName).getLast? = some lens then index
    else Function.update index input.sectionName (index input.sectionName ++ [lens])) index

def sectionIndex (lensInputs : List (List SectionColumn)) : Text → List ℕ :=
  lensInputs.zipIdx.foldl (fun index entry => indexInputs entry.2 index entry.1) fun _ => []

/-- In ascending order, each once. -/
def candidateLenses (index : Text → List ℕ) (sections : List Text) : List ℕ :=
  (sections.flatMap index).toFinset.sort (· ≤ ·)

def Cluster.sections (cluster : Cluster) : List Text :=
  cluster.members.map fun member => ⟨member.logicalSection⟩

def duplicateLensId : List Text → List Text → Option Text
  | _,[] => none
  | seen,id::ids => if id ∈ seen then some id else duplicateLensId (id::seen) ids

def prepareClusters (episodes : List EpisodeRefV1) (config : IncidentConfig) :
    Except AnalyzeError ClusterOutcome := do
  refuse (.episodeLimit episodes.length config.maxEpisodes) (config.maxEpisodes < episodes.length)
  let clustered ← (clusterEpisodes episodes config.epsilonUs config.maxClusterSpanUs).mapError
    .cluster
  refuse (.clusterLimit clustered.clusters.length config.maxClusters)
    (config.maxClusters < clustered.clusters.length)
  .ok clustered

/-! Evaluation. -/

/-- What one run has spent and found. -/
structure EngineRun where
  budget : WorkBudget
  outputCounts : OutputCounts
  lensEvaluations : ℕ
  incidents : List IncidentReport
  skipped : List EngineSkip
  complete : Bool
  keyBytes : ℕ
  evaluatedLensIds : Finset Text

def EngineRun.start (config : IncidentConfig) : EngineRun :=
  ⟨.new config.workLimit,⟨0,0,0⟩,0,[],[],true,0,∅⟩

def EngineRun.skip (run : EngineRun) (skip : EngineSkip) : EngineRun :=
  { run with skipped := run.skipped ++ [skip], complete := false }

/-- One evaluation is counted and charged, or nothing is. -/
def admitLensEvaluation (lensId : Text) (evaluationLimit : ℕ) (run : EngineRun) :
    EngineRun × Option EngineSkip :=
  let observed := saturatingAdd run.lensEvaluations 1
  if evaluationLimit < observed then
    (run,some ⟨some lensId,.lensEvaluations,observed,evaluationLimit⟩)
  else
    let charged := run.budget.charge 1
    if charged.2 then ({ run with budget := charged.1, lensEvaluations := observed },none)
    else
      ({ run with budget := charged.1 },
        some ⟨some lensId,.work,saturatingAdd charged.1.spent 1,charged.1.limit⟩)

variable {Series Typed : Type}

section Engine

variable (series : Series) (typed : Typed) (lenses : List (Lens Series Typed))
  (config : IncidentConfig)

def IncidentConfig.outputLimits : OutputLimits :=
  ⟨config.maxFindings,config.maxEvidenceRows,config.maxOutputBytes⟩

/-- The findings of a cluster while its lenses are evaluated, and whether all of them were. -/
structure ClusterRun where
  findings : List Finding
  run : EngineRun
  complete : Bool

/-- The lenses of one cluster, up to the first limit that is met. -/
def evaluateLenses (cluster : Cluster) (context : EvalContext) :
    List (Lens Series Typed) → List Finding → EngineRun → ClusterRun
  | [],findings,run => ⟨findings,run,true⟩
  | lens::rest,findings,run =>
    let admitted := admitLensEvaluation lens.id config.maxLensEvaluations run
    match admitted.2 with
    | some skip => ⟨findings,admitted.1.skip skip,false⟩
    | none =>
      let sink : FindingSink :=
        { findings
          budget := admitted.1.budget
          counts := admitted.1.outputCounts
          limits := config.outputLimits
          hit := none
          lensId := lens.id
          confidenceCap := lens.confidenceCap }
      let evaluated := (lens.evaluate cluster series typed context).run FindingSink.serve sink
      let next : EngineRun :=
        { admitted.1 with
          budget := evaluated.1.budget
          outputCounts := evaluated.1.counts
          evaluatedLensIds := insert lens.id admitted.1.evaluatedLensIds }
      match evaluated.2.or evaluated.1.hit with
      | some limit => ⟨evaluated.1.findings,next.skip ⟨some lens.id,limit⟩,false⟩
      | none => evaluateLenses cluster context rest evaluated.1.findings next

def candidates (cluster : Cluster) : List (Lens Series Typed) :=
  (candidateLenses (sectionIndex (lenses.map Lens.inputs)) cluster.sections).filterMap
    (lenses[·]?)

/-- The canonical bytes of a key. -/
def incidentKey (startUs endUs : Int64) (members : List EpisodeRefV1) (maxBytes : ℕ) :
    Except KeyTooLarge Bytes :=
  let ordered := members.mergeSort EpisodeRefV1.le
  if maxBytes < keyLen ordered then .error ⟨keyLen ordered,maxBytes⟩
  else .ok (keyBytes startUs endUs ordered)

theorem incidentKeyV2_eq (startUs endUs : Int64) (members : Vec EpisodeRefV1) (maxBytes : ℕ) :
    incidentKeyV2 startUs endUs members maxBytes =
      (incidentKey startUs endUs members.val maxBytes).map fun key =>
        (Sha256.sha256 key).asBytes.take 12 := by
  simp only [incidentKeyV2,incidentKey]
  by_cases hlen : maxBytes < keyLen (members.val.mergeSort EpisodeRefV1.le)
  · simp only [if_pos hlen,Except.map]
  · simp only [if_neg hlen,Except.map]

/-- The key of an incident, if it and all keys so far stay within their limits. -/
def chargeKey (cluster : Cluster) (spent : ℕ) : Except AnalyzeError (Bytes × ℕ) := do
  let key ← (incidentKey cluster.startUs cluster.endUs cluster.members config.maxKeyBytes).mapError
    .key
  let observed ← (checkedAdd spent key.length).elim
    (.error (.keyBudget u64Max config.maxTotalKeyBytes)) .ok
  refuse (.keyBudget observed config.maxTotalKeyBytes) (config.maxTotalKeyBytes < observed)
  .ok (key,observed)

def IncidentReport.of (cluster : Cluster) (key : Bytes) (findings : List Finding) (complete : Bool) :
    IncidentReport :=
  ⟨key,cluster.startUs,cluster.endUs,cluster.members,sortFindings findings,complete⟩

def evaluateCluster (cluster : Cluster) (run : EngineRun) : ClusterRun :=
  evaluateLenses series typed config cluster
    ⟨cluster.startUs,cluster.endUs,config.clockRelation⟩ (candidates lenses cluster) [] run

/-- The clusters in order, up to the first that is not complete. -/
def analyzeClusters : List Cluster → EngineRun → Except AnalyzeError EngineRun
  | [],run => .ok run
  | cluster::rest,run => do
    let evaluated := evaluateCluster series typed lenses config cluster run
    let charged ← chargeKey config cluster run.keyBytes
    let next : EngineRun :=
      { evaluated.run with
        keyBytes := charged.2
        incidents := evaluated.run.incidents ++
          [.of cluster charged.1 evaluated.findings evaluated.complete] }
    if evaluated.complete then analyzeClusters rest next else .ok next

/-- The clusters of a request and the run over them. -/
def analyzeRun (episodes : List EpisodeRefV1) : Except AnalyzeError (ClusterOutcome × EngineRun) := do
  let clustered ← prepareClusters episodes config
  match duplicateLensId [] (lenses.map Lens.id) with
  | some lensId => .error (.duplicateLensId lensId)
  | none =>
    (analyzeClusters series typed lenses config clustered.clusters (.start config)).map fun run =>
      (clustered,run)

def EngineRun.outcome (run : EngineRun) (spanSplits : ℕ) : EngineOutcome :=
  ⟨run.incidents,spanSplits,run.complete,run.skipped,run.evaluatedLensIds⟩

def analyze (episodes : List EpisodeRefV1) : Except AnalyzeError EngineOutcome :=
  (analyzeRun series typed lenses config episodes).map fun found => found.2.outcome found.1.spanSplits

end Engine

end Incident

end PgKronika
