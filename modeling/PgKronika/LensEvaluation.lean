import PgKronika.IncidentEngine

/-! The evaluation of lenses under limits. It books the requests that the limits leave room for, and
records a skip when there are more. -/
namespace PgKronika
namespace Incident

open ByteCodec CheckedArith LatchedPrograms

variable {Series Typed : Type}

def IncidentConfig.limits (config : IncidentConfig) : Limits :=
  ⟨config.maxLensEvaluations,config.workLimit,config.outputLimits⟩

def EngineRun.books (run : EngineRun) (findings : List Finding) : Books :=
  ⟨run.lensEvaluations,run.budget.spent,run.outputCounts,findings⟩

/-- A run that has met no limit. -/
structure EngineRun.Ready (limits : Limits) (run : EngineRun) (findings : List Finding) : Prop where
  usable : run.budget.exhausted = false
  workLimit : run.budget.limit = limits.work
  within : (run.books findings).Within limits

/-- A lens reports no limit but one that its sink gave it. -/
def Lens.Honest (lens : Lens Series Typed) : Prop :=
  ∀ cluster series typed context, (lens.evaluate cluster series typed context).ReportsGiven []

theorem booked_injective (lensId : Text) (cap : ConfidenceCap) :
    Function.Injective (SinkRequest.booked lensId cap) := by
  intro a b h
  cases a <;> cases b <;> simp_all [SinkRequest.booked]

section Evaluation

variable (series : Series) (typed : Typed) (cluster : Cluster) (context : EvalContext)

/-- What a lens asks for on a cluster, its evaluation first, while nothing is refused. -/
def Lens.requests (lens : Lens Series Typed) : List EngineRequest :=
  .evaluate lens.id :: (lens.evaluate cluster series typed context).requests.map
    (SinkRequest.booked lens.id lens.confidenceCap)

variable {limits : Limits} {run : EngineRun} {findings : List Finding}

/-- The requests that the limits leave room for. -/
def granted (limits : Limits) : Books → List EngineRequest → List EngineRequest :=
  affordable Books.add (Books.Within limits)

theorem admit_granted {config : IncidentConfig} (lensId : Text)
    (h : run.Ready config.limits findings)
    (hfits : ((run.books findings).add (.evaluate lensId)).Within config.limits) :
    ∃ next, admitLensEvaluation lensId config.maxLensEvaluations run = (next,none) ∧
      next.Ready config.limits findings ∧
        next.books findings = (run.books findings).add (.evaluate lensId) ∧
          next.incidents = run.incidents ∧ next.skipped = run.skipped ∧
            next.complete = run.complete := by
  obtain ⟨hcharged,hspent,hlimit,husable⟩ :=
    @WorkBudget.charge_fits run.budget 1 h.usable (h.workLimit.symm ▸ hfits.work)
  have hevaluations : ¬config.maxLensEvaluations < saturatingAdd run.lensEvaluations 1 :=
    not_lt.mpr hfits.evaluations
  have hadmission : admitLensEvaluation lensId config.maxLensEvaluations run =
      ({ run with
        budget := (run.budget.charge 1).1
        lensEvaluations := saturatingAdd run.lensEvaluations 1 },none) := by
    simp [admitLensEvaluation,hevaluations,hcharged]
  refine ⟨_,hadmission,?_,?_,rfl,rfl,rfl⟩
  · refine ⟨husable,hlimit.trans h.workLimit,hfits.evaluations,?_,h.within.findings,
      h.within.evidenceRows,h.within.outputBytes⟩
    exact (le_of_eq hspent).trans hfits.work
  · simp [EngineRun.books,Books.add,hspent]

theorem admit_refused {config : IncidentConfig} (lensId : Text)
    (h : run.Ready config.limits findings)
    (hexceeds : ¬((run.books findings).add (.evaluate lensId)).Within config.limits) :
    ∃ next skip, admitLensEvaluation lensId config.maxLensEvaluations run = (next,some skip) ∧
      next.books findings = run.books findings ∧ next.incidents = run.incidents := by
  by_cases hevaluations : config.maxLensEvaluations < saturatingAdd run.lensEvaluations 1
  · exact ⟨_,_,if_pos hevaluations,rfl,rfl⟩
  · have hwork : ¬run.budget.spent+1 ≤ run.budget.limit := by
      intro hfits
      rw [h.workLimit] at hfits
      exact hexceeds ⟨not_lt.mp hevaluations,hfits,h.within.findings,h.within.evidenceRows,
        h.within.outputBytes⟩
    obtain ⟨hcharged,hspent⟩ := WorkBudget.charge_exceeds h.usable hwork
    have hadmission : admitLensEvaluation lensId config.maxLensEvaluations run =
        ({ run with budget := (run.budget.charge 1).1 },
          some ⟨some lensId,.work,saturatingAdd (run.budget.charge 1).1.spent 1,
            (run.budget.charge 1).1.limit⟩) := by
      simp [admitLensEvaluation,hevaluations,hcharged]
    refine ⟨_,_,hadmission,?_,rfl⟩
    simp [EngineRun.books,hspent]

/-- What the evaluation of lenses leaves: the granted requests are booked, and a skip is recorded
just when there are more. -/
structure Evaluated (limits : Limits) (requests : List EngineRequest) (findings : List Finding)
    (run : EngineRun) (result : ClusterRun) : Prop where
  booked : result.run.books result.findings =
    (granted limits (run.books findings) requests).foldl Books.add (run.books findings)
  incidents : result.run.incidents = run.incidents
  whole : result.complete = true → granted limits (run.books findings) requests = requests ∧
    result.run.Ready limits result.findings ∧ result.run.skipped = run.skipped ∧
      result.run.complete = run.complete
  cut : result.complete = false → granted limits (run.books findings) requests ≠ requests ∧
    result.run.skipped ≠ [] ∧ result.run.complete = false

/-! Granted requests of a lens and of those after it. -/

section Granted

variable {books : Books} {request : EngineRequest} {first rest : List EngineRequest}

theorem granted_cons (hfits : (books.add request).Within limits) :
    granted limits books (request::first) = request :: granted limits (books.add request) first :=
  if_pos hfits

theorem granted_refused (hexceeds : ¬(books.add request).Within limits) :
    granted limits books (request::first) = [] :=
  if_neg hexceeds

theorem granted_whole (hall : granted limits books first = first) :
    granted limits books (first++rest) =
      first ++ granted limits (first.foldl Books.add books) rest :=
  affordable_append_whole hall rest

theorem granted_cut (hpart : granted limits books first ≠ first) :
    granted limits books (first++rest) = granted limits books first :=
  affordable_append_cut hpart rest

theorem length_granted (hpart : granted limits books first ≠ first) :
    (granted limits books first).length < first.length := by
  have hfirst : granted limits books first <+: first := affordable_prefix books first
  refine lt_of_le_of_ne hfirst.length_le fun hlen => ?_
  exact hpart (hfirst.eq_of_length hlen)

end Granted

section Steps

variable {request : EngineRequest} {first rest : List EngineRequest} {result : ClusterRun}

/-- A lens whose requests are all granted is followed by the next one. -/
theorem Evaluated.next {next : EngineRun} {found : List Finding}
    (h : Evaluated limits rest found next result)
    (hfits : ((run.books findings).add request).Within limits)
    (hall : granted limits ((run.books findings).add request) first = first)
    (hbooks : next.books found = first.foldl Books.add ((run.books findings).add request))
    (hincidents : next.incidents = run.incidents) (hskipped : next.skipped = run.skipped)
    (hcomplete : next.complete = run.complete) :
    Evaluated limits (request::(first++rest)) findings run result := by
  have hgranted : granted limits (run.books findings) (request::(first++rest)) =
      request::(first ++ granted limits (next.books found) rest) := by
    rw [granted_cons hfits,granted_whole hall,hbooks]
  constructor
  · rw [hgranted,List.foldl_cons,List.foldl_append,← hbooks]
    exact h.booked
  · exact h.incidents.trans hincidents
  · intro hwhole
    obtain ⟨hrest,hready,hskips,hruns⟩ := h.whole hwhole
    exact ⟨by rw [hgranted,hrest],hready,hskips.trans hskipped,hruns.trans hcomplete⟩
  · intro hcut
    obtain ⟨hrest,hskips,hruns⟩ := h.cut hcut
    refine ⟨fun hall => hrest ?_,hskips,hruns⟩
    rw [hgranted] at hall
    simpa using hall

/-- A lens with a refused request is the last one. -/
theorem Evaluated.stop (hfits : ((run.books findings).add request).Within limits)
    (hpart : granted limits ((run.books findings).add request) first ≠ first)
    (hbooks : result.run.books result.findings =
      (granted limits ((run.books findings).add request) first).foldl Books.add
        ((run.books findings).add request))
    (hincidents : result.run.incidents = run.incidents) (hcomplete : result.complete = false)
    (hskipped : result.run.skipped ≠ []) (hruns : result.run.complete = false) :
    Evaluated limits (request::(first++rest)) findings run result := by
  have hgranted : granted limits (run.books findings) (request::(first++rest)) =
      request :: granted limits ((run.books findings).add request) first := by
    rw [granted_cons hfits,granted_cut hpart]
  constructor
  · rw [hgranted,List.foldl_cons]
    exact hbooks
  · exact hincidents
  · intro hwhole
    cases hwhole.symm.trans hcomplete
  · intro _
    refine ⟨fun hall => ?_,hskipped,hruns⟩
    rw [hgranted] at hall
    have hlength := congrArg List.length (List.cons.inj hall).2
    have hlt := length_granted hpart
    rw [List.length_append] at hlength
    omega

end Steps

theorem evaluateLenses_evaluated {config : IncidentConfig} {lenses : List (Lens Series Typed)}
    (honest : ∀ lens ∈ lenses, lens.Honest) (h : run.Ready config.limits findings) :
    Evaluated config.limits (lenses.flatMap (Lens.requests series typed cluster context)) findings
      run (evaluateLenses series typed config cluster context lenses findings run) := by
  induction lenses generalizing run findings with
  | nil => exact ⟨rfl,rfl,fun _ => ⟨rfl,h,rfl,rfl⟩,fun hcut => by cases hcut⟩
  | cons lens rest ih =>
    rw [List.flatMap_cons,evaluateLenses,Lens.requests,List.cons_append]
    by_cases hfits : ((run.books findings).add (.evaluate lens.id)).Within config.limits
    · obtain ⟨next,hadmission,hready,hbooks,hincidents,hskipped,hcomplete⟩ :=
        admit_granted lens.id h hfits
      rw [hadmission]
      dsimp only
      generalize hprogram : lens.evaluate cluster series typed context = program
      have hhonest : program.ReportsGiven [] :=
        hprogram ▸ honest lens (List.mem_cons_self ..) cluster series typed context
      generalize hsink : (⟨findings,next.budget,next.outputCounts,config.outputLimits,none,lens.id,
        lens.confidenceCap⟩ : FindingSink) = sink
      have hopen : sink.Ready config.limits next.lensEvaluations lens.id lens.confidenceCap := by
        subst hsink
        exact ⟨rfl,hready.usable,hready.workLimit,rfl,rfl,rfl,hready.within⟩
      have hsinkBooks : sink.books next.lensEvaluations =
          (run.books findings).add (.evaluate lens.id) := by
        subst hsink
        exact hbooks
      have hmap : granted config.limits ((run.books findings).add (.evaluate lens.id))
          (program.requests.map (SinkRequest.booked lens.id lens.confidenceCap)) = _ :=
        affordable_map _ _ program.requests
      have hbooked := FindingSink.serve_keeps.books_serveAll FindingSink.serve_latched hopen
        program.requests
      rw [hsinkBooks,← List.foldl_map,← hmap] at hbooked
      rw [FindingSink.serve_latched.report_or hhonest,
        FindingSink.serve_latched.run_state program sink]
      have hserved := FindingSink.serve_keeps.refusal_serveAll FindingSink.serve_latched hopen
        program.requests
      rw [hsinkBooks] at hserved
      rcases hserved with ⟨hall,hlast⟩ | ⟨hpart,hrefused⟩
      · have hwhole := hmap.trans (congrArg _ hall)
        rw [hwhole] at hbooked
        rw [hlast.calm]
        exact .next (ih (fun later hlater => honest later (List.mem_cons_of_mem _ hlater))
          ⟨hlast.usable,hlast.workLimit,hlast.within⟩) hfits hwhole hbooked hincidents hskipped
            hcomplete
      · obtain ⟨hit,hhit⟩ := Option.ne_none_iff_exists'.mp hrefused
        rw [hhit]
        refine .stop hfits (fun hall => hpart ?_) hbooked hincidents rfl (by simp [EngineRun.skip]) rfl
        rw [hmap] at hall
        exact List.map_injective_iff.mpr (booked_injective _ _) hall
    · obtain ⟨next,skip,hadmission,hbooks,hincidents⟩ := admit_refused lens.id h hfits
      rw [hadmission]
      refine ⟨?_,hincidents,fun hwhole => Bool.noConfusion hwhole,fun _ => ?_⟩
      · rw [granted_refused hfits]
        exact hbooks
      · rw [granted_refused hfits]
        exact ⟨by simp,by simp [EngineRun.skip],rfl⟩

end Evaluation

end Incident

end PgKronika
