import PgKronika.AnomalyScan
import PgKronika.FloatOrder
import PgKronika.MaximalRuns

/-! The episodes of a profile are its maximal runs above the threshold, each with its first highest
peak. -/
namespace PgKronika
namespace Anomaly

open MaximalRuns FloatOrder

section Episodes

variable {profile : List (Int64 × Scored)} {threshold : Float}

def above (threshold : Float) : Scored → Bool
  | .evaluated e => decide (threshold < e.m.abs)
  | .notEvaluated _ => false

/-- A threshold that is negative or not finite is exceeded by nothing. -/
def exceeds (threshold : Float) (scored : Scored) : Bool :=
  decide (threshold.isFinite ∧ 0 ≤ threshold) && above threshold scored

/-- An episode tells of a run: when it starts and ends, and where its first highest peak is. -/
structure EpisodeOf (profile : List (Int64 × Scored)) (episode : Episode) (first last : ℕ) : Prop where
  start : profile[first]?.map Prod.fst = some episode.start
  stop : profile[last]?.map Prod.fst = some episode.stop
  peak : ∃ k, first ≤ k ∧ k ≤ last ∧ profile[k]? = some (episode.peakTs,.evaluated episode.peak) ∧
    ∀ j, first ≤ j → j ≤ last → ∃ ts e, profile[j]? = some (ts,.evaluated e) ∧
      e.m.abs ≤ episode.peak.m.abs ∧ (j < k → e.m.abs < episode.peak.m.abs)

/-- Episodes tell of the maximal runs of points that match, each of one run and in their order. -/
def ReportsRuns (taken : Scored → Bool) (profile : List (Int64 × Scored))
    (found : List Episode) : Prop :=
  ∃ runs : List (ℕ × ℕ),
    (∀ first last, (first,last) ∈ runs ↔ IsRun (fun p => taken p.2) profile first last) ∧
    (runs.Pairwise fun r r' => r.2+1 < r'.1) ∧
    List.Forall₂ (fun episode r => EpisodeOf profile episode r.1 r.2) found runs

theorem hit_eq_some {scored : Scored} {e : Evaluated} :
    hit threshold scored = some e ↔ scored = .evaluated e ∧ threshold < e.m.abs := by
  cases scored with
  | notEvaluated reason => simp [hit]
  | evaluated e' =>
    by_cases h : threshold < e'.m.abs
    · simp only [hit,if_pos h,Option.some_inj,Scored.evaluated.injEq]
      exact ⟨fun he => ⟨he,he ▸ h⟩,And.left⟩
    · simp only [hit,if_neg h,Scored.evaluated.injEq,reduceCtorEq,false_iff,not_and]
      exact fun he => he ▸ h

theorem above_eq (threshold : Float) (scored : Scored) : above threshold scored = (hit threshold scored).isSome := by
  cases scored with
  | notEvaluated reason => rfl
  | evaluated e => by_cases h : threshold < e.m.abs <;> simp [above,hit,h]

/-- The open episode tells of the open run. -/
def Tracks (profile : List (Int64 × Scored)) (i : ℕ) : Option Episode → Option ℕ → Prop
  | none,none => True
  | some episode,some start => start < i ∧ EpisodeOf profile episode start (i-1)
  | _,_ => False

theorem EpisodeOf.single {i : ℕ} {ts : Int64} {e : Evaluated}
    (hi : profile[i]? = some (ts,.evaluated e)) (hnumber : e.m.abs.isNaN = false) :
    EpisodeOf profile ⟨ts,ts,ts,e⟩ i i where
  start := by rw [hi]; rfl
  stop := by rw [hi]; rfl
  peak := by
    refine ⟨i,le_refl _,le_refl _,hi,fun j hj hj' => ?_⟩
    obtain rfl : j = i := le_antisymm hj' hj
    exact ⟨ts,e,hi,le_self hnumber,fun h => absurd h (lt_irrefl _)⟩

/-- One more point above the threshold: it is the peak only when it is higher than all before. -/
theorem EpisodeOf.extend {i start : ℕ} {ts : Int64} {e : Evaluated} {episode : Episode}
    (h : EpisodeOf profile episode start (i-1)) (hstart : start < i)
    (hi : profile[i]? = some (ts,.evaluated e)) (hnumber : e.m.abs.isNaN = false) :
    EpisodeOf profile (if episode.peak.m.abs < e.m.abs
      then { episode with stop := ts, peak := e, peakTs := ts } else { episode with stop := ts })
      start i := by
  obtain ⟨k,hk,hk',hpeak,hall⟩ := h.peak
  have hstop : profile[i]?.map Prod.fst = some ts := by rw [hi]; rfl
  by_cases hhigher : episode.peak.m.abs < e.m.abs
  · rw [if_pos hhigher]
    refine ⟨h.start,hstop,i,hstart.le,le_refl _,hi,fun j hj hj' => ?_⟩
    by_cases hji : j < i
    · obtain ⟨ts',e',hj'',hle,-⟩ := hall j hj (by omega)
      have hlt := lt_of_le_of_lt hle hhigher
      exact ⟨ts',e',hj'',FloatOrder.le_of_lt hlt,fun _ => hlt⟩
    · obtain rfl : j = i := by omega
      exact ⟨ts,e,hi,le_self hnumber,fun hlt => absurd hlt (lt_irrefl _)⟩
  · rw [if_neg hhigher]
    refine ⟨h.start,hstop,k,hk,by omega,hpeak,fun j hj hj' => ?_⟩
    by_cases hji : j < i
    · exact hall j hj (by omega)
    · obtain rfl : j = i := by omega
      have hpeakNumber : episode.peak.m.abs.isNaN = false := by
        obtain ⟨ts',e',-,hle,-⟩ := hall start (le_refl _) (by omega)
        exact (numbers_of_le hle).2
      exact ⟨ts,e,hi,le_of_not_lt hpeakNumber hnumber hhigher,fun hlt => by omega⟩

/-- The episodes from a point on tell of the runs from there on. -/
theorem episodesFrom_runs {i : ℕ} {l : List (Int64 × Scored)} (hl : profile.drop i = l)
    {current : Option Episode} {start : Option ℕ} (h : Tracks profile i current start) :
    List.Forall₂ (fun episode r => EpisodeOf profile episode r.1 r.2)
      (episodesFrom threshold l current) (runsFrom (fun p => above threshold p.2) i l start) := by
  induction l generalizing i current start with
  | nil =>
    cases current <;> cases start
    · exact .nil
    · cases h
    · cases h
    · exact .cons h.2 .nil
  | cons p l ih =>
    obtain ⟨ts,scored⟩ := p
    have hi : profile[i]? = some (ts,scored) := by
      rw [← Nat.add_zero i,← List.getElem?_drop,hl]
      rfl
    have hrest : profile.drop (i+1) = l := by
      rw [← List.drop_drop,hl]
      rfl
    have habove := above_eq threshold scored
    cases hhit : hit threshold scored with
    | some e =>
      obtain ⟨rfl,hlt⟩ := hit_eq_some.mp hhit
      have hnumber := (numbers_of_lt hlt).2
      rw [hhit,Option.isSome_some] at habove
      cases current with
      | none =>
        cases start with
        | none =>
          simp only [episodesFrom,hhit,runsFrom,habove,if_true]
          exact ih hrest ⟨Nat.lt_succ_self i,.single hi hnumber⟩
        | some start => cases h
      | some episode =>
        cases start with
        | none => cases h
        | some start =>
          simp only [episodesFrom,hhit,runsFrom,habove,if_true]
          exact ih hrest ⟨Nat.lt_succ_of_lt h.1,h.2.extend h.1 hi hnumber⟩
    | none =>
      rw [hhit,Option.isSome_none] at habove
      cases current with
      | none =>
        cases start with
        | none =>
          simp only [episodesFrom,hhit,runsFrom,habove,Bool.false_eq_true,if_false]
          exact ih hrest trivial
        | some start => cases h
      | some episode =>
        cases start with
        | none => cases h
        | some start =>
          simp only [episodesFrom,hhit,runsFrom,habove,Bool.false_eq_true,if_false]
          exact .cons h.2 (ih hrest trivial)

/-- Nothing exceeds infinity. -/
theorem not_infinity_lt (v : Float) : ¬infinity < v := by
  intro h
  obtain ⟨hinf,hv⟩ := numbers_of_lt h
  have hkey : orderKey infinity = toLex (2,toLex (0,0)) := by decide
  rw [lt_iff hinf hv,hkey,orderKey] at h
  revert h
  cases v.toModel.unpack with
  | infinity s => cases s <;> simp [unpackedKey,Prod.Lex.toLex_lt_toLex]
  | notANumber => simp [unpackedKey,Prod.Lex.toLex_lt_toLex]
  | zero s => simp [unpackedKey,Prod.Lex.toLex_lt_toLex]
  | finite s m e hm => cases s <;> simp [unpackedKey,Prod.Lex.toLex_lt_toLex]

theorem above_cutoff (scored : Scored) :
    above (if threshold.isFinite ∧ 0 ≤ threshold then threshold else infinity) scored =
      exceeds threshold scored := by
  by_cases h : threshold.isFinite ∧ 0 ≤ threshold
  · simp [exceeds,h]
  · cases scored with
    | notEvaluated reason => simp [exceeds,above]
    | evaluated e => simp [exceeds,h,above,not_infinity_lt]

/-- The episodes are the maximal runs of points that exceed the threshold. -/
theorem episodes_reportsRuns (profile : List (Int64 × Scored)) (threshold : Float) :
    ReportsRuns (exceeds threshold) profile (episodes profile threshold) := by
  have hopen : Open (fun p => exceeds threshold p.2) profile 0 none := fun k hk => by omega
  refine ⟨runsFrom (fun p => exceeds threshold p.2) 0 profile none,fun first last => ?_,
    runsFrom_apart rfl hopen,?_⟩
  · have hmem := @mem_runsFrom _ _ profile 0 profile none rfl hopen first last
    simpa using hmem
  · have hruns := @episodesFrom_runs profile
      (if threshold.isFinite ∧ 0 ≤ threshold then threshold else infinity) 0 profile rfl none none
      trivial
    simp only [above_cutoff] at hruns
    exact hruns

/-- A single point with no deviation. -/
def sampleProfile : List (Int64 × Scored) := [(0,.evaluated ⟨0,.flat,0,0,0,1,3,20⟩)]

/-- A negative threshold is exceeded by every score, and yet there is no episode. -/
theorem episodes_negative_threshold :
    ¬ReportsRuns (above (-1)) sampleProfile (episodes sampleProfile (-1)) := by
  rintro ⟨runs,hruns,-,hepisodes⟩
  have hnone : episodes sampleProfile (-1) = [] := by decide
  have hfirst : (sampleProfile[0]?.any fun p => above (-1) p.2) = true := by decide
  rw [hnone,List.forall₂_nil_left_iff] at hepisodes
  have hrun : IsRun (fun p : Int64 × Scored => above (-1) p.2) sampleProfile 0 0 :=
    ⟨le_refl _,fun k _ hk => by rwa [Nat.le_zero.mp hk],fun k hk => by omega,rfl⟩
  have hmem := (hruns 0 0).mpr hrun
  rw [hepisodes] at hmem
  cases hmem

end Episodes

end Anomaly
end PgKronika
