import Mathlib
import PgKronika.HealthCell

/-! The worst point of a bucket. Its place in one order decides, so points in any order, and
points reduced group by group, give the same worst point up to ties. -/
namespace PgKronika

open CheckedArith

section FirstMin

variable {α κ : Type} [LinearOrder κ] {key : α → κ} {l : List α} {a : α}

/-- The first of the least elements. -/
def firstMin (key : α → κ) : List α → Option α
  | [] => none
  | a::l =>
    match firstMin key l with
    | none => some a
    | some b => if key b < key a then some b else some a

theorem firstMin_eq_none : firstMin key l = none ↔ l = [] := by
  cases l with
  | nil => simp [firstMin]
  | cons a l =>
    rw [firstMin]
    cases firstMin key l with
    | none => simp
    | some b => by_cases h : key b < key a <;> simp [h]

theorem firstMin_spec (h : firstMin key l = some a) : a ∈ l ∧ ∀ b ∈ l, key a ≤ key b := by
  induction l generalizing a with
  | nil => cases h
  | cons c l ih =>
    rw [firstMin] at h
    cases hrest : firstMin key l with
    | none =>
      rw [hrest] at h
      cases h
      simp [firstMin_eq_none.mp hrest]
    | some b =>
      rw [hrest] at h
      obtain ⟨hmem,hle⟩ := ih hrest
      dsimp only at h
      split_ifs at h with hlt
      · cases h
        exact ⟨List.mem_cons_of_mem c hmem,List.forall_mem_cons.mpr ⟨hlt.le,hle⟩⟩
      · cases h
        exact ⟨List.mem_cons_self,List.forall_mem_cons.mpr ⟨le_rfl,fun d hd =>
          (not_lt.mp hlt).trans (hle d hd)⟩⟩

end FirstMin

inductive DownsampleError
  | limitExceeded (resource : HealthResource)
  | mixedPolicyAxes
  | pointOutsideBucket
  | conflictingFloorEvidence

structure DownsampledHealthPoint where
  bucket : CoverageSpan
  representative : HealthPoint
  floorEvidence : List FloorEvidence

namespace HealthPoint

def axes (point : HealthPoint) : UInt32 × UInt32 × ProfileTopologyId :=
  (point.healthPolicyVersion,point.reductionSemanticsVersion,point.profileTopologyId)

def hasFloor (point : HealthPoint) : Bool := !point.floorEvidence.isEmpty

/-- The bytes of an identity compare as a list. -/
def factorSetBytes (point : HealthPoint) : List ℕ := point.factorSetId.bytes.map UInt8.toNat

/-- Start, then factor set. -/
def tieOrder (point : HealthPoint) : ℤ ×ₗ List ℕ :=
  toLex (point.interval.lo,point.factorSetBytes)

/-- The least supporting fact, below every fact without any. -/
def leastFact (point : HealthPoint) : WithBot FactId :=
  (point.floorEvidence.map FloorEvidence.supportingFactId).min?

def floorOrder (point : HealthPoint) : ℤ ×ₗ WithBot FactId ×ₗ List ℕ :=
  toLex (point.interval.lo,toLex (point.leastFact,point.factorSetBytes))

def scoreOrder (point : HealthPoint) : ℚ ×ₗ ℤ ×ₗ List ℕ :=
  toLex (point.overallScore.getD 1,point.tieOrder)

end HealthPoint

/-- A point with a floor, else one with a score, else any; the first of the least. -/
def selectWorst (first : HealthPoint) (points : List HealthPoint) : HealthPoint :=
  ((firstMin HealthPoint.floorOrder (points.filter HealthPoint.hasFloor)).or
    (firstMin HealthPoint.scoreOrder (points.filter fun point => point.overallScore.isSome))).getD
      ((firstMin HealthPoint.tieOrder points).getD first)

def downsampleWorst (points : List HealthPoint) (bucket : CoverageSpan) (limits : HealthLimits) :
    Except DownsampleError (Option DownsampledHealthPoint) := do
  refuse (.limitExceeded .downsamplePoints) (limits.maxDownsamplePoints < points.length)
  match points with
  | [] => return none
  | first::_ =>
    refuse .mixedPolicyAxes (∃ point ∈ points, point.axes ≠ first.axes)
    refuse .pointOutsideBucket (∃ point ∈ points,
      point.interval.fromUs < bucket.fromUs ∨ bucket.toUs < point.interval.toUs)
    refuse (.limitExceeded .floorEvidence)
      (limits.maxFloorEvidence < (points.flatMap HealthPoint.floorEvidence).length)
    let allFloors ← (normalizeFloors (points.flatMap HealthPoint.floorEvidence)).mapError
      fun _ => .conflictingFloorEvidence
    return some ⟨bucket,selectWorst first points,allFloors⟩

/-- The one order behind the selection: points with a floor, points with a score, the others. -/
def worstOrder (point : HealthPoint) : ℕ ×ₗ ℚ ×ₗ ℤ ×ₗ WithBot FactId ×ₗ List ℕ :=
  if point.hasFloor then toLex (0,toLex (0,point.floorOrder))
  else
    toLex (if point.overallScore.isSome then 1 else 2,toLex (point.overallScore.getD 0,
      toLex (point.interval.lo,toLex (⊥,point.factorSetBytes))))

/-- The worst of some points. -/
structure WorstOf (points : List HealthPoint) (worst : HealthPoint) : Prop where
  mem : worst ∈ points
  le : ∀ point ∈ points, worstOrder worst ≤ worstOrder point

section Selection

variable {points points' : List HealthPoint} {a b first : HealthPoint}

theorem worstOrder_noFloor (ha : a.hasFloor = false) : worstOrder a =
    toLex (if a.overallScore.isSome then 1 else 2,toLex (a.overallScore.getD 0,
      toLex (a.interval.lo,toLex (⊥,a.factorSetBytes)))) :=
  if_neg (by rw [ha]; exact Bool.false_ne_true)

theorem worstOrder_of_floor (ha : a.hasFloor = true) (hb : b.hasFloor = false) :
    worstOrder a ≤ worstOrder b := by
  rw [worstOrder,if_pos ha,worstOrder_noFloor hb]
  refine (Prod.Lex.toLex_lt_toLex.mpr (.inl ?_)).le
  split_ifs <;> norm_num

theorem worstOrder_floors (ha : a.hasFloor = true) (hb : b.hasFloor = true)
    (h : a.floorOrder ≤ b.floorOrder) : worstOrder a ≤ worstOrder b := by
  rw [worstOrder,worstOrder,if_pos ha,if_pos hb]
  exact Prod.Lex.toLex_le_toLex.mpr (.inr ⟨rfl,Prod.Lex.toLex_le_toLex.mpr (.inr ⟨rfl,h⟩)⟩)

theorem tieOrder_le (h : a.tieOrder ≤ b.tieOrder) :
    (toLex (a.interval.lo,toLex ((⊥ : WithBot FactId),a.factorSetBytes)) :
      ℤ ×ₗ WithBot FactId ×ₗ List ℕ) ≤ toLex (b.interval.lo,toLex (⊥,b.factorSetBytes)) := by
  rcases Prod.Lex.toLex_le_toLex.mp h with hlt | ⟨heq,hle⟩
  · exact Prod.Lex.toLex_le_toLex.mpr (.inl hlt)
  · exact Prod.Lex.toLex_le_toLex.mpr (.inr ⟨heq,Prod.Lex.toLex_le_toLex.mpr (.inr ⟨rfl,hle⟩)⟩)

theorem worstOrder_of_score (ha : a.hasFloor = false) (hb : b.hasFloor = false)
    (hscore : a.overallScore.isSome = true) (hnone : b.overallScore.isSome = false) :
    worstOrder a ≤ worstOrder b := by
  rw [worstOrder_noFloor ha,worstOrder_noFloor hb,hscore,hnone]
  exact Prod.Lex.toLex_le_toLex.mpr (.inl (by norm_num))

theorem worstOrder_scores (ha : a.hasFloor = false) (hb : b.hasFloor = false)
    (hscore : a.overallScore.isSome = true) (hscore' : b.overallScore.isSome = true)
    (h : a.scoreOrder ≤ b.scoreOrder) : worstOrder a ≤ worstOrder b := by
  obtain ⟨x,hx⟩ := Option.isSome_iff_exists.mp hscore
  obtain ⟨y,hy⟩ := Option.isSome_iff_exists.mp hscore'
  rw [HealthPoint.scoreOrder,HealthPoint.scoreOrder,hx,hy] at h
  rw [worstOrder_noFloor ha,worstOrder_noFloor hb,hx,hy]
  refine Prod.Lex.toLex_le_toLex.mpr (.inr ⟨rfl,?_⟩)
  rcases Prod.Lex.toLex_le_toLex.mp h with hlt | ⟨heq,hle⟩
  · exact Prod.Lex.toLex_le_toLex.mpr (.inl hlt)
  · exact Prod.Lex.toLex_le_toLex.mpr (.inr ⟨heq,tieOrder_le hle⟩)

theorem worstOrder_ties (ha : a.hasFloor = false) (hb : b.hasFloor = false)
    (hscore : a.overallScore = none) (hscore' : b.overallScore = none)
    (h : a.tieOrder ≤ b.tieOrder) : worstOrder a ≤ worstOrder b := by
  rw [worstOrder_noFloor ha,worstOrder_noFloor hb,hscore,hscore']
  exact Prod.Lex.toLex_le_toLex.mpr (.inr ⟨rfl,Prod.Lex.toLex_le_toLex.mpr
    (.inr ⟨rfl,tieOrder_le h⟩)⟩)

/-- The selection takes the worst point. -/
theorem selectWorst_spec (hne : points ≠ []) : WorstOf points (selectWorst first points) := by
  rw [selectWorst]
  cases hfloor : firstMin HealthPoint.floorOrder (points.filter HealthPoint.hasFloor) with
  | some worst =>
    obtain ⟨hmem,hle⟩ := firstMin_spec hfloor
    obtain ⟨hmem,hworst⟩ := List.mem_filter.mp hmem
    refine ⟨hmem,fun point hpoint => ?_⟩
    cases hpf : point.hasFloor with
    | false => exact worstOrder_of_floor hworst hpf
    | true => exact worstOrder_floors hworst hpf (hle point (List.mem_filter.mpr ⟨hpoint,hpf⟩))
  | none =>
    have hnofloor : ∀ point ∈ points, point.hasFloor = false := by
      simpa using firstMin_eq_none.mp hfloor
    cases hscored : firstMin HealthPoint.scoreOrder
      (points.filter fun point => point.overallScore.isSome) with
    | some worst =>
      obtain ⟨hmem,hle⟩ := firstMin_spec hscored
      obtain ⟨hmem,hworst⟩ := List.mem_filter.mp hmem
      refine ⟨hmem,fun point hpoint => ?_⟩
      cases hps : point.overallScore.isSome with
      | false => exact worstOrder_of_score (hnofloor _ hmem) (hnofloor _ hpoint) hworst hps
      | true =>
        exact worstOrder_scores (hnofloor _ hmem) (hnofloor _ hpoint) hworst hps
          (hle point (List.mem_filter.mpr ⟨hpoint,hps⟩))
    | none =>
      have hnoscore : ∀ point ∈ points, point.overallScore = none := by
        simpa using firstMin_eq_none.mp hscored
      cases htie : firstMin HealthPoint.tieOrder points with
      | none => exact absurd (firstMin_eq_none.mp htie) hne
      | some worst =>
        obtain ⟨hmem,hle⟩ := firstMin_spec htie
        exact ⟨hmem,fun point hpoint => worstOrder_ties (hnofloor _ hmem) (hnofloor _ hpoint)
          (hnoscore _ hmem) (hnoscore _ hpoint) (hle point hpoint)⟩

/-- Points that tie agree on what is read of them. -/
def TiesAgree {β : Type} (g : HealthPoint → β) (points : List HealthPoint) : Prop :=
  ∀ a ∈ points, ∀ b ∈ points, worstOrder a = worstOrder b → g a = g b

theorem WorstOf.unique {β : Type} {g : HealthPoint → β} (h : WorstOf points a)
    (h' : WorstOf points' b) (hmem : ∀ point, point ∈ points' ↔ point ∈ points)
    (hties : TiesAgree g points) : g a = g b :=
  hties a h.mem b ((hmem b).mp h'.mem)
    (le_antisymm (h.le b ((hmem b).mp h'.mem)) (h'.le a ((hmem a).mpr h.mem)))

/-- What tied points have in common: having a floor or not, and without one their scores. -/
theorem worstOrder_eq (h : worstOrder a = worstOrder b) : a.hasFloor = b.hasFloor ∧
    (a.hasFloor = false → a.overallScore = b.overallScore) := by
  have hrank : ∀ point : HealthPoint, (ofLex (worstOrder point)).1 =
      if point.hasFloor then 0 else if point.overallScore.isSome then 1 else 2 := by
    intro point
    rw [worstOrder]
    split_ifs <;> rfl
  have hfirst : (ofLex (worstOrder a)).1 = (ofLex (worstOrder b)).1 := by rw [h]
  rw [hrank,hrank] at hfirst
  cases ha : a.hasFloor <;> cases hb : b.hasFloor
  · refine ⟨rfl,fun _ => ?_⟩
    rw [worstOrder_noFloor ha,worstOrder_noFloor hb] at h
    have hscore := (Prod.ext_iff.mp (toLex.injective (Prod.ext_iff.mp (toLex.injective h)).2)).1
    rw [ha,hb] at hfirst
    cases hx : a.overallScore <;> cases hy : b.overallScore <;> simp_all
  · cases hx : a.overallScore <;> simp [ha,hb,hx] at hfirst
  · cases hx : b.overallScore <;> simp [ha,hb,hx] at hfirst
  · exact ⟨rfl,fun hfalse => by cases hfalse⟩

/-- Points of one policy that tie have the same state, and without a floor the same score. -/
theorem ties_of_policy {policy : HealthPolicy} {sha : ByteCodec.Bytes → Digest}
    (h : ∀ point ∈ points, ∃ interval factors coverage floors,
      policy.evaluateCell sha interval factors coverage floors = .ok point) :
    TiesAgree HealthPoint.overallState points ∧
      TiesAgree (fun point => if point.hasFloor then none else point.overallScore) points := by
  constructor
  · intro a ha b hb hab
    obtain ⟨hfloor,hscore⟩ := worstOrder_eq hab
    have hstate : ∀ point ∈ points, point.overallState = if point.hasFloor then .critical
        else point.overallScore.elim .unknown policy.stateFromScore := by
      intro point hpoint
      obtain ⟨interval,factors,coverage,floors,heval⟩ := h point hpoint
      have hpoint := evaluateCell_ok heval
      rw [hpoint.state,HealthPoint.hasFloor,normalizeFloors_isEmpty hpoint.floorsKept]
      cases floors.isEmpty <;> rfl
    rw [hstate a ha,hstate b hb,← hfloor]
    cases hf : a.hasFloor with
    | true => rfl
    | false => rw [hscore hf]
  · intro a ha b hb hab
    obtain ⟨hfloor,hscore⟩ := worstOrder_eq hab
    dsimp only
    rw [← hfloor]
    cases hf : a.hasFloor with
    | true => rfl
    | false => rw [hscore hf]

/-- A floor anywhere gives the worst point one. -/
theorem WorstOf.hasFloor (h : WorstOf points a) (hb : b ∈ points) (hfloor : b.hasFloor = true) :
    a.hasFloor = true := by
  by_contra hnot
  have hle := h.le b hb
  rw [worstOrder,worstOrder,if_neg hnot,if_pos hfloor] at hle
  have hlt : (toLex ((0 : ℕ),toLex ((0 : ℚ),b.floorOrder)) : ℕ ×ₗ ℚ ×ₗ _) <
      toLex (if a.overallScore.isSome then 1 else 2,toLex (a.overallScore.getD 0,
        toLex (a.interval.lo,toLex (⊥,a.factorSetBytes)))) := by
    refine Prod.Lex.toLex_lt_toLex.mpr (.inl ?_)
    split_ifs <;> norm_num
  exact absurd hle (not_le.mpr hlt)

end Selection

section Downsample

variable {points points' : List HealthPoint} {bucket : CoverageSpan} {limits : HealthLimits}
  {result : DownsampledHealthPoint} {β : Type} {g : HealthPoint → β}

def allFloors (points : List HealthPoint) : List FloorEvidence :=
  points.flatMap HealthPoint.floorEvidence

/-- What a reduction admits: few enough points of one kind inside the bucket, without a conflict
among their floors. -/
structure Admitted (points : List HealthPoint) (bucket : CoverageSpan) (limits : HealthLimits) :
    Prop where
  few : points.length ≤ limits.maxDownsamplePoints
  axes : ∀ a ∈ points, ∀ b ∈ points, a.axes = b.axes
  inside : ∀ point ∈ points,
    ¬(point.interval.fromUs < bucket.fromUs ∨ bucket.toUs < point.interval.toUs)
  floors : (allFloors points).length ≤ limits.maxFloorEvidence
  unanimous : ∀ a ∈ allFloors points, ∀ b ∈ allFloors points,
    a.supportingFactId = b.supportingFactId → a.floorClass = b.floorClass

/-- Floors of one fact stand side by side. -/
theorem conflictingFloors_iff {floors : List FloorEvidence} (hsorted : floors.Pairwise (· ≤ ·)) :
    conflictingFloors floors = false ↔ ∀ a ∈ floors, ∀ b ∈ floors,
      a.supportingFactId = b.supportingFactId → a.floorClass = b.floorClass := by
  have hfact : ∀ a b : FloorEvidence, a ≤ b → a.supportingFactId ≤ b.supportingFactId := by
    intro a b hab
    rcases Prod.Lex.toLex_le_toLex.mp hab with hlt | ⟨heq,-⟩
    · exact hlt.le
    · exact heq.le
  induction floors with
  | nil => simp [conflictingFloors]
  | cons a l ih =>
    obtain ⟨hlow,hrest⟩ := List.pairwise_cons.mp hsorted
    cases l with
    | nil => simp [conflictingFloors]
    | cons b l =>
      have hhead : ∀ c ∈ b::l, a.supportingFactId = c.supportingFactId →
          a.supportingFactId = b.supportingFactId := by
        intro c hc heq
        refine le_antisymm (hfact a b (hlow b List.mem_cons_self)) ?_
        rw [heq]
        rcases List.mem_cons.mp hc with rfl | hc
        · exact le_rfl
        · exact hfact b c ((List.pairwise_cons.mp hrest).1 c hc)
      rw [conflictingFloors,Bool.or_eq_false_iff,decide_eq_false_iff_not]
      refine (and_congr_right fun _ => ih hrest).trans ?_
      constructor
      · rintro ⟨hne,hall⟩ x hx y hy hxy
        have hab : a.supportingFactId = b.supportingFactId → a.floorClass = b.floorClass :=
          fun heq => by
            by_contra hclass
            exact hne ⟨heq,hclass⟩
        have hwith : ∀ c ∈ b::l, a.supportingFactId = c.supportingFactId →
            a.floorClass = c.floorClass := fun c hc heq =>
          (hab (hhead c hc heq)).trans
            (hall b List.mem_cons_self c hc ((hhead c hc heq).symm.trans heq))
        rcases List.mem_cons.mp hx with hxa | hxl <;> rcases List.mem_cons.mp hy with hya | hyl
        · rw [hxa,hya]
        · rw [hxa] at hxy ⊢
          exact hwith y hyl hxy
        · rw [hya] at hxy ⊢
          exact (hwith x hxl hxy.symm).symm
        · exact hall x hxl y hyl hxy
      · intro hall
        exact ⟨fun h => h.2 (hall a List.mem_cons_self b (by simp) h.1),fun x hx y hy =>
          hall x (List.mem_cons_of_mem a hx) y (List.mem_cons_of_mem a hy)⟩

theorem normalizeFloors_isOk {floors : List FloorEvidence} :
    (∃ kept, normalizeFloors floors = .ok kept) ↔ ∀ a ∈ floors, ∀ b ∈ floors,
      a.supportingFactId = b.supportingFactId → a.floorClass = b.floorClass := by
  have hiff := conflictingFloors_iff
    (@SmallestKept.sortByKey_ascending _ _ _ (fun floor : FloorEvidence => floor) floors)
  simp only [(SmallestKept.sortByKey_perm floors).mem_iff] at hiff
  rw [← hiff,normalizeFloors]
  by_cases h : conflictingFloors (SmallestKept.sortByKey (fun floor => floor) floors) <;> simp [h]

/-- What a reduction reports. -/
structure Reduced (points : List HealthPoint) (bucket : CoverageSpan)
    (result : DownsampledHealthPoint) : Prop where
  bucket_eq : result.bucket = bucket
  selected : ∃ first, result.representative = selectWorst first points
  worst : WorstOf points result.representative
  floors : normalizeFloors (allFloors points) = .ok result.floorEvidence

theorem downsampleWorst_ok (h : downsampleWorst points bucket limits = .ok (some result)) :
    Admitted points bucket limits ∧ Reduced points bucket result := by
  obtain ⟨_,hfew,h⟩ := bind_ok h
  cases points with
  | nil => cases h
  | cons first rest =>
    obtain ⟨_,haxes,h⟩ := bind_ok h
    obtain ⟨_,hinside,h⟩ := bind_ok h
    obtain ⟨_,hcount,h⟩ := bind_ok h
    obtain ⟨floors,hfloors,h⟩ := bind_ok h
    cases h
    rw [refuse_ok] at hfew haxes hinside hcount
    have hfloors := mapError_ok.mp hfloors
    have hsame : ∀ a ∈ first::rest, a.axes = first.axes := fun a ha => by
      by_contra hne
      exact haxes ⟨a,ha,hne⟩
    refine ⟨⟨not_lt.mp hfew,fun a ha b hb => (hsame a ha).trans (hsame b hb).symm,
      fun a ha hout => hinside ⟨a,ha,hout⟩,not_lt.mp hcount,
      normalizeFloors_isOk.mp ⟨floors,hfloors⟩⟩,rfl,⟨first,rfl⟩,selectWorst_spec (by simp),hfloors⟩

/-- Every nonempty admitted list is reduced. -/
theorem Admitted.reduces (h : Admitted points bucket limits) (hne : points ≠ []) :
    ∃ result, downsampleWorst points bucket limits = .ok (some result) := by
  cases points with
  | nil => exact absurd rfl hne
  | cons first rest =>
    obtain ⟨kept,hkept⟩ := normalizeFloors_isOk.mpr h.unanimous
    rw [allFloors] at hkept
    refine ⟨⟨bucket,selectWorst first (first::rest),kept⟩,?_⟩
    have hfew := refuse_ok (e := DownsampleError.limitExceeded .downsamplePoints) (u := ())
      |>.mpr (not_lt.mpr h.few)
    have haxes : refuse DownsampleError.mixedPolicyAxes
        (∃ point ∈ first::rest, point.axes ≠ first.axes) = .ok () :=
      refuse_ok.mpr fun ⟨point,hpoint,hdiff⟩ => hdiff (h.axes point hpoint first List.mem_cons_self)
    have hinside : refuse DownsampleError.pointOutsideBucket (∃ point ∈ first::rest,
        point.interval.fromUs < bucket.fromUs ∨ bucket.toUs < point.interval.toUs) = .ok () :=
      refuse_ok.mpr fun ⟨point,hpoint,hout⟩ => h.inside point hpoint hout
    have hcount := refuse_ok (e := DownsampleError.limitExceeded .floorEvidence) (u := ())
      |>.mpr (not_lt.mpr h.floors)
    rw [allFloors] at hcount
    rw [downsampleWorst,hfew]
    simp only [bind,Except.bind,haxes,hinside,hcount,hkept,Except.mapError]
    rfl

theorem mem_allFloors {floor : FloorEvidence} :
    floor ∈ allFloors points ↔ ∃ point ∈ points, floor ∈ point.floorEvidence := List.mem_flatMap

/-- Some of the admitted points are admitted. -/
theorem Admitted.sub (h : Admitted points bucket limits) (hsub : points'.Sublist points ∨
    points'.Perm points) : Admitted points' bucket limits := by
  have hmem : ∀ a ∈ points', a ∈ points := fun a ha =>
    hsub.elim (fun hs => hs.subset ha) fun hp => hp.mem_iff.mp ha
  have hfloors : ∀ floor ∈ allFloors points', floor ∈ allFloors points := by
    intro floor hfloor
    obtain ⟨point,hpoint,hin⟩ := mem_allFloors.mp hfloor
    exact mem_allFloors.mpr ⟨point,hmem point hpoint,hin⟩
  have hlen : points'.length ≤ points.length :=
    hsub.elim List.Sublist.length_le fun hp => hp.length_eq.le
  have hcount : (allFloors points').length ≤ (allFloors points).length :=
    hsub.elim (fun hs => (hs.flatMap _).length_le) fun hp => (hp.flatMap_right _).length_eq.le
  exact ⟨hlen.trans h.few,fun a ha b hb => h.axes a (hmem a ha) b (hmem b hb),
    fun a ha => h.inside a (hmem a ha),hcount.trans h.floors,
    fun a ha b hb => h.unanimous a (hfloors a ha) b (hfloors b hb)⟩

def DownsampledHealthPoint.view (g : HealthPoint → β) (result : DownsampledHealthPoint) :
    CoverageSpan × β × List FloorEvidence :=
  (result.bucket,g result.representative,result.floorEvidence)

/-- The order of the points does not matter, up to ties. -/
theorem downsampleWorst_perm (h : points'.Perm points) (hties : TiesAgree g points) :
    (downsampleWorst points' bucket limits).map (Option.map (DownsampledHealthPoint.view g)) =
      (downsampleWorst points bucket limits).map (Option.map (DownsampledHealthPoint.view g)) := by
  cases points with
  | nil => rw [h.eq_nil]
  | cons first rest =>
    cases points' with
    | nil => exact absurd h.length_eq (by simp)
    | cons first' rest' =>
      have haxes : (∃ point ∈ first'::rest', point.axes ≠ first'.axes) ↔
          ∃ point ∈ first::rest, point.axes ≠ first.axes := by
        rw [← not_iff_not]
        have hall : ∀ (x : HealthPoint) (l : List HealthPoint), x ∈ l →
            ((¬∃ point ∈ l, point.axes ≠ x.axes) ↔ ∀ a ∈ l, ∀ b ∈ l, a.axes = b.axes) := by
          intro x l hx
          refine ⟨fun hnone a ha b hb => ?_,fun hsame ⟨a,ha,hne⟩ => hne (hsame a ha x hx)⟩
          have heq : ∀ c ∈ l, c.axes = x.axes := fun c hc =>
            not_not.mp fun hne => hnone ⟨c,hc,hne⟩
          exact (heq a ha).trans (heq b hb).symm
        rw [hall first' _ List.mem_cons_self,hall first _ List.mem_cons_self]
        simp only [h.mem_iff]
      have hinside : (∃ point ∈ first'::rest', point.interval.fromUs < bucket.fromUs ∨
          bucket.toUs < point.interval.toUs) ↔ ∃ point ∈ first::rest,
            point.interval.fromUs < bucket.fromUs ∨ bucket.toUs < point.interval.toUs := by
        simp only [h.mem_iff]
      have hfloors := h.flatMap_right HealthPoint.floorEvidence
      have hworst : g (selectWorst first' (first'::rest')) = g (selectWorst first (first::rest)) :=
        ((selectWorst_spec (by simp)).unique (selectWorst_spec (by simp))
          (fun _ => h.mem_iff) hties).symm
      rw [downsampleWorst,downsampleWorst]
      simp only [h.length_eq,refuse_congr haxes,refuse_congr hinside,hfloors.length_eq,
        normalizeFloors_congr hfloors]
      simp only [bind,Except.bind]
      split
      · rfl
      split
      · rfl
      split
      · rfl
      split
      · rfl
      split
      · rfl
      · simp [pure,Except.pure,Except.map,DownsampledHealthPoint.view,hworst]

theorem sublist_flatten {σ : Type} {groups : List (List HealthPoint × σ)}
    (pick : List HealthPoint × σ → HealthPoint) (h : ∀ group ∈ groups, pick group ∈ group.1) :
    (groups.map pick).Sublist (groups.map Prod.fst).flatten := by
  induction groups with
  | nil => exact .refl _
  | cons group rest ih =>
    rw [List.map_cons,List.map_cons,List.flatten_cons]
    exact (List.singleton_sublist.mpr (h group List.mem_cons_self)).append
      (ih fun later hlater => h later (List.mem_cons_of_mem group hlater))

theorem group_sublist {σ : Type} {groups : List (List HealthPoint × σ)}
    {group : List HealthPoint × σ} (h : group ∈ groups) :
    group.1.Sublist (groups.map Prod.fst).flatten :=
  List.sublist_flatten_of_mem (List.mem_map.mpr ⟨group,h,rfl⟩)

/-- Groups reduce, and their worst points reduce to the worst point of all. -/
theorem downsample_groups {groups : List (List HealthPoint × CoverageSpan)}
    (hgroups : (groups.map Prod.fst).flatten.Perm points)
    (hne : ∀ group ∈ groups, group.1 ≠ [])
    (hinside : ∀ group ∈ groups, ∀ point ∈ group.1,
      ¬(point.interval.fromUs < group.2.fromUs ∨ group.2.toUs < point.interval.toUs))
    (h : downsampleWorst points bucket limits = .ok (some result)) (hties : TiesAgree g points) :
    (∀ group ∈ groups, ∃ part, downsampleWorst group.1 group.2 limits = .ok (some part)) ∧
      ∀ reduce : List HealthPoint × CoverageSpan → DownsampledHealthPoint,
        (∀ group ∈ groups, downsampleWorst group.1 group.2 limits = .ok (some (reduce group))) →
        (∃ again, downsampleWorst (groups.map fun group => (reduce group).representative) bucket
            limits = .ok (some again) ∧ g again.representative = g result.representative) ∧
          ∀ floor, floor ∈ result.floorEvidence ↔
            ∃ group ∈ groups, floor ∈ (reduce group).floorEvidence := by
  obtain ⟨hadmitted,hreduced⟩ := downsampleWorst_ok h
  have hflat := hadmitted.sub (.inr hgroups)
  have hpart : ∀ group ∈ groups, Admitted group.1 group.2 limits := fun group hgroup =>
    {hflat.sub (.inl (group_sublist hgroup)) with inside := hinside group hgroup}
  refine ⟨fun group hgroup => (hpart group hgroup).reduces (hne group hgroup),
    fun reduce hreduce => ?_⟩
  have hred : ∀ group ∈ groups, Reduced group.1 group.2 (reduce group) := fun group hgroup =>
    (downsampleWorst_ok (hreduce group hgroup)).2
  constructor
  · have hsub := sublist_flatten (fun group => (reduce group).representative)
      fun group hgroup => (hred group hgroup).worst.mem
    have hgne : groups ≠ [] := by
      rintro rfl
      exact absurd (hgroups.symm.eq_nil ▸ hreduced.worst.mem) List.not_mem_nil
    obtain ⟨again,hagain⟩ := (hflat.sub (.inl hsub)).reduces (by simpa using hgne)
    refine ⟨again,hagain,?_⟩
    have hworst := (downsampleWorst_ok hagain).2.worst
    have hall : WorstOf points again.representative := by
      refine ⟨hgroups.mem_iff.mp (hsub.subset hworst.mem),fun point hpoint => ?_⟩
      obtain ⟨part,hpartmem,hin⟩ := List.mem_flatten.mp (hgroups.mem_iff.mpr hpoint)
      obtain ⟨group,hgroup,rfl⟩ := List.mem_map.mp hpartmem
      exact (hworst.le _ (List.mem_map.mpr ⟨group,hgroup,rfl⟩)).trans
        ((hred group hgroup).worst.le point hin)
    exact hall.unique hreduced.worst (fun _ => Iff.rfl) hties
  · intro floor
    rw [(normalizeFloors_ok hreduced.floors).2,mem_allFloors]
    constructor
    · rintro ⟨point,hpoint,hfloor⟩
      obtain ⟨part,hpartmem,hin⟩ := List.mem_flatten.mp (hgroups.mem_iff.mpr hpoint)
      obtain ⟨group,hgroup,rfl⟩ := List.mem_map.mp hpartmem
      exact ⟨group,hgroup,((normalizeFloors_ok (hred group hgroup).floors).2 floor).mpr
        (mem_allFloors.mpr ⟨point,hin,hfloor⟩)⟩
    · rintro ⟨group,hgroup,hfloor⟩
      obtain ⟨point,hin,hpf⟩ := mem_allFloors.mp
        (((normalizeFloors_ok (hred group hgroup).floors).2 floor).mp hfloor)
      exact ⟨point,hgroups.mem_iff.mp ((group_sublist hgroup).subset hin),hpf⟩

end Downsample

end PgKronika
