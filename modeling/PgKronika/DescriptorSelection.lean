import Mathlib
import PgKronika.ByteCodec
import PgKronika.Coverage
import PgKronika.LayoutTime
import PgKronika.SortedDedup

/-! The published descriptor view and the segments one request selects from it. -/
namespace PgKronika

open ByteCodec CheckedArith

structure SealedLocator where
  segmentId : SegmentId
  deriving DecidableEq

/-- Big-endian. -/
def SealedLocator.asBytes (locator : SealedLocator) : Bytes := (i64Le locator.segmentId.get).reverse

structure SegmentDescriptor where
  locator : SealedLocator
  minTs : Int64
  maxTs : Int64
  deriving DecidableEq

structure FactKey where
  bytes : Vector UInt8 32
  deriving DecidableEq

structure SegmentLineageId where
  bytes : Vector UInt8 32
  deriving DecidableEq

structure FactBuildKey where
  factKey : FactKey
  segmentLineageId : SegmentLineageId
  deriving DecidableEq

structure DescriptorEntry where
  descriptor : SegmentDescriptor
  factBuildKey : FactBuildKey
  deriving DecidableEq

inductive LiveState
  | empty
  | warming
  | current
  | needsRebuild
  | incomplete
  deriving DecidableEq

structure LiveView where
  generation : UInt64
  foldedThroughOffset : UInt64
  viewGeneration : UInt64
  state : LiveState
  deriving DecidableEq

structure OmittedRange where
  span : CoverageSpan
  deriving DecidableEq

instance : LinearOrder OmittedRange :=
  LinearOrder.lift' (fun r => toLex (r.span.fromUs.toInt,r.span.toUs.toInt)) fun a b h => by
    obtain ⟨⟨a,a',ha⟩⟩ := a
    obtain ⟨⟨b,b',hb⟩⟩ := b
    have hpair := toLex_inj.mp h
    obtain rfl := Int64.toInt_inj.mp (congrArg Prod.fst hpair)
    obtain rfl := Int64.toInt_inj.mp (congrArg Prod.snd hpair)
    rfl

/-- Segments by start, then by identity. -/
def descriptorLe (a b : SegmentDescriptor) : Bool :=
  decide (a.minTs < b.minTs ∨ a.minTs = b.minTs ∧
    a.locator.segmentId.get ≤ b.locator.segmentId.get)

structure DescriptorView where
  viewGeneration : UInt64
  sealed : List DescriptorEntry
  unavailable : List SegmentDescriptor
  live : LiveView
  deriving DecidableEq

def DescriptorView.new (viewGeneration : UInt64) (sealed : List DescriptorEntry)
    (unavailable : List SegmentDescriptor) (live : LiveView) : DescriptorView where
  viewGeneration
  sealed := sealed.mergeSort fun a b => descriptorLe a.descriptor b.descriptor
  unavailable := unavailable.mergeSort descriptorLe
  live

def satSucc (x : Int64) : Int64 := if x = Int64.maxValue then x else x+1

def satPred (x : Int64) : Int64 := if x = Int64.minValue then x else x-1

def maxUs (a b : Int64) : Int64 := if a < b then b else a

def minUs (a b : Int64) : Int64 := if a ≤ b then a else b

/-- What a node of the interval tree caches: the latest end below it. -/
def subtreeMaxTs (spans : List (Int64 × Int64)) : Int64 :=
  spans.foldl (fun m span => maxUs m span.2) Int64.minValue

/-- One node of the tree over spans ordered by start, its left side first. `start` is the
index of the node's first span. The flag says that the output is full. -/
def visitIntersections (beforeEnd : ℕ) (fromUs : Int64) (stopAfter : ℕ) :
    ℕ → ℕ → List (Int64 × Int64) → List ℕ → Bool × List ℕ
  | 0,_,_,output => (false,output)
  | fuel+1,start,spans,output =>
    if spans = [] ∨ beforeEnd ≤ start ∨ subtreeMaxTs spans < fromUs then (false,output)
    else
      let middle := spans.length/2
      match visitIntersections beforeEnd fromUs stopAfter fuel start (spans.take middle) output with
      | (true,output) => (true,output)
      | (false,output) =>
        let right := spans.drop (middle+1)
        if start+middle < beforeEnd ∧ spans[middle]?.any fun span => decide (fromUs ≤ span.2) then
          let output := output ++ [start+middle]
          if output.length = stopAfter then (true,output)
          else visitIntersections beforeEnd fromUs stopAfter fuel (start+middle+1) right output
        else visitIntersections beforeEnd fromUs stopAfter fuel (start+middle+1) right output

def extendIntersections (spans : List (Int64 × Int64)) (query : CoverageSpan) (stopAfter : ℕ) :
    Bool × List ℕ :=
  let beforeEnd := (spans.takeWhile fun span => decide (span.1 < query.toUs)).length
  visitIntersections beforeEnd query.fromUs stopAfter spans.length 0 spans []

def SegmentDescriptor.span (d : SegmentDescriptor) : Int64 × Int64 := (d.minTs,d.maxTs)

/-- The last index that satisfies `q`. -/
def rposition {α : Type} (q : α → Bool) (l : List α) : Option ℕ :=
  (l.reverse.findIdx? q).map fun i => l.length-1-i

/-- One more index, unless it is selected already. The flag says that the output is full. -/
def pushHalo (stopAfter : ℕ) (selected : List ℕ) : Option ℕ → Bool × List ℕ
  | none => (false,selected)
  | some halo =>
    if halo ∈ selected then (false,selected)
    else ((selected ++ [halo]).length == stopAfter,selected ++ [halo])

/-- The segments that meet the range and the nearest one on each side. -/
def DescriptorView.extendSelectedWithHalo (view : DescriptorView) (range : CoverageSpan)
    (stopAfter : ℕ) : Bool × List ℕ :=
  match extendIntersections (view.sealed.map fun e => e.descriptor.span) range stopAfter with
  | (true,selected) => (true,selected)
  | (false,selected) =>
    let leftHalo := rposition (fun e => decide (e.descriptor.maxTs < range.fromUs)) view.sealed
    let rightHalo := view.sealed.findIdx? fun e => decide (range.toUs ≤ e.descriptor.minTs)
    match pushHalo stopAfter selected leftHalo with
    | (true,selected) => (true,selected)
    | (false,selected) =>
      match pushHalo stopAfter selected rightHalo with
      | (true,selected) => (true,selected)
      | (false,selected) =>
        let selected := sortDedup selected
        (selected.length == stopAfter,selected)

def descriptorGap (d : SegmentDescriptor) (range : CoverageSpan) : Option CoverageSpan :=
  CoverageSpan.new (maxUs d.minTs range.fromUs) (minUs (satSucc d.maxTs) range.toUs)

def DescriptorView.extendUnavailableGaps (view : DescriptorView) (range : CoverageSpan)
    (stopAfter : ℕ) : Bool × List OmittedRange :=
  let (stopped,intersections) :=
    extendIntersections (view.unavailable.map SegmentDescriptor.span) range stopAfter
  let output := sortDedup (intersections.filterMap fun index =>
    view.unavailable[index]?.bind fun d => (descriptorGap d range).map OmittedRange.mk)
  (stopped || decide (stopAfter ≤ output.length),output)

inductive SelectionError
  | invalidLimit
  | limitExceeded (limit : ℕ)
  deriving DecidableEq

def absoluteMaxSelectedSegments : ℕ := 4096

section Bounds

/-- An output that is not full, with indices below a bound. -/
structure Fits (bound stopAfter : ℕ) (output : List ℕ) : Prop where
  below : ∀ i ∈ output, i < bound
  short : output.length < stopAfter

variable {bound stopAfter : ℕ}

theorem Fits.push {output : List ℕ} (h : Fits bound stopAfter output) {i : ℕ} (hi : i < bound)
    (hlen : (output ++ [i]).length ≠ stopAfter) : Fits bound stopAfter (output ++ [i]) := by
  have hshort := h.short
  rw [List.length_append,List.length_singleton] at hlen
  refine ⟨fun j hj => ?_,by rw [List.length_append,List.length_singleton]; omega⟩
  rcases List.mem_append.mp hj with hj | hj
  · exact h.below j hj
  · rw [List.mem_singleton.mp hj]
    exact hi

theorem visitIntersections_fits {beforeEnd fuel start : ℕ} {fromUs : Int64}
    {spans : List (Int64 × Int64)} {output found : List ℕ} (hbound : start + spans.length ≤ bound)
    (houtput : Fits bound stopAfter output)
    (h : visitIntersections beforeEnd fromUs stopAfter fuel start spans output = (false,found)) :
    Fits bound stopAfter found := by
  induction fuel generalizing start spans output found with
  | zero =>
    rw [← (Prod.mk.inj h).2]
    exact houtput
  | succ fuel ih =>
    rw [visitIntersections] at h
    by_cases hdone : spans = [] ∨ beforeEnd ≤ start ∨ subtreeMaxTs spans < fromUs
    · rw [if_pos hdone] at h
      rw [← (Prod.mk.inj h).2]
      exact houtput
    · rw [if_neg hdone] at h
      dsimp only at h
      have hpos : 0 < spans.length := List.length_pos_of_ne_nil fun h => hdone (.inl h)
      have hmiddle : spans.length/2 < spans.length := Nat.div_lt_self hpos (by omega)
      have hright : start + spans.length/2 + 1 + (spans.drop (spans.length/2+1)).length ≤ bound := by
        rw [List.length_drop]
        omega
      rcases hleft : visitIntersections beforeEnd fromUs stopAfter fuel start
        (spans.take (spans.length/2)) output with ⟨_ | _,inner⟩
      · have htake : start + (spans.take (spans.length/2)).length ≤ bound := by
          rw [List.length_take]
          omega
        have hinner := ih htake houtput hleft
        rw [hleft] at h
        dsimp only at h
        split_ifs at h with hhit hfull
        · cases h
        · exact ih hright (hinner.push (by omega) hfull) h
        · exact ih hright hinner h
      · rw [hleft] at h
        cases h

theorem extendIntersections_fits {spans : List (Int64 × Int64)} {query : CoverageSpan}
    {found : List ℕ} (hpos : 0 < stopAfter)
    (h : extendIntersections spans query stopAfter = (false,found)) :
    Fits spans.length stopAfter found := by
  have hnil : Fits spans.length stopAfter [] := ⟨by simp,hpos⟩
  exact visitIntersections_fits (Nat.zero_add _).le hnil h

theorem pushHalo_fits {selected found : List ℕ} {halo : Option ℕ}
    (hselected : Fits bound stopAfter selected) (hhalo : ∀ i ∈ halo, i < bound)
    (h : pushHalo stopAfter selected halo = (false,found)) : Fits bound stopAfter found := by
  cases halo with
  | none =>
    rw [← (Prod.mk.inj h).2]
    exact hselected
  | some halo =>
    rw [pushHalo] at h
    split_ifs at h
    · rw [← (Prod.mk.inj h).2]
      exact hselected
    · obtain ⟨hfull,rfl⟩ := Prod.mk.inj h
      exact hselected.push (hhalo halo rfl) (by simpa using hfull)

theorem rposition_lt {α : Type} {q : α → Bool} {l : List α} {i : ℕ} (h : rposition q l = some i) :
    i < l.length := by
  rw [rposition,Option.map_eq_some_iff] at h
  obtain ⟨j,hj,rfl⟩ := h
  have hlt := (List.findIdx?_eq_some_iff_findIdx_eq.mp hj).1
  rw [List.length_reverse] at hlt
  omega

/-- A selection that does not overflow is ascending, short and inside the view. -/
theorem extendSelectedWithHalo_ok {view : DescriptorView} {range : CoverageSpan}
    {selected : List ℕ} (hpos : 0 < stopAfter)
    (h : view.extendSelectedWithHalo range stopAfter = (false,selected)) :
    selected.Pairwise (· < ·) ∧ Fits view.sealed.length stopAfter selected := by
  rw [DescriptorView.extendSelectedWithHalo] at h
  generalize hmeet : extendIntersections _ range stopAfter = meet at h
  obtain ⟨_ | _,found⟩ := meet
  · have hfound := extendIntersections_fits hpos hmeet
    rw [List.length_map] at hfound
    dsimp only at h
    generalize hleft : pushHalo stopAfter found _ = left at h
    obtain ⟨_ | _,withLeft⟩ := left
    · have hl := pushHalo_fits hfound (fun i hi => rposition_lt hi) hleft
      dsimp only at h
      generalize hright : pushHalo stopAfter withLeft _ = right at h
      obtain ⟨_ | _,withRight⟩ := right
      · have hr := pushHalo_fits hl
          (fun i hi => (List.findIdx?_eq_some_iff_findIdx_eq.mp hi).1) hright
        obtain ⟨-,rfl⟩ := Prod.mk.inj h
        exact ⟨sortDedup_ascending _,fun i hi => hr.below i (mem_sortDedup.mp hi),
          (length_sortDedup_le _).trans_lt hr.short⟩
      · cases h
    · cases h
  · cases h

theorem extendUnavailableGaps_ok {view : DescriptorView} {range : CoverageSpan}
    {gaps : List OmittedRange} (h : view.extendUnavailableGaps range stopAfter = (false,gaps)) :
    gaps.Pairwise (· < ·) ∧ gaps.length < stopAfter := by
  obtain ⟨hfull,rfl⟩ := Prod.mk.inj h
  rw [Bool.or_eq_false_iff,decide_eq_false_iff_not,not_le] at hfull
  exact ⟨sortDedup_ascending _,hfull.2⟩

end Bounds

/-- The plan of one request. Its indices and ranges are in canonical order. -/
structure SelectedSealedPlan where
  view : DescriptorView
  selectedIndices : List ℕ
  omittedRanges : List OmittedRange
  range : CoverageSpan
  ascending : selectedIndices.Pairwise (· < ·)
  fits : Fits view.sealed.length (absoluteMaxSelectedSegments+1) selectedIndices
  normalized : omittedRanges.Pairwise (· < ·)
  omittedBound : omittedRanges.length ≤ absoluteMaxSelectedSegments

/-- Select the segments of one request, within a limit. -/
def SelectedSealedPlan.build (view : DescriptorView) (range : CoverageSpan) (limit : ℕ) :
    Except SelectionError SelectedSealedPlan :=
  if hlimit : limit = 0 ∨ absoluteMaxSelectedSegments < limit then .error .invalidLimit
  else
    match hselected : view.extendSelectedWithHalo range (limit+1) with
    | (true,_) => .error (.limitExceeded limit)
    | (false,selectedIndices) =>
      match hgaps : view.extendUnavailableGaps range (limit+1) with
      | (true,_) => .error (.limitExceeded limit)
      | (false,omittedRanges) =>
        have hok := extendSelectedWithHalo_ok (Nat.succ_pos limit) hselected
        have hgap := extendUnavailableGaps_ok hgaps
        .ok {
          view
          selectedIndices
          omittedRanges
          range
          ascending := hok.1
          fits := ⟨hok.2.below,by have := hok.2.short; omega⟩
          normalized := hgap.1
          omittedBound := by have := hgap.2; omega }

theorem SelectedSealedPlan.build_ok {view : DescriptorView} {range : CoverageSpan} {limit : ℕ}
    {selected : List ℕ} {gaps : List OmittedRange} (hpos : 0 < limit)
    (hlimit : limit ≤ absoluteMaxSelectedSegments)
    (hselected : view.extendSelectedWithHalo range (limit+1) = (false,selected))
    (hgaps : view.extendUnavailableGaps range (limit+1) = (false,gaps)) :
    ∃ plan, SelectedSealedPlan.build view range limit = .ok plan ∧ plan.view = view ∧
      plan.selectedIndices = selected ∧ plan.omittedRanges = gaps ∧ plan.range = range := by
  rw [SelectedSealedPlan.build,dif_neg (by omega)]
  split
  · next he =>
    rw [hselected] at he
    cases he
  · next found he =>
    rw [hselected] at he
    cases he
    split
    · next he =>
      rw [hgaps] at he
      cases he
    · next omitted he =>
      rw [hgaps] at he
      cases he
      exact ⟨_,rfl,rfl,rfl,rfl,rfl⟩

end PgKronika
