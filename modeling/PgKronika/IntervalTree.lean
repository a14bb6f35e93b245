import Mathlib
import PgKronika.PartitionPoint

/-! An implicit interval tree over an array of intervals in the order of their starts. The node of
a slice is its middle element, and a second array holds the latest end below each node. -/
namespace PgKronika
namespace IntervalTree

/-- A part of an array of `n` elements. -/
structure Slice (n : ℕ) where
  start : ℕ
  stop : ℕ
  ordered : start ≤ stop
  inside : stop ≤ n

namespace Slice

variable {n : ℕ} (s : Slice n)

def whole (n : ℕ) : Slice n := ⟨0,n,Nat.zero_le n,le_rfl⟩

def size : ℕ := s.stop-s.start

def middle : ℕ := s.start+(s.stop-s.start)/2

variable {s}

theorem start_le_middle : s.start ≤ s.middle := Nat.le_add_right _ _

theorem middle_lt_stop (h : s.start ≠ s.stop) : s.middle < s.stop := by
  have ho := s.ordered
  simp only [middle]
  omega

theorem middle_lt (h : s.start ≠ s.stop) : s.middle < n :=
  (middle_lt_stop h).trans_le s.inside

variable (s)

def left (h : s.start ≠ s.stop) : Slice n :=
  ⟨s.start,s.middle,start_le_middle,(middle_lt h).le⟩

def right (h : s.start ≠ s.stop) : Slice n := ⟨s.middle+1,s.stop,middle_lt_stop h,s.inside⟩

theorem left_size (h : s.start ≠ s.stop) : (s.left h).size < s.size := by
  have hm := middle_lt_stop h
  have hs := s.start_le_middle
  simp only [size,left]
  omega

theorem right_size (h : s.start ≠ s.stop) : (s.right h).size < s.size := by
  have hm := middle_lt_stop h
  have hs := s.start_le_middle
  simp only [size,right]
  omega

def indices : List ℕ := List.range' s.start s.size

theorem mem_indices {i : ℕ} : i ∈ s.indices ↔ s.start ≤ i ∧ i < s.stop := by
  have ho := s.ordered
  simp only [indices,List.mem_range'_1,size]
  omega

theorem indices_split (h : s.start ≠ s.stop) :
    s.indices = (s.left h).indices++s.middle::(s.right h).indices := by
  have hm := middle_lt_stop h
  have hs := s.start_le_middle
  have hsize : s.size = (s.left h).size+((s.right h).size+1) := by
    simp only [size,left,right]
    omega
  have hmiddle : s.start+(s.left h).size = s.middle := by
    simp only [size,left]
    omega
  rw [indices,hsize,← List.range'_append_1,hmiddle,List.range'_succ]
  rfl

end Slice

variable {T : Type} [LinearOrder T] {n : ℕ}

/-- The latest end of a slice, after writing those of all its nodes. -/
def buildMax (low : T) (spans : Vector (T × T) n) (s : Slice n) (tree : Vector T n) :
    T × Vector T n :=
  if h : s.start = s.stop then (low,tree)
  else
    have hm := Slice.middle_lt h
    let (left,tree) := buildMax low spans (s.left h) tree
    let (right,tree) := buildMax low spans (s.right h) tree
    let maximum := max (max spans[s.middle].2 left) right
    (maximum,tree.set s.middle maximum)
termination_by s.size
decreasing_by
  · exact s.left_size h
  · exact s.right_size h

/-- The flag says that the output is full. -/
def visit (spans : Vector (T × T) n) (tree : Vector T n) (beforeEnd : ℕ) (fromTs : T)
    (globalStart stopAfter : ℕ) (s : Slice n) (output : List ℕ) : Bool × List ℕ :=
  if h : s.start = s.stop then (false,output)
  else
    have hm := Slice.middle_lt h
    if beforeEnd ≤ s.start ∨ tree[s.middle] < fromTs then (false,output)
    else
      match visit spans tree beforeEnd fromTs globalStart stopAfter (s.left h) output with
      | (true,output) => (true,output)
      | (false,output) =>
        if s.middle < beforeEnd ∧ fromTs ≤ spans[s.middle].2 then
          if (output++[globalStart+s.middle]).length = stopAfter then
            (true,output++[globalStart+s.middle])
          else visit spans tree beforeEnd fromTs globalStart stopAfter (s.right h)
            (output++[globalStart+s.middle])
        else visit spans tree beforeEnd fromTs globalStart stopAfter (s.right h) output
termination_by s.size
decreasing_by
  · exact s.left_size h
  · exact s.right_size h
  · exact s.right_size h

/-- Every node of a slice holds a bound on the ends below it. -/
inductive Covers (spans : Vector (T × T) n) (tree : Vector T n) : Slice n → Prop
  | empty {s : Slice n} (h : s.start = s.stop) : Covers spans tree s
  | node {s : Slice n} (h : s.start ≠ s.stop) (left : Covers spans tree (s.left h))
    (right : Covers spans tree (s.right h))
    (top : ∀ i span latest, i ∈ s.indices → spans[i]? = some span →
      tree[s.middle]? = some latest → span.2 ≤ latest) : Covers spans tree s

theorem Covers.congr {spans : Vector (T × T) n} {tree other : Vector T n} {s : Slice n}
    (h : Covers spans tree s) (hsame : ∀ i ∈ s.indices, other[i]? = tree[i]?) :
    Covers spans other s := by
  induction h with
  | empty h => exact .empty h
  | node h _ _ top ihl ihr =>
    have hsplit := Slice.indices_split _ h
    refine .node h (ihl fun i hi => hsame i ?_) (ihr fun i hi => hsame i ?_) ?_
    · rw [hsplit]
      exact List.mem_append_left _ hi
    · rw [hsplit]
      exact List.mem_append_right _ (List.mem_cons_of_mem _ hi)
    · intro i span latest hi hspan hlatest
      refine top i span latest hi hspan ?_
      rw [← hlatest]
      refine (hsame _ ?_).symm
      rw [hsplit]
      simp

/-- What building a slice writes: its own nodes, each with a bound. -/
theorem buildMax_spec (low : T) (spans : Vector (T × T) n) (s : Slice n) (tree : Vector T n) :
    Covers spans (buildMax low spans s tree).2 s ∧
      (∀ i, i ∉ s.indices → (buildMax low spans s tree).2[i]? = tree[i]?) ∧
      ∀ i span, i ∈ s.indices → spans[i]? = some span →
        span.2 ≤ (buildMax low spans s tree).1 := by
  induction s, tree using buildMax.induct low spans with
  | case1 s tree h =>
    have hnil : s.indices = [] := by simp [Slice.indices,Slice.size,h]
    rw [buildMax,dif_pos h]
    exact ⟨.empty h,fun _ _ => rfl,by simp [hnil]⟩
  | case2 s tree h hm left ltree hl right rtree hr ihl ihr =>
    rw [hl] at ihl
    rw [hr] at ihr
    obtain ⟨hlcovers,hlsame,hlmax⟩ := ihl
    obtain ⟨hrcovers,hrsame,hrmax⟩ := ihr
    rw [buildMax,dif_neg h]
    simp only [hl,hr]
    have hsplit := s.indices_split h
    have hlne : ∀ i ∈ (s.left h).indices, s.middle ≠ i ∧ i ∉ (s.right h).indices := by
      intro i hi
      have hlt := ((s.left h).mem_indices.mp hi).2
      simp only [Slice.left] at hlt
      refine ⟨by omega,fun hr => ?_⟩
      have hge := ((s.right h).mem_indices.mp hr).1
      simp only [Slice.right] at hge
      omega
    have hrne : ∀ i ∈ (s.right h).indices, s.middle ≠ i := by
      intro i hi
      have hge := ((s.right h).mem_indices.mp hi).1
      simp only [Slice.right] at hge
      omega
    have hbound : ∀ i span, i ∈ s.indices → spans[i]? = some span →
        span.2 ≤ max (max spans[s.middle].2 left) right := by
      intro i span hi hspan
      rw [hsplit] at hi
      rcases List.mem_append.mp hi with hi | hi
      · exact (hlmax i span hi hspan).trans ((le_max_right _ _).trans (le_max_left _ _))
      · rcases List.mem_cons.mp hi with rfl | hi
        · rw [Vector.getElem?_eq_getElem hm] at hspan
          cases hspan
          exact (le_max_left _ _).trans (le_max_left _ _)
        · exact (hrmax i span hi hspan).trans (le_max_right _ _)
    refine ⟨.node h (hlcovers.congr ?_) (hrcovers.congr ?_) ?_,?_,hbound⟩
    · intro i hi
      rw [Vector.getElem?_set_ne hm (hlne i hi).1,hrsame i (hlne i hi).2]
    · intro i hi
      rw [Vector.getElem?_set_ne hm (hrne i hi)]
    · intro i span latest hi hspan hlatest
      rw [Vector.getElem?_set_self hm] at hlatest
      cases hlatest
      exact hbound i span hi hspan
    · intro i hi
      rw [hsplit,List.mem_append,List.mem_cons,not_or,not_or] at hi
      rw [Vector.getElem?_set_ne hm (Ne.symm hi.2.1),hrsame i hi.2.2,hlsame i hi.1]

/-! The traversal against a scan. -/

/-- `found` added to an output that ends as soon as it holds `stopAfter` indices. -/
def fill (stopAfter : ℕ) (output found : List ℕ) : Bool × List ℕ :=
  if output.length+found.length < stopAfter then (false,output++found)
  else (true,output++found.take (stopAfter-output.length))

variable {stopAfter : ℕ} {output : List ℕ}

theorem fill_nil (h : output.length < stopAfter) : fill stopAfter output [] = (false,output) := by
  simp [fill,h]

theorem fill_short {found rest : List ℕ} (h : fill stopAfter output found = (false,rest)) :
    rest.length < stopAfter := by
  unfold fill at h
  split_ifs at h with hlen
  · cases h
    simpa using hlen
  · cases h

theorem fill_append (found more : List ℕ) :
    fill stopAfter output (found++more) = match fill stopAfter output found with
      | (true,output) => (true,output)
      | (false,output) => fill stopAfter output more := by
  by_cases hone : output.length+found.length < stopAfter
  · have hf : fill stopAfter output found = (false,output++found) := if_pos hone
    rw [hf]
    simp only [fill,List.length_append,List.append_assoc,Nat.add_assoc]
    split_ifs with hall
    · rfl
    · rw [List.take_append,List.take_of_length_le (by omega),Nat.sub_sub]
  · have hf : fill stopAfter output found =
        (true,output++found.take (stopAfter-output.length)) := if_neg hone
    rw [hf]
    have hall : ¬output.length+(found++more).length < stopAfter := by
      rw [List.length_append]
      omega
    rw [fill,if_neg hall,List.take_append_of_le_length (by omega)]

theorem fill_cons (i : ℕ) (more : List ℕ) :
    fill stopAfter output (i::more) = match fill stopAfter output [i] with
      | (true,output) => (true,output)
      | (false,output) => fill stopAfter output more := fill_append [i] more

theorem fill_singleton (h : output.length < stopAfter) (i : ℕ) :
    fill stopAfter output [i] =
      if (output++[i]).length = stopAfter then (true,output++[i]) else (false,output++[i]) := by
  simp only [fill,List.length_append,List.length_singleton]
  by_cases hfull : output.length+1 = stopAfter
  · rw [if_neg (by omega),if_pos hfull,show stopAfter-output.length = 1 by omega]
    rfl
  · rw [if_pos (by omega),if_neg hfull]

/-- The index is before the end of the query and ends in it or after it. -/
def isHit (spans : Vector (T × T) n) (beforeEnd : ℕ) (fromTs : T) (i : ℕ) : Bool :=
  decide (i < beforeEnd) && (spans[i]?).any fun span => decide (fromTs ≤ span.2)

theorem visit_eq {spans : Vector (T × T) n} {tree : Vector T n} {beforeEnd globalStart : ℕ}
    {fromTs : T} {s : Slice n} (hcovers : Covers spans tree s) (h : output.length < stopAfter) :
    visit spans tree beforeEnd fromTs globalStart stopAfter s output =
      fill stopAfter output
        ((s.indices.filter (isHit spans beforeEnd fromTs)).map (globalStart+·)) := by
  induction hcovers generalizing output with
  | @empty s hempty =>
    have hnil : s.indices = [] := by simp [Slice.indices,Slice.size,hempty]
    rw [visit,dif_pos hempty,hnil,List.filter_nil,List.map_nil,fill_nil h]
  | @node s hne _ _ top ihl ihr =>
    have hm := Slice.middle_lt hne
    rw [visit,dif_neg hne]
    by_cases hpruned : beforeEnd ≤ s.start ∨ tree[s.middle] < fromTs
    · -- no index of a pruned slice is a hit
      have hnone : s.indices.filter (isHit spans beforeEnd fromTs) = [] := by
        rw [List.filter_eq_nil_iff]
        intro i hi hhit
        simp only [isHit,Bool.and_eq_true,decide_eq_true_eq,Option.any_eq_true] at hhit
        obtain ⟨hbefore,span,hspan,hfrom⟩ := hhit
        rcases hpruned with hstart | hmax
        · have hge := (s.mem_indices.mp hi).1
          omega
        · have hle := top i span _ hi hspan (Vector.getElem?_eq_getElem hm)
          exact absurd (hfrom.trans hle) (not_le.mpr hmax)
      rw [if_pos hpruned,hnone,List.map_nil,fill_nil h]
    · rw [if_neg hpruned,s.indices_split hne,List.filter_append,List.map_append,fill_append,ihl h]
      have hmiddle : isHit spans beforeEnd fromTs s.middle = true ↔
          s.middle < beforeEnd ∧ fromTs ≤ spans[s.middle].2 := by
        simp [isHit,Vector.getElem?_eq_getElem hm]
      cases hleft : fill stopAfter output
          (((s.left hne).indices.filter (isHit spans beforeEnd fromTs)).map (globalStart+·)) with
      | mk full rest =>
        cases full with
        | true => rfl
        | false =>
          have hrest := fill_short hleft
          by_cases hhit : s.middle < beforeEnd ∧ fromTs ≤ spans[s.middle].2
          · simp only [hhit,and_self,if_true]
            rw [List.filter_cons_of_pos (hmiddle.mpr hhit),List.map_cons,fill_cons,
              fill_singleton hrest]
            split_ifs with hfull
            · rfl
            · exact ihr (by rw [List.length_append,List.length_singleton] at hfull ⊢; omega)
          · simp only [hhit,if_false]
            rw [List.filter_cons_of_neg fun hh => hhit (hmiddle.mp hh)]
            exact ihr hrest

/-- The query over a whole array in the order of the starts. -/
def extendIntersections (low : T) (spans : Vector (T × T) n) (fromTs toTs : T)
    (stopAfter : ℕ) : Bool × List ℕ :=
  let tree := (buildMax low spans (.whole n) (Vector.replicate n low)).2
  let beforeEnd := partitionPoint (fun span => decide (span.1 < toTs)) spans.toList
  visit spans tree beforeEnd fromTs 0 stopAfter (.whole n) []

/-- The interval is closed and the query is half-open. -/
def meets (fromTs toTs : T) (span : T × T) : Bool := decide (span.1 < toTs) && decide (fromTs ≤ span.2)

/-- The linear scan. -/
def scan (spans : List (T × T)) (fromTs toTs : T) : List ℕ :=
  (List.range spans.length).filter fun i => spans[i]?.any (meets fromTs toTs)

theorem extendIntersections_eq {low : T} {spans : Vector (T × T) n} {fromTs toTs : T}
    (hsorted : spans.toList.Pairwise fun a b => a.1 ≤ b.1) (h : 0 < stopAfter) :
    extendIntersections low spans fromTs toTs stopAfter =
      fill stopAfter [] (scan spans.toList fromTs toTs) := by
  have hcovers := (buildMax_spec low spans (.whole n) (Vector.replicate n low)).1
  have hpart : Partitioned (fun span : T × T => decide (span.1 < toTs)) spans.toList :=
    Partitioned.of_sorted hsorted fun a b hab hb => by
      simp only [decide_eq_true_eq] at hb ⊢
      exact hab.trans_lt hb
  have hhit : isHit spans (partitionPoint (fun span => decide (span.1 < toTs)) spans.toList) fromTs =
      fun i => spans.toList[i]?.any (meets fromTs toTs) := by
    funext i
    rw [isHit,hpart.partitionPoint_eq,← hpart.getElem?_any i]
    cases hspan : spans[i]? with
    | none => simp [hspan]
    | some span => simp [hspan,meets]
  have hwhole : (Slice.whole n).indices = List.range spans.toList.length := by
    simp [Slice.indices,Slice.whole,Slice.size,List.range_eq_range']
  rw [extendIntersections,visit_eq hcovers h,hwhole,hhit,scan]
  simp

end IntervalTree
end PgKronika
