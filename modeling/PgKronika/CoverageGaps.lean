import Mathlib
import PgKronika.CoverageUnion
import PgKronika.QueryValue

/-! The stretches of a query window that no unit covers: closed unit ranges are clamped, merged and
subtracted from the window. -/
namespace PgKronika

abbrev TimeRange := Int64 × Int64

def clampRange (fromTs toTs : Int64) (range : TimeRange) : TimeRange :=
  (max range.1 fromTs,min range.2 toTs)

/-- The parts of the ranges that lie in the window, by their start. -/
def windowRanges (fromTs toTs : Int64) (covered : List TimeRange) : List TimeRange :=
  ((covered.map (clampRange fromTs toTs)).filter fun range => decide (range.1 ≤ range.2)).mergeSort
    fun a b => decide (a.1 ≤ b.1)

/-- Extend the last range by what overlaps or touches it, else push it and go on from the next. -/
def mergeInto (last : TimeRange) : List TimeRange → List TimeRange
  | [] => [last]
  | range::ranges =>
    if range.1 ≤ last.2 then mergeInto (last.1,max last.2 range.2) ranges
    else last :: mergeInto range ranges

def mergeRanges : List TimeRange → List TimeRange
  | [] => []
  | range::ranges => mergeInto range ranges

def gapsFrom (toTs cursor : Int64) : List TimeRange → List Gap
  | [] => if cursor < toTs then [⟨cursor,toTs⟩] else []
  | range::ranges =>
    (if cursor < range.1 then [⟨cursor,range.1⟩] else []) ++
      gapsFrom toTs (max cursor range.2) ranges

def coverageGaps (fromTs toTs : Int64) (covered : List TimeRange) : List Gap :=
  gapsFrom toTs fromTs (mergeRanges (windowRanges fromTs toTs covered))

/-- A time stamp as a point of time: between two of them there are others. -/
def instant (t : Int64) : ℚ := t.toInt

theorem instant_le {a b : Int64} : instant a ≤ instant b ↔ a ≤ b := by
  rw [instant,instant,Int.cast_le,Int64.le_iff_toInt_le]

theorem instant_lt {a b : Int64} : instant a < instant b ↔ a < b := by
  rw [instant,instant,Int.cast_lt,Int64.lt_iff_toInt_lt]

theorem instant_max (a b : Int64) : instant (max a b) = max (instant a) (instant b) := by
  rw [instant,Int64.toInt_max,Int.cast_max]
  rfl

theorem instant_min (a b : Int64) : instant (min a b) = min (instant a) (instant b) := by
  rw [instant,Int64.toInt_min,Int.cast_min]
  rfl

/-- The point lies in one of the closed ranges. -/
def InRanges (ranges : List TimeRange) (t : ℚ) : Prop :=
  ∃ range ∈ ranges, instant range.1 ≤ t ∧ t ≤ instant range.2

section Ranges

variable {fromTs toTs cursor : Int64} {covered ranges : List TimeRange} {t : ℚ}

theorem inRanges_cons {range : TimeRange} : InRanges (range::ranges) t ↔
    (instant range.1 ≤ t ∧ t ≤ instant range.2) ∨ InRanges ranges t := by
  simp [InRanges]

/-- Ranges by their start, none of them empty, none beyond the window. -/
structure Ordered (toTs : Int64) (ranges : List TimeRange) : Prop where
  starts : ranges.Pairwise fun a b => instant a.1 ≤ instant b.1
  nonempty : ∀ range ∈ ranges, instant range.1 ≤ instant range.2
  inside : ∀ range ∈ ranges, instant range.2 ≤ instant toTs

theorem Ordered.tail {range : TimeRange} (h : Ordered toTs (range::ranges)) : Ordered toTs ranges :=
  ⟨h.starts.tail,fun r hr => h.nonempty r (by simp [hr]),fun r hr => h.inside r (by simp [hr])⟩

theorem windowRanges_ordered : Ordered toTs (windowRanges fromTs toTs covered) := by
  constructor
  · refine (List.pairwise_mergeSort ?_ ?_ _).imp fun h => instant_le.mpr (of_decide_eq_true h)
    · intro a b c hab hbc
      simp only [decide_eq_true_eq,Int64.le_iff_toInt_le] at hab hbc ⊢
      omega
    · intro a b
      simp only [Bool.or_eq_true,decide_eq_true_eq,Int64.le_iff_toInt_le]
      omega
  · intro range hrange
    have hmem := List.mem_filter.mp (List.mem_mergeSort.mp hrange)
    exact instant_le.mpr (of_decide_eq_true hmem.2)
  · intro range hrange
    obtain ⟨r,_,rfl⟩ := List.mem_map.mp (List.mem_filter.mp (List.mem_mergeSort.mp hrange)).1
    rw [clampRange,instant_min]
    exact min_le_right _ _

/-- In the window, what is covered stays covered, and nothing else. -/
theorem windowRanges_covered (hfrom : instant fromTs ≤ t) (hto : t ≤ instant toTs) :
    InRanges (windowRanges fromTs toTs covered) t ↔ InRanges covered t := by
  simp only [InRanges,windowRanges,List.mem_mergeSort,List.mem_filter,List.mem_map,decide_eq_true_eq]
  constructor
  · rintro ⟨_,⟨⟨range,hrange,rfl⟩,_⟩,hlow,hhigh⟩
    rw [clampRange,instant_max] at hlow
    rw [clampRange,instant_min] at hhigh
    exact ⟨range,hrange,(le_max_left _ _).trans hlow,hhigh.trans (min_le_left _ _)⟩
  · rintro ⟨range,hrange,hlow,hhigh⟩
    have hlow' : instant (clampRange fromTs toTs range).1 ≤ t := by
      rw [clampRange,instant_max]
      exact max_le hlow hfrom
    have hhigh' : t ≤ instant (clampRange fromTs toTs range).2 := by
      rw [clampRange,instant_min]
      exact le_min hhigh hto
    exact ⟨_,⟨⟨range,hrange,rfl⟩,instant_le.mp (hlow'.trans hhigh')⟩,hlow',hhigh'⟩

/-- The last range extended by the next one. -/
theorem Ordered.merge_head {last next : TimeRange} (h : Ordered toTs (last::next::ranges)) :
    Ordered toTs ((last.1,max last.2 next.2)::ranges) := by
  obtain ⟨hlow,hstarts⟩ := List.pairwise_cons.mp h.starts
  refine ⟨List.pairwise_cons.mpr ⟨fun r hr => hlow r (by simp [hr]),hstarts.tail⟩,?_,?_⟩
  · intro r hr
    rcases List.mem_cons.mp hr with rfl | hr
    · rw [instant_max]
      exact le_max_of_le_left (h.nonempty last (by simp))
    · exact h.nonempty r (by simp [hr])
  · intro r hr
    rcases List.mem_cons.mp hr with rfl | hr
    · rw [instant_max]
      exact max_le (h.inside last (by simp)) (h.inside next (by simp))
    · exact h.inside r (by simp [hr])

theorem mergeInto_ordered {last : TimeRange} (h : Ordered toTs (last::ranges)) :
    Ordered toTs (mergeInto last ranges) ∧
      ∀ range ∈ mergeInto last ranges, instant last.1 ≤ instant range.1 := by
  induction ranges generalizing last with
  | nil => exact ⟨h,by simp [mergeInto]⟩
  | cons next ranges ih =>
    rw [mergeInto]
    by_cases htouch : next.1 ≤ last.2
    · rw [if_pos htouch]
      exact ih h.merge_head
    · rw [if_neg htouch]
      obtain ⟨hrest,hstart⟩ := ih h.tail
      have hnext := (List.pairwise_cons.mp h.starts).1 next (by simp)
      have hlow : ∀ r ∈ mergeInto next ranges, instant last.1 ≤ instant r.1 := fun r hr =>
        hnext.trans (hstart r hr)
      refine ⟨⟨List.pairwise_cons.mpr ⟨hlow,hrest.starts⟩,?_,?_⟩,?_⟩
      · exact List.forall_mem_cons.mpr ⟨h.nonempty last (by simp),hrest.nonempty⟩
      · exact List.forall_mem_cons.mpr ⟨h.inside last (by simp),hrest.inside⟩
      · exact List.forall_mem_cons.mpr ⟨le_refl _,hlow⟩

theorem mergeInto_covered {last : TimeRange} (h : Ordered toTs (last::ranges)) :
    InRanges (mergeInto last ranges) t ↔ InRanges (last::ranges) t := by
  induction ranges generalizing last with
  | nil => rfl
  | cons next ranges ih =>
    rw [mergeInto]
    by_cases htouch : next.1 ≤ last.2
    · rw [if_pos htouch,ih h.merge_head]
      -- Two ranges that touch cover what the extended one does.
      have hlow := (List.pairwise_cons.mp h.starts).1 next (by simp)
      have htouch' := instant_le.mpr htouch
      simp only [inRanges_cons,instant_max,le_max_iff]
      rw [← or_assoc]
      refine or_congr_left ⟨?_,?_⟩
      · rintro ⟨hstart,hend | hend⟩
        · exact .inl ⟨hstart,hend⟩
        · by_cases hbefore : t ≤ instant last.2
          · exact .inl ⟨hstart,hbefore⟩
          · exact .inr ⟨by linarith,hend⟩
      · rintro (⟨hstart,hend⟩ | ⟨hstart,hend⟩)
        · exact ⟨hstart,.inl hend⟩
        · exact ⟨hlow.trans hstart,.inr hend⟩
    · rw [if_neg htouch,inRanges_cons,inRanges_cons]
      exact or_congr_right (ih h.tail)

theorem mergeRanges_ordered (h : Ordered toTs ranges) : Ordered toTs (mergeRanges ranges) := by
  cases ranges with
  | nil => exact h
  | cons range ranges => exact (mergeInto_ordered h).1

theorem mergeRanges_covered (h : Ordered toTs ranges) :
    InRanges (mergeRanges ranges) t ↔ InRanges ranges t := by
  cases ranges with
  | nil => rfl
  | cons range ranges => exact mergeInto_covered h

/-- A gap is ahead of the cursor, not empty and in the window. -/
theorem gapsFrom_inside (h : Ordered toTs ranges) {gap : Gap} (hgap : gap ∈ gapsFrom toTs cursor ranges) :
    instant cursor ≤ instant gap.fromTs ∧ instant gap.fromTs < instant gap.toTs ∧
      instant gap.toTs ≤ instant toTs := by
  induction ranges generalizing cursor with
  | nil =>
    rw [gapsFrom] at hgap
    split_ifs at hgap with hlt
    · obtain rfl := List.mem_singleton.mp hgap
      exact ⟨le_refl _,instant_lt.mpr hlt,le_refl _⟩
    · cases hgap
  | cons range ranges ih =>
    rcases List.mem_append.mp hgap with hgap | hgap
    · split_ifs at hgap with hlt
      · obtain rfl := List.mem_singleton.mp hgap
        exact ⟨le_refl _,instant_lt.mpr hlt,
          (h.nonempty range (by simp)).trans (h.inside range (by simp))⟩
      · cases hgap
    · obtain ⟨hcursor,hrest⟩ := ih h.tail hgap
      rw [instant_max] at hcursor
      exact ⟨(le_max_left _ _).trans hcursor,hrest⟩

/-- Each gap ends before the next one starts. -/
theorem gapsFrom_ascending (h : Ordered toTs ranges) :
    (gapsFrom toTs cursor ranges).Pairwise fun a b => instant a.toTs ≤ instant b.fromTs := by
  induction ranges generalizing cursor with
  | nil =>
    rw [gapsFrom]
    split_ifs <;> simp
  | cons range ranges ih =>
    rw [gapsFrom]
    split_ifs with hlt
    · refine List.pairwise_cons.mpr ⟨fun gap hgap => ?_,ih h.tail⟩
      have hcursor := (gapsFrom_inside h.tail hgap).1
      rw [instant_max] at hcursor
      exact (h.nonempty range (by simp)).trans ((le_max_right _ _).trans hcursor)
    · exact ih h.tail

/-- Nothing strictly inside a gap is covered. -/
theorem gapsFrom_uncovered (h : Ordered toTs ranges) {gap : Gap}
    (hgap : gap ∈ gapsFrom toTs cursor ranges) (hfrom : instant gap.fromTs < t)
    (hto : t < instant gap.toTs) : ¬InRanges ranges t := by
  induction ranges generalizing cursor with
  | nil => simp [InRanges]
  | cons range ranges ih =>
    rw [inRanges_cons,not_or]
    rcases List.mem_append.mp hgap with hgap | hgap
    · split_ifs at hgap with hlt
      · obtain rfl := List.mem_singleton.mp hgap
        refine ⟨fun hin => absurd hto hin.1.not_gt,?_⟩
        rintro ⟨r,hr,hstart,-⟩
        exact absurd hto (((List.pairwise_cons.mp h.starts).1 r hr).trans hstart).not_gt
      · cases hgap
    · have hcursor := (gapsFrom_inside h.tail hgap).1
      rw [instant_max] at hcursor
      exact ⟨fun hin => absurd hfrom (hin.2.trans ((le_max_right _ _).trans hcursor)).not_gt,
        ih h.tail hgap⟩

/-- What is not covered ahead of the cursor is in a gap. -/
theorem gapsFrom_complete (h : Ordered toTs ranges) (hcursor : instant cursor < instant toTs)
    (hfrom : instant cursor ≤ t) (hto : t ≤ instant toTs) (hnot : ¬InRanges ranges t) :
    ∃ gap ∈ gapsFrom toTs cursor ranges, instant gap.fromTs ≤ t ∧ t ≤ instant gap.toTs := by
  induction ranges generalizing cursor with
  | nil => exact ⟨⟨cursor,toTs⟩,by simp [gapsFrom,instant_lt.mp hcursor],hfrom,hto⟩
  | cons range ranges ih =>
    rw [inRanges_cons,not_or,not_and_or,not_le,not_le] at hnot
    have hnonempty := h.nonempty range (by simp)
    by_cases hbefore : instant range.1 ≤ t
    · -- The range is behind the point, so the cursor stays before it.
      have hbehind := hnot.1.resolve_left hbefore.not_gt
      have hnext : instant (max cursor range.2) < instant toTs := by
        rw [instant_max]
        exact max_lt hcursor (hbehind.trans_le hto)
      obtain ⟨gap,hgap,hin⟩ := ih h.tail hnext
        (by rw [instant_max]; exact max_le hfrom hbehind.le) hnot.2
      exact ⟨gap,List.mem_append_right _ hgap,hin⟩
    · rw [not_le] at hbefore
      have hlt : cursor < range.1 := instant_lt.mp (hfrom.trans_lt hbefore)
      exact ⟨⟨cursor,range.1⟩,by simp [gapsFrom,hlt],hfrom,hbefore.le⟩

/-- The gaps are the complement of the ranges in the window, up to the end points. A window of one
point has no gap. -/
theorem coverageGaps_complement (fromTs toTs : Int64) (covered : List TimeRange) :
    ((coverageGaps fromTs toTs covered).Pairwise fun a b => instant a.toTs ≤ instant b.fromTs) ∧
    (∀ gap ∈ coverageGaps fromTs toTs covered, instant fromTs ≤ instant gap.fromTs ∧
      instant gap.fromTs < instant gap.toTs ∧ instant gap.toTs ≤ instant toTs ∧
      ∀ t, instant gap.fromTs < t → t < instant gap.toTs → ¬InRanges covered t) ∧
    (fromTs < toTs → ∀ t, instant fromTs ≤ t → t ≤ instant toTs → ¬InRanges covered t →
      ∃ gap ∈ coverageGaps fromTs toTs covered, instant gap.fromTs ≤ t ∧ t ≤ instant gap.toTs) ∧
    (fromTs = toTs → coverageGaps fromTs toTs covered = []) ∧
    (fromTs < toTs → (coverageGaps fromTs toTs covered = [] ↔
      ∀ t, instant fromTs ≤ t → t ≤ instant toTs → InRanges covered t)) := by
  have hordered : Ordered toTs (mergeRanges (windowRanges fromTs toTs covered)) :=
    mergeRanges_ordered windowRanges_ordered
  have hcovered : ∀ t, instant fromTs ≤ t → t ≤ instant toTs →
      (InRanges (mergeRanges (windowRanges fromTs toTs covered)) t ↔ InRanges covered t) :=
    fun t hfrom hto => (mergeRanges_covered windowRanges_ordered).trans
      (windowRanges_covered hfrom hto)
  have hgaps : ∀ gap ∈ coverageGaps fromTs toTs covered, instant fromTs ≤ instant gap.fromTs ∧
      instant gap.fromTs < instant gap.toTs ∧ instant gap.toTs ≤ instant toTs ∧
      ∀ t, instant gap.fromTs < t → t < instant gap.toTs → ¬InRanges covered t := by
    intro gap hgap
    obtain ⟨hfrom,hlt,hto⟩ := gapsFrom_inside hordered hgap
    refine ⟨hfrom,hlt,hto,fun t hlow hhigh hin => ?_⟩
    exact gapsFrom_uncovered hordered hgap hlow hhigh
      ((hcovered t (hfrom.trans hlow.le) (hhigh.le.trans hto)).mpr hin)
  have hcomplete : fromTs < toTs → ∀ t, instant fromTs ≤ t → t ≤ instant toTs →
      ¬InRanges covered t → ∃ gap ∈ coverageGaps fromTs toTs covered,
        instant gap.fromTs ≤ t ∧ t ≤ instant gap.toTs := fun hlt t hfrom hto hnot =>
    gapsFrom_complete hordered (instant_lt.mpr hlt) hfrom hto (mt (hcovered t hfrom hto).mp hnot)
  refine ⟨gapsFrom_ascending hordered,hgaps,hcomplete,fun heq => ?_,fun hlt => ⟨fun hnil t hfrom hto =>
    ?_,fun hall => ?_⟩⟩
  · refine List.eq_nil_iff_forall_not_mem.mpr fun gap hgap => ?_
    obtain ⟨hfrom,hlt,hto,-⟩ := hgaps gap hgap
    rw [heq] at hfrom
    linarith
  · by_contra hnot
    obtain ⟨gap,hgap,-⟩ := hcomplete hlt t hfrom hto hnot
    rw [hnil] at hgap
    cases hgap
  · refine List.eq_nil_iff_forall_not_mem.mpr fun gap hgap => ?_
    obtain ⟨hfrom,hlt,hto,hnot⟩ := hgaps gap hgap
    exact hnot ((instant gap.fromTs + instant gap.toTs)/2) (by linarith) (by linarith)
      (hall _ (by linarith) (by linarith))

/-- A window of one point has no gap though it is not covered; ranges of neighbouring microseconds
do not touch; a range of one point parts two gaps that meet there. -/
theorem coverageGaps_edges :
    (¬InRanges [] (instant 5) ∧ coverageGaps 5 5 [] = []) ∧
    ((∀ t : Int64, 0 ≤ t → t ≤ 1 → InRanges [(0,0),(1,1)] (instant t)) ∧
      coverageGaps 0 1 [(0,0),(1,1)] = [⟨0,1⟩]) ∧
    coverageGaps 0 2 [(1,1)] = [⟨0,1⟩,⟨1,2⟩] := by
  have hsorted : windowRanges 0 1 [(0,0),(1,1)] = [(0,0),(1,1)] :=
    List.mergeSort_of_pairwise (by decide)
  refine ⟨⟨by simp [InRanges],by decide +kernel⟩,⟨fun t hlow hhigh => ?_,?_⟩,by decide +kernel⟩
  swap
  · rw [coverageGaps,hsorted]
    decide
  have hcases : t = 0 ∨ t = 1 := by
    simp only [Int64.le_iff_toInt_le,← Int64.toInt_inj] at hlow hhigh ⊢
    simp only [Int64.toInt_zero,Int64.toInt_one] at hlow hhigh ⊢
    omega
  rcases hcases with rfl | rfl
  · exact ⟨(0,0),by simp,le_refl _,le_refl _⟩
  · exact ⟨(1,1),by simp,le_refl _,le_refl _⟩

end Ranges

end PgKronika
