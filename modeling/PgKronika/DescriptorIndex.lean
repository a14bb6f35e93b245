import PgKronika.DescriptorSelection
import PgKronika.IntervalTree

/-! The index of the descriptor view is an implicit interval tree over arrays. What it finds is
what a scan of the list finds, and so the selection of a request is a linear one. -/
namespace PgKronika

open IntervalTree (fill fill_append fill_nil fill_short)

abbrev timestampOrder : LinearOrder Int64 where
  le := (· ≤ ·)
  lt := (· < ·)
  max := max
  min := min
  le_refl := Int64.le_refl
  le_trans _ _ _ := Int64.le_trans
  lt_iff_le_not_ge a b := by
    rw [Int64.lt_iff_toInt_lt,Int64.le_iff_toInt_le,Int64.le_iff_toInt_le]
    omega
  le_antisymm _ _ := Int64.le_antisymm
  le_total := Int64.le_total
  toDecidableLE := inferInstance
  toDecidableLT := inferInstance
  toDecidableEq := inferInstance

section Index

attribute [local instance] timestampOrder

/-- The query of an index built over these spans. -/
def indexedIntersections (spans : List (Int64 × Int64)) (query : CoverageSpan) (stopAfter : ℕ) :
    Bool × List ℕ :=
  IntervalTree.extendIntersections Int64.minValue spans.toArray.toVector query.fromUs query.toUs
    stopAfter

/-- The indices that a scan of the whole list finds. -/
def scannedIntersections (spans : List (Int64 × Int64)) (query : CoverageSpan) : List ℕ :=
  IntervalTree.scan spans query.fromUs query.toUs

theorem indexedIntersections_scan {spans : List (Int64 × Int64)} {query : CoverageSpan}
    {stopAfter : ℕ} (hsorted : spans.Pairwise fun a b => a.1 ≤ b.1) (h : 0 < stopAfter) :
    indexedIntersections spans query stopAfter =
      fill stopAfter [] (scannedIntersections spans query) := by
  have hlist : spans.toArray.toVector.toList = spans := by simp
  have hvector : indexedIntersections spans query stopAfter = fill stopAfter []
      (scannedIntersections spans.toArray.toVector.toList query) :=
    IntervalTree.extendIntersections_eq (by rw [hlist]; exact hsorted) h
  rw [hlist] at hvector
  exact hvector

theorem mem_scannedIntersections {spans : List (Int64 × Int64)} {query : CoverageSpan} {i : ℕ} :
    i ∈ scannedIntersections spans query ↔
      ∃ span, spans[i]? = some span ∧ span.1 < query.toUs ∧ query.fromUs ≤ span.2 := by
  simp only [scannedIntersections,IntervalTree.scan,IntervalTree.meets,List.mem_filter,
    List.mem_range,Option.any_eq_true,Bool.and_eq_true,decide_eq_true_eq]
  constructor
  · exact fun h => h.2
  · rintro ⟨span,hspan,hmeets⟩
    exact ⟨(List.getElem?_eq_some_iff.mp hspan).1,span,hspan,hmeets⟩

theorem scannedIntersections_ascending (spans : List (Int64 × Int64)) (query : CoverageSpan) :
    (scannedIntersections spans query).Pairwise (· < ·) := List.pairwise_lt_range.filter _

/-- What a scan of spans that start at an index finds. -/
def hitsFrom (beforeEnd : ℕ) (fromUs : Int64) : ℕ → List (Int64 × Int64) → List ℕ
  | _,[] => []
  | i,span::spans =>
    if i < beforeEnd ∧ fromUs ≤ span.2 then i :: hitsFrom beforeEnd fromUs (i+1) spans
    else hitsFrom beforeEnd fromUs (i+1) spans

end Index

variable {beforeEnd stopAfter : ℕ} {fromUs : Int64}

theorem hitsFrom_append (i : ℕ) (l r : List (Int64 × Int64)) :
    hitsFrom beforeEnd fromUs i (l++r) =
      hitsFrom beforeEnd fromUs i l++hitsFrom beforeEnd fromUs (i+l.length) r := by
  induction l generalizing i with
  | nil => simp [hitsFrom]
  | cons span l ih =>
    have hlen : i+1+l.length = i+(l.length+1) := by omega
    simp only [List.cons_append,hitsFrom,ih,List.length_cons,hlen]
    split_ifs
    · rfl
    · rfl

theorem hitsFrom_eq (i : ℕ) (spans : List (Int64 × Int64)) :
    hitsFrom beforeEnd fromUs i spans = (List.range' i spans.length).filter fun j =>
      decide (j < beforeEnd) && spans[j-i]?.any fun span => decide (fromUs ≤ span.2) := by
  induction spans generalizing i with
  | nil => rfl
  | cons span spans ih =>
    have htail : (List.range' (i+1) spans.length).filter (fun j =>
        decide (j < beforeEnd) && (span::spans)[j-i]?.any fun span => decide (fromUs ≤ span.2)) =
          hitsFrom beforeEnd fromUs (i+1) spans := by
      rw [ih]
      apply List.filter_congr
      intro j hj
      have hlow := (List.mem_range'_1.mp hj).1
      rw [show j-i = j-(i+1)+1 by omega,List.getElem?_cons_succ]
    rw [List.length_cons,List.range'_succ,List.filter_cons,htail,hitsFrom]
    simp

theorem hitsFrom_pruned {i : ℕ} {spans : List (Int64 × Int64)}
    (h : beforeEnd ≤ i ∨ ∀ span ∈ spans, span.2 < fromUs) :
    hitsFrom beforeEnd fromUs i spans = [] := by
  induction spans generalizing i with
  | nil => rfl
  | cons span spans ih =>
    rcases h with h | h
    · rw [hitsFrom,if_neg (by omega)]
      exact ih (.inl (by omega))
    · have hends : ¬fromUs ≤ span.2 := Int64.not_le.mpr (h span (by simp))
      rw [hitsFrom,if_neg fun hh => hends hh.2]
      exact ih (.inr fun other hother => h other (List.mem_cons_of_mem _ hother))

theorem le_maxUs (a b : Int64) : a ≤ maxUs a b ∧ b ≤ maxUs a b := by
  unfold maxUs
  split_ifs with h
  · exact ⟨Int64.le_of_lt h,Int64.le_refl b⟩
  · exact ⟨Int64.le_refl a,Int64.not_lt.mp h⟩

theorem le_subtreeMaxTs {spans : List (Int64 × Int64)} (span : Int64 × Int64) (h : span ∈ spans) :
    span.2 ≤ subtreeMaxTs spans := by
  have hfold : ∀ (l : List (Int64 × Int64)) (m : Int64),
      m ≤ l.foldl (fun m span => maxUs m span.2) m ∧
        ∀ span ∈ l, span.2 ≤ l.foldl (fun m span => maxUs m span.2) m := by
    intro l
    induction l with
    | nil => exact fun m => ⟨Int64.le_refl m,by simp⟩
    | cons first l ih =>
      intro m
      obtain ⟨hlow,hrest⟩ := ih (maxUs m first.2)
      have hboth := le_maxUs m first.2
      refine ⟨Int64.le_trans hboth.1 hlow,fun span hspan => ?_⟩
      rcases List.mem_cons.mp hspan with rfl | hspan
      · exact Int64.le_trans hboth.2 hlow
      · exact hrest span hspan
  exact (hfold spans Int64.minValue).2 span h

/-- The list form of the traversal fills its output as a scan does. -/
theorem visitIntersections_eq {fuel start : ℕ} {spans : List (Int64 × Int64)} {output : List ℕ}
    (hfuel : spans.length ≤ fuel) (hshort : output.length < stopAfter) :
    visitIntersections beforeEnd fromUs stopAfter fuel start spans output =
      fill stopAfter output (hitsFrom beforeEnd fromUs start spans) := by
  induction fuel generalizing start spans output with
  | zero =>
    obtain rfl := List.eq_nil_of_length_eq_zero (Nat.le_zero.mp hfuel)
    rw [visitIntersections,hitsFrom,fill_nil hshort]
  | succ fuel ih =>
    rw [visitIntersections]
    by_cases hdone : spans = [] ∨ beforeEnd ≤ start ∨ subtreeMaxTs spans < fromUs
    · have hnone : hitsFrom beforeEnd fromUs start spans = [] := by
        rcases hdone with rfl | hstart | hmax
        · rfl
        · exact hitsFrom_pruned (.inl hstart)
        · exact hitsFrom_pruned (.inr fun span hspan =>
            Int64.lt_of_le_of_lt (le_subtreeMaxTs span hspan) hmax)
      rw [if_pos hdone,hnone,fill_nil hshort]
    · rw [if_neg hdone]
      dsimp only
      have hpos : 0 < spans.length := List.length_pos_of_ne_nil fun h => hdone (.inl h)
      have hmiddle : spans.length/2 < spans.length := Nat.div_lt_self hpos (by omega)
      have htake : (spans.take (spans.length/2)).length = spans.length/2 := by
        rw [List.length_take]
        omega
      have hsplit : spans = spans.take (spans.length/2)++
          spans[spans.length/2]::spans.drop (spans.length/2+1) := by
        rw [List.getElem_cons_drop,List.take_append_drop]
      have hhits : hitsFrom beforeEnd fromUs start spans =
          hitsFrom beforeEnd fromUs start (spans.take (spans.length/2))++
            hitsFrom beforeEnd fromUs (start+spans.length/2)
              (spans[spans.length/2]::spans.drop (spans.length/2+1)) := by
        conv_lhs => rw [hsplit]
        rw [hitsFrom_append,htake]
      have hright : (spans.drop (spans.length/2+1)).length ≤ fuel := by
        rw [List.length_drop]
        omega
      rw [hhits,fill_append,ih (by omega) hshort]
      cases hleft : fill stopAfter output
          (hitsFrom beforeEnd fromUs start (spans.take (spans.length/2))) with
      | mk full rest =>
        cases full with
        | true => rfl
        | false =>
          have hrest := fill_short hleft
          rw [hitsFrom]
          by_cases hhit : start+spans.length/2 < beforeEnd ∧ fromUs ≤ spans[spans.length/2].2
          · simp only [List.getElem?_eq_getElem hmiddle,Option.any_some,hhit,decide_true,and_self,
              if_true]
            rw [IntervalTree.fill_cons,IntervalTree.fill_singleton hrest]
            split_ifs with hfull
            · rfl
            · exact ih hright (by rw [List.length_append,List.length_singleton] at hfull ⊢; omega)
          · have hany : ¬(start+spans.length/2 < beforeEnd ∧
                spans[spans.length/2]?.any (fun span => decide (fromUs ≤ span.2)) = true) := by
              simpa [List.getElem?_eq_getElem hmiddle] using hhit
            simp only [hany,hhit,if_false]
            exact ih hright hrest

theorem extendIntersections_scan {spans : List (Int64 × Int64)} {query : CoverageSpan}
    (hsorted : spans.Pairwise fun a b => a.1 ≤ b.1) (h : 0 < stopAfter) :
    extendIntersections spans query stopAfter =
      fill stopAfter [] (scannedIntersections spans query) := by
  have hpart : Partitioned (fun span : Int64 × Int64 => decide (span.1 < query.toUs)) spans :=
    Partitioned.of_sorted hsorted fun a b hab hb => by
      simp only [decide_eq_true_eq] at hb ⊢
      exact Int64.lt_of_le_of_lt hab hb
  have hscan : hitsFrom (spans.takeWhile fun span => decide (span.1 < query.toUs)).length
      query.fromUs 0 spans = scannedIntersections spans query := by
    apply ascending_ext
    · rw [hitsFrom_eq]
      exact (List.pairwise_lt_range' ..).filter _
    · exact scannedIntersections_ascending spans query
    · intro i
      rw [hitsFrom_eq,mem_scannedIntersections,List.mem_filter,← hpart.getElem?_any]
      simp only [Nat.sub_zero,List.mem_range'_1,Bool.and_eq_true,Option.any_eq_true,
        decide_eq_true_eq]
      constructor
      · rintro ⟨-,⟨span,hspan,hbefore⟩,other,hother,hends⟩
        cases hspan.symm.trans hother
        exact ⟨span,hspan,hbefore,hends⟩
      · rintro ⟨span,hspan,hbefore,hends⟩
        have hlt := (List.getElem?_eq_some_iff.mp hspan).1
        exact ⟨⟨Nat.zero_le i,by omega⟩,⟨span,hspan,hbefore⟩,span,hspan,hends⟩
  rw [extendIntersections,visitIntersections_eq (le_refl _) h,hscan]

/-! A selection against a scan of the view. -/

/-- The closed interval of the segment and the half-open range share an instant. -/
def SegmentDescriptor.Meets (d : SegmentDescriptor) (range : CoverageSpan) : Prop :=
  ∃ t : Int64, d.minTs ≤ t ∧ t ≤ d.maxTs ∧ range.fromUs ≤ t ∧ t < range.toUs

theorem SegmentDescriptor.meets_iff {d : SegmentDescriptor} {range : CoverageSpan}
    (h : d.minTs ≤ d.maxTs) :
    d.Meets range ↔ d.minTs < range.toUs ∧ range.fromUs ≤ d.maxTs := by
  constructor
  · rintro ⟨t,hmin,hmax,hfrom,hto⟩
    exact ⟨Int64.lt_of_le_of_lt hmin hto,Int64.le_trans hfrom hmax⟩
  · rintro ⟨hto,hfrom⟩
    have hlow := le_maxUs d.minTs range.fromUs
    refine ⟨maxUs d.minTs range.fromUs,hlow.1,?_,hlow.2,?_⟩
    · unfold maxUs
      split_ifs
      · exact hfrom
      · exact h
    · unfold maxUs
      split_ifs
      · exact range.lt
      · exact hto

/-- The last segment of the view that ends before the range. -/
structure DescriptorView.LeftHalo (view : DescriptorView) (range : CoverageSpan) (i : ℕ) :
    Prop where
  ends : ∃ e, view.sealed[i]? = some e ∧ e.descriptor.maxTs < range.fromUs
  last : ∀ j e, i < j → view.sealed[j]? = some e → range.fromUs ≤ e.descriptor.maxTs

/-- The first segment of the view that starts at the end of the range or after it. -/
structure DescriptorView.RightHalo (view : DescriptorView) (range : CoverageSpan) (i : ℕ) :
    Prop where
  starts : ∃ e, view.sealed[i]? = some e ∧ range.toUs ≤ e.descriptor.minTs
  first : ∀ j e, j < i → view.sealed[j]? = some e → e.descriptor.minTs < range.toUs

def DescriptorView.Selects (view : DescriptorView) (range : CoverageSpan) (i : ℕ) : Prop :=
  (∃ e, view.sealed[i]? = some e ∧ e.descriptor.Meets range) ∨ view.LeftHalo range i ∨
    view.RightHalo range i

open Classical in
/-- The linear scan of the view for one range. -/
noncomputable def DescriptorView.linearSelection (view : DescriptorView) (range : CoverageSpan) :
    List ℕ := (List.range view.sealed.length).filter fun i => decide (view.Selects range i)

open Classical in
/-- The linear scan of the segments that are not available. -/
noncomputable def DescriptorView.linearGaps (view : DescriptorView) (range : CoverageSpan) :
    List ℕ := (List.range view.unavailable.length).filter fun i =>
  decide (∃ d, view.unavailable[i]? = some d ∧ d.Meets range)

theorem descriptorLe_trans {a b c : SegmentDescriptor} (hab : descriptorLe a b = true)
    (hbc : descriptorLe b c = true) : descriptorLe a c = true := by
  simp only [descriptorLe,decide_eq_true_eq,Int64.lt_iff_toInt_lt,Int64.le_iff_toInt_le,
    ← Int64.toInt_inj] at hab hbc ⊢
  omega

theorem descriptorLe_total (a b : SegmentDescriptor) :
    (descriptorLe a b || descriptorLe b a) = true := by
  simp only [descriptorLe,Bool.or_eq_true,decide_eq_true_eq,Int64.lt_iff_toInt_lt,
    Int64.le_iff_toInt_le,← Int64.toInt_inj]
  omega

theorem minTs_le_of_descriptorLe {a b : SegmentDescriptor} (h : descriptorLe a b = true) :
    a.minTs ≤ b.minTs := by
  simp only [descriptorLe,decide_eq_true_eq] at h
  rcases h with hlt | ⟨heq,-⟩
  · exact Int64.le_of_lt hlt
  · exact Int64.le_of_eq heq

theorem mergeSort_descriptorLe {α : Type} (key : α → SegmentDescriptor) (l : List α) :
    (l.mergeSort fun a b => descriptorLe (key a) (key b)).Pairwise fun a b =>
      descriptorLe (key a) (key b) = true := by
  have htrans : ∀ a b c : α, descriptorLe (key a) (key b) = true →
      descriptorLe (key b) (key c) = true → descriptorLe (key a) (key c) = true :=
    fun _ _ _ => descriptorLe_trans
  have htotal : ∀ a b : α, (descriptorLe (key a) (key b) || descriptorLe (key b) (key a)) =
      true := fun _ _ => descriptorLe_total _ _
  exact List.pairwise_mergeSort htrans htotal l

/-- The lists of a view are in order and its segments do not end before they start. -/
structure DescriptorView.Ordered (view : DescriptorView) : Prop where
  sealedOrder : view.sealed.Pairwise fun a b => descriptorLe a.descriptor b.descriptor = true
  unavailableOrder : view.unavailable.Pairwise fun a b => descriptorLe a b = true
  sealedProper : ∀ e ∈ view.sealed, e.descriptor.minTs ≤ e.descriptor.maxTs
  unavailableProper : ∀ d ∈ view.unavailable, d.minTs ≤ d.maxTs

theorem DescriptorView.new_ordered {viewGeneration : UInt64} {sealedList : List DescriptorEntry}
    {unavailable : List SegmentDescriptor} {live : LiveView}
    (hsealed : ∀ e ∈ sealedList, e.descriptor.minTs ≤ e.descriptor.maxTs)
    (hunavailable : ∀ d ∈ unavailable, d.minTs ≤ d.maxTs) :
    (DescriptorView.new viewGeneration sealedList unavailable live).Ordered where
  sealedOrder := mergeSort_descriptorLe DescriptorEntry.descriptor sealedList
  unavailableOrder := mergeSort_descriptorLe id unavailable
  sealedProper e he := hsealed e (List.mem_mergeSort.mp he)
  unavailableProper d hd := hunavailable d (List.mem_mergeSort.mp hd)

theorem findIdx_eq_some {α : Type} {q : α → Bool} {l : List α} {i : ℕ} :
    l.findIdx? q = some i ↔ (∃ x, l[i]? = some x ∧ q x = true) ∧
      ∀ j x, j < i → l[j]? = some x → q x = false := by
  rw [List.findIdx?_eq_some_iff_getElem]
  constructor
  · rintro ⟨hi,hq,hfirst⟩
    refine ⟨⟨l[i],List.getElem?_eq_getElem hi,hq⟩,fun j x hj hx => ?_⟩
    obtain ⟨hlt,rfl⟩ := List.getElem?_eq_some_iff.mp hx
    simpa using hfirst j hj
  · rintro ⟨⟨x,hx,hq⟩,hfirst⟩
    obtain ⟨hi,rfl⟩ := List.getElem?_eq_some_iff.mp hx
    refine ⟨hi,hq,fun j hj => ?_⟩
    have hlt : j < l.length := hj.trans hi
    simpa using hfirst j l[j] hj (List.getElem?_eq_getElem hlt)

theorem rposition_eq_some {α : Type} {q : α → Bool} {l : List α} {i : ℕ} :
    rposition q l = some i ↔ (∃ x, l[i]? = some x ∧ q x = true) ∧
      ∀ j x, i < j → l[j]? = some x → q x = false := by
  have hback : ∀ j, j < l.length → l.reverse[l.length-1-j]? = l[j]? := by
    intro j hj
    rw [List.getElem?_reverse (by omega)]
    congr 1
    omega
  rw [rposition,Option.map_eq_some_iff]
  simp only [findIdx_eq_some]
  constructor
  · rintro ⟨k,⟨⟨x,hx,hq⟩,hfirst⟩,rfl⟩
    have hk := (List.getElem?_eq_some_iff.mp hx).1
    rw [List.length_reverse] at hk
    rw [List.getElem?_reverse hk] at hx
    refine ⟨⟨x,hx,hq⟩,fun j y hj hy => ?_⟩
    have hlt := (List.getElem?_eq_some_iff.mp hy).1
    exact hfirst (l.length-1-j) y (by omega) ((hback j hlt).trans hy)
  · rintro ⟨⟨x,hx,hq⟩,hlast⟩
    have hi := (List.getElem?_eq_some_iff.mp hx).1
    refine ⟨l.length-1-i,⟨⟨x,(hback i hi).trans hx,hq⟩,fun j y hj hy => ?_⟩,by omega⟩
    have hlt : j < l.length := by omega
    rw [List.getElem?_reverse hlt] at hy
    exact hlast (l.length-1-j) y (by omega) hy

variable {view : DescriptorView} {range : CoverageSpan}

theorem rposition_leftHalo {i : ℕ} :
    rposition (fun e => decide (e.descriptor.maxTs < range.fromUs)) view.sealed = some i ↔
      view.LeftHalo range i := by
  rw [rposition_eq_some]
  simp only [decide_eq_true_eq,decide_eq_false_iff_not,Int64.not_lt]
  exact ⟨fun h => ⟨h.1,h.2⟩,fun h => ⟨h.ends,h.last⟩⟩

theorem findIdx_rightHalo {i : ℕ} :
    view.sealed.findIdx? (fun e => decide (range.toUs ≤ e.descriptor.minTs)) = some i ↔
      view.RightHalo range i := by
  rw [findIdx_eq_some]
  simp only [decide_eq_true_eq,decide_eq_false_iff_not,Int64.not_le]
  exact ⟨fun h => ⟨h.1,h.2⟩,fun h => ⟨h.starts,h.first⟩⟩

theorem pushHalo_eq {selected : List ℕ} {halo : Option ℕ} (hshort : selected.length < stopAfter)
    (hnew : ∀ i ∈ halo, i ∉ selected) :
    pushHalo stopAfter selected halo = fill stopAfter selected halo.toList := by
  cases halo with
  | none => exact (fill_nil hshort).symm
  | some i =>
    rw [pushHalo,if_neg (hnew i rfl),Option.toList_some,IntervalTree.fill_singleton hshort]
    split_ifs with hfull
    · rw [beq_iff_eq.mpr hfull]
    · rw [beq_eq_false_iff_ne.mpr hfull]

theorem fill_full {output found : List ℕ} :
    (fill stopAfter output found).1 = true ↔ stopAfter ≤ output.length+found.length := by
  unfold fill
  split_ifs with h
  · simp only [false_iff]
    omega
  · simp only [true_iff]
    omega

theorem fill_open {output found rest : List ℕ} (h : fill stopAfter output found = (false,rest)) :
    rest = output++found := by
  unfold fill at h
  split_ifs at h
  · cases h
    rfl
  · cases h

/-- What a selection gathers before it is put in order. -/
def DescriptorView.gathered (view : DescriptorView) (range : CoverageSpan) : List ℕ :=
  scannedIntersections (view.sealed.map fun e => e.descriptor.span) range++
    ((rposition (fun e => decide (e.descriptor.maxTs < range.fromUs)) view.sealed).toList++
      (view.sealed.findIdx? fun e => decide (range.toUs ≤ e.descriptor.minTs)).toList)

theorem mem_scanned_sealed (hview : view.Ordered) {i : ℕ} :
    i ∈ scannedIntersections (view.sealed.map fun e => e.descriptor.span) range ↔
      ∃ e, view.sealed[i]? = some e ∧ e.descriptor.Meets range := by
  rw [mem_scannedIntersections]
  constructor
  · rintro ⟨span,hspan,hto,hfrom⟩
    rw [List.getElem?_map,Option.map_eq_some_iff] at hspan
    obtain ⟨e,he,rfl⟩ := hspan
    have hproper := hview.sealedProper e (List.mem_of_getElem? he)
    exact ⟨e,he,(SegmentDescriptor.meets_iff hproper).mpr ⟨hto,hfrom⟩⟩
  · rintro ⟨e,he,hmeets⟩
    have hproper := hview.sealedProper e (List.mem_of_getElem? he)
    obtain ⟨hto,hfrom⟩ := (SegmentDescriptor.meets_iff hproper).mp hmeets
    exact ⟨e.descriptor.span,by rw [List.getElem?_map,he]; rfl,hto,hfrom⟩

theorem mem_gathered (hview : view.Ordered) {i : ℕ} :
    i ∈ view.gathered range ↔ view.Selects range i := by
  simp only [DescriptorView.gathered,DescriptorView.Selects,List.mem_append,Option.mem_toList,
    mem_scanned_sealed hview,rposition_leftHalo,findIdx_rightHalo]

theorem gathered_nodup (hview : view.Ordered) : (view.gathered range).Nodup := by
  have hscan := (scannedIntersections_ascending
    (view.sealed.map fun e => e.descriptor.span) range).imp fun h => Nat.ne_of_lt h
  have hhalos : ∀ i, view.LeftHalo range i → view.RightHalo range i → False := by
    rintro i ⟨⟨e,he,hends⟩,-⟩ ⟨⟨e',he',hstarts⟩,-⟩
    cases he.symm.trans he'
    have hproper := hview.sealedProper e (List.mem_of_getElem? he)
    have hlt := Int64.lt_of_lt_of_le (Int64.lt_trans hends range.lt) hstarts
    exact Int64.not_le.mpr hlt hproper
  have hone : ∀ o : Option ℕ, o.toList.Nodup := by
    intro o
    cases o with
    | none => exact List.nodup_nil
    | some i => exact List.nodup_singleton i
  refine List.nodup_append'.mpr ⟨hscan,List.nodup_append'.mpr ⟨hone _,hone _,?_⟩,?_⟩
  · intro i hl hr
    rw [Option.mem_toList] at hl hr
    exact hhalos i (rposition_leftHalo.mp hl) (findIdx_rightHalo.mp hr)
  · intro i hi hhalo
    obtain ⟨e,he,t,hmin,hmax,hfrom,hto⟩ := (mem_scanned_sealed hview).mp hi
    simp only [List.mem_append,Option.mem_toList,rposition_leftHalo,
      findIdx_rightHalo] at hhalo
    rcases hhalo with ⟨⟨e',he',hends⟩,-⟩ | ⟨⟨e',he',hstarts⟩,-⟩
    · cases he.symm.trans he'
      exact Int64.not_le.mpr hends (Int64.le_trans hfrom hmax)
    · cases he.symm.trans he'
      exact Int64.not_le.mpr hto (Int64.le_trans hstarts hmin)

theorem linearSelection_ascending : (view.linearSelection range).Pairwise (· < ·) :=
  List.pairwise_lt_range.filter _

theorem mem_linearSelection {i : ℕ} : i ∈ view.linearSelection range ↔ view.Selects range i := by
  simp only [DescriptorView.linearSelection,List.mem_filter,List.mem_range,decide_eq_true_eq]
  refine ⟨fun h => h.2,fun h => ⟨?_,h⟩⟩
  rcases h with ⟨e,he,-⟩ | ⟨⟨e,he,-⟩,-⟩ | ⟨⟨e,he,-⟩,-⟩
  · exact (List.getElem?_eq_some_iff.mp he).1
  · exact (List.getElem?_eq_some_iff.mp he).1
  · exact (List.getElem?_eq_some_iff.mp he).1

theorem sortDedup_gathered (hview : view.Ordered) :
    sortDedup (view.gathered range) = view.linearSelection range :=
  sortDedup_of_ascending linearSelection_ascending fun i => by
    rw [mem_gathered hview,mem_linearSelection]

theorem length_gathered (hview : view.Ordered) :
    (view.gathered range).length = (view.linearSelection range).length := by
  have hnodup : (view.linearSelection range).Nodup :=
    linearSelection_ascending.imp fun h => Nat.ne_of_lt h
  have hperm := (List.perm_ext_iff_of_nodup (gathered_nodup hview) hnodup).mpr fun i => by
    rw [mem_gathered hview,mem_linearSelection]
  exact hperm.length_eq

theorem sealed_starts (hview : view.Ordered) :
    (view.sealed.map fun e => e.descriptor.span).Pairwise fun a b => a.1 ≤ b.1 :=
  List.pairwise_map.mpr (hview.sealedOrder.imp minTs_le_of_descriptorLe)

theorem unavailable_starts (hview : view.Ordered) :
    (view.unavailable.map SegmentDescriptor.span).Pairwise fun a b => a.1 ≤ b.1 :=
  List.pairwise_map.mpr (hview.unavailableOrder.imp minTs_le_of_descriptorLe)

/-- What the indexed selection answers: the gathered indices in order, unless there are too
many. -/
theorem extendSelectedWithHalo_gathered (hview : view.Ordered) (h : 0 < stopAfter) :
    view.extendSelectedWithHalo range stopAfter =
      match fill stopAfter [] (view.gathered range) with
      | (true,selected) => (true,selected)
      | (false,selected) => (false,sortDedup selected) := by
  have hnodup : (view.gathered range).Nodup := gathered_nodup hview
  rw [DescriptorView.gathered] at hnodup ⊢
  rw [DescriptorView.extendSelectedWithHalo,extendIntersections_scan (sealed_starts hview) h,
    fill_append]
  cases hscan : fill stopAfter []
      (scannedIntersections (view.sealed.map fun e => e.descriptor.span) range) with
  | mk full selected =>
    cases full with
    | true => rfl
    | false =>
      have hselected := fill_open hscan
      rw [List.nil_append] at hselected
      subst hselected
      have hshort := fill_short hscan
      obtain ⟨-,hhalos,hdisjoint⟩ := List.nodup_append'.mp hnodup
      obtain ⟨-,-,hpair⟩ := List.nodup_append'.mp hhalos
      dsimp only
      rw [pushHalo_eq hshort fun i hi hmem => hdisjoint hmem
        (List.mem_append_left _ (Option.mem_toList.mpr hi)),fill_append]
      generalize hleft : fill stopAfter _ (Option.toList _) = left
      obtain ⟨_ | _,withLeft⟩ := left
      · have hl := fill_open hleft
        have hlshort := fill_short hleft
        dsimp only
        rw [pushHalo_eq hlshort]
        · generalize hright : fill stopAfter withLeft (Option.toList _) = right
          obtain ⟨_ | _,withRight⟩ := right
          · have hlen := (length_sortDedup_le withRight).trans_lt (fill_short hright)
            simp [hlen.ne]
          · rfl
        · intro i hi hmem
          rw [hl] at hmem
          rcases List.mem_append.mp hmem with hmem | hmem
          · exact hdisjoint hmem (List.mem_append_right _ (Option.mem_toList.mpr hi))
          · exact hpair hmem (Option.mem_toList.mpr hi)
      · rfl

theorem extendSelectedWithHalo_linear (hview : view.Ordered) (h : 0 < stopAfter) :
    ((view.extendSelectedWithHalo range stopAfter).1 = true ↔
      stopAfter ≤ (view.linearSelection range).length) ∧
    ((view.extendSelectedWithHalo range stopAfter).1 = false →
      (view.extendSelectedWithHalo range stopAfter).2 = view.linearSelection range) := by
  have hfull : (fill stopAfter [] (view.gathered range)).1 = true ↔ _ := fill_full
  rw [length_gathered hview,List.length_nil,Nat.zero_add] at hfull
  rw [extendSelectedWithHalo_gathered hview h,← hfull]
  cases hfill : fill stopAfter [] (view.gathered range) with
  | mk full selected =>
    cases full with
    | true => simp
    | false =>
      have hselected := fill_open hfill
      rw [List.nil_append] at hselected
      simp [hselected,sortDedup_gathered hview]

theorem linearGaps_scan (hview : view.Ordered) :
    view.linearGaps range =
      scannedIntersections (view.unavailable.map SegmentDescriptor.span) range := by
  apply ascending_ext (List.pairwise_lt_range.filter _) (scannedIntersections_ascending _ _)
  intro i
  simp only [mem_scannedIntersections,List.mem_filter,List.mem_range,decide_eq_true_eq]
  constructor
  · rintro ⟨-,d,hd,hmeets⟩
    have hproper := hview.unavailableProper d (List.mem_of_getElem? hd)
    obtain ⟨hto,hfrom⟩ := (SegmentDescriptor.meets_iff hproper).mp hmeets
    exact ⟨d.span,by rw [List.getElem?_map,hd]; rfl,hto,hfrom⟩
  · rintro ⟨span,hspan,hto,hfrom⟩
    rw [List.getElem?_map,Option.map_eq_some_iff] at hspan
    obtain ⟨d,hd,rfl⟩ := hspan
    have hproper := hview.unavailableProper d (List.mem_of_getElem? hd)
    exact ⟨(List.getElem?_eq_some_iff.mp hd).1,d,hd,
      (SegmentDescriptor.meets_iff hproper).mpr ⟨hto,hfrom⟩⟩

/-- The gaps overflow exactly when too many segments meet the range: a gap fewer than the
segments found does not count. -/
theorem extendUnavailableGaps_full (hview : view.Ordered) (h : 0 < stopAfter) :
    (view.extendUnavailableGaps range stopAfter).1 = true ↔
      stopAfter ≤ (view.linearGaps range).length := by
  have hfull : (fill stopAfter [] (view.linearGaps range)).1 = true ↔ _ := fill_full
  rw [List.length_nil,Nat.zero_add] at hfull
  rw [DescriptorView.extendUnavailableGaps,extendIntersections_scan (unavailable_starts hview) h,
    ← linearGaps_scan hview,← hfull]
  cases hfill : fill stopAfter [] (view.linearGaps range) with
  | mk full found =>
    cases full with
    | true => simp
    | false =>
      have hshort := fill_short hfill
      have hlen : ∀ gaps : List OmittedRange, gaps.length ≤ found.length →
          (sortDedup gaps).length < stopAfter := fun gaps hgaps =>
        ((length_sortDedup_le gaps).trans hgaps).trans_lt hshort
      simp only [Bool.false_or,decide_eq_true_eq,Bool.false_eq_true,iff_false,not_le]
      exact hlen _ (List.length_filterMap_le _ _)

/-- One call of the traversal leads to another. -/
inductive DescendsTo {n : ℕ} (s : IntervalTree.Slice n) : IntervalTree.Slice n → Prop
  | left (h : s.start ≠ s.stop) : DescendsTo s (s.left h)
  | right (h : s.start ≠ s.stop) : DescendsTo s (s.right h)

theorem DescendsTo.shrinks {n : ℕ} {s t : IntervalTree.Slice n} (h : DescendsTo s t) :
    t.size < s.size ∧ s.start ≤ t.start ∧ t.stop ≤ s.stop := by
  have hmiddle := s.start_le_middle
  cases h with
  | left h => exact ⟨s.left_size h,le_refl _,(IntervalTree.Slice.middle_lt_stop h).le⟩
  | right h => exact ⟨s.right_size h,Nat.le_succ_of_le hmiddle,le_refl _⟩

namespace SelectedSealedPlan

variable {limit : ℕ}

theorem build_invalid (h : limit = 0 ∨ absoluteMaxSelectedSegments < limit) :
    build view range limit = .error .invalidLimit := by
  rw [build,dif_pos h]

theorem build_limited (h : ¬(limit = 0 ∨ absoluteMaxSelectedSegments < limit)) :
    (build view range limit = .error (.limitExceeded limit) ↔
      (view.extendSelectedWithHalo range (limit+1)).1 = true ∨
        (view.extendUnavailableGaps range (limit+1)).1 = true) ∧
    ∀ plan, build view range limit = .ok plan →
      (view.extendSelectedWithHalo range (limit+1)).1 = false ∧
        plan.selectedIndices = (view.extendSelectedWithHalo range (limit+1)).2 := by
  rw [build,dif_neg h]
  split
  · next he =>
    rw [he]
    simp
  · next selected he =>
    split
    · next hg =>
      rw [hg]
      simp
    · next gaps hg =>
      have hopen := congrArg Prod.fst he
      have hfound := congrArg Prod.snd he
      have hgaps := congrArg Prod.fst hg
      refine ⟨by simp [hopen,hgaps],fun plan hplan => ⟨hopen,?_⟩⟩
      cases hplan
      exact hfound.symm

/-- The index finds what a scan finds, for views as they are built. Only limits up to the fixed
maximum are served. -/
theorem build_linear (viewGeneration : UInt64) (sealedList : List DescriptorEntry)
    (unavailable : List SegmentDescriptor) (live : LiveView) (range : CoverageSpan)
    (hsealed : ∀ e ∈ sealedList, e.descriptor.minTs ≤ e.descriptor.maxTs)
    (hunavailable : ∀ d ∈ unavailable, d.minTs ≤ d.maxTs) :
    let view := DescriptorView.new viewGeneration sealedList unavailable live
    (view.sealed.Perm sealedList ∧
      view.sealed.Pairwise fun a b => descriptorLe a.descriptor b.descriptor = true) ∧
    (∀ stopAfter, 0 < stopAfter →
      (indexedIntersections (view.sealed.map fun e => e.descriptor.span) range stopAfter =
        extendIntersections (view.sealed.map fun e => e.descriptor.span) range stopAfter) ∧
      (indexedIntersections (view.unavailable.map SegmentDescriptor.span) range stopAfter =
        extendIntersections (view.unavailable.map SegmentDescriptor.span) range stopAfter)) ∧
    (∀ stopAfter, 0 < stopAfter →
      ((view.extendSelectedWithHalo range stopAfter).1 = true ↔
        stopAfter ≤ (view.linearSelection range).length) ∧
      ((view.extendSelectedWithHalo range stopAfter).1 = false →
        (view.extendSelectedWithHalo range stopAfter).2 = view.linearSelection range)) ∧
    (view.linearSelection range).Pairwise (· < ·) ∧
    (∀ limit, 1 ≤ limit → limit ≤ absoluteMaxSelectedSegments →
      (build view range limit = .error (.limitExceeded limit) ↔
        limit < (view.linearSelection range).length ∨
          limit < (view.linearGaps range).length) ∧
      ∀ plan, build view range limit = .ok plan →
        plan.selectedIndices = view.linearSelection range) ∧
    (∀ limit, limit = 0 ∨ absoluteMaxSelectedSegments < limit →
      build view range limit = .error .invalidLimit) ∧
    ∀ (n : ℕ) (s t : IntervalTree.Slice n), DescendsTo s t →
      t.size < s.size ∧ s.start ≤ t.start ∧ t.stop ≤ s.stop ∧ s.stop ≤ n := by
  intro view
  have hview : view.Ordered := DescriptorView.new_ordered hsealed hunavailable
  refine ⟨⟨List.mergeSort_perm _ _,hview.sealedOrder⟩,fun stopAfter h => ⟨?_,?_⟩,
    fun stopAfter h => extendSelectedWithHalo_linear hview h,linearSelection_ascending,
    fun limit hpos hmax => ?_,fun limit h => build_invalid h,fun n s t h => ?_⟩
  · rw [indexedIntersections_scan (sealed_starts hview) h,
      extendIntersections_scan (sealed_starts hview) h]
  · rw [indexedIntersections_scan (unavailable_starts hview) h,
      extendIntersections_scan (unavailable_starts hview) h]
  · have hserved : ¬(limit = 0 ∨ absoluteMaxSelectedSegments < limit) := by omega
    obtain ⟨hlimited,hok⟩ := @build_limited view range limit hserved
    obtain ⟨hfull,hselected⟩ :=
      @extendSelectedWithHalo_linear _ view range hview (Nat.succ_pos limit)
    rw [hlimited,hfull,extendUnavailableGaps_full hview (Nat.succ_pos limit)]
    refine ⟨Iff.rfl,fun plan hplan => ?_⟩
    obtain ⟨hopen,heq⟩ := hok plan hplan
    rw [heq]
    exact hselected hopen
  · obtain ⟨hsize,hstart,hstop⟩ := h.shrinks
    exact ⟨hsize,hstart,hstop,s.inside⟩

/-- Copies of one segment that meets the range are all selected. -/
theorem linearSelection_replicate {viewGeneration : UInt64} {entry : DescriptorEntry}
    {live : LiveView} (hmeets : entry.descriptor.Meets range) (n : ℕ) :
    ((DescriptorView.new viewGeneration (List.replicate n entry) [] live).linearSelection
      range).length = n := by
  have hall : ∀ i, i < n →
      (DescriptorView.new viewGeneration (List.replicate n entry) [] live).sealed[i]? =
        some entry := by
    intro i hi
    have hlen : (DescriptorView.new viewGeneration (List.replicate n entry) [] live).sealed.length =
        n := by simp [DescriptorView.new]
    have hlt : i < (DescriptorView.new viewGeneration (List.replicate n entry) []
        live).sealed.length := by omega
    have hmem := List.getElem_mem hlt
    rw [List.getElem?_eq_getElem hlt,List.eq_of_mem_replicate (List.mem_mergeSort.mp hmem)]
  have hself : (DescriptorView.new viewGeneration (List.replicate n entry) [] live).linearSelection
      range = List.range n := by
    apply ascending_ext linearSelection_ascending List.pairwise_lt_range
    intro i
    rw [mem_linearSelection,List.mem_range]
    constructor
    · intro h
      have hlt := List.mem_range.mp (List.mem_filter.mp (mem_linearSelection.mpr h)).1
      simpa [DescriptorView.new] using hlt
    · exact fun hi => .inl ⟨entry,hall i hi,hmeets⟩
  rw [hself,List.length_range]

def instantEntry : DescriptorEntry where
  descriptor := ⟨⟨⟨0,segmentIdInRange_zero⟩⟩,0,0⟩
  factBuildKey := ⟨⟨.replicate 32 0⟩,⟨.replicate 32 0⟩⟩

def idleLive : LiveView := ⟨0,0,0,.empty⟩

def firstInstant : CoverageSpan := ⟨0,1,by decide⟩

theorem instantEntry_meets : instantEntry.descriptor.Meets firstInstant :=
  ⟨0,by decide,by decide,by decide,by decide⟩

theorem build_linear_single :
    SelectedSealedPlan.build (DescriptorView.new 0 [instantEntry,instantEntry] [] idleLive)
      firstInstant 1 = .error (.limitExceeded 1) := by
  obtain ⟨-,-,-,-,hlimits,-⟩ := build_linear 0 [instantEntry,instantEntry] [] idleLive
    firstInstant (by decide) (by decide)
  have hlen : ((DescriptorView.new 0 [instantEntry,instantEntry] [] idleLive).linearSelection
      firstInstant).length = 2 := linearSelection_replicate instantEntry_meets 2
  have hmore : 1 < ((DescriptorView.new 0 [instantEntry,instantEntry] [] idleLive).linearSelection
      firstInstant).length := by omega
  exact (hlimits 1 (by decide) (by decide)).1.mpr (.inl hmore)

/-- A limit past the fixed maximum is refused even when more segments than it are selected. -/
theorem build_past_maximum :
    ¬∀ (sealedList : List DescriptorEntry) (range : CoverageSpan) (limit : ℕ),
      (∀ e ∈ sealedList, e.descriptor.minTs ≤ e.descriptor.maxTs) → 1 ≤ limit →
      (build (.new 0 sealedList [] idleLive) range limit = .error (.limitExceeded limit) ↔
        limit < ((DescriptorView.new 0 sealedList [] idleLive).linearSelection range).length ∨
          limit < ((DescriptorView.new 0 sealedList [] idleLive).linearGaps range).length) := by
  intro hclaim
  have hlimit := hclaim (List.replicate 4098 instantEntry) firstInstant 4097
    (fun e he => by rw [List.eq_of_mem_replicate he]; decide) (by decide)
  rw [build_invalid (.inr (by decide)),linearSelection_replicate instantEntry_meets] at hlimit
  have himpossible := hlimit.mpr (.inl (by decide))
  cases himpossible

end SelectedSealedPlan

end PgKronika
