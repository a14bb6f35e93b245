import Mathlib

/-! The maximal runs of matches in a list, found in one pass with an open run. -/
namespace PgKronika
namespace MaximalRuns

variable {α : Type} (p : α → Bool)

/-- The runs from an index on, with the start of the open run. -/
def runsFrom : ℕ → List α → Option ℕ → List (ℕ × ℕ)
  | _,[],none => []
  | i,[],some start => [(start,i-1)]
  | i,a::l,none => if p a then runsFrom (i+1) l (some i) else runsFrom (i+1) l none
  | i,a::l,some start =>
    if p a then runsFrom (i+1) l (some start) else (start,i-1) :: runsFrom (i+1) l none

/-- Matches from `first` to `last`, and none next to them. -/
structure IsRun (xs : List α) (first last : ℕ) : Prop where
  ordered : first ≤ last
  inside : ∀ k, first ≤ k → k ≤ last → xs[k]?.any p = true
  before : ∀ k, k+1 = first → xs[k]?.any p = false
  behind : xs[last+1]?.any p = false

/-- What is known of the elements before an index: they end in no match, or in an open run. -/
def Open (xs : List α) (i : ℕ) : Option ℕ → Prop
  | none => ∀ k, k+1 = i → xs[k]?.any p = false
  | some start => start < i ∧ (∀ k, start ≤ k → k < i → xs[k]?.any p = true) ∧
      ∀ k, k+1 = start → xs[k]?.any p = false

variable {p} {xs : List α}

/-- The open run ends before an element that does not match. -/
theorem Open.closed {i start first last : ℕ} (h : Open p xs i (some start))
    (hi : xs[i]?.any p = false) :
    IsRun p xs first last ∧ start ≤ first ∧ first ≤ i ↔ first = start ∧ last = i-1 := by
  obtain ⟨hlt,hinside,hbefore⟩ := h
  constructor
  · rintro ⟨hrun,hle,hfirst⟩
    have hlast : last < i := by
      by_contra hge
      have hmatch := hrun.inside i hfirst (by omega)
      simp [hi] at hmatch
    have hstart : first = start := by
      by_contra hne
      have hnone := hrun.before (first-1) (by have := hrun.ordered; omega)
      have hmatch := hinside (first-1) (by omega) (by have := hrun.ordered; omega)
      simp [hnone] at hmatch
    refine ⟨hstart,?_⟩
    by_contra hne
    have hmatch := hinside (last+1) (by have := hrun.ordered; omega) (by omega)
    simp [hrun.behind] at hmatch
  · rintro ⟨rfl,rfl⟩
    refine ⟨⟨by omega,fun k hk hk' => hinside k hk (by omega),hbefore,?_⟩,le_refl _,hlt.le⟩
    have hback : i-1+1 = i := by omega
    rw [hback,hi]

/-- What is known before an index extends to the next one. -/
theorem Open.next {i : ℕ} {current : Option ℕ} (h : Open p xs i current) :
    Open p xs (i+1) (if xs[i]?.any p then some (current.getD i) else none) := by
  by_cases hi : xs[i]?.any p = true
  · rw [if_pos hi]
    cases current with
    | none =>
      refine ⟨by simp,fun k hk hk' => ?_,h⟩
      obtain rfl : k = i := by simp at hk; omega
      exact hi
    | some start =>
      obtain ⟨hlt,hinside,hbefore⟩ := h
      refine ⟨by simp; omega,fun k hk hk' => ?_,hbefore⟩
      by_cases hki : k < i
      · exact hinside k hk hki
      · obtain rfl : k = i := by omega
        exact hi
  · rw [if_neg hi]
    intro k hk
    obtain rfl : k = i := by omega
    simpa using hi

/-- The runs from an index on are those that start there or at the open run. -/
theorem mem_runsFrom {i : ℕ} {l : List α} {current : Option ℕ} (hl : xs.drop i = l)
    (h : Open p xs i current) {first last : ℕ} :
    (first,last) ∈ runsFrom p i l current ↔ IsRun p xs first last ∧ current.getD i ≤ first := by
  induction l generalizing i current with
  | nil =>
    have hend : xs.length ≤ i := List.drop_eq_nil_iff.mp hl
    have hpast : ∀ k, i ≤ k → xs[k]?.any p = false := fun k hk => by
      rw [List.getElem?_eq_none (hend.trans hk)]
      rfl
    have hshort : ∀ {first last}, IsRun p xs first last → first < i := fun hrun => by
      by_contra hge
      have hmatch := hrun.inside _ (le_refl _) hrun.ordered
      simp [hpast _ (not_lt.mp hge)] at hmatch
    cases current with
    | none =>
      simp only [runsFrom,List.not_mem_nil,Option.getD_none,false_iff,not_and]
      exact fun hrun hle => absurd (hshort hrun) (by omega)
    | some start =>
      simp only [runsFrom,List.mem_singleton,Prod.mk.injEq,Option.getD_some]
      rw [← h.closed (hpast i (le_refl _))]
      exact ⟨fun hrun => ⟨hrun.1,hrun.2.1⟩,fun hrun => ⟨hrun.1,hrun.2,(hshort hrun.1).le⟩⟩
  | cons a l ih =>
    have ha : xs[i]? = some a := by
      rw [← Nat.add_zero i,← List.getElem?_drop,hl]
      rfl
    have hrest : xs.drop (i+1) = l := by
      rw [← List.drop_drop,hl]
      rfl
    have hafter := ih hrest h.next
    rw [ha,Option.any_some] at hafter
    cases hp : p a with
    | true =>
      rw [hp,if_pos rfl] at hafter
      cases current with
      | none => simpa [runsFrom,hp] using hafter
      | some start => simpa [runsFrom,hp] using hafter
    | false =>
      have hi : xs[i]?.any p = false := by simpa [ha] using hp
      rw [hp,if_neg (by simp)] at hafter
      cases current with
      | none =>
        simp only [runsFrom,hp,Bool.false_eq_true,if_false,hafter,Option.getD_none]
        refine and_congr_right fun hrun => ?_
        have hne : first ≠ i := fun he => by
          have hmatch := hrun.inside i he.le (he ▸ hrun.ordered)
          simp [hi] at hmatch
        omega
      | some start =>
        have hclosed := @Open.closed _ _ _ _ _ first last h hi
        have hstart := h.1
        simp only [runsFrom,hp,Bool.false_eq_true,if_false,List.mem_cons,Prod.mk.injEq,hafter,
          Option.getD_none,Option.getD_some]
        rw [← hclosed]
        constructor
        · rintro (⟨hrun,hle,-⟩ | ⟨hrun,hle⟩)
          · exact ⟨hrun,hle⟩
          · exact ⟨hrun,by omega⟩
        · rintro ⟨hrun,hle⟩
          by_cases hfirst : first ≤ i
          · exact .inl ⟨hrun,hle,hfirst⟩
          · exact .inr ⟨hrun,by omega⟩

/-- Runs come in order, with a gap between any two. -/
theorem runsFrom_apart {i : ℕ} {l : List α} {current : Option ℕ} (hl : xs.drop i = l)
    (h : Open p xs i current) :
    (runsFrom p i l current).Pairwise fun r r' => r.2+1 < r'.1 := by
  induction l generalizing i current with
  | nil => cases current <;> simp [runsFrom]
  | cons a l ih =>
    have ha : xs[i]? = some a := by
      rw [← Nat.add_zero i,← List.getElem?_drop,hl]
      rfl
    have hrest : xs.drop (i+1) = l := by
      rw [← List.drop_drop,hl]
      rfl
    have hafter := ih hrest h.next
    have hmem := @mem_runsFrom _ _ _ _ _ _ hrest h.next
    rw [ha,Option.any_some] at hafter hmem
    cases hp : p a with
    | true => cases current <;> simpa [runsFrom,hp] using hafter
    | false =>
      rw [hp,if_neg (by simp)] at hafter hmem
      cases current with
      | none => simpa [runsFrom,hp] using hafter
      | some start =>
        have hstart := h.1
        simp only [runsFrom,hp,Bool.false_eq_true,if_false]
        refine .cons (fun r hr => ?_) hafter
        have hle := (hmem.mp hr).2
        simp only [Option.getD_none] at hle
        dsimp only
        omega

end MaximalRuns
end PgKronika
