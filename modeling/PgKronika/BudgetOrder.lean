import Mathlib
import PgKronika.GreedyPrefix

/-! Items that spend a budget and add up below a cap, until one of them voids the sum. Which of
the two refusals a list meets can depend on its order. -/
namespace PgKronika
namespace BudgetOrder

open GreedyPrefix (total total_nil total_cons total_append total_perm)

structure Ledger (α : Type) where
  cost : α → ℕ
  weight : α → ℕ
  voids : α → Bool
  budget : ℕ
  cap : ℕ

inductive Refusal
  | spent | overflow
  deriving DecidableEq

structure State where
  spent : ℕ
  sum : ℕ
  void : Bool

variable {α : Type} (L : Ledger α)

/-- The budget is charged first. After a void nothing is added. -/
def step (s : State) (x : α) : Except Refusal State :=
  if L.budget < s.spent+L.cost x then .error .spent
  else if s.void || L.voids x then .ok ⟨s.spent+L.cost x,s.sum,true⟩
  else if L.cap < s.sum+L.weight x then .error .overflow
  else .ok ⟨s.spent+L.cost x,s.sum+L.weight x,false⟩

def run (s : State) : List α → Except Refusal State
  | [] => .ok s
  | x::l =>
    match step L s x with
    | .error e => .error e
    | .ok t => run t l

def refusal (s : State) (l : List α) : Option Refusal :=
  match run L s l with
  | .error e => some e
  | .ok _ => none

structure State.Within (s : State) : Prop where
  spent : s.spent ≤ L.budget
  sum : s.sum ≤ L.cap

variable {L} {s t : State} {l : List α}

theorem step_within {x : α} (hs : s.Within L) (h : step L s x = .ok t) : t.Within L := by
  unfold step at h
  split_ifs at h with hspent hvoid hsum
  · cases h
    exact ⟨not_lt.mp hspent,hs.sum⟩
  · cases h
    exact ⟨not_lt.mp hspent,not_lt.mp hsum⟩

theorem step_spent {x : α} (h : step L s x = .ok t) : t.spent = s.spent+L.cost x := by
  unfold step at h
  split_ifs at h
  · cases h
    rfl
  · cases h
    rfl

/-- A prefix without a void that is within the budget and over the cap. -/
def Overflows (L : Ledger α) (s : State) (part : List α) : Prop :=
  (∀ x ∈ part, L.voids x = false) ∧ s.spent+total L.cost part ≤ L.budget ∧
    L.cap < s.sum+total L.weight part

theorem refusal_overflow (hs : s.Within L) :
    refusal L s l = some .overflow ↔ s.void = false ∧ ∃ part, part <+: l ∧ Overflows L s part := by
  induction l generalizing s with
  | nil =>
    simp only [refusal,run,List.prefix_nil,exists_eq_left,Overflows,total_nil,reduceCtorEq,
      false_iff,not_and,not_lt]
    exact fun _ _ _ => hs.sum
  | cons x l ih =>
    have hstart : (∃ part, part <+: x::l ∧ Overflows L s part) ↔
        ∃ part, part <+: l ∧ Overflows L s (x::part) := by
      constructor
      · rintro ⟨part,hpart,hover⟩
        cases part with
        | nil => exact absurd hover.2.2 (not_lt.mpr hs.sum)
        | cons y part =>
          obtain ⟨rfl,hrest⟩ := List.cons_prefix_cons.mp hpart
          exact ⟨part,hrest,hover⟩
      · rintro ⟨part,hpart,hover⟩
        exact ⟨x::part,(List.prefix_cons_inj x).mpr hpart,hover⟩
    rw [hstart]
    have hhead : ∀ {t : State}, step L s x = .ok t → refusal L s (x::l) = refusal L t l := by
      intro t ht
      rw [refusal,run,ht]
      rfl
    cases hstep : step L s x with
    | error e =>
      have herr : refusal L s (x::l) = some e := by rw [refusal,run,hstep]
      rw [herr]
      unfold step at hstep
      split_ifs at hstep with hspent hvoid hsum
      · cases hstep
        simp only [Option.some.injEq,reduceCtorEq,false_iff,not_and,not_exists]
        rintro - part - ⟨-,hcost,-⟩
        rw [total_cons] at hcost
        omega
      · cases hstep
        rw [Bool.or_eq_true,not_or,Bool.not_eq_true,Bool.not_eq_true] at hvoid
        refine ⟨fun _ => ⟨hvoid.1,[],List.nil_prefix,?_,?_,?_⟩,fun _ => rfl⟩
        · simpa using hvoid.2
        · simpa using hspent
        · simpa using hsum
    | ok t =>
      rw [hhead hstep,ih (step_within hs hstep)]
      unfold step at hstep
      split_ifs at hstep with hspent hvoid hsum
      · cases hstep
        simp only [Bool.true_eq_false,false_and,false_iff,not_and,not_exists]
        rintro hsvoid part - ⟨hvoids,-,-⟩
        have hx := hvoids x List.mem_cons_self
        simp [hsvoid,hx] at hvoid
      · cases hstep
        rw [Bool.or_eq_true,not_or,Bool.not_eq_true,Bool.not_eq_true] at hvoid
        simp only [Overflows,List.forall_mem_cons,total_cons,hvoid,true_and,Nat.add_assoc]

theorem spent_of_ok (hs : s.Within L) (h : run L s l = .ok t) :
    t.spent = s.spent+total L.cost l ∧ t.Within L := by
  induction l generalizing s with
  | nil =>
    cases h
    exact ⟨rfl,hs⟩
  | cons x l ih =>
    rw [run] at h
    split at h
    · cases h
    · next u hu =>
      obtain ⟨hspent,hle⟩ := ih (step_within hs hu) h
      rw [hspent,step_spent hu,total_cons,Nat.add_assoc]
      exact ⟨rfl,hle⟩

theorem void_of_ok (h : run L s l = .ok t) : t.void = (s.void || l.any L.voids) := by
  induction l generalizing s with
  | nil =>
    cases h
    simp
  | cons x l ih =>
    rw [run] at h
    split at h
    · cases h
    · next u hu =>
      rw [ih h]
      unfold step at hu
      split_ifs at hu with hspent hvoid hsum
      · cases hu
        simp [← Bool.or_assoc,hvoid]
      · cases hu
        rw [Bool.not_eq_true] at hvoid
        simp [← Bool.or_assoc,hvoid]

theorem sum_of_ok (h : run L s l = .ok t) (hvoid : t.void = false) :
    t.sum = s.sum+total L.weight l := by
  induction l generalizing s with
  | nil =>
    cases h
    rfl
  | cons x l ih =>
    rw [run] at h
    split at h
    · cases h
    · next u hu =>
      have huvoid : u.void = false := by
        rw [void_of_ok h,Bool.or_eq_false_iff] at hvoid
        exact hvoid.1
      rw [ih h,total_cons]
      unfold step at hu
      split_ifs at hu
      · cases hu
        cases huvoid
      · cases hu
        exact Nat.add_assoc _ _ _

theorem lt_of_spent (h : refusal L s l = some .spent) : L.budget < s.spent+total L.cost l := by
  induction l generalizing s with
  | nil => cases h
  | cons x l ih =>
    rw [total_cons]
    rw [refusal,run] at h
    cases hstep : step L s x with
    | error e =>
      rw [hstep] at h
      unfold step at hstep
      split_ifs at hstep with hspent
      · omega
      · cases hstep
        cases h
    | ok u =>
      rw [hstep] at h
      have hrest := ih h
      rw [step_spent hstep] at hrest
      omega

theorem spent_le_of_fits (hfits : s.spent+total L.cost l ≤ L.budget) :
    refusal L s l ≠ some .spent := fun h => by
  have hlt := lt_of_spent h
  omega

theorem refused_of_lt (hs : s.Within L) (hlt : L.budget < s.spent+total L.cost l) :
    refusal L s l ≠ none := by
  intro h
  rw [refusal] at h
  cases hrun : run L s l with
  | error e =>
    rw [hrun] at h
    cases h
  | ok t =>
    obtain ⟨hspent,hwithin⟩ := spent_of_ok hs hrun
    have hle := hwithin.spent
    omega

/-! What some order of the items can meet. -/

def start (g : ℕ) : State := ⟨g,0,false⟩

variable {g : ℕ}

theorem start_within (hg : g ≤ L.budget) : (start g).Within L := ⟨hg,Nat.zero_le _⟩

/-- Some items without a void are within the budget and over the cap. -/
def CanOverflow (L : Ledger α) (g : ℕ) (l : List α) : Prop :=
  ∃ part, part.Subperm l ∧ Overflows L (start g) part

/-- The budget can be passed before the cap is: there is a void, or some items below the cap
leave too little for one more. -/
def CanSpend (L : Ledger α) (g : ℕ) (l : List α) : Prop :=
  (∃ x ∈ l, L.voids x = true) ∨ ∃ part x, (part++[x]).Subperm l ∧ total L.weight part ≤ L.cap ∧
    L.budget < g+total L.cost (part++[x])

theorem exists_overflow (hg : g ≤ L.budget) :
    (∃ l', l'.Perm l ∧ refusal L (start g) l' = some .overflow) ↔ CanOverflow L g l := by
  constructor
  · rintro ⟨l',hperm,hover⟩
    obtain ⟨-,part,hpart,hpasses⟩ := (refusal_overflow (start_within hg)).mp hover
    exact ⟨part,hpart.sublist.subperm.trans hperm.subperm,hpasses⟩
  · rintro ⟨part,⟨part',hperm,hsub⟩,hpasses⟩
    obtain ⟨rest,hrest⟩ := hsub.exists_perm_append
    refine ⟨part++rest,?_,?_⟩
    · exact (hperm.symm.append_right rest).trans hrest.symm
    · exact (refusal_overflow (start_within hg)).mpr ⟨rfl,part,List.prefix_append _ _,hpasses⟩

theorem not_overflow_of_void {x : α} (hg : g ≤ L.budget) (hx : L.voids x = true) :
    refusal L (start g) (x::l) ≠ some .overflow := by
  intro h
  obtain ⟨-,part,hpart,hvoids,-,hcap⟩ := (refusal_overflow (start_within hg)).mp h
  cases part with
  | nil => simp [start] at hcap
  | cons y part =>
    obtain ⟨rfl,-⟩ := List.cons_prefix_cons.mp hpart
    have hnot := hvoids y List.mem_cons_self
    rw [hx] at hnot
    cases hnot

theorem perm_head {x : α} (hx : x ∈ l) : ∃ rest, (x::rest).Perm l := by
  obtain ⟨before,after,rfl⟩ := List.append_of_mem hx
  exact ⟨before++after,List.perm_middle.symm⟩

theorem total_le_of_sublist (weight : α → ℕ) {part : List α} (h : part.Sublist l) :
    total weight part ≤ total weight l := by
  induction h with
  | slnil => exact le_refl _
  | cons x _ ih =>
    rw [total_cons]
    omega
  | cons_cons x _ ih =>
    rw [total_cons,total_cons]
    omega

/-- The first item that passes the budget, and what is before it. -/
theorem exists_passing {cost : α → ℕ} {budget : ℕ} (hg : g ≤ budget)
    (hlt : budget < g+total cost l) :
    ∃ part x rest, l = part++x::rest ∧ g+total cost part ≤ budget ∧
      budget < g+total cost (part++[x]) := by
  induction l generalizing g with
  | nil =>
    rw [total_nil] at hlt
    omega
  | cons y l ih =>
    rw [total_cons] at hlt
    by_cases hy : g+cost y ≤ budget
    · obtain ⟨part,x,rest,rfl,hle,hpast⟩ := ih hy (by omega)
      refine ⟨y::part,x,rest,rfl,?_,?_⟩
      · rw [total_cons]
        omega
      · rw [List.cons_append,total_cons]
        omega
    · refine ⟨[],y,l,rfl,?_,?_⟩
      · simpa using hg
      · simpa using not_le.mp hy

theorem exists_spent (hg : g ≤ L.budget) (hlt : L.budget < g+total L.cost l) :
    (∃ l', l'.Perm l ∧ refusal L (start g) l' ≠ some .overflow) ↔ CanSpend L g l := by
  constructor
  · rintro ⟨l',hperm,hnot⟩
    by_cases hvoid : ∃ x ∈ l, L.voids x = true
    · exact .inl hvoid
    · rw [← total_perm hperm] at hlt
      obtain ⟨part,x,rest,rfl,hle,hpast⟩ := exists_passing hg hlt
      have hfront : part++[x] <+: part++x::rest := ⟨rest,by simp⟩
      refine .inr ⟨part,x,hfront.sublist.subperm.trans hperm.subperm,?_,hpast⟩
      by_contra hcap
      refine hnot ((refusal_overflow (start_within hg)).mpr
        ⟨rfl,part,List.prefix_append _ _,fun y hy => ?_,hle,?_⟩)
      · have hmem := hperm.subset (List.mem_append_left (x::rest) hy)
        exact eq_false_of_ne_true fun hvoids => hvoid ⟨y,hmem,hvoids⟩
      · simpa [start] using hcap
  · rintro (⟨x,hx,hvoid⟩ | ⟨part,x,⟨part',hperm,hsub⟩,hcap,hpast⟩)
    · obtain ⟨rest,hrest⟩ := perm_head hx
      exact ⟨x::rest,hrest,not_overflow_of_void hg hvoid⟩
    · obtain ⟨rest,hrest⟩ := hsub.exists_perm_append
      refine ⟨part++[x]++rest,(hperm.symm.append_right rest).trans hrest.symm,fun h => ?_⟩
      obtain ⟨-,past,hover,-,hcost,hweight⟩ := (refusal_overflow (start_within hg)).mp h
      simp only [start,Nat.zero_add] at hcost hweight
      have hshort : past <+: part++[x] := by
        rcases List.prefix_or_prefix_of_prefix hover (List.prefix_append (part++[x]) rest) with
          hle | hle
        · exact hle
        · have hmore := total_le_of_sublist L.cost hle.sublist
          omega
      rcases List.prefix_concat_iff.mp hshort with rfl | hle
      · omega
      · have hless := total_le_of_sublist L.weight hle.sublist
        omega

/-- What the items without a void add up to. -/
def counted (L : Ledger α) (l : List α) : ℕ := total L.weight (l.filter fun x => !L.voids x)

theorem counted_perm {l' : List α} (h : l'.Perm l) : counted L l' = counted L l :=
  total_perm (h.filter _)

/-- No order of the items changes the refusal. -/
def OrderFree (L : Ledger α) (g : ℕ) (l : List α) : Prop :=
  if g+total L.cost l ≤ L.budget then (∀ x ∈ l, L.voids x = false) ∨ counted L l ≤ L.cap
  else ¬(CanOverflow L g l ∧ CanSpend L g l)

theorem refusal_cases (s : State) (l : List α) :
    refusal L s l = none ∨ refusal L s l = some .spent ∨ refusal L s l = some .overflow := by
  rcases refusal L s l with _ | _ | _
  · exact .inl rfl
  · exact .inr (.inl rfl)
  · exact .inr (.inr rfl)

/-- Two orders are refused alike when both overflow or neither does. -/
theorem refusal_eq {l' : List α} (hg : g ≤ L.budget) (hperm : l'.Perm l)
    (h : refusal L (start g) l' = some .overflow ↔ refusal L (start g) l = some .overflow) :
    refusal L (start g) l' = refusal L (start g) l := by
  have htotal : total L.cost l' = total L.cost l := total_perm hperm
  by_cases hfits : g+total L.cost l ≤ L.budget
  · have hnot := spent_le_of_fits (s := start g) hfits
    have hnot' := spent_le_of_fits (s := start g) (l := l') (by rw [htotal]; exact hfits)
    rcases refusal_cases (L := L) (start g) l with he | he | he
    · rcases refusal_cases (L := L) (start g) l' with he' | he' | he'
      · rw [he,he']
      · exact absurd he' hnot'
      · rw [he',h.mp he']
    · exact absurd he hnot
    · rw [he,h.mpr he]
  · have hlt := not_le.mp hfits
    have hnot := refused_of_lt (start_within hg) hlt
    have hnot' := refused_of_lt (l := l') (start_within hg) (by rw [htotal]; exact hlt)
    rcases refusal_cases (L := L) (start g) l with he | he | he
    · exact absurd he hnot
    · rcases refusal_cases (L := L) (start g) l' with he' | he' | he'
      · exact absurd he' hnot'
      · rw [he,he']
      · rw [he',h.mp he']
    · rw [he,h.mpr he]

theorem overflow_iff_of_fits (hg : g ≤ L.budget) (hfits : g+total L.cost l ≤ L.budget)
    (hvoids : ∀ x ∈ l, L.voids x = false) :
    refusal L (start g) l = some .overflow ↔ L.cap < total L.weight l := by
  rw [refusal_overflow (start_within hg)]
  constructor
  · rintro ⟨-,part,hpart,-,-,hcap⟩
    have hle := total_le_of_sublist L.weight hpart.sublist
    simp only [start,Nat.zero_add] at hcap
    omega
  · intro hcap
    exact ⟨rfl,l,List.prefix_rfl,hvoids,hfits,by simpa [start] using hcap⟩

theorem counted_le_of_overflow (hg : g ≤ L.budget)
    (h : refusal L (start g) l = some .overflow) : L.cap < counted L l := by
  obtain ⟨-,part,hpart,hvoids,-,hcap⟩ := (refusal_overflow (start_within hg)).mp h
  have hself : part.filter (fun x => !L.voids x) = part :=
    List.filter_eq_self.mpr fun x hx => by simp [hvoids x hx]
  have hsub := hpart.sublist.filter fun x => !L.voids x
  rw [hself] at hsub
  have hle := total_le_of_sublist L.weight hsub
  simp only [start,Nat.zero_add] at hcap
  rw [counted]
  omega

theorem orderFree_iff (hg : g ≤ L.budget) :
    (∀ l', l'.Perm l → refusal L (start g) l' = refusal L (start g) l) ↔ OrderFree L g l := by
  rw [OrderFree]
  split_ifs with hfits
  · constructor
    · intro hsame
      by_contra hnot
      rw [not_or] at hnot
      obtain ⟨hvoid,hcap⟩ := hnot
      rw [not_forall] at hvoid
      obtain ⟨x,hx⟩ := hvoid
      rw [Classical.not_imp,Bool.not_eq_false] at hx
      obtain ⟨rest,hrest⟩ := perm_head hx.1
      have hover : ∃ l', l'.Perm l ∧ refusal L (start g) l' = some .overflow := by
        refine (exists_overflow hg).mpr ⟨l.filter fun x => !L.voids x,
          List.filter_sublist.subperm,fun y hy => ?_,?_,?_⟩
        · simpa using (List.mem_filter.mp hy).2
        · have hle := total_le_of_sublist L.cost
            (List.filter_sublist (p := fun x => !L.voids x) (l := l))
          simp only [start]
          omega
        · simpa [start,counted] using hcap
      obtain ⟨l',hperm,hl'⟩ := hover
      refine not_overflow_of_void hg hx.2 (l := rest) ?_
      rw [hsame _ hrest,← hsame _ hperm,hl']
    · intro hfree l' hperm
      apply refusal_eq hg hperm
      have htotal : total L.cost l' = total L.cost l := total_perm hperm
      rcases hfree with hvoids | hcap
      · rw [overflow_iff_of_fits hg hfits hvoids,overflow_iff_of_fits hg (by omega)
          (fun x hx => hvoids x (hperm.subset hx)),total_perm hperm]
      · constructor
        · intro h
          have hlt := counted_le_of_overflow hg h
          rw [counted_perm hperm] at hlt
          omega
        · intro h
          have hlt := counted_le_of_overflow hg h
          omega
  · have hlt := not_le.mp hfits
    rw [← exists_overflow hg,← exists_spent hg hlt]
    constructor
    · rintro hsame ⟨⟨a,ha,hover⟩,b,hb,hnot⟩
      exact hnot (by rw [hsame b hb,← hsame a ha,hover])
    · intro hone l' hperm
      apply refusal_eq hg hperm
      by_contra hdiff
      have hd := (not_iff.mp hdiff).symm
      by_cases hl : refusal L (start g) l = some .overflow
      · exact hone ⟨⟨l,List.Perm.refl l,hl⟩,l',hperm,fun h => (hd.mp hl) h⟩
      · exact hone ⟨⟨l',hperm,not_not.mp fun h => hl (hd.mpr h)⟩,l,List.Perm.refl l,hl⟩

end BudgetOrder
end PgKronika
