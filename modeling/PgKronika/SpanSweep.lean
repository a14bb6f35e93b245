import Mathlib

/-! A sweep over intervals in the order of their starts. An interval joins the open group when it
starts soon enough after the group's end and the group stays within a cap. -/
namespace PgKronika
namespace SpanSweep

structure Group (α : Type) where
  start : ℤ
  stop : ℤ
  members : List α

section Sweep

variable {α : Type} (lo hi : α → ℤ) (gap cap : ℤ)

def single (x : α) : Group α := ⟨lo x,hi x,[x]⟩

def Group.add (g : Group α) (x : α) : Group α := ⟨g.start,max g.stop (hi x),g.members++[x]⟩

/-- The interval starts at most `gap` after the end of the group. -/
def Joins (g : Group α) (x : α) : Prop := lo x ≤ g.stop+gap

/-- The group stays within the cap when the interval is added. -/
def Fits (g : Group α) (x : α) : Prop := max g.stop (hi x)-g.start ≤ cap

instance (g : Group α) (x : α) : Decidable (Joins lo gap g x) :=
  inferInstanceAs (Decidable (_ ≤ _))

instance (g : Group α) (x : α) : Decidable (Fits hi cap g x) :=
  inferInstanceAs (Decidable (_ ≤ _))

/-- The groups from an open one on. -/
def sweepFrom (g : Group α) : List α → List (Group α)
  | [] => [g]
  | x::l =>
    if Joins lo gap g x ∧ Fits hi cap g x then sweepFrom (g.add hi x) l
    else g::sweepFrom (single lo hi x) l

def sweep : List α → List (Group α)
  | [] => []
  | x::l => sweepFrom lo hi gap cap (single lo hi x) l

/-- How often the cap alone closed a group. -/
def splitsFrom (g : Group α) : List α → ℕ
  | [] => 0
  | x::l =>
    if Joins lo gap g x ∧ Fits hi cap g x then splitsFrom (g.add hi x) l
    else (if Joins lo gap g x then 1 else 0)+splitsFrom (single lo hi x) l

def splits : List α → ℕ
  | [] => 0
  | x::l => splitsFrom lo hi gap cap (single lo hi x) l

variable {lo hi gap cap} {g : Group α} {l : List α}

theorem sweepFrom_members (g : Group α) (l : List α) :
    (sweepFrom lo hi gap cap g l).flatMap Group.members = g.members++l := by
  induction l generalizing g with
  | nil => simp [sweepFrom]
  | cons x l ih =>
    rw [sweepFrom]
    split_ifs
    · rw [ih]
      simp [Group.add]
    · rw [List.flatMap_cons,ih]
      simp [single]

/-- The groups hold the intervals in their order. -/
theorem sweep_members (l : List α) : (sweep lo hi gap cap l).flatMap Group.members = l := by
  cases l with
  | nil => rfl
  | cons x l => exact sweepFrom_members (single lo hi x) l

/-- The bounds are the least that hold the members, and within the cap. -/
structure Group.Tight (lo hi : α → ℤ) (cap : ℤ) (g : Group α) : Prop where
  inside : ∀ x ∈ g.members, g.start ≤ lo x ∧ hi x ≤ g.stop
  first : ∃ x ∈ g.members, lo x = g.start
  last : ∃ x ∈ g.members, hi x = g.stop
  span : g.stop-g.start ≤ cap

/-- The intervals are proper and each of them is within the cap. -/
def Proper (lo hi : α → ℤ) (cap : ℤ) (l : List α) : Prop := ∀ x ∈ l, lo x ≤ hi x ∧ hi x-lo x ≤ cap

theorem single_tight {x : α} (h : hi x-lo x ≤ cap) : (single lo hi x).Tight lo hi cap where
  inside y hy := by
    rw [List.mem_singleton.mp hy]
    exact ⟨le_refl _,le_refl _⟩
  first := ⟨x,List.mem_singleton_self x,rfl⟩
  last := ⟨x,List.mem_singleton_self x,rfl⟩
  span := h

theorem add_tight {x : α} (h : g.Tight lo hi cap) (hx : g.start ≤ lo x)
    (hfits : Fits hi cap g x) : (g.add hi x).Tight lo hi cap where
  inside y hy := by
    rcases List.mem_append.mp hy with hy | hy
    · exact ⟨(h.inside y hy).1,(h.inside y hy).2.trans (le_max_left _ _)⟩
    · rw [List.mem_singleton.mp hy]
      exact ⟨hx,le_max_right _ _⟩
  first := by
    obtain ⟨y,hy,heq⟩ := h.first
    exact ⟨y,List.mem_append_left _ hy,heq⟩
  last := by
    obtain ⟨y,hy,heq⟩ := h.last
    rcases le_total g.stop (hi x) with hle | hle
    · exact ⟨x,by simp [Group.add],(max_eq_right hle).symm⟩
    · exact ⟨y,List.mem_append_left _ hy,heq.trans (max_eq_left hle).symm⟩
  span := hfits

/-- The open group starts before all that is left. -/
theorem sweepFrom_tight (hg : g.Tight lo hi cap) (hbehind : ∀ x ∈ l, g.start ≤ lo x)
    (hsorted : l.Pairwise fun x y => lo x ≤ lo y) (hl : Proper lo hi cap l) :
    ∀ k ∈ sweepFrom lo hi gap cap g l, k.Tight lo hi cap := by
  induction l generalizing g with
  | nil =>
    intro k hk
    rw [List.mem_singleton.mp hk]
    exact hg
  | cons x l ih =>
    obtain ⟨hfirst,hrest⟩ := List.pairwise_cons.mp hsorted
    have hproper : Proper lo hi cap l := fun y hy => hl y (List.mem_cons_of_mem _ hy)
    rw [sweepFrom]
    split_ifs with hjoin
    · exact ih (add_tight hg (hbehind x List.mem_cons_self) hjoin.2)
        (fun y hy => hbehind y (List.mem_cons_of_mem _ hy)) hrest hproper
    · intro k hk
      rcases List.mem_cons.mp hk with rfl | hk
      · exact hg
      · exact ih (single_tight (hl x List.mem_cons_self).2) hfirst hrest hproper k hk

theorem sweep_tight (hsorted : l.Pairwise fun x y => lo x ≤ lo y) (hl : Proper lo hi cap l) :
    ∀ k ∈ sweep lo hi gap cap l, k.Tight lo hi cap := by
  cases l with
  | nil => simp [sweep]
  | cons x l =>
    obtain ⟨hfirst,hrest⟩ := List.pairwise_cons.mp hsorted
    exact sweepFrom_tight (single_tight (hl x List.mem_cons_self).2) hfirst hrest
      fun y hy => hl y (List.mem_cons_of_mem _ hy)

/-- What stands between two neighbours: the first interval of the later one did not join the
earlier one, or would have stretched it past the cap. -/
def Cut (lo hi : α → ℤ) (gap cap : ℤ) (g k : Group α) : Prop :=
  ∃ x, k.members.head? = some x ∧ ¬(Joins lo gap g x ∧ Fits hi cap g x)

/-- The neighbours where the first interval of the later one would have joined the earlier one. -/
def Capped (lo : α → ℤ) (gap : ℤ) (p : Group α × Group α) : Bool :=
  p.2.members.head?.any fun x => decide (Joins lo gap p.1 x)

def neighbours (groups : List (Group α)) : List (Group α × Group α) := groups.zip groups.tail

theorem sweepFrom_cons (hne : g.members ≠ []) (l : List α) :
    ∃ k rest, sweepFrom lo hi gap cap g l = k::rest ∧ k.members.head? = g.members.head? := by
  induction l generalizing g with
  | nil => exact ⟨g,[],rfl,rfl⟩
  | cons x l ih =>
    rw [sweepFrom]
    split_ifs
    · obtain ⟨k,rest,hsweep,hhead⟩ := ih (g := g.add hi x) (by simp [Group.add])
      refine ⟨k,rest,hsweep,hhead.trans ?_⟩
      rw [Group.add,List.head?_append_of_ne_nil _ hne]
    · exact ⟨g,_,rfl,rfl⟩

theorem sweepFrom_cuts (hne : g.members ≠ []) (l : List α) :
    (sweepFrom lo hi gap cap g l).IsChain (Cut lo hi gap cap) ∧
      splitsFrom lo hi gap cap g l =
        (neighbours (sweepFrom lo hi gap cap g l)).countP (Capped lo gap) := by
  induction l generalizing g with
  | nil => exact ⟨List.isChain_singleton _,rfl⟩
  | cons x l ih =>
    rw [sweepFrom,splitsFrom]
    split_ifs with hjoin hsplit
    · exact ih (by simp [Group.add])
    all_goals
      have hopen : ∃ k rest, sweepFrom lo hi gap cap (single lo hi x) l = k::rest ∧
          k.members.head? = (single lo hi x).members.head? := sweepFrom_cons (by simp [single]) l
      obtain ⟨k,rest,hsweep,hhead⟩ := hopen
      obtain ⟨hchain,hsplits⟩ := ih (g := single lo hi x) (by simp [single])
      rw [hsplits]
      rw [hsweep] at hchain ⊢
      have hfirst : k.members.head? = some x := hhead
      refine ⟨List.isChain_cons_cons.mpr ⟨⟨x,hfirst,hjoin⟩,hchain⟩,?_⟩
      simp only [neighbours,List.tail_cons,List.zip_cons_cons,List.countP_cons,Capped,hfirst,
        Option.any_some,hsplit,decide_true,decide_false,if_true]
      exact Nat.add_comm _ _

/-- The intervals of one group come before those of the next. -/
def Before {κ : Type} [LT κ] (key : α → κ) (a b : List α) : Prop :=
  ∀ x ∈ a, ∀ y ∈ b, key x < key y

theorem sweepFrom_before {κ : Type} [LinearOrder κ] {key : α → κ} (hgap : 0 ≤ gap)
    (hkey : ∀ x y, key x = key y → lo x = lo y ∧ hi x = hi y)
    (hlo : ∀ x y, key x ≤ key y → lo x ≤ lo y) (hg : g.Tight lo hi cap)
    (hsorted : (g.members++l).Pairwise fun x y => key x ≤ key y)
    (hproper : Proper lo hi cap (g.members++l)) :
    ((sweepFrom lo hi gap cap g l).map Group.members).Pairwise (Before key) := by
  induction l generalizing g with
  | nil => exact List.pairwise_singleton _ _
  | cons x l ih =>
    have hmoved : g.members++x::l = (g.members++[x])++l := by simp
    have hxl : (x::l).Pairwise fun x y => key x ≤ key y := (List.pairwise_append.mp hsorted).2.1
    have hbefore : ∀ m ∈ g.members, key m ≤ key x := fun m hm =>
      (List.pairwise_append.mp hsorted).2.2 m hm x List.mem_cons_self
    rw [sweepFrom]
    split_ifs with hjoin
    · rw [hmoved] at hsorted hproper
      obtain ⟨first,hfirst,hstart⟩ := hg.first
      have hx : g.start ≤ lo x := hstart ▸ hlo _ _ (hbefore first hfirst)
      exact ih (add_tight hg hx hjoin.2) hsorted hproper
    · have hx := hproper x (by simp)
      rw [List.map_cons]
      refine List.pairwise_cons.mpr ⟨fun members hmembers m hm y hy => ?_,
        ih (single_tight hx.2) hxl fun y hy => hproper y (List.mem_append_right _ hy)⟩
      have hy : y ∈ x::l := by
        obtain ⟨k,hk,rfl⟩ := List.mem_map.mp hmembers
        have hmem := List.mem_flatMap.mpr ⟨k,hk,hy⟩
        rw [sweepFrom_members] at hmem
        exact hmem
      have hxy : key x ≤ key y := by
        rcases List.mem_cons.mp hy with rfl | hy
        · exact le_refl _
        · exact (List.pairwise_cons.mp hxl).1 y hy
      -- an interval with the key of a member would have joined
      have hne : key m ≠ key x := by
        intro heq
        obtain ⟨hloeq,hhieq⟩ := hkey _ _ heq
        have hin := hg.inside m hm
        have hmproper := hproper m (List.mem_append_left _ hm)
        have hstop : max g.stop (hi x) = g.stop := max_eq_left (hhieq ▸ hin.2)
        refine hjoin ⟨?_,?_⟩
        · rw [Joins,← hloeq]
          linarith [hmproper.1,hin.2]
        · rw [Fits,hstop]
          exact hg.span
      exact (lt_of_le_of_ne (hbefore m hm) hne).trans_le hxy

theorem sweep_before {κ : Type} [LinearOrder κ] {key : α → κ} (hgap : 0 ≤ gap)
    (hkey : ∀ x y, key x = key y → lo x = lo y ∧ hi x = hi y)
    (hlo : ∀ x y, key x ≤ key y → lo x ≤ lo y)
    (hsorted : l.Pairwise fun x y => key x ≤ key y) (hproper : Proper lo hi cap l) :
    ((sweep lo hi gap cap l).map Group.members).Pairwise (Before key) := by
  cases l with
  | nil => exact .nil
  | cons x l =>
    exact sweepFrom_before hgap hkey hlo (single_tight (hproper x List.mem_cons_self).2) hsorted
      hproper

/-! Intervals under another name. -/

variable {β : Type} (f : β → α)

def Group.map (g : Group β) : Group α := ⟨g.start,g.stop,g.members.map f⟩

theorem sweepFrom_map (g : Group β) (l : List β) :
    sweepFrom lo hi gap cap (g.map f) (l.map f) =
      (sweepFrom (lo ∘ f) (hi ∘ f) gap cap g l).map (Group.map f) := by
  induction l generalizing g with
  | nil => rfl
  | cons x l ih =>
    have hadd : (g.map f).add hi (f x) = (g.add (hi ∘ f) x).map f := by simp [Group.add,Group.map]
    have hsingle : single lo hi (f x) = (single (lo ∘ f) (hi ∘ f) x).map f := rfl
    rw [List.map_cons,sweepFrom,sweepFrom,hadd,hsingle,ih,ih]
    by_cases hjoin : Joins (lo ∘ f) gap g x ∧ Fits (hi ∘ f) cap g x
    · rw [if_pos hjoin]
      exact if_pos hjoin
    · rw [if_neg hjoin,List.map_cons]
      exact if_neg hjoin

theorem sweep_map (l : List β) :
    sweep lo hi gap cap (l.map f) =
      (sweep (lo ∘ f) (hi ∘ f) gap cap l).map (Group.map f) := by
  cases l with
  | nil => rfl
  | cons x l => exact sweepFrom_map f (single (lo ∘ f) (hi ∘ f) x) l

theorem splitsFrom_map (g : Group β) (l : List β) :
    splitsFrom lo hi gap cap (g.map f) (l.map f) =
      splitsFrom (lo ∘ f) (hi ∘ f) gap cap g l := by
  induction l generalizing g with
  | nil => rfl
  | cons x l ih =>
    have hadd : (g.map f).add hi (f x) = (g.add (hi ∘ f) x).map f := by simp [Group.add,Group.map]
    have hsingle : single lo hi (f x) = (single (lo ∘ f) (hi ∘ f) x).map f := rfl
    rw [List.map_cons,splitsFrom,splitsFrom,hadd,hsingle,ih,ih]
    rfl

theorem splits_map (l : List β) :
    splits lo hi gap cap (l.map f) = splits (lo ∘ f) (hi ∘ f) gap cap l := by
  cases l with
  | nil => rfl
  | cons x l => exact splitsFrom_map f (single (lo ∘ f) (hi ∘ f) x) l

/-- Two ways to cut the same elements, with the same keys in each part, put the same elements in
each part. -/
theorem forall_perm [DecidableEq α] {κ : Type} [LinearOrder κ] {key : α → κ}
    {parts parts' : List (List α)} (hperm : parts.flatten.Perm parts'.flatten)
    (hkeys : parts.map (List.map key) = parts'.map (List.map key))
    (hbefore : parts.Pairwise (Before key)) (hbefore' : parts'.Pairwise (Before key)) :
    List.Forall₂ List.Perm parts parts' := by
  induction parts generalizing parts' with
  | nil =>
    cases parts' with
    | nil => exact .nil
    | cons part' parts' => cases hkeys
  | cons part parts ih =>
    cases parts' with
    | nil => cases hkeys
    | cons part' parts' =>
      obtain ⟨hpart,hkeys⟩ := List.cons.inj hkeys
      obtain ⟨hfirst,hrest⟩ := List.pairwise_cons.mp hbefore
      obtain ⟨hfirst',hrest'⟩ := List.pairwise_cons.mp hbefore'
      rw [List.flatten_cons,List.flatten_cons] at hperm
      -- an element with a key of the first part is in no later part
      have hcount : ∀ (a : List α) (as : List (List α)), (∀ b ∈ as, Before key a b) → ∀ x,
          key x ∈ a.map key → (a++as.flatten).count x = a.count x := by
        intro a as has x hx
        have hnot : x ∉ as.flatten := by
          intro hmem
          obtain ⟨b,hb,hxb⟩ := List.mem_flatten.mp hmem
          obtain ⟨y,hy,heq⟩ := List.mem_map.mp hx
          exact absurd (has b hb y hy x hxb) (by rw [heq]; exact lt_irrefl _)
        rw [List.count_append,List.count_eq_zero_of_not_mem hnot,Nat.add_zero]
      have hhead : part.Perm part' := by
        rw [List.perm_iff_count]
        intro x
        by_cases hx : key x ∈ part.map key
        · rw [← hcount part parts hfirst x hx,← hcount part' parts' hfirst' x (hpart ▸ hx),
            hperm.count_eq]
        · have hnot : x ∉ part := fun hmem => hx (List.mem_map_of_mem hmem)
          have hnot' : x ∉ part' := fun hmem => hx (hpart ▸ List.mem_map_of_mem hmem)
          rw [List.count_eq_zero_of_not_mem hnot,List.count_eq_zero_of_not_mem hnot']
      have htail := (hhead.append_right parts.flatten).symm.trans hperm
      exact .cons hhead (ih ((List.perm_append_left_iff part').mp htail) hkeys hrest hrest')

end Sweep

end SpanSweep
end PgKronika
