import Mathlib

/-! Pages of a sorted list that resume behind the value of their last element. Nothing
here knows what the elements are. -/
namespace PgKronika
namespace KeysetPaging

variable {α : Type} (cmp : α → α → Ordering)

/-- What remains behind a resume value: everything greater than it. -/
def after (c : α) (l : List α) : List α := l.dropWhile fun a => cmp a c ≠ .gt

/-- Each page, and what remains behind its last element. -/
def pages (limit : ℕ) : ℕ → List α → List (List α)
  | 0, _ => []
  | fuel+1, l =>
    if l.length ≤ limit then [l]
    else
      match (l.take limit).getLast? with
      | none => [l.take limit]
      | some c => l.take limit :: pages limit fuel (after cmp c l)

/-- No two elements that compare equal stand on both sides of a page boundary. -/
def NoTieAtBoundary (limit : ℕ) (l : List α) : Prop :=
  ∀ i a b, 0 < i → l[i*limit-1]? = some a → l[i*limit]? = some b → cmp a b ≠ .eq

def Ascending (l : List α) : Prop := l.Pairwise fun a b => cmp a b ≠ .gt

variable {cmp}

theorem after_sublist (c : α) (l : List α) : (after cmp c l).Sublist l :=
  List.dropWhile_sublist _

theorem Ascending.after {l : List α} (h : Ascending cmp l) (c : α) :
    Ascending cmp (after cmp c l) := List.Pairwise.sublist (after_sublist c l) h

/-- Everything up to the resume value is dropped, at least. -/
theorem after_append {c : α} {front back : List α} (h : ∀ a ∈ front, cmp a c ≠ .gt) :
    after cmp c (front++back) = after cmp c back := by
  induction front with
  | nil => rfl
  | cons a front ih =>
    rw [List.cons_append,after,List.dropWhile_cons_of_pos (by simpa using h a (by simp))]
    exact ih fun x hx => h x (List.mem_cons_of_mem _ hx)

/-- Resuming twice is resuming at the later value. -/
theorem after_after {l : List α} (h : Ascending cmp l) {c d : α} (hd : d ∈ after cmp c l) :
    after cmp d (after cmp c l) = after cmp d l := by
  have hsplit : l = l.takeWhile (fun a => decide (cmp a c ≠ .gt)) ++ after cmp c l :=
    List.takeWhile_append_dropWhile.symm
  have hall := h
  rw [hsplit] at hall
  conv_rhs => rw [hsplit]
  exact (after_append fun a ha => (List.pairwise_append.mp hall).2.2 a ha d hd).symm

variable [Std.TransCmp cmp]

theorem not_gt_self (a : α) : cmp a a ≠ .gt := by
  have hself : cmp a a = .eq := Std.ReflCmp.compare_self
  rw [hself]
  decide

/-- In an ascending list, the elements in front of the last one of a prefix are dropped
with it. -/
theorem after_take {l : List α} (h : Ascending cmp l) {limit : ℕ} {c : α}
    (hc : (l.take limit).getLast? = some c) : after cmp c l = after cmp c (l.drop limit) := by
  conv_lhs => rw [← List.take_append_drop limit l]
  refine after_append fun a ha => ?_
  obtain ⟨init,hinit⟩ := List.getLast?_eq_some_iff.mp hc
  have htake : Ascending cmp (init ++ [c]) := hinit ▸ h.sublist (List.take_sublist _ _)
  rw [hinit] at ha
  rcases List.mem_append.mp ha with ha | ha
  · exact (List.pairwise_append.mp htake).2.2 a ha c (by simp)
  · rw [List.mem_singleton.mp ha]
    exact not_gt_self c

omit [Std.TransCmp cmp] in
theorem length_after_lt {c : α} {l : List α} {limit : ℕ} (hlimit : 0 < limit)
    (hlen : limit < l.length) (h : after cmp c l = after cmp c (l.drop limit)) :
    (after cmp c l).length < l.length := by
  have hle : (after cmp c (l.drop limit)).length ≤ (l.drop limit).length :=
    (after_sublist c _).length_le
  rw [h]
  rw [List.length_drop] at hle
  omega

omit [Std.TransCmp cmp] in
theorem getLast?_take {l : List α} {limit : ℕ} (hlimit : 0 < limit) (hlen : limit < l.length) :
    (l.take limit).getLast? = l[limit-1]? := by
  rw [List.getLast?_eq_getElem?,List.length_take,Nat.min_eq_left (by omega),
    List.getElem?_take_of_lt (by omega)]

/-- Pages repeat nothing and keep the order. -/
theorem pages_sublist {l : List α} (h : Ascending cmp l) (limit fuel : ℕ) :
    (pages cmp limit fuel l).flatten.Sublist l := by
  induction fuel generalizing l with
  | zero => exact List.nil_sublist l
  | succ fuel ih =>
    rw [pages]
    split_ifs with hlen
    · simp
    · split
      · simpa using List.take_sublist limit l
      · rename_i c hc
        have hback : (after cmp c l).Sublist (l.drop limit) := by
          rw [after_take h hc]
          exact after_sublist c _
        have hdrop := (ih (h.after c)).trans hback
        rw [List.flatten_cons]
        conv_rhs => rw [← List.take_append_drop limit l]
        exact (List.Sublist.refl _).append hdrop

/-- Without a tie at the first boundary the pages resume exactly behind it. -/
theorem after_of_no_tie {l : List α} (h : Ascending cmp l) {limit : ℕ} {c : α}
    (hc : (l.take limit).getLast? = some c) (hno : ∀ b, l[limit]? = some b → cmp c b ≠ .eq) :
    after cmp c l = l.drop limit := by
  rw [after_take h hc]
  cases hd : l.drop limit with
  | nil => rfl
  | cons b rest =>
    have hb : l[limit]? = some b := by
      rw [← List.head?_drop,hd]
      rfl
    have hcb : cmp c b ≠ .gt := by
      obtain ⟨init,hinit⟩ := List.getLast?_eq_some_iff.mp hc
      have hall : Ascending cmp ((init ++ [c]) ++ (b::rest)) := by
        rw [← hinit,← hd,List.take_append_drop]
        exact h
      exact (List.pairwise_append.mp hall).2.2 c (by simp) b (by simp)
    have hlt : cmp c b = .lt := by
      have hne := hno b hb
      cases hcmp : cmp c b with
      | lt => rfl
      | eq => exact absurd hcmp hne
      | gt => exact absurd hcmp hcb
    rw [after,List.dropWhile_cons_of_neg]
    simpa using Std.OrientedCmp.gt_of_lt hlt

/-- A tie at the first boundary is dropped with the page in front of it. -/
theorem length_after_of_tie {l : List α} (h : Ascending cmp l) {limit : ℕ} {b c : α}
    (hc : (l.take limit).getLast? = some c) (hb : l[limit]? = some b) (htie : cmp c b = .eq) :
    (after cmp c l).length < (l.drop limit).length := by
  rw [after_take h hc]
  cases hd : l.drop limit with
  | nil =>
    rw [← List.head?_drop,hd] at hb
    cases hb
  | cons x rest =>
    rw [← List.head?_drop,hd] at hb
    cases hb
    rw [after,List.dropWhile_cons_of_pos (by simp [Std.OrientedCmp.eq_comm.mp htie])]
    have hle := (List.dropWhile_sublist (l := rest) fun a => decide (cmp a c ≠ .gt)).length_le
    rw [List.length_cons]
    omega

omit [Std.TransCmp cmp] in
theorem noTie_of_short {l : List α} {limit : ℕ} (h : l.length ≤ limit) :
    NoTieAtBoundary cmp limit l := by
  intro i a b hi _ hb
  have hlt := (List.getElem?_eq_some_iff.mp hb).1
  have hle := Nat.le_mul_of_pos_left limit hi
  omega

omit [Std.TransCmp cmp] in
/-- The boundaries of a list are its first one and those of the rest. -/
theorem noTie_iff_drop {l : List α} {limit : ℕ} (hlimit : 0 < limit) :
    NoTieAtBoundary cmp limit l ↔
      (∀ a b, l[limit-1]? = some a → l[limit]? = some b → cmp a b ≠ .eq) ∧
        NoTieAtBoundary cmp limit (l.drop limit) := by
  constructor
  · intro h
    refine ⟨fun a b ha hb => h 1 a b one_pos (by simpa using ha) (by simpa using hb),?_⟩
    intro i a b hi ha hb
    rw [List.getElem?_drop] at ha hb
    have hpos := Nat.mul_pos hi hlimit
    refine h (i+1) a b (by omega) ?_ ?_
    · rw [← ha,Nat.add_mul,Nat.one_mul]
      congr 1; omega
    · rw [← hb,Nat.add_mul,Nat.one_mul]
      congr 1; omega
  · rintro ⟨hfirst,hrest⟩ i a b hi ha hb
    obtain ⟨i,rfl⟩ : ∃ k, i = k+1 := ⟨i-1,by omega⟩
    rcases Nat.eq_zero_or_pos i with rfl | hpos
    · exact hfirst a b (by simpa using ha) (by simpa using hb)
    · have hmul := Nat.mul_pos hpos hlimit
      rw [Nat.add_mul,Nat.one_mul] at ha hb
      refine hrest i a b hpos ?_ ?_ <;> rw [List.getElem?_drop]
      · rw [← ha]
        congr 1; omega
      · rw [← hb]
        congr 1; omega

/-- The pages tile an ascending list exactly when no boundary splits a tie. -/
theorem pages_tile_iff {l : List α} (h : Ascending cmp l) {limit : ℕ} (hlimit : 0 < limit)
    {fuel : ℕ} (hfuel : l.length < fuel) :
    (pages cmp limit fuel l).flatten = l ↔ NoTieAtBoundary cmp limit l := by
  induction fuel generalizing l with
  | zero => omega
  | succ fuel ih =>
    rw [pages]
    split_ifs with hlen
    · exact iff_of_true (by simp) (noTie_of_short hlen)
    · have hlt : limit < l.length := not_le.mp hlen
      have hlast := getLast?_take hlimit hlt
      cases hc : (l.take limit).getLast? with
      | none =>
        rw [hlast,List.getElem?_eq_none_iff] at hc
        omega
      | some c =>
        dsimp only
        have hc' : l[limit-1]? = some c := hlast ▸ hc
        have hfuel' := length_after_lt hlimit hlt (after_take h hc)
        rw [List.flatten_cons,noTie_iff_drop hlimit]
        conv_lhs => rw [← List.take_append_drop limit l]
        by_cases htie : ∀ b, l[limit]? = some b → cmp c b ≠ .eq
        · have hnext := after_of_no_tie h hc htie
          have hrest := ih (h.sublist (List.drop_sublist limit l))
            (by rw [← hnext]; omega)
          rw [List.take_append_drop,hnext,← hrest]
          constructor
          · intro he
            refine ⟨?_,?_⟩
            · intro a b ha hb
              rw [hc'] at ha
              cases ha
              exact htie b hb
            · conv_rhs at he => rw [← List.take_append_drop limit l]
              exact List.append_cancel_left he
          · rintro ⟨_,he⟩
            rw [he,List.take_append_drop]
        · push Not at htie
          obtain ⟨b,hb,heq⟩ := htie
          refine iff_of_false ?_ ?_
          · intro he
            rw [List.take_append_drop] at he
            have hshort := length_after_of_tie h hc hb heq
            have hsub := (pages_sublist (h.after c) limit fuel).length_le
            have hcount := congrArg List.length he
            rw [List.length_append,List.length_take] at hcount
            rw [List.length_drop] at hshort
            omega
          · rintro ⟨hno,_⟩
            exact hno c b hc' hb heq

end KeysetPaging
end PgKronika
