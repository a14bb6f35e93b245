import Mathlib

/-! Merges of ascending tracks. The walk over any number of tracks stops where all heads have one
key, the walk over two tracks at every key of either; both end, and visit the shared keys in
ascending order. -/
namespace PgKronika
namespace AlignedMerge

section Shared

variable {α σ κ : Type} [LinearOrder κ] (key : α → κ)

def Ascending (track : List α) : Prop := track.Pairwise fun a b => key a < key b

def heads : List (List α) → Option (List α)
  | [] => some []
  | []::_ => none
  | (a::_)::tracks => (heads tracks).map (a :: ·)

/-- The elements of the tracks at one key. -/
def rowAt (k : κ) : List (List α) → Option (List α)
  | [] => some []
  | track::tracks =>
    (track.find? fun a => decide (key a = k)).bind fun a => (rowAt k tracks).map (a :: ·)

/-- The rows at the keys that every track has, in the order of the first track. -/
def sharedRows (tracks : List (List α)) : List (List α) :=
  match tracks with
  | [] => []
  | first::_ => (first.map key).filterMap fun k => rowAt key k tracks

/-- A track without its head, if this has the key. -/
def dropHead (k : κ) : List α → List α
  | [] => []
  | a::rest => if key a = k then rest else a::rest

/-- The walk over all tracks. The heads with the least key go on until all heads have one key. The
search for the least key starts from `high`, the one for the greatest from `low`. -/
def walk (low high : κ) (visit : σ → List α → σ) : ℕ → List (List α) → σ → Option σ
  | 0,_,_ => none
  | fuel+1,tracks,s =>
    match heads tracks with
    | none => some s
    | some row =>
      let minimum := (row.map key).foldl min high
      let maximum := (row.map key).foldl max low
      if minimum ≠ maximum then walk low high visit fuel (tracks.map (dropHead key minimum)) s
      else walk low high visit fuel (tracks.map List.tail) (visit s row)

variable {key}

theorem heads_eq_some {tracks : List (List α)} {row : List α} :
    heads tracks = some row ↔ tracks.map List.head? = row.map some := by
  induction tracks generalizing row with
  | nil => cases row <;> simp [heads]
  | cons track tracks ih =>
    cases track with
    | nil => cases row <;> simp [heads]
    | cons a rest =>
      cases row with
      | nil => simp [heads]
      | cons b row =>
        simp only [heads,Option.map_eq_some_iff,List.cons.injEq,List.map_cons,List.head?_cons,
          Option.some.injEq]
        constructor
        · rintro ⟨row',hrow,rfl,rfl⟩
          exact ⟨rfl,ih.mp hrow⟩
        · rintro ⟨rfl,hrow⟩
          exact ⟨row,ih.mpr hrow,rfl,rfl⟩

theorem heads_eq_none {tracks : List (List α)} : heads tracks = none ↔ [] ∈ tracks := by
  induction tracks with
  | nil => simp [heads]
  | cons track tracks ih =>
    cases track with
    | nil => simp [heads]
    | cons a rest => simp [heads,ih]

theorem rowAt_eq_none {k : κ} {tracks : List (List α)} {track : List α} (h : track ∈ tracks)
    (hk : ∀ a ∈ track, key a ≠ k) : rowAt key k tracks = none := by
  have hfind : track.find? (fun a => decide (key a = k)) = none :=
    List.find?_eq_none.mpr fun a ha => by simpa using hk a ha
  induction tracks with
  | nil => cases h
  | cons t tracks ih =>
    rw [rowAt]
    rcases List.mem_cons.mp h with rfl | h
    · simp [hfind]
    · simp [ih h]

theorem rowAt_heads {k : κ} {tracks : List (List α)} {row : List α} (h : heads tracks = some row)
    (hk : ∀ a ∈ row, key a = k) : rowAt key k tracks = some row := by
  induction tracks generalizing row with
  | nil =>
    cases h
    rfl
  | cons track tracks ih =>
    cases track with
    | nil => cases h
    | cons a rest =>
      obtain ⟨row',hrow,rfl⟩ := Option.map_eq_some_iff.mp h
      have hrest := ih hrow fun b hb => hk b (List.mem_cons_of_mem _ hb)
      simp [rowAt,hk a (List.mem_cons_self ..),hrest]

theorem dropHead_sublist (k : κ) (track : List α) : (dropHead key k track).Sublist track := by
  cases track with
  | nil => exact .slnil
  | cons a rest =>
    rw [dropHead]
    split_ifs
    · exact List.sublist_cons_self a rest
    · exact List.Sublist.refl _

theorem find_dropHead {k k' : κ} (h : k' ≠ k) (track : List α) :
    (dropHead key k track).find? (fun a => decide (key a = k')) =
      track.find? fun a => decide (key a = k') := by
  cases track with
  | nil => rfl
  | cons a rest =>
    rw [dropHead]
    by_cases hk : key a = k
    · have hne : decide (key a = k') = false := by simpa using fun hk' => h (hk'.symm.trans hk)
      rw [if_pos hk,List.find?_cons,hne]
    · rw [if_neg hk]

theorem rowAt_dropHead {k k' : κ} (h : k' ≠ k) (tracks : List (List α)) :
    rowAt key k' (tracks.map (dropHead key k)) = rowAt key k' tracks := by
  induction tracks with
  | nil => rfl
  | cons track tracks ih => simp only [List.map_cons,rowAt,find_dropHead h,ih]

/-- The row at a key that no key of the first track precedes comes first. -/
theorem sharedRows_split {first : List α} {rest : List (List α)} {k : κ}
    (h : Ascending key first) (hleast : ∀ a ∈ first, k ≤ key a) :
    sharedRows key (first::rest) = (rowAt key k (first::rest)).toList ++
      sharedRows key ((first::rest).map (dropHead key k)) := by
  have hrows : ∀ track : List α, (∀ a ∈ track, key a ≠ k) →
      (track.map key).filterMap (fun k' => rowAt key k' (first::rest)) =
        (track.map key).filterMap
          fun k' => rowAt key k' ((first::rest).map (dropHead key k)) := by
    intro track hne
    apply List.filterMap_congr
    intro k' hk'
    obtain ⟨a,ha,rfl⟩ := List.mem_map.mp hk'
    exact (rowAt_dropHead (hne a ha) _).symm
  have hmap : (first::rest).map (dropHead key k) =
      dropHead key k first :: rest.map (dropHead key k) := rfl
  cases first with
  | nil => simp [sharedRows,rowAt,dropHead]
  | cons a later =>
    obtain ⟨hlow,-⟩ := List.pairwise_cons.mp h
    by_cases hk : key a = k
    · subst hk
      have hlater := hrows later fun b hb => (hlow b hb).ne'
      rw [sharedRows,hmap,sharedRows,List.map_cons,List.filterMap_cons,hlater,hmap,dropHead,
        if_pos rfl]
      cases rowAt key (key a) ((a::later)::rest) <;> rfl
    · have hne : ∀ b ∈ a::later, key b ≠ k := by
        intro b hb
        rcases List.mem_cons.mp hb with rfl | hb
        · exact hk
        · exact ((hleast a (List.mem_cons_self ..)).trans_lt (hlow b hb)).ne'
      rw [rowAt_eq_none (List.mem_cons_self ..) hne,sharedRows,hrows _ hne,hmap,dropHead,if_neg hk]
      rfl

theorem foldl_min_le (keys : List κ) (high : κ) :
    keys.foldl min high ≤ high ∧ ∀ k ∈ keys, keys.foldl min high ≤ k := by
  induction keys generalizing high with
  | nil => simp
  | cons k keys ih =>
    obtain ⟨hbound,hall⟩ := ih (min high k)
    refine ⟨hbound.trans (min_le_left _ _),?_⟩
    intro k' hk'
    rcases List.mem_cons.mp hk' with rfl | hk'
    · exact hbound.trans (min_le_right _ _)
    · exact hall k' hk'

theorem foldl_min_mem {keys : List κ} {high : κ} (hne : keys ≠ []) (h : ∀ k ∈ keys, k ≤ high) :
    keys.foldl min high ∈ keys := by
  have hcases : ∀ (later : List κ) (bound : κ), later.foldl min bound = bound ∨
      later.foldl min bound ∈ later := by
    intro later
    induction later with
    | nil => exact fun bound => .inl rfl
    | cons k later ih =>
      intro bound
      rw [List.foldl_cons]
      rcases ih (min bound k) with hmin | hmem
      · rw [hmin]
        rcases min_choice bound k with hbound | hk
        · exact .inl hbound
        · exact .inr (by simp [hk])
      · exact .inr (List.mem_cons_of_mem _ hmem)
  rcases hcases keys high with hhigh | hmem
  · obtain ⟨k,hk⟩ := List.exists_mem_of_ne_nil keys hne
    have hle := (foldl_min_le keys high).2 k hk
    rw [hhigh] at hle ⊢
    rwa [le_antisymm hle (h k hk)]
  · exact hmem

theorem le_foldl_max (keys : List κ) (low : κ) : ∀ k ∈ keys, k ≤ keys.foldl max low :=
  (@foldl_min_le κᵒᵈ _ keys low).2

theorem foldl_max_mem {keys : List κ} {low : κ} (hne : keys ≠ []) (h : ∀ k ∈ keys, low ≤ k) :
    keys.foldl max low ∈ keys :=
  @foldl_min_mem κᵒᵈ _ keys low hne h

theorem map_tail_eq {k : κ} {tracks : List (List α)} {row : List α} (h : heads tracks = some row)
    (hk : ∀ a ∈ row, key a = k) : tracks.map List.tail = tracks.map (dropHead key k) := by
  induction tracks generalizing row with
  | nil => rfl
  | cons track tracks ih =>
    cases track with
    | nil => cases h
    | cons a rest =>
      obtain ⟨row',hrow,rfl⟩ := Option.map_eq_some_iff.mp h
      rw [List.map_cons,List.map_cons,ih hrow fun b hb => hk b (List.mem_cons_of_mem _ hb),
        dropHead,if_pos (hk a (List.mem_cons_self ..)),List.tail_cons]

theorem sum_dropHead_lt {k : κ} {tracks : List (List α)} {row : List α}
    (h : heads tracks = some row) (hk : k ∈ row.map key) :
    ((tracks.map (dropHead key k)).map List.length).sum < (tracks.map List.length).sum := by
  have hle : ∀ later : List (List α),
      ((later.map (dropHead key k)).map List.length).sum ≤ (later.map List.length).sum := by
    intro later
    rw [List.map_map]
    exact List.sum_le_sum fun track _ => (dropHead_sublist k track).length_le
  induction tracks generalizing row with
  | nil =>
    cases h
    simp at hk
  | cons track tracks ih =>
    cases track with
    | nil => cases h
    | cons a rest =>
      obtain ⟨row',hrow,rfl⟩ := Option.map_eq_some_iff.mp h
      simp only [List.map_cons,List.sum_cons]
      have hlater := hle tracks
      by_cases ha : key a = k
      · rw [dropHead,if_pos ha,List.length_cons]
        omega
      · have hmem : k ∈ row'.map key := by
          rcases List.mem_cons.mp hk with rfl | hk
          · exact absurd rfl ha
          · exact hk
        have hlt := ih hrow hmem
        have hdropped : (dropHead key k (a::rest)).Sublist (a::rest) := dropHead_sublist k (a::rest)
        have hfirst := hdropped.length_le
        omega

theorem mem_of_heads {tracks : List (List α)} {row : List α} (h : heads tracks = some row) {a : α}
    (ha : a ∈ row) : ∃ track ∈ tracks, track.head? = some a := by
  have hin : some a ∈ tracks.map List.head? := heads_eq_some.mp h ▸ List.mem_map_of_mem ha
  exact List.mem_map.mp hin

theorem head_le {track : List α} (h : Ascending key track) {a : α} (hhead : track.head? = some a) :
    ∀ b ∈ track, key a ≤ key b := by
  cases track with
  | nil => simp
  | cons c track =>
    cases hhead
    intro b hb
    rcases List.mem_cons.mp hb with rfl | hb
    · exact le_refl _
    · exact ((List.pairwise_cons.mp h).1 b hb).le

/-- The heads are a shared row if their keys are equal; else the least of the keys is not shared. -/
theorem sharedRows_step {tracks : List (List α)} {row : List α} {least greatest : κ}
    (h : ∀ track ∈ tracks, Ascending key track) (hheads : heads tracks = some row)
    (hleast : IsLeast {k | k ∈ row.map key} least)
    (hgreatest : IsGreatest {k | k ∈ row.map key} greatest) :
    sharedRows key tracks = (if least = greatest then [row] else []) ++
      sharedRows key (tracks.map (dropHead key least)) := by
  cases tracks with
  | nil =>
    cases hheads
    exact absurd hleast.1 (by simp)
  | cons first rest =>
    have hfirst := h first (List.mem_cons_self ..)
    have hle : ∀ a ∈ first, least ≤ key a := by
      cases first with
      | nil => simp
      | cons b later =>
        have hb : b ∈ row := by
          obtain ⟨row',-,rfl⟩ := Option.map_eq_some_iff.mp hheads
          exact List.mem_cons_self ..
        intro a ha
        exact (hleast.2 (List.mem_map_of_mem hb)).trans (head_le hfirst rfl a ha)
    rw [sharedRows_split hfirst hle]
    congr 1
    by_cases heq : least = greatest
    · have hall : ∀ a ∈ row, key a = least := fun a ha =>
        le_antisymm (heq ▸ hgreatest.2 (List.mem_map_of_mem ha)) (hleast.2 (List.mem_map_of_mem ha))
      rw [if_pos heq,rowAt_heads hheads hall]
      rfl
    · obtain ⟨b,hb,hbk⟩ := List.mem_map.mp hgreatest.1
      obtain ⟨track,htrack,hhead⟩ := mem_of_heads hheads hb
      have hlt : least < key b :=
        lt_of_le_of_ne (hleast.2 (List.mem_map_of_mem hb)) (hbk ▸ heq)
      have hnot : ∀ a ∈ track, key a ≠ least := fun a ha =>
        (hlt.trans_le (head_le (h track htrack) hhead a ha)).ne'
      rw [if_neg heq,rowAt_eq_none htrack hnot]
      rfl

theorem sharedRows_of_nil {tracks : List (List α)} (h : [] ∈ tracks) : sharedRows key tracks = [] := by
  cases tracks with
  | nil => rfl
  | cons first rest =>
    exact List.filterMap_eq_nil_iff.mpr fun k _ => rowAt_eq_none h (by simp)

/-- With enough fuel the walk ends, and has visited the shared rows in order. -/
theorem walk_eq {low high : κ} {visit : σ → List α → σ} {fuel : ℕ} {tracks : List (List α)} {s : σ}
    (hne : tracks ≠ []) (hascending : ∀ track ∈ tracks, Ascending key track)
    (hbounds : ∀ track ∈ tracks, ∀ a ∈ track, low ≤ key a ∧ key a ≤ high)
    (hfuel : (tracks.map List.length).sum < fuel) :
    walk key low high visit fuel tracks s = some ((sharedRows key tracks).foldl visit s) := by
  induction fuel generalizing tracks s with
  | zero => omega
  | succ fuel ih =>
    rw [walk]
    cases hheads : heads tracks with
    | none => simp [sharedRows_of_nil (heads_eq_none.mp hheads)]
    | some row =>
      dsimp only
      have hkeys : ∀ k ∈ row.map key, low ≤ k ∧ k ≤ high := by
        intro k hk
        obtain ⟨a,ha,rfl⟩ := List.mem_map.mp hk
        obtain ⟨track,htrack,hhead⟩ := mem_of_heads hheads ha
        exact hbounds track htrack a (List.mem_of_head? hhead)
      have hrow : row.map key ≠ [] := by
        intro hnil
        have hlength := congrArg List.length (heads_eq_some.mp hheads)
        rw [List.map_eq_nil_iff.mp hnil] at hlength
        exact hne (by simpa using hlength)
      have hleast : IsLeast {k | k ∈ row.map key} ((row.map key).foldl min high) :=
        ⟨foldl_min_mem hrow fun k hk => (hkeys k hk).2,(foldl_min_le (row.map key) high).2⟩
      have hgreatest : IsGreatest {k | k ∈ row.map key} ((row.map key).foldl max low) :=
        ⟨foldl_max_mem hrow fun k hk => (hkeys k hk).1,le_foldl_max (row.map key) low⟩
      have hstep := sharedRows_step hascending hheads hleast hgreatest
      generalize (row.map key).foldl min high = minimum at hstep hleast ⊢
      generalize (row.map key).foldl max low = maximum at hstep hgreatest ⊢
      have hrest : ∀ next : σ, walk key low high visit fuel (tracks.map (dropHead key minimum)) next =
          some ((sharedRows key (tracks.map (dropHead key minimum))).foldl visit next) := by
        intro next
        refine ih (by simpa using hne) ?_ ?_ ?_
        · intro track htrack
          obtain ⟨before,hbefore,rfl⟩ := List.mem_map.mp htrack
          exact (hascending before hbefore).sublist (dropHead_sublist _ _)
        · intro track htrack a ha
          obtain ⟨before,hbefore,rfl⟩ := List.mem_map.mp htrack
          exact hbounds before hbefore a ((dropHead_sublist _ _).subset ha)
        · have hlt := sum_dropHead_lt hheads hleast.1
          omega
      by_cases heq : minimum = maximum
      · have hall : ∀ a ∈ row, key a = minimum := fun a ha =>
          le_antisymm (heq ▸ hgreatest.2 (List.mem_map_of_mem ha))
            (hleast.2 (List.mem_map_of_mem ha))
        rw [if_neg (not_not.mpr heq),map_tail_eq hheads hall,hrest,hstep,if_pos heq]
        rfl
      · rw [if_pos heq,hrest,hstep,if_neg heq]
        rfl

end Shared

section Rows

variable {α κ : Type} [LinearOrder κ] {key : α → κ}

theorem Ascending.eq_of_key {track : List α} (h : Ascending key track) {a b : α} (ha : a ∈ track)
    (hb : b ∈ track) (hk : key a = key b) : a = b := by
  induction track with
  | nil => cases ha
  | cons c track ih =>
    obtain ⟨hlow,hrest⟩ := List.pairwise_cons.mp h
    rcases List.mem_cons.mp ha with rfl | hat
    · rcases List.mem_cons.mp hb with rfl | hbt
      · rfl
      · exact absurd hk (hlow b hbt).ne
    · rcases List.mem_cons.mp hb with rfl | hbt
      · exact absurd hk.symm (hlow a hat).ne
      · exact ih hrest hat hbt

theorem Ascending.find_eq_some {track : List α} (h : Ascending key track) {k : κ} {a : α} :
    track.find? (fun b => decide (key b = k)) = some a ↔ a ∈ track ∧ key a = k := by
  constructor
  · intro ha
    exact ⟨List.mem_of_find?_eq_some ha,by simpa using List.find?_some ha⟩
  · rintro ⟨ha,rfl⟩
    cases hfound : track.find? fun b => decide (key b = key a) with
    | none => simpa using List.find?_eq_none.mp hfound a ha
    | some b =>
      have hkey : key b = key a := by simpa using List.find?_some hfound
      rw [h.eq_of_key (List.mem_of_find?_eq_some hfound) ha hkey]

theorem rowAt_eq_some {k : κ} {tracks : List (List α)} {row : List α}
    (h : ∀ track ∈ tracks, Ascending key track) :
    rowAt key k tracks = some row ↔
      List.Forall₂ (fun track a => a ∈ track ∧ key a = k) tracks row := by
  induction tracks generalizing row with
  | nil => cases row <;> simp [rowAt]
  | cons track tracks ih =>
    have hrest := fun t ht => h t (List.mem_cons_of_mem _ ht)
    have hfind := fun a => (h track (List.mem_cons_self ..)).find_eq_some (k := k) (a := a)
    simp only [rowAt,Option.bind_eq_some_iff,Option.map_eq_some_iff,List.forall₂_cons_left_iff,hfind]
    constructor
    · rintro ⟨a,ha,row',hrow,rfl⟩
      exact ⟨a,row',ha,(ih hrest).mp hrow,rfl⟩
    · rintro ⟨a,row',ha,hrow,rfl⟩
      exact ⟨a,ha,row',(ih hrest).mpr hrow,rfl⟩

/-- A shared row has one element of every track, all at one key. -/
theorem mem_sharedRows {tracks : List (List α)} {row : List α} (hne : tracks ≠ [])
    (h : ∀ track ∈ tracks, Ascending key track) :
    row ∈ sharedRows key tracks ↔
      ∃ k, List.Forall₂ (fun track a => a ∈ track ∧ key a = k) tracks row := by
  obtain ⟨first,rest,rfl⟩ := List.exists_cons_of_ne_nil hne
  simp only [sharedRows,List.mem_filterMap,rowAt_eq_some h]
  constructor
  · rintro ⟨k,-,hrow⟩
    exact ⟨k,hrow⟩
  · rintro ⟨k,hrow⟩
    obtain ⟨a,row',⟨ha,hk⟩,hrest,rfl⟩ := List.forall₂_cons_left_iff.mp hrow
    exact ⟨k,List.mem_map.mpr ⟨a,ha,hk⟩,hrow⟩

theorem key_of_rowAt {k : κ} {tracks : List (List α)} {row : List α}
    (h : rowAt key k tracks = some row) : ∀ a ∈ row, key a = k := by
  induction tracks generalizing row with
  | nil =>
    cases h
    simp
  | cons track tracks ih =>
    obtain ⟨a,ha,hrest⟩ := Option.bind_eq_some_iff.mp h
    obtain ⟨row',hrow,rfl⟩ := Option.map_eq_some_iff.mp hrest
    intro b hb
    rcases List.mem_cons.mp hb with rfl | hb
    · simpa using List.find?_some ha
    · exact ih hrow b hb

/-- The shared rows stand in the order of their keys. -/
theorem sharedRows_ascending {tracks : List (List α)} (h : ∀ track ∈ tracks, Ascending key track) :
    (sharedRows key tracks).Pairwise fun row row' => ∀ a ∈ row, ∀ b ∈ row', key a < key b := by
  cases tracks with
  | nil => exact .nil
  | cons first rest =>
    have hkeys : (first.map key).Pairwise (· < ·) :=
      List.pairwise_map.mpr (h first (List.mem_cons_self ..))
    refine List.pairwise_filterMap.mpr (hkeys.imp ?_)
    intro k k' hlt row hrow row' hrow' a ha b hb
    rw [key_of_rowAt hrow a ha,key_of_rowAt hrow' b hb]
    exact hlt

end Rows

section Two

variable {α σ κ : Type} [LinearOrder κ] (key : α → κ)

/-- What stands at one key of either track. -/
inductive Met (α : Type)
  | left (a : α)
  | right (b : α)
  | both (a b : α)

def Met.keyOf : Met α → κ
  | .left a => key a
  | .right b => key b
  | .both a _ => key a

def Met.row : Met α → Option (List α)
  | .both a b => some [a,b]
  | .left _ => none
  | .right _ => none

def Met.visit (onLeft onRight : σ → α → σ) (onBoth : σ → α → α → σ) (s : σ) : Met α → σ
  | .left a => onLeft s a
  | .right b => onRight s b
  | .both a b => onBoth s a b

/-- The elements of two tracks by their keys. -/
def align : List α → List α → List (Met α)
  | a::as,b::bs =>
    if key a < key b then .left a :: align as (b::bs)
    else if key b < key a then .right b :: align (a::as) bs
    else .both a b :: align as bs
  | as,bs => as.map .left ++ bs.map .right
termination_by as bs => as.length + bs.length

/-- The walk over two tracks, with what is left of either at its end. -/
def walkTwo (onLeft onRight : σ → α → σ) (onBoth : σ → α → α → σ) : List α → List α → σ → σ
  | a::as,b::bs,s =>
    if key a < key b then walkTwo onLeft onRight onBoth as (b::bs) (onLeft s a)
    else if key b < key a then walkTwo onLeft onRight onBoth (a::as) bs (onRight s b)
    else walkTwo onLeft onRight onBoth as bs (onBoth s a b)
  | as,bs,s => bs.foldl onRight (as.foldl onLeft s)
termination_by as bs => as.length + bs.length

/-- The walk over three tracks. -/
def walkThree (visit : σ → α → α → α → σ) : List α → List α → List α → σ → σ
  | a::as,b::bs,c::cs,s =>
    let least := min (min (key a) (key b)) (key c)
    let greatest := max (max (key a) (key b)) (key c)
    if least ≠ greatest then
      walkThree visit (if key a = least then as else a::as) (if key b = least then bs else b::bs)
        (if key c = least then cs else c::cs) s
    else walkThree visit as bs cs (visit s a b c)
  | _,_,_,s => s
termination_by as bs cs => as.length + bs.length + cs.length
decreasing_by
  · have hsome : key a = least ∨ key b = least ∨ key c = least := by
      rcases min_choice (min (key a) (key b)) (key c) with h | h
      · rcases min_choice (key a) (key b) with h' | h'
        · exact .inl (by rw [← h',← h])
        · exact .inr (.inl (by rw [← h',← h]))
      · exact .inr (.inr h.symm)
    rcases hsome with h | h | h
    · split_ifs <;> simp only [List.length_cons] <;> omega
    · split_ifs <;> simp only [List.length_cons] <;> omega
    · split_ifs <;> simp only [List.length_cons] <;> omega
  · simp only [List.length_cons]
    omega

def visitTwo (visit : σ → α → α → σ) (s : σ) : List α → σ
  | [a,b] => visit s a b
  | _ => s

def visitThree (visit : σ → α → α → α → σ) (s : σ) : List α → σ
  | [a,b,c] => visit s a b c
  | _ => s

variable {key}

theorem walkTwo_eq (onLeft onRight : σ → α → σ) (onBoth : σ → α → α → σ) (as bs : List α) (s : σ) :
    walkTwo key onLeft onRight onBoth as bs s =
      (align key as bs).foldl (Met.visit onLeft onRight onBoth) s := by
  fun_induction walkTwo key onLeft onRight onBoth as bs s with
  | case1 a as b bs s hlt ih => rw [align,if_pos hlt,List.foldl_cons,ih]; rfl
  | case2 a as b bs s hnot hlt ih => rw [align,if_neg hnot,if_pos hlt,List.foldl_cons,ih]; rfl
  | case3 a as b bs s hnot hnot' ih =>
    rw [align,if_neg hnot,if_neg hnot',List.foldl_cons,ih]; rfl
  | case4 as bs s h =>
    rw [align]
    · rw [List.foldl_append,List.foldl_map,List.foldl_map]
      rfl
    · exact h

theorem mem_align_key {k : κ} (as bs : List α) :
    k ∈ (align key as bs).map (Met.keyOf key) ↔ k ∈ as.map key ∨ k ∈ bs.map key := by
  fun_induction align key as bs with
  | case1 a as b bs hlt ih => simp only [List.map_cons,List.mem_cons,ih,Met.keyOf]; tauto
  | case2 a as b bs hnot hlt ih => simp only [List.map_cons,List.mem_cons,ih,Met.keyOf]; tauto
  | case3 a as b bs hnot hnot' ih =>
    have heq : key a = key b := le_antisymm (not_lt.mp hnot') (not_lt.mp hnot)
    simp only [List.map_cons,List.mem_cons,ih,Met.keyOf,heq]
    tauto
  | case4 as bs h => simp [Met.keyOf,Function.comp_def]

theorem align_even {as bs : List α} {a b : α} (h : .both a b ∈ align key as bs) : key a = key b := by
  fun_induction align key as bs with
  | case1 a' as b' bs hlt ih => exact ih (by simpa using h)
  | case2 a' as b' bs hnot hlt ih => exact ih (by simpa using h)
  | case3 a' as b' bs hnot hnot' ih =>
    rcases List.mem_cons.mp h with heq | h
    · cases heq
      exact le_antisymm (not_lt.mp hnot') (not_lt.mp hnot)
    · exact ih h
  | case4 as bs hends => simp at h

theorem align_ascending {as bs : List α} (ha : Ascending key as) (hb : Ascending key bs) :
    (align key as bs).Pairwise fun m m' => m.keyOf key < m'.keyOf key := by
  have hall : ∀ (k : κ) (as bs : List α), (∀ a ∈ as, k < key a) → (∀ b ∈ bs, k < key b) →
      ∀ m ∈ align key as bs, k < m.keyOf key := by
    intro k as bs has hbs m hm
    rcases (mem_align_key as bs).mp (List.mem_map_of_mem hm) with hk | hk
    · obtain ⟨a,ha,hkey⟩ := List.mem_map.mp hk
      exact hkey ▸ has a ha
    · obtain ⟨b,hb,hkey⟩ := List.mem_map.mp hk
      exact hkey ▸ hbs b hb
  fun_induction align key as bs with
  | case1 a as b bs hlt ih =>
    obtain ⟨halow,harest⟩ := List.pairwise_cons.mp ha
    have hblow := (List.pairwise_cons.mp hb).1
    refine List.pairwise_cons.mpr ⟨hall (key a) as (b::bs) halow ?_,ih harest hb⟩
    intro b' hb'
    rcases List.mem_cons.mp hb' with rfl | hb'
    · exact hlt
    · exact hlt.trans (hblow b' hb')
  | case2 a as b bs hnot hlt ih =>
    obtain ⟨hblow,hbrest⟩ := List.pairwise_cons.mp hb
    have halow := (List.pairwise_cons.mp ha).1
    refine List.pairwise_cons.mpr ⟨hall (key b) (a::as) bs ?_ hblow,ih ha hbrest⟩
    intro a' ha'
    rcases List.mem_cons.mp ha' with rfl | ha'
    · exact hlt
    · exact hlt.trans (halow a' ha')
  | case3 a as b bs hnot hnot' ih =>
    obtain ⟨halow,harest⟩ := List.pairwise_cons.mp ha
    obtain ⟨hblow,hbrest⟩ := List.pairwise_cons.mp hb
    have heq : key a = key b := le_antisymm (not_lt.mp hnot') (not_lt.mp hnot)
    exact List.pairwise_cons.mpr
      ⟨hall (key a) as bs halow (fun b' hb' => heq ▸ hblow b' hb'),ih harest hbrest⟩
  | case4 as bs h =>
    cases as with
    | nil =>
      rw [Ascending] at hb
      simpa [List.pairwise_map,Met.keyOf] using hb
    | cons a as =>
      cases bs with
      | nil =>
        rw [Ascending] at ha
        simpa [List.pairwise_map,Met.keyOf] using ha
      | cons b bs => exact absurd rfl (h a as b bs rfl)

/-- Where two tracks meet are their shared rows. -/
theorem align_rows {as bs : List α} (ha : Ascending key as) (hb : Ascending key bs) :
    (align key as bs).filterMap Met.row = sharedRows key [as,bs] := by
  fun_induction align key as bs with
  | case1 a as b bs hlt ih =>
    obtain ⟨halow,harest⟩ := List.pairwise_cons.mp ha
    have hnone : rowAt key (key a) [a::as,b::bs] = none := by
      have hmem : b::bs ∈ [a::as,b::bs] := by simp
      refine rowAt_eq_none hmem ?_
      intro b' hb'
      rcases List.mem_cons.mp hb' with rfl | hb'
      · exact hlt.ne'
      · exact (hlt.trans ((List.pairwise_cons.mp hb).1 b' hb')).ne'
    have hleast : ∀ a' ∈ a::as, key a ≤ key a' := by
      intro a' ha'
      rcases List.mem_cons.mp ha' with rfl | ha'
      · exact le_refl _
      · exact (halow a' ha').le
    rw [sharedRows_split ha hleast,hnone,List.filterMap_cons_none rfl,ih harest hb]
    simp [dropHead,hlt.ne']
  | case2 a as b bs hnot hlt ih =>
    obtain ⟨hblow,hbrest⟩ := List.pairwise_cons.mp hb
    have hlow : ∀ a' ∈ a::as, key b < key a' := by
      intro a' ha'
      rcases List.mem_cons.mp ha' with rfl | ha'
      · exact hlt
      · exact hlt.trans ((List.pairwise_cons.mp ha).1 a' ha')
    have hnone : rowAt key (key b) [a::as,b::bs] = none :=
      rowAt_eq_none (List.mem_cons_self ..) fun a' ha' => (hlow a' ha').ne'
    rw [sharedRows_split ha fun a' ha' => (hlow a' ha').le,hnone,List.filterMap_cons_none rfl,
      ih ha hbrest]
    simp [dropHead,hlt.ne']
  | case3 a as b bs hnot hnot' ih =>
    obtain ⟨halow,harest⟩ := List.pairwise_cons.mp ha
    obtain ⟨hblow,hbrest⟩ := List.pairwise_cons.mp hb
    have heq : key b = key a := le_antisymm (not_lt.mp hnot) (not_lt.mp hnot')
    have hrow : rowAt key (key a) [a::as,b::bs] = some [a,b] := by simp [rowAt,heq]
    have hleast : ∀ a' ∈ a::as, key a ≤ key a' := by
      intro a' ha'
      rcases List.mem_cons.mp ha' with rfl | ha'
      · exact le_refl _
      · exact (halow a' ha').le
    rw [sharedRows_split ha hleast,hrow]
    simpa [Met.row,dropHead,heq] using ih harest hbrest
  | case4 as bs h =>
    have hnil : [] ∈ [as,bs] := by
      cases as with
      | nil => simp
      | cons a as =>
        cases bs with
        | nil => simp
        | cons b bs => exact absurd rfl (h a as b bs rfl)
    simp [sharedRows_of_nil hnil,Met.row,Function.comp_def]

/-- A walk that passes over what one track has alone visits the shared rows. -/
theorem walkTwo_shared (visit : σ → α → α → σ) {as bs : List α} {s : σ} (ha : Ascending key as)
    (hb : Ascending key bs) :
    walkTwo key (fun s _ => s) (fun s _ => s) visit as bs s =
      (sharedRows key [as,bs]).foldl (visitTwo visit) s := by
  rw [walkTwo_eq,← align_rows ha hb]
  generalize align key as bs = events
  induction events generalizing s with
  | nil => rfl
  | cons event events ih => cases event <;> exact ih

theorem isLeast_three (x y z : κ) : IsLeast {k | k ∈ [x,y,z]} (min (min x y) z) := by
  constructor
  · change _ ∈ [x,y,z]
    rcases min_choice (min x y) z with h | h
    · rcases min_choice x y with h' | h'
      · rw [h,h']
        simp
      · rw [h,h']
        simp
    · rw [h]
      simp
  · intro k hk
    change k ∈ [x,y,z] at hk
    simp only [List.mem_cons,List.not_mem_nil,or_false] at hk
    rcases hk with rfl | rfl | rfl <;> simp

theorem walkThree_eq (visit : σ → α → α → α → σ) {as bs cs : List α} {s : σ}
    (ha : Ascending key as) (hb : Ascending key bs) (hc : Ascending key cs) :
    walkThree key visit as bs cs s =
      (sharedRows key [as,bs,cs]).foldl (visitThree visit) s := by
  have hstep : ∀ (a b c : α) (as bs cs : List α), Ascending key (a::as) → Ascending key (b::bs) →
      Ascending key (c::cs) → sharedRows key [a::as,b::bs,c::cs] =
        (if min (min (key a) (key b)) (key c) = max (max (key a) (key b)) (key c) then [[a,b,c]]
          else []) ++ sharedRows key ([a::as,b::bs,c::cs].map
            (dropHead key (min (min (key a) (key b)) (key c)))) := by
    intro a b c as bs cs ha hb hc
    refine sharedRows_step (by simp [ha,hb,hc]) rfl (isLeast_three _ _ _) ?_
    exact @isLeast_three κᵒᵈ _ (key a) (key b) (key c)
  fun_induction walkThree key visit as bs cs s with
  | case1 a as b bs c cs s least greatest hne ih =>
    rw [hstep a b c as bs cs ha hb hc,if_neg hne,List.nil_append]
    exact ih (ha.sublist (dropHead_sublist least (a::as)))
      (hb.sublist (dropHead_sublist least (b::bs))) (hc.sublist (dropHead_sublist least (c::cs)))
  | case2 a as b bs c cs s least greatest heq ih =>
    have hall : least = greatest := not_not.mp heq
    have hkey : ∀ d ∈ [a,b,c], key d = least := by
      intro d hd
      have hmem : key d ∈ [key a,key b,key c] := List.mem_map_of_mem hd
      have hlow : least ≤ key d := (isLeast_three (key a) (key b) (key c)).2 hmem
      have hhigh : key d ≤ greatest := (@isLeast_three κᵒᵈ _ (key a) (key b) (key c)).2 hmem
      exact le_antisymm (hall ▸ hhigh) hlow
    have hheads : heads [a::as,b::bs,c::cs] = some [a,b,c] := rfl
    rw [hstep a b c as bs cs ha hb hc,if_pos hall,List.foldl_append,← map_tail_eq hheads hkey]
    exact ih (List.pairwise_cons.mp ha).2 (List.pairwise_cons.mp hb).2 (List.pairwise_cons.mp hc).2
  | case3 as bs cs s h =>
    have hnil : [] ∈ [as,bs,cs] := by
      cases as with
      | nil => simp
      | cons a as =>
        cases bs with
        | nil => simp
        | cons b bs =>
          cases cs with
          | nil => simp
          | cons c cs => exact absurd rfl (h a as b bs c cs rfl rfl)
    rw [sharedRows_of_nil hnil]
    rfl

end Two

end AlignedMerge

end PgKronika
