import Mathlib

/-! Programs that ask a server and hear of each request whether it was refused. A server that latches
its first refusal is left in the state that the requests made without refusals lead to, whatever the
program does with the refusals. -/
namespace PgKronika
namespace LatchedPrograms

variable {ρ ε β σ τ : Type}

inductive Program (ρ ε β : Type)
  | done (result : β)
  | ask (request : ρ) (next : Option ε → Program ρ ε β)

namespace Program

/-- The requests of a program that is never refused. -/
def requests : Program ρ ε β → List ρ
  | done _ => []
  | ask request next => request :: (next none).requests

def run (serve : σ → ρ → σ × Option ε) : Program ρ ε β → σ → σ × β
  | done result,s => (s,result)
  | ask request next,s =>
    let served := serve s request
    (next served.2).run serve served.1

@[simp]
theorem run_ask (serve : σ → ρ → σ × Option ε) (request : ρ) (next : Option ε → Program ρ ε β)
    (s : σ) : (ask request next).run serve s =
      (next (serve s request).2).run serve (serve s request).1 :=
  rfl

@[simp]
theorem requests_ask (request : ρ) (next : Option ε → Program ρ ε β) :
    (ask request next).requests = request :: (next none).requests :=
  rfl

/-- The program reports no refusal that it was not given. -/
def ReportsGiven : List ε → Program ρ ε (Option ε) → Prop
  | given,done result => ∀ e, result = some e → e ∈ given
  | given,ask _ next => ∀ reply : Option ε, ReportsGiven (reply.toList ++ given) (next reply)

end Program

def serveAll (serve : σ → ρ → σ × Option ε) (s : σ) (requests : List ρ) : σ :=
  requests.foldl (fun s request => (serve s request).1) s

@[simp]
theorem serveAll_cons (serve : σ → ρ → σ × Option ε) (s : σ) (request : ρ) (requests : List ρ) :
    serveAll serve s (request::requests) = serveAll serve (serve s request).1 requests :=
  rfl

/-- The reply is the refusal on record, and after a refusal nothing changes. -/
structure Latched (serve : σ → ρ → σ × Option ε) (refusal : σ → Option ε) : Prop where
  reply : ∀ s request, (serve s request).2 = refusal (serve s request).1
  latch : ∀ s request, refusal s ≠ none → (serve s request).1 = s

section Latch

variable {serve : σ → ρ → σ × Option ε} {refusal : σ → Option ε} (h : Latched serve refusal)
include h

theorem Latched.serveAll_refused {s : σ} (hs : refusal s ≠ none) (requests : List ρ) :
    serveAll serve s requests = s := by
  induction requests with
  | nil => rfl
  | cons request requests ih =>
    rw [serveAll_cons,h.latch s request hs]
    exact ih

theorem Latched.run_refused {s : σ} (hs : refusal s ≠ none) (program : Program ρ ε β) :
    (program.run serve s).1 = s := by
  induction program with
  | done result => rfl
  | ask request next ih =>
    simp only [Program.run_ask,h.latch s request hs]
    exact ih _

/-- A run leads where the requests lead that are made while none is refused. -/
theorem Latched.run_state (program : Program ρ ε β) (s : σ) :
    (program.run serve s).1 = serveAll serve s program.requests := by
  induction program generalizing s with
  | done result => rfl
  | ask request next ih =>
    simp only [Program.run_ask,Program.requests_ask,serveAll_cons,h.reply]
    by_cases hrefused : refusal (serve s request).1 = none
    · rw [hrefused]
      exact ih none _
    · rw [h.run_refused hrefused]
      exact (h.serveAll_refused hrefused _).symm

theorem Latched.report_given {given : List ε} {s : σ} {program : Program ρ ε (Option ε)}
    (hgiven : ∀ e ∈ given, refusal s = some e) (hreports : program.ReportsGiven given) :
    ∀ e, (program.run serve s).2 = some e → refusal (program.run serve s).1 = some e := by
  induction program generalizing given s with
  | done result => exact fun e he => hgiven e (hreports e he)
  | ask request next ih =>
    rw [Program.run_ask]
    refine ih _ ?_ (hreports _)
    intro e he
    rw [h.reply] at he
    rcases List.mem_append.mp he with hnew | hold
    · exact Option.mem_toList.mp hnew
    · have hrefused : refusal s = some e := hgiven e hold
      rw [h.latch s request (by simp [hrefused])]
      exact hrefused

/-- A report of a refusal says no more than the server's own record. -/
theorem Latched.report_or {s : σ} {program : Program ρ ε (Option ε)}
    (hreports : program.ReportsGiven []) :
    (program.run serve s).2.or (refusal (program.run serve s).1) =
      refusal (program.run serve s).1 := by
  cases hreport : (program.run serve s).2 with
  | none => rfl
  | some e => exact (h.report_given (by simp) hreports e hreport).symm

end Latch

/-! Requests that are booked one by one. -/

section Books

variable (add : τ → ρ → τ) (Within : τ → Prop) [DecidablePred Within]

/-- The requests up to the first whose booking leaves the limits. -/
def affordable : τ → List ρ → List ρ
  | _,[] => []
  | books,request::requests =>
    if Within (add books request) then request :: affordable (add books request) requests else []

variable {add Within}

theorem affordable_cons (books : τ) (request : ρ) (requests : List ρ) :
    affordable add Within books (request::requests) =
      if Within (add books request) then
        request :: affordable add Within (add books request) requests
      else [] :=
  rfl

theorem affordable_prefix (books : τ) (requests : List ρ) :
    affordable add Within books requests <+: requests := by
  induction requests generalizing books with
  | nil => exact List.prefix_rfl
  | cons request requests ih =>
    rw [affordable_cons]
    split_ifs
    · exact List.prefix_cons_inj request |>.mpr (ih _)
    · exact List.nil_prefix

/-- Wider limits afford no less. -/
theorem affordable_mono {Wider : τ → Prop} [DecidablePred Wider]
    (hwider : ∀ books, Within books → Wider books) (books : τ) (requests : List ρ) :
    affordable add Within books requests <+: affordable add Wider books requests := by
  induction requests generalizing books with
  | nil => exact List.prefix_rfl
  | cons request requests ih =>
    rw [affordable_cons,affordable_cons]
    by_cases hwithin : Within (add books request)
    · rw [if_pos hwithin,if_pos (hwider _ hwithin)]
      exact List.prefix_cons_inj request |>.mpr (ih _)
    · rw [if_neg hwithin]
      exact List.nil_prefix

theorem affordable_append_whole {books : τ} {first : List ρ}
    (h : affordable add Within books first = first) (second : List ρ) :
    affordable add Within books (first ++ second) =
      first ++ affordable add Within (first.foldl add books) second := by
  induction first generalizing books with
  | nil => rfl
  | cons request first ih =>
    rw [affordable_cons] at h
    rw [List.cons_append,affordable_cons]
    by_cases hwithin : Within (add books request)
    · rw [if_pos hwithin] at h ⊢
      rw [ih (List.cons.inj h).2]
      rfl
    · rw [if_neg hwithin] at h
      cases h

theorem affordable_append_cut {books : τ} {first : List ρ}
    (h : affordable add Within books first ≠ first) (second : List ρ) :
    affordable add Within books (first ++ second) = affordable add Within books first := by
  induction first generalizing books with
  | nil => exact absurd rfl h
  | cons request first ih =>
    rw [affordable_cons] at h
    rw [List.cons_append,affordable_cons,affordable_cons]
    by_cases hwithin : Within (add books request)
    · rw [if_pos hwithin] at h ⊢
      rw [if_pos hwithin,ih fun hall => h (congrArg _ hall)]
    · rw [if_neg hwithin,if_neg hwithin]

theorem affordable_map {α : Type} (f : α → ρ) (books : τ) (requests : List α) :
    affordable add Within books (requests.map f) =
      (affordable (fun books request => add books (f request)) Within books requests).map f := by
  induction requests generalizing books with
  | nil => rfl
  | cons request requests ih =>
    simp only [List.map_cons,affordable_cons]
    by_cases hwithin : Within (add books (f request))
    · rw [if_pos hwithin,if_pos hwithin,ih,List.map_cons]
    · rw [if_neg hwithin,if_neg hwithin,List.map_nil]

theorem affordable_within {books : τ} (h : Within books) (requests : List ρ) :
    Within ((affordable add Within books requests).foldl add books) := by
  induction requests generalizing books with
  | nil => exact h
  | cons request requests ih =>
    rw [affordable_cons]
    split_ifs with hwithin
    · exact ih hwithin
    · exact h

/-- While it is ready, a server books what stays within the limits and refuses the rest. -/
structure KeepsBooks (serve : σ → ρ → σ × Option ε) (refusal : σ → Option ε) (books : σ → τ)
    (Ready : σ → Prop) (add : τ → ρ → τ) (Within : τ → Prop) : Prop where
  calm : ∀ s, Ready s → refusal s = none
  grant : ∀ s request, Ready s → Within (add (books s) request) →
    Ready (serve s request).1 ∧ books (serve s request).1 = add (books s) request
  refuse : ∀ s request, Ready s → ¬Within (add (books s) request) →
    refusal (serve s request).1 ≠ none ∧ books (serve s request).1 = books s

section Server

variable {serve : σ → ρ → σ × Option ε} {refusal : σ → Option ε} {books : σ → τ} {Ready : σ → Prop}

/-- The affordable requests are booked. -/
theorem KeepsBooks.books_serveAll (hlatched : Latched serve refusal)
    (h : KeepsBooks serve refusal books Ready add Within) {s : σ} (hs : Ready s) (requests : List ρ) :
    books (serveAll serve s requests) =
      (affordable add Within (books s) requests).foldl add (books s) := by
  induction requests generalizing s with
  | nil => rfl
  | cons request requests ih =>
    rw [affordable_cons,serveAll_cons]
    by_cases hnext : Within (add (books s) request)
    · obtain ⟨hready,hbooks⟩ := h.grant s request hs hnext
      rw [if_pos hnext,List.foldl_cons,← hbooks]
      exact ih hready
    · obtain ⟨hrefused,hbooks⟩ := h.refuse s request hs hnext
      rw [if_neg hnext]
      exact (congrArg books (hlatched.serveAll_refused hrefused requests)).trans hbooks

/-- A refusal is on record just when not all requests are affordable. -/
theorem KeepsBooks.refusal_serveAll (hlatched : Latched serve refusal)
    (h : KeepsBooks serve refusal books Ready add Within) {s : σ} (hs : Ready s) (requests : List ρ) :
    (affordable add Within (books s) requests = requests ∧ Ready (serveAll serve s requests)) ∨
      (affordable add Within (books s) requests ≠ requests ∧
        refusal (serveAll serve s requests) ≠ none) := by
  induction requests generalizing s with
  | nil => exact .inl ⟨rfl,hs⟩
  | cons request requests ih =>
    rw [affordable_cons,serveAll_cons]
    by_cases hnext : Within (add (books s) request)
    · obtain ⟨hready,hbooks⟩ := h.grant s request hs hnext
      rw [if_pos hnext,← hbooks]
      rcases ih hready with ⟨hall,hlast⟩ | ⟨hpart,hlast⟩
      · exact .inl ⟨by rw [hall],hlast⟩
      · exact .inr ⟨by simpa using hpart,hlast⟩
    · obtain ⟨hrefused,-⟩ := h.refuse s request hs hnext
      rw [if_neg hnext]
      refine .inr ⟨by simp,?_⟩
      rw [hlatched.serveAll_refused hrefused requests]
      exact hrefused

end Server

end Books

end LatchedPrograms

end PgKronika
