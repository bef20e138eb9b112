import Mathlib
import Criteria.Proofs.Prefetch.Grouping
import Criteria.Proofs.Property.Entries
import Criteria.Proofs.Query.Prefetching

/-!
# Counting what stages of a build do

The conditions of a query enter their results in the tally and the joins for all
names that are asked for; requests enter the fetches on the way to their leaves.
Up to a failure, these are the ones that were found again or created before it.
-/

namespace Criteria

open Criteria.Property (Inquiry Request)
open Criteria.Property.Inquiry (joinsTaken joinsTaken_append counted_attempt names_bind)
open Criteria.Register (Counted Counts counts_walk counts_of_keeps)
open Criteria.Workspace (seen seen_eq_iff)

/-! ## Fragments -/

namespace Conjuncts

variable {F : Type} {inquire : F → Inquiry (Option Expr)} {fragments : List F}

theorem inquiryFrom_cons (before : Option Expr) (fragment : F) (rest : List F) :
    inquiryFrom inquire before (fragment :: rest) = inquire fragment >>= fun result =>
      .record (·.recordFragment result.isSome)
        (inquiryFrom inquire (result.elim before fun e => some (conjoin before e)) rest) := rfl

/-- The results of the fragments, up to the first that fails. -/
def resultsOf (inquire : F → Inquiry (Option Expr)) (fragments : List F) (w : Scope) :
    List (Option Expr) :=
  Attempt.results (fun fragment => (inquire fragment).attempt) fragments w

theorem resultsOf_cons_of_ok {w w₁ : Scope} {fragment : F} {result : Option Expr}
    (h : (inquire fragment).attempt.run w = (.ok result, w₁)) (rest : List F) :
    resultsOf inquire (fragment :: rest) w = result :: resultsOf inquire rest w₁ :=
  Attempt.results_cons_of_ok (f := fun fragment => (inquire fragment).attempt) h rest

theorem resultsOf_cons_of_error {w w₁ : Scope} {fragment : F} {e : Failure}
    (h : (inquire fragment).attempt.run w = (.error e, w₁)) (rest : List F) :
    resultsOf inquire (fragment :: rest) w = [] :=
  Attempt.results_cons_of_error (f := fun fragment => (inquire fragment).attempt) h rest

/-- The results do not depend on what was entered in the tally. -/
theorem resultsOf_congr {w w' : Scope} (hstore : w.store = w'.store) (hhost : w.host = w'.host) :
    resultsOf inquire fragments w = resultsOf inquire fragments w' :=
  Attempt.results_congr (fun fragment _ => (inquire fragment).sees_id_attempt)
    (seen_eq_iff.2 ⟨hstore, hhost⟩)

/-- Evaluating fragments enters the joins for the names that are asked for, and the results. -/
theorem counted_inquiryFrom
    (hkeeps : ∀ fragment ∈ fragments, (inquire fragment).All Request.KeepsJoins)
    (hsilent : ∀ fragment ∈ fragments, (inquire fragment).Silent) (before : Option Expr)
    (w : Scope) :
    let x := inquiryFrom inquire before fragments
    ∃ u : Usage, Counted .joins w (x.attempt.run w).2
        (.only w.store.kind u + .ofResults (resultsOf inquire fragments w)) ∧
      ((∀ fragment ∈ fragments, (inquire fragment).Strict) → (x.attempt.run w).1.isOk = true →
        u.hits + u.created = joinsTaken (x.names w)) := by
  induction fragments generalizing before w with
  | nil =>
    refine ⟨{}, ?_, fun _ _ => rfl⟩
    rw [Tally.only_zero]
    exact .of_ledger rfl
  | cons fragment rest ih =>
    rw [List.forall_mem_cons] at hkeeps hsilent
    obtain ⟨u, hfirst, hu⟩ := counted_attempt hkeeps.1 hsilent.1 w
    rw [inquiryFrom_cons]
    dsimp only
    rcases hrun : (inquire fragment).attempt.run w with ⟨e | result, w₁⟩
    · rw [hrun] at hfirst
      rw [Inquiry.attempt_bind, Attempt.run_bind_of_error hrun, resultsOf_cons_of_error hrun]
      exact ⟨u, hfirst, fun _ hok => by cases hok⟩
    · rw [hrun] at hfirst hu
      let w₂ : Scope := { w₁ with tally := w₁.tally.recordFragment result.isSome }
      obtain ⟨v, hrest, hv⟩ :=
        ih hkeeps.2 hsilent.2 (result.elim before fun e => some (conjoin before e)) w₂
      have hkind : w₂.store.kind = w.store.kind := hfirst.kind_eq
      -- The result is entered before the rest is evaluated, which does not look at it.
      have hresults : resultsOf inquire rest w₂ = resultsOf inquire rest w₁ :=
        resultsOf_congr rfl rfl
      rw [hkind, hresults] at hrest
      rw [names_bind _ hrun, Inquiry.attempt_bind, Attempt.run_bind_of_ok hrun,
        resultsOf_cons_of_ok hrun, Inquiry.run_record]
      refine ⟨u + v, ?_, fun hstrict hok => ?_⟩
      · rw [← Tally.only_add_ofResults]
        have hentry : Counted .joins w₁ w₂ (.ofResults [result]) :=
          .of_entry rfl rfl (Tally.recordFragment_eq_add _ _) (Tally.usage_ofResults _ _)
        exact hfirst.trans (hentry.trans hrest)
      · rw [List.forall_mem_cons] at hstrict
        have hsize := hu hstrict.1 rfl
        have hsum := hv hstrict.2 hok
        rw [joinsTaken_append, Usage.hits_add, Usage.created_add, ← hsize, Inquiry.names, ← hsum]
        omega

end Conjuncts

namespace Query

variable {q : Query} {script : Script}

/-! ## Conditions -/

/-- What callers evaluate by themselves are inquiries that keep no tally of their own, and
conditions on joins make neither joins nor fetches. -/
structure Accountable (script : Script) (q : Query) : Prop where
  scripted : q.Scripted script
  keepsJoins : ∀ l ∈ q.leaves, (l.inquiry script).All Request.KeepsJoins
  keepsFetches : ∀ run, Leaf.custom run ∈ q.leaves → (script run).All (Request.Keeps Plan.fetches)
  silent : ∀ run, Leaf.custom run ∈ q.leaves → (script run).Silent

/-- No inquiry that a caller makes goes on after a failure. -/
def Strict (script : Script) (q : Query) : Prop :=
  ∀ run, Leaf.custom run ∈ q.leaves → (script run).Strict

theorem Accountable.silent_inquiry (h : q.Accountable script) :
    ∀ l ∈ q.leaves, (l.inquiry script).Silent := by
  intro l hl
  refine l.silent_inquiry ?_
  rintro run rfl
  exact h.silent run hl

theorem Accountable.keeps_reduce (h : q.Accountable script) :
    q.reduce.Keeps fun w => w.host.fetches := by
  refine keeps_fetches_reduce h.scripted (all_inquiry fun l hl => ?_)
  refine l.all_inquiry (fun _ => trivial) ?_ ?_
  · intro name restriction op value _
    exact restriction.keeps_fetches_eval
  · rintro run rfl
    exact h.keepsFetches run hl

/-- The results of the conditions in a scope, up to the first that fails. Those of a contradiction
are not evaluated. -/
def results (q : Query) (w : Scope) : List (Option Expr) :=
  match q.conjuncts with
  | .gathering fragments => Attempt.results (·.eval Leaf.eval) fragments w
  | .contradiction => []

/-- Reducing the conditions enters the joins for the names that are asked for, and the results. -/
theorem Accountable.counted_reduce (h : q.Accountable script) (w : Scope) :
    ∃ u : Usage, Counted .joins w (q.reduce.run w).2
        (.only w.store.kind u + .ofResults (q.results w)) ∧
      (q.Strict script → (q.reduce.run w).1.isOk = true →
        u.hits + u.created = joinsTaken ((q.inquiry script).names w)) := by
  rw [← attempt_inquiry h.scripted, results, inquiry]
  cases hq : q.conjuncts with
  | contradiction =>
    refine ⟨{}, ?_, fun _ _ => rfl⟩
    rw [Tally.only_zero]
    exact .of_ledger rfl
  | gathering fragments =>
    have hkeeps := composed_inquiry_of_mem (C := fun {_} x => x.All Request.KeepsJoins)
      (Inquiry.closed_all _).composed hq h.keepsJoins
    have hsilent := composed_inquiry_of_mem (C := fun {_} x => x.Silent) Inquiry.composed_silent hq
      h.silent_inquiry
    have hresults : Conjuncts.resultsOf (·.inquiry (Leaf.inquiry script)) fragments w =
        Attempt.results (·.eval Leaf.eval) fragments w :=
      Attempt.results_congr_of_mem (h.scripted.attempt_inquiry_of_mem hq) w
    obtain ⟨u, hcounted, hu⟩ := Conjuncts.counted_inquiryFrom hkeeps hsilent none w
    rw [hresults] at hcounted
    rw [Conjuncts.inquiry]
    rcases hrun : (Conjuncts.inquiryFrom (·.inquiry (Leaf.inquiry script)) none
        fragments).attempt.run w with ⟨e | result, w₁⟩
    · rw [hrun] at hcounted
      rw [Inquiry.attempt_bind, Attempt.run_bind_of_error hrun]
      exact ⟨u, hcounted, fun _ hok => by cases hok⟩
    · rw [hrun] at hcounted hu
      rw [names_bind _ hrun, Inquiry.attempt_bind, Attempt.run_bind_of_ok hrun]
      refine ⟨u, hcounted, fun hstrict _ => ?_⟩
      have hnone : (pure (result.getD .always) : Inquiry Expr).names w₁ = [] := rfl
      rw [hnone, List.append_nil]
      refine hu ?_ rfl
      refine composed_inquiry_of_mem (C := fun {_} x => x.Strict) Inquiry.closed_strict.composed hq
        fun l hl => l.strict_inquiry ?_
      rintro run rfl
      exact hstrict run hl

end Query

/-! ## Requests for prefetching -/

namespace Prefetch

variable {w : Workspace (RelationTable Nat) Plan}

/-- How many relations lead to the leaves of requests, those on common beginnings once for each. -/
def leafLength (requests : List String) : Nat :=
  ((requests.flatMap fun request => (Outline.parse request).leaves).map List.length).sum

theorem leafLength_cons (request : String) (requests : List String) :
    leafLength (request :: requests) = leafLength [request] + leafLength requests := by
  simp [leafLength]

/-- A request enters the relations on the way to its leaves. -/
theorem countsAt_outlined (hcount : w.host.isCount = false) (request : String) :
    Register.fetches.CountsAt (leafLength [request]) (outlined request) w := by
  have hleaves := Counts.forEach (counts_walk (g := .fetches) none) (Outline.parse request).leaves
  obtain ⟨u, hcounted, hu⟩ := hleaves w
  rw [Register.CountsAt, run_outlined_eq, hcount, if_neg Bool.false_ne_true, leafLength,
    List.flatMap_singleton]
  exact ⟨u, hcounted, fun hok => hu ((Attempt.isOk_map _ _).symm.trans hok)⟩

/-- Requests enter the relations on the way to their leaves. -/
theorem countsAt_requests (hcount : w.host.isCount = false) (requests : List String) :
    Register.fetches.CountsAt (leafLength requests) (Attempt.forEach outlined requests) w := by
  induction requests generalizing w with
  | nil => exact counts_of_keeps (Attempt.keeps_pure []) w
  | cons request requests ih =>
    rw [Attempt.forEach_cons, leafLength_cons]
    refine (countsAt_outlined hcount request).bind fun _ w₁ hrun => ?_
    have hcount₁ : w₁.host.isCount = false := by
      have hkept := isCount_outlined request w
      rwa [hrun, hcount] at hkept
    exact (ih hcount₁).bind fun results w₂ _ => counts_of_keeps (Attempt.keeps_pure _) w₂

end Prefetch

end Criteria
