import Mathlib
import Criteria.Proofs.Prefetch.Closure

/-!
# Refused requests

Requests that are met one after the other fail at the first attribute that is
rejected, reading the leaves of the requests in order and each from the root on.
That others were fetched before makes no difference, since nothing that is
rejected is ever fetched.
-/

namespace Criteria

open Criteria.Relation (beginnings lastName map_lastName_beginnings chainsOf)
open Criteria.Register (Charted Outcome Reaches upTo charted_empty outcome_forEach)

/-- If nothing is refused, all chains are reached. -/
theorem Register.upTo_of_answer {rejected : List String} {chains : List (List String)}
    (h : answer rejected chains = .ok ()) : upTo rejected chains = chains := by
  rw [answer] at h
  split at h
  · next hnone =>
    rw [upTo, List.takeWhile_eq_self_iff]
    simpa using hnone
  · cases h

namespace Prefetch

variable {w w' : Workspace (RelationTable Nat) Plan} {requests : List String}
  {reached : List (List String)}

/-! ## The first refusal -/

/-- Why requests are refused: the first of the attributes on their leaves that is rejected. -/
def refusal (rejected requests : List String) : Option Failure :=
  ((requests.flatMap fun request => (Outline.parse request).leaves.flatten).find?
    (· ∈ rejected)).map .unknownAttribute

theorem refusal_ne_unsupportedOperator (rejected requests : List String) (what : String) :
    refusal rejected requests ≠ some (.unsupportedOperator what) := by
  rw [refusal]
  cases (requests.flatMap fun request => (Outline.parse request).leaves.flatten).find?
    (· ∈ rejected) <;> simp

theorem map_lastName_asked (request : String) :
    (asked request).map lastName = (Outline.parse request).leaves.flatten := by
  rw [asked, List.map_flatMap]
  simp only [map_lastName_beginnings]
  exact List.flatMap_id'

/-- What is answered to all chains that are asked for is told from the attributes alone. -/
theorem answer_eq_refusal (rejected requests : List String) :
    Register.answer rejected (requests.flatMap asked) =
      (refusal rejected requests).elim (.ok ()) .error := by
  have hnames : (requests.flatMap asked).map lastName =
      requests.flatMap fun request => (Outline.parse request).leaves.flatten := by
    rw [List.map_flatMap]
    simp only [map_lastName_asked]
  rw [Register.answer, refusal, ← hnames, List.find?_map]
  generalize requests.flatMap asked = chains
  have hsame : (fun name => decide (name ∈ rejected)) ∘ lastName =
      fun chain => decide (lastName chain ∈ rejected) := rfl
  rw [hsame]
  cases chains.find? fun chain => lastName chain ∈ rejected <;> rfl

/-! ## Requests in order -/

/-- Requests for a plan that only counts change nothing. -/
theorem run_forEach_of_isCount (h : w.host.isCount = true) (requests : List String) :
    ∃ results, (Attempt.forEach outlined requests).run w = (.ok results, w) := by
  induction requests with
  | nil => exact ⟨[], rfl⟩
  | cons request requests ih =>
    obtain ⟨results, hresults⟩ := ih
    have hfirst : (outlined request).run w = (.ok (), w) := by simp [run_outlined, h]
    refine ⟨() :: results, ?_⟩
    rw [Attempt.forEach_cons, Attempt.run_bind_of_ok hfirst, Attempt.run_bind_of_ok hresults,
      Attempt.run_pure]

/-- Otherwise they reach what all of them ask for, or what is asked for before the first chain that
is refused. -/
theorem outcome_requests {r : Except Failure (List Unit)}
    (h : Charted .fetches w.store w.host.fetches reached.eraseDups)
    (hcount : w.host.isCount = false) (hrun : (Attempt.forEach outlined requests).run w = (r, w')) :
    Outcome .fetches w w' reached (requests.flatMap asked) r := by
  refine outcome_forEach ?_ h rfl hrun
  intro request _ w₁ w₂ reached₁ r₁ hcharted hrest hrequest
  have hcount₁ : w₁.host.isCount = false := (congrArg Plan.isCount hrest).trans hcount
  exact outcome_outlined hcharted hcount₁ hrequest

/-- What comes of requests for a plan without fetches: they are answered as the attributes on their
leaves are, nothing but the fetches changes, and if nothing is refused these are what was asked
for. -/
structure Meets (plan : Plan) (requests : List String) (r : Except Failure Unit) (plan' : Plan) :
    Prop where
  result_eq : r = (refusal plan.rejected requests).elim (.ok ()) .error
  others_eq : { plan' with fetches := [] } = plan
  chainsOf_eq : refusal plan.rejected requests = none →
    chainsOf plan'.fetches = (requests.flatMap asked).eraseDups

theorem meets_nil {plan : Plan} (hfresh : plan.fetches = []) : Meets plan [] (.ok ()) plan where
  result_eq := rfl
  others_eq := by rw [← hfresh]
  chainsOf_eq _ := by
    rw [hfresh]
    rfl

theorem meets_requests (requests : List String) {plan : Plan} (hfresh : plan.fetches = [])
    (hcount : plan.isCount = false) (tally : Tally) :
    let met := (Attempt.forEach outlined requests).run ⟨noFetches, plan, tally⟩
    Meets plan requests (met.1.map fun _ => ()) met.2.host := by
  intro met
  have hempty : Charted .fetches noFetches plan.fetches ([] : List (List String)).eraseDups := by
    rw [hfresh]
    exact charted_empty .fetches .fetch
  have hrun : (Attempt.forEach outlined requests).run ⟨noFetches, plan, tally⟩ =
      (met.1, met.2) := rfl
  have houtcome := outcome_requests hempty hcount hrun
  obtain ⟨hreaches, hanswer⟩ := houtcome.eq_upTo (by simp)
  have hothers : { met.2.host with fetches := [] } = { plan with fetches := [] } :=
    hreaches.others_eq
  refine ⟨hanswer.trans (answer_eq_refusal _ _), ?_, ?_⟩
  · rw [hothers, ← hfresh]
  · intro hnone
    have hall : Register.answer plan.rejected (requests.flatMap asked) = .ok () := by
      rw [answer_eq_refusal, hnone]
      rfl
    have hcharted := hreaches.charted
    rw [Register.upTo_of_answer hall, List.nil_append] at hcharted
    exact hcharted.traces.chainsOf_eq

end Prefetch

end Criteria
