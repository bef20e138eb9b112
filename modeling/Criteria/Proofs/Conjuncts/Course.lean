import Mathlib
import Criteria.Proofs.Condition.Evaluation
import Criteria.Proofs.Expr.Conjunction
import Criteria.Proofs.Property.Entries
import Criteria.Proofs.Query.Reduction

/-!
# The course of a reduction

Fragments are reduced by evaluating one after the other, up to the first that
fails. Fragments that do not look at the tally notice nothing of what is entered
there about them: the workspace is the one that they leave behind by themselves,
with one entry for each result.
-/

namespace Criteria

namespace Attempt

open Condition (Visits)

variable {L ε σ : Type}

/-- Attempts along a list are visits of all, or of those in front of the first that fails. -/
theorem forEach_visits (run : L → Attempt ε σ (Option Expr)) (l : List L) (s : σ) :
    (∃ outcomes t, Visits run l s outcomes t ∧ (forEach run l).run s = (.ok outcomes, t)) ∨
    ∃ before a after outcomes t e u, l = before ++ a :: after ∧ Visits run before s outcomes t ∧
      (run a).run t = (.error e, u) ∧ (forEach run l).run s = (.error e, u) := by
  induction l generalizing s with
  | nil => exact .inl ⟨[], s, .nil s, rfl⟩
  | cons a rest ih =>
    rw [forEach_cons]
    rcases hfirst : (run a).run s with ⟨e | outcome, t⟩
    · exact .inr ⟨[], a, rest, [], s, e, t, rfl, .nil s, hfirst, run_bind_of_error hfirst _⟩
    · rw [run_bind_of_ok hfirst]
      rcases ih t with ⟨outcomes, u, hvisits, hrun⟩ |
        ⟨before, b, after, outcomes, u, e, v, rfl, hvisits, hfail, hrun⟩
      · refine .inl ⟨outcome :: outcomes, u, .cons hfirst hvisits, ?_⟩
        rw [run_bind_of_ok hrun, run_pure]
      · exact .inr ⟨a :: before, b, after, outcome :: outcomes, u, e, v, rfl,
          .cons hfirst hvisits, hfail, run_bind_of_error hrun _⟩

end Attempt

namespace Conjuncts

open Condition (Visits)
open Property (Inquiry)

variable {F ε S W : Type} {eval : F → Attempt ε (Workspace S W) (Option Expr)}
  {fragments : List F} {results : List (Option Expr)} {w v : Workspace S W}

/-- What comes of fragments that are visited in order: if none of them fails their expressions are
conjoined, and the first that fails is the last that is visited. In the end something is entered
about the results before. -/
inductive Course (visit : F → Attempt ε (Workspace S W) (Option Expr))
    (entries : List (Option Expr) → Tally) (fragments : List F) (w : Workspace S W) :
    Except ε Expr × Workspace S W → Prop
  | conjoined {results : List (Option Expr)} {v : Workspace S W}
      (h : Visits visit fragments w results v) :
      Course visit entries fragments w
        (.ok (Expr.conjunction results.reduceOption), v.enter (entries results))
  | failed {before after : List F} {fragment : F} {results : List (Option Expr)}
      {v v' : Workspace S W} {e : ε} (heq : fragments = before ++ fragment :: after)
      (h : Visits visit before w results v) (hfail : (visit fragment).run v = (.error e, v')) :
      Course visit entries fragments w (.error e, v'.enter (entries results))

/-! ## Fragments whose results are entered -/

theorem reduceFrom_eq (eval : F → Attempt ε (Workspace S W) (Option Expr)) (before : Option Expr)
    (fragments : List F) :
    reduceFrom eval before fragments =
      Attempt.forEach (evaluate eval) fragments >>= fun results =>
        pure (results.reduceOption.foldl (fun before e => some (conjoin before e)) before) := by
  induction fragments generalizing before with
  | nil => rfl
  | cons fragment rest ih =>
    simp only [reduceFrom_cons, ih, Attempt.forEach_cons, bind_assoc, pure_bind]
    refine congrArg _ (funext fun result => ?_)
    cases result <;> rfl

/-- Gathered fragments are reduced to the conjunction of their results. -/
theorem reduce_gathering_eq (eval : F → Attempt ε (Workspace S W) (Option Expr))
    (fragments : List F) :
    (gathering fragments).reduce eval =
      Attempt.forEach (evaluate eval) fragments >>= fun results =>
        pure (Expr.conjunction results.reduceOption) := by
  simp only [reduce, reduceFrom_eq, bind_assoc, pure_bind, getD_foldl_conjoin]

theorem run_evaluate_of_ok {fragment : F} {result : Option Expr}
    (h : (eval fragment).run w = (.ok result, v)) :
    (evaluate eval fragment).run w = (.ok result, v.enter (.ofResults [result])) := by
  rw [evaluate, Attempt.run_bind_of_ok h]
  simp only [Attempt.run_bind, Workspace.run_record, Attempt.run_pure, Tally.recordFragment_eq_add]
  rfl

theorem run_evaluate_of_error {fragment : F} {e : ε} (h : (eval fragment).run w = (.error e, v)) :
    (evaluate eval fragment).run w = (.error e, v) := Attempt.run_bind_of_error h _

theorem error_of_run_evaluate {fragment : F} {e : ε}
    (h : (evaluate eval fragment).run w = (.error e, v)) :
    (eval fragment).run w = (.error e, v) := by
  rcases hrun : (eval fragment).run w with ⟨e' | result, w₁⟩
  · rw [run_evaluate_of_error hrun] at h
    exact h
  · rw [run_evaluate_of_ok hrun] at h
    cases h

theorem course_reduce_evaluate (eval : F → Attempt ε (Workspace S W) (Option Expr))
    (fragments : List F) (w : Workspace S W) :
    Course (evaluate eval) (fun _ => {}) fragments w
      (((gathering fragments).reduce eval).run w) := by
  rw [reduce_gathering_eq]
  rcases Attempt.forEach_visits (evaluate eval) fragments w with ⟨results, v, hvisits, hrun⟩ |
    ⟨before, fragment, after, results, v, e, v', heq, hvisits, hfail, hrun⟩
  · rw [Attempt.run_bind_of_ok hrun, Attempt.run_pure]
    exact .conjoined hvisits
  · rw [Attempt.run_bind_of_error hrun]
    exact .failed heq hvisits hfail

/-! ## Fragments by themselves -/

/-- What is entered about fragments can just as well be entered behind all of them. -/
theorem visits_of_evaluate (henters : ∀ fragment ∈ fragments, (eval fragment).Enters)
    (entries : Tally) {v' : Workspace S W}
    (h : Visits (evaluate eval) fragments (w.enter entries) results v') :
    ∃ v, Visits eval fragments w results v ∧ v' = v.enter (entries + .ofResults results) := by
  induction fragments generalizing w entries results with
  | nil =>
    cases h
    exact ⟨w, .nil w, rfl⟩
  | cons fragment rest ih =>
    rw [List.forall_mem_cons] at henters
    obtain _ | ⟨hfirst, hrest⟩ := h
    have hplain := henters.1 entries w
    rcases hrun : (eval fragment).run w with ⟨e | result, w₁⟩ <;> rw [hrun] at hplain
    · rw [run_evaluate_of_error hplain] at hfirst
      cases hfirst
    · rw [run_evaluate_of_ok hplain, Workspace.enter_enter] at hfirst
      cases hfirst
      obtain ⟨v, hvisits, rfl⟩ := ih henters.2 _ hrest
      refine ⟨v, .cons hrun hvisits, ?_⟩
      rw [Tally.add_assoc, Tally.ofResults_cons]

theorem course_reduce (henters : ∀ fragment ∈ fragments, (eval fragment).Enters)
    (w : Workspace S W) :
    Course eval .ofResults fragments w (((gathering fragments).reduce eval).run w) := by
  have hcourse := course_reduce_evaluate eval fragments w
  generalize ((gathering fragments).reduce eval).run w = reduced at hcourse
  cases hcourse with
  | conjoined h =>
    obtain ⟨v, hvisits, rfl⟩ := visits_of_evaluate henters {} h
    rw [Workspace.enter_enter, Tally.add_zero, Tally.zero_add]
    exact .conjoined hvisits
  | @failed before after fragment results _ v' e heq h hfail =>
    have hbefore : ∀ fragment ∈ before, (eval fragment).Enters := fun fragment hm =>
      henters fragment (heq ▸ List.mem_append_left _ hm)
    have hlast : (eval fragment).Enters := henters fragment (heq ▸ by simp)
    obtain ⟨v, hvisits, rfl⟩ := visits_of_evaluate hbefore {} h
    have hplain := hlast ({} + .ofResults results) v
    rw [error_of_run_evaluate hfail] at hplain
    rcases hrun : (eval fragment).run v with ⟨r, v₁⟩
    rw [hrun] at hplain
    obtain ⟨rfl, rfl⟩ := Prod.mk.inj hplain
    rw [Workspace.enter_enter, Tally.add_zero, Tally.zero_add]
    exact .failed heq hvisits hrun

/-! ## Conditions -/

/-- **Gathered conditions are reduced in order**, each once, up to the first that fails; nothing
behind it is evaluated. Each result is entered behind its condition. Unless callers evaluate
conditions in a way that depends on the tally, this is where the conditions lead by themselves, with
the entries for those that have not failed. What is written for the conjunction is what is written
for the results, between `and`s. -/
theorem reduce_conditions (conditions : List (Condition Leaf)) (w : Scope) :
    let reduced := ((gathering conditions).reduce (·.eval Leaf.eval)).run w
    Course (evaluate (·.eval Leaf.eval)) (fun _ => {}) conditions w reduced ∧
      ((∀ run, .custom run ∈ conditions.flatMap Condition.leaves → run.Enters) →
        Course (·.eval Leaf.eval) .ofResults conditions w reduced) ∧
      ∀ es : List Expr, (Expr.conjunction es).text = Expr.conjoinedText es := by
  intro reduced
  refine ⟨course_reduce_evaluate _ conditions w, fun hcustom => course_reduce ?_ w,
    Expr.text_conjunction⟩
  intro condition hcondition
  refine Condition.enters_eval fun l hl => l.enters_eval ?_
  rintro run rfl
  exact hcustom run (List.mem_flatMap.2 ⟨condition, hcondition, hl⟩)

/-- A disjunction, a condition without a result, one of a caller, one that fails, and another. -/
def brokenOff : List (Condition Leaf) :=
  [.or (.leaf (.compare "a.x" .isNull none)) (.leaf .never),
    .and (.leaf .nothing) (.leaf (.distinct true)),
    .leaf (.custom Query.ownInquiry.attempt),
    .and (.leaf (.compareOn "a.y" (.compare "k" .isNull none) .isNull none))
      (.leaf (.compare "b.r" .isNull none)),
    .leaf (.mention "a.b.x")]

theorem reduce_conditions_brokenOff :
    let reduced (conditions : List (Condition Leaf)) :=
      ((gathering conditions).reduce (·.eval Leaf.eval)).run
        ⟨.empty .join true, { rejected := ["r"] }, {}⟩
    Course (·.eval Leaf.eval) .ofResults brokenOff ⟨.empty .join true, { rejected := ["r"] }, {}⟩
        (reduced brokenOff) ∧
      (reduced brokenOff).1.toOption.isNone ∧
      (reduced brokenOff).2.tally = { evaluated := 3, skipped := 1, joins := ⟨1, 4⟩ } ∧
      (reduced brokenOff).2.store.paths = ["a", "c", "c.d", "b"] ∧
      (reduced (brokenOff.take 3)).1.toOption.map Expr.text =
        some "(a.x is null or 1=0) and c.d.x is null" := by
  intro reduced
  have hown : Query.ownInquiry.Silent :=
    (Inquiry.silent_single _).bind fun _ => trivial
  have hcustom : ∀ run, .custom run ∈ brokenOff.flatMap Condition.leaves → run.Enters := by
    intro run hrun
    have heq : Query.ownInquiry.attempt = run := by
      simpa [brokenOff, Condition.or, Condition.and, Condition.leaves, eq_comm] using hrun
    exact heq ▸ hown.enters_attempt
  refine ⟨(reduce_conditions brokenOff _).2.1 hcustom, ?_, ?_, ?_, ?_⟩
  · decide +kernel
  · decide +kernel
  · decide +kernel
  · decide +kernel

end Conjuncts

end Criteria
