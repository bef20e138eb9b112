import Mathlib
import Criteria.Proofs.Conjuncts.Course
import Criteria.Proofs.Property.Views

/-!
# Splitting conditions

A condition that demands two others does the same as the two, one behind the
other. The connective and the reduction each have a way of their own to pass over
conditions without a result, and the two ways agree; all that is left of the
difference is how neighbours are grouped.
-/

namespace Criteria

open Attempt (Alike Matches Sees sees_pure alike_pure)
open Property (Inquiry)
open Workspace (seen sees_record)

/-! ## Conditions -/

/-- A leaf goes by the table and the plan, unless callers evaluate it in another way. -/
theorem Leaf.sees_eval (l : Leaf) (h : ∀ run, l = custom run → run.Sees (seen id)) :
    l.eval.Sees (seen id) := by
  rcases l.custom_or_attempt with ⟨run, rfl⟩ | hattempt
  · exact h run rfl
  · rw [← hattempt fun _ => pure none]
    exact Inquiry.sees_id_attempt _

theorem Condition.sees_eval {L ε σ τ : Type} {view : σ → τ} {run : L → Attempt ε σ (Option Expr)}
    {c : Condition L} (h : ∀ l ∈ c.leaves, (run l).Sees view) : (c.eval run).Sees view := by
  induction c with
  | leaf l => exact h l List.mem_cons_self
  | absent => exact sees_pure none
  | compose connective l r ihl ihr =>
    rw [leaves, List.forall_mem_append] at h
    exact (ihl h.1).bind fun _ => (ihr h.2).bind fun _ => sees_pure _

namespace Conjuncts

variable {L ε S W τ : Type} {view : W → τ}
  {run : L → Attempt ε (Workspace S W) (Option Expr)} {before after : List (Condition L)}
  {a b : Condition L}

/-! ## Results -/

/-- The two expressions are the same but for the grouping of conjunctions. -/
structure Equivalent (e f : Expr) : Prop where
  regrouped : Expr.Regrouped {.and} e f
  text_eq : e.text = f.text
  eval_eq : ∀ holds, e.eval holds = f.eval holds

theorem Equivalent.of_regrouped {e f : Expr} (h : Expr.Regrouped {.and} e f) : Equivalent e f where
  regrouped := h
  text_eq := h.text_eq
  eval_eq := h.eval_eq

/-- Passing over a missing result is the same before and after the others are conjoined. -/
theorem equivalent_conjunction (before : List (Option Expr)) (l r : Option Expr)
    (after : List (Option Expr)) :
    Equivalent
      (Expr.conjunction (before ++ Condition.combine .and l r :: after).reduceOption)
      (Expr.conjunction (before ++ l :: r :: after).reduceOption) := by
  refine .of_regrouped ?_
  rw [List.reduceOption_append, List.reduceOption_append]
  cases l with
  | none => exact .refl _
  | some e =>
    cases r with
    | none => exact .refl _
    | some f => exact Expr.regrouped_conjunction (Set.mem_singleton _) _ e f _

/-! ## Reductions -/

section Entering

variable {α β : Type} {R : α → β → Prop} {x : Attempt ε (Workspace S W) α}
  {y : Attempt ε (Workspace S W) β}

/-- Entries are not seen. -/
theorem alike_record_left (h : Alike (seen view) R x y) (f : Tally → Tally) :
    Alike (seen view) R (Workspace.record f >>= fun _ => x) y :=
  fun s t hview => h { s with tally := f s.tally } t hview

theorem alike_record_right (h : Alike (seen view) R x y) (f : Tally → Tally) :
    Alike (seen view) R x (Workspace.record f >>= fun _ => y) :=
  fun s t hview => h s { t with tally := f t.tally } hview

end Entering

theorem sees_evaluate {F : Type} {eval : F → Attempt ε (Workspace S W) (Option Expr)} {fragment : F}
    (h : (eval fragment).Sees (seen view)) : (evaluate eval fragment).Sees (seen view) :=
  h.bind fun result => (sees_record _).bind fun _ => sees_pure result

/-- One behind the other, the conditions are evaluated as both together are; only what is entered,
and when, is not the same. -/
theorem alike_evaluate_and (ha : (a.eval run).Sees (seen view))
    (hb : (b.eval run).Sees (seen view)) :
    Alike (seen view) (fun result results => result = Condition.combine .and results.1 results.2)
      (evaluate (·.eval run) (a.and b))
      (evaluate (·.eval run) a >>= fun l => evaluate (·.eval run) b >>= fun r => pure (l, r)) := by
  simp only [evaluate, Condition.and, Condition.eval_compose, bind_assoc, pure_bind]
  refine ha.bind_alike fun l => alike_record_right ?_ _
  refine hb.bind_alike fun r => alike_record_left (alike_record_right ?_ _) _
  exact alike_pure rfl

/-- Whatever stands before and behind them, two conditions come to the same together and one behind
the other. -/
theorem alike_reduce (hbefore : ∀ c ∈ before, (c.eval run).Sees (seen view))
    (ha : (a.eval run).Sees (seen view)) (hb : (b.eval run).Sees (seen view))
    (hafter : ∀ c ∈ after, (c.eval run).Sees (seen view)) :
    Alike (seen view) Equivalent ((gathering (before ++ a.and b :: after)).reduce (·.eval run))
      ((gathering (before ++ a :: b :: after)).reduce (·.eval run)) := by
  have hfront : (Attempt.forEach (evaluate (·.eval run)) before).Sees (seen view) :=
    Sees.forEach_of_mem fun c hc => sees_evaluate (hbefore c hc)
  have hrest : (Attempt.forEach (evaluate (·.eval run)) after).Sees (seen view) :=
    Sees.forEach_of_mem fun c hc => sees_evaluate (hafter c hc)
  rw [reduce_gathering_eq, reduce_gathering_eq]
  simp only [Attempt.forEach_append, Attempt.forEach_cons, bind_assoc, pure_bind]
  refine hfront.bind_alike fun results => ?_
  have hpair := (alike_evaluate_and ha hb).bind
    (f := fun result => Attempt.forEach (evaluate (·.eval run)) after >>= fun rest =>
      pure (Expr.conjunction (results ++ result :: rest).reduceOption))
    (g := fun sides => Attempt.forEach (evaluate (·.eval run)) after >>= fun rest =>
      pure (Expr.conjunction (results ++ sides.1 :: sides.2 :: rest).reduceOption))
    (Q := Equivalent) ?_
  · simpa only [bind_assoc, pure_bind] using hpair
  · rintro _ ⟨l, r⟩ rfl
    exact hrest.bind_alike fun rest => alike_pure (equivalent_conjunction results l r rest)

/-! ## Conditions in scopes -/

/-- **Demanding two conditions at once is demanding one behind the other.** With the same conditions
before and behind them, from any scope, either way ends with the same error or with expressions that
are the same but for the grouping of conjunctions, so that they are written alike and true of the
same atoms. The table of joins and the plan are the same in the end. -/
theorem reduce_and_split (before after : List (Condition Leaf)) (a b : Condition Leaf) (w : Scope)
    (h : ∀ run, .custom run ∈ (before ++ a :: b :: after).flatMap Condition.leaves →
      run.Sees (seen id)) :
    let joint := ((gathering (before ++ a.and b :: after)).reduce (·.eval Leaf.eval)).run w
    let separate := ((gathering (before ++ a :: b :: after)).reduce (·.eval Leaf.eval)).run w
    Matches Equivalent joint.1 separate.1 ∧ joint.2.store = separate.2.store ∧
      joint.2.host = separate.2.host := by
  intro joint separate
  have hsees : ∀ c ∈ before ++ a :: b :: after, (c.eval Leaf.eval).Sees (seen id) := by
    intro c hc
    refine Condition.sees_eval fun l hl => l.sees_eval ?_
    rintro run rfl
    exact h run (List.mem_flatMap.2 ⟨c, hc, hl⟩)
  rw [List.forall_mem_append, List.forall_mem_cons, List.forall_mem_cons] at hsees
  obtain ⟨hbefore, ha, hb, hafter⟩ := hsees
  obtain ⟨hmatch, hseen⟩ := alike_reduce hbefore ha hb hafter w w rfl
  exact ⟨hmatch, Workspace.seen_eq_iff.1 hseen⟩

/-- Both conditions are disjunctions. One of them puts a condition on a join, and the condition
behind them reads a property of this join. -/
theorem reduce_and_split_disjunctions :
    let before : List (Condition Leaf) := [.leaf (.custom Query.ownInquiry.attempt), .leaf .nothing]
    let a : Condition Leaf := .or (.leaf (.compare "b.x" .isNotNull none)) (.leaf .never)
    let b : Condition Leaf :=
      .or (.leaf (.compareOn "a.y" (.compare "k" .isNull none) .isNull none)) (.leaf .always)
    let after : List (Condition Leaf) := [.leaf (.compare "a.z" .isNull none)]
    let reduced (conditions : List (Condition Leaf)) :=
      ((gathering conditions).reduce (·.eval Leaf.eval)).run
        ⟨.empty .join true, { rejected := ["r"] }, {}⟩
    let joint := reduced (before ++ a.and b :: after)
    let separate := reduced (before ++ a :: b :: after)
    (∀ run, .custom run ∈ (before ++ a :: b :: after).flatMap Condition.leaves →
        run.Sees (seen id)) ∧
      Matches Equivalent joint.1 separate.1 ∧ joint.2.store = separate.2.store ∧
      joint.2.host = separate.2.host ∧
      separate.1.toOption.map Expr.text =
        some ("c.d.x is null and (b.x is not null or 1=0) and " ++
          "(a[on a.k is null].y is null or 1=1) and a[on a.k is null].z is null") := by
  intro before a b after reduced joint separate
  have hcustom : ∀ run, .custom run ∈ (before ++ a :: b :: after).flatMap Condition.leaves →
      run.Sees (seen id) := by
    intro run hrun
    have heq : Query.ownInquiry.attempt = run := by
      simpa [before, a, b, after, Condition.or, Condition.leaves, eq_comm] using hrun
    exact heq ▸ Query.ownInquiry.sees_id_attempt
  obtain ⟨hmatch, hstore, hhost⟩ := reduce_and_split before after a b _ hcustom
  exact ⟨hcustom, hmatch, hstore, hhost, by decide +kernel⟩

end Conjuncts

end Criteria
