import Mathlib
import Criteria.Proofs.Attempt
import Criteria.Proofs.Query.Inquiries

/-!
# Evaluating conditions

The leaves of a condition are evaluated one after the other, each of them once,
up to the first that fails. If none fails, what is left is the tree of those
leaves that have an expression: a connective that has lost a side is replaced by
the other one, and nothing is put in place of what is taken away.
-/

namespace Criteria

/-- The atoms of an expression, in order. -/
def Expr.atoms : Expr → List Atom
  | atom a => [a]
  | and l r | or l r => l.atoms ++ r.atoms

theorem Connective.atoms_apply (connective : Connective) (l r : Expr) :
    (connective.apply l r).atoms = l.atoms ++ r.atoms := by
  cases connective <;> rfl

namespace Condition

variable {L M ε σ : Type} {run : L → Attempt ε σ (Option Expr)} {before after : List L}
  {outcomes outcomes' : List (Option Expr)} {s t u : σ} {connective : Connective} {e e' : Expr}

/-- The same tree with other leaves. -/
def map (f : L → M) : Condition L → Condition M
  | leaf l => leaf (f l)
  | absent => absent
  | compose connective l r => compose connective (l.map f) (r.map f)

/-- The tree without what its leaves are. -/
def shape (c : Condition L) : Condition Unit := c.map fun _ => ()

/-! ## Visits -/

/-- The leaves are evaluated in order, each from the state that the one before has reached, and none
of them fails. -/
inductive Visits (run : L → Attempt ε σ (Option Expr)) :
    List L → σ → List (Option Expr) → σ → Prop
  | nil (s : σ) : Visits run [] s [] s
  | cons {l : L} {leaves : List L} {outcome : Option Expr} {outcomes : List (Option Expr)}
      {s t u : σ} (hl : (run l).run s = (.ok outcome, t)) (hv : Visits run leaves t outcomes u) :
      Visits run (l :: leaves) s (outcome :: outcomes) u

theorem Visits.append (h : Visits run before s outcomes t) (h' : Visits run after t outcomes' u) :
    Visits run (before ++ after) s (outcomes ++ outcomes') u := by
  induction h with
  | nil s => exact h'
  | cons hl _ ih => exact .cons hl (ih h')

/-! ## What remains -/

/-- No leaf has an expression. -/
def Bare (c : Condition (Option Expr)) : Prop := ∀ outcome ∈ c.leaves, outcome = none

/-- What remains of a condition without its leaves that have no expression, and without the
connectives that lose a side with them. -/
inductive Remains : Condition (Option Expr) → Expr → Prop
  | leaf (e : Expr) : Remains (leaf (some e)) e
  | both (connective : Connective) {l r : Condition (Option Expr)} {e e' : Expr}
      (hl : Remains l e) (hr : Remains r e') :
      Remains (compose connective l r) (connective.apply e e')
  | left (connective : Connective) {l r : Condition (Option Expr)} {e : Expr}
      (hl : Remains l e) (hr : r.Bare) : Remains (compose connective l r) e
  | right (connective : Connective) {l r : Condition (Option Expr)} {e : Expr}
      (hl : l.Bare) (hr : Remains r e) : Remains (compose connective l r) e

theorem bare_compose_iff {l r : Condition (Option Expr)} :
    (compose connective l r).Bare ↔ l.Bare ∧ r.Bare := by
  simp only [Bare, leaves, List.forall_mem_append]

/-- Something remains only where a leaf has an expression. -/
theorem Remains.not_bare {c : Condition (Option Expr)} (h : c.Remains e) : ¬ c.Bare := by
  induction h with
  | leaf e => simp [Bare, leaves]
  | both connective _ _ ihl _ => exact fun hb => ihl (bare_compose_iff.1 hb).1
  | left connective _ _ ihl => exact fun hb => ihl (bare_compose_iff.1 hb).1
  | right connective _ _ ihr => exact fun hb => ihr (bare_compose_iff.1 hb).2

theorem Remains.unique {c : Condition (Option Expr)} (h : c.Remains e) (h' : c.Remains e') :
    e = e' := by
  induction h generalizing e' with
  | leaf e =>
    cases h'
    rfl
  | both connective hl hr ihl ihr =>
    cases h' with
    | both _ hl' hr' => rw [ihl hl', ihr hr']
    | left _ _ hb => exact absurd hb hr.not_bare
    | right _ hb _ => exact absurd hb hl.not_bare
  | left connective hl hb ih =>
    cases h' with
    | both _ _ hr' => exact absurd hb hr'.not_bare
    | left _ hl' _ => exact ih hl'
    | right _ hb' _ => exact absurd hb' hl.not_bare
  | right connective hb hr ih =>
    cases h' with
    | both _ hl' _ => exact absurd hb hl'.not_bare
    | left _ hl' _ => exact absurd hb hl'.not_bare
    | right _ _ hr' => exact ih hr'

/-- The leaves give what remains its atoms, in order, and there are no others. -/
theorem Remains.atoms_eq {c : Condition (Option Expr)} (h : c.Remains e) :
    e.atoms = c.leaves.reduceOption.flatMap Expr.atoms := by
  have hbare : ∀ {c : Condition (Option Expr)}, c.Bare → c.leaves.reduceOption = [] := by
    intro c hb
    rw [List.reduceOption, List.filterMap_eq_nil_iff]
    exact hb
  induction h with
  | leaf e => simp [leaves, List.reduceOption]
  | both connective _ _ ihl ihr =>
    rw [Connective.atoms_apply, ihl, ihr, leaves, List.reduceOption_append, List.flatMap_append]
  | left connective _ hb ih =>
    rw [ih, leaves, List.reduceOption_append, hbare hb, List.append_nil]
  | right connective hb _ ih =>
    rw [ih, leaves, List.reduceOption_append, hbare hb, List.nil_append]

/-- The result of a condition is what remains of it; there is none just when nothing does. -/
structure Result (c : Condition (Option Expr)) (result : Option Expr) : Prop where
  eq_none_iff : result = none ↔ c.Bare
  eq_some_iff : ∀ e, result = some e ↔ c.Remains e

theorem result_leaf (outcome : Option Expr) : Result (leaf outcome) outcome where
  eq_none_iff := by simp [Bare, leaves]
  eq_some_iff e := by
    constructor
    · rintro rfl
      exact .leaf e
    · intro h
      cases h
      rfl

theorem result_absent : Result absent none where
  eq_none_iff := by simp [Bare, leaves]
  eq_some_iff e := by
    constructor
    · intro h
      cases h
    · intro h
      cases h

/-- The result of two sides is what remains of both together. -/
theorem Result.combine {l r : Condition (Option Expr)} {result result' : Option Expr}
    (hl : Result l result) (hr : Result r result') :
    Result (compose connective l r) (combine connective result result') := by
  have hnone : Condition.combine connective result result' = none ↔
      result = none ∧ result' = none := by
    cases result <;> cases result' <;> simp
  have hsome : ∀ e, Condition.combine connective result result' = some e →
      (compose connective l r).Remains e := by
    intro e h
    cases result with
    | none =>
      rw [combine_none_left] at h
      exact .right connective (hl.eq_none_iff.1 rfl) ((hr.eq_some_iff e).1 h)
    | some el =>
      have hel := (hl.eq_some_iff el).1 rfl
      cases result' with
      | none =>
        rw [combine_none_right, Option.some.injEq] at h
        subst h
        exact .left connective hel (hr.eq_none_iff.1 rfl)
      | some er =>
        rw [combine_some_some, Option.some.injEq] at h
        subst h
        exact .both connective hel ((hr.eq_some_iff er).1 rfl)
  refine ⟨?_, fun e => ⟨hsome e, fun h => ?_⟩⟩
  · rw [hnone, hl.eq_none_iff, hr.eq_none_iff, bare_compose_iff]
  · cases hc : Condition.combine connective result result' with
    | none =>
      rw [hnone, hl.eq_none_iff, hr.eq_none_iff, ← bare_compose_iff] at hc
      exact absurd hc h.not_bare
    | some e' => rw [(hsome e' hc).unique h]

/-! ## Evaluation -/

/-- The leaves of a condition are visited, from left to right, up to the first that fails. -/
theorem eval_cases (run : L → Attempt ε σ (Option Expr)) (c : Condition L) (s : σ) :
    (∃ (outcomes : Condition (Option Expr)) (t : σ) (result : Option Expr),
      outcomes.shape = c.shape ∧ Visits run c.leaves s outcomes.leaves t ∧
      (c.eval run).run s = (.ok result, t) ∧ Result outcomes result) ∨
    ∃ before l after outcomes t e u, c.leaves = before ++ l :: after ∧
      Visits run before s outcomes t ∧ (run l).run t = (.error e, u) ∧
      (c.eval run).run s = (.error e, u) := by
  induction c generalizing s with
  | leaf l =>
    rcases hl : (run l).run s with ⟨e | outcome, t⟩
    · exact .inr ⟨[], l, [], [], s, e, t, rfl, .nil s, hl, hl⟩
    · exact .inl ⟨leaf outcome, t, outcome, rfl, .cons hl (.nil t), hl, result_leaf outcome⟩
  | absent => exact .inl ⟨absent, s, none, rfl, .nil s, rfl, result_absent⟩
  | compose connective l r ihl ihr =>
    rw [eval_compose]
    rcases ihl s with ⟨outcomes, t, result, hshape, hvisits, hrun, hresult⟩ |
      ⟨before, leaf, after, outcomes, t, e, u, hleaves, hvisits, hfail, hrun⟩
    · rw [Attempt.run_bind_of_ok hrun]
      rcases ihr t with ⟨outcomes', u, result', hshape', hvisits', hrun', hresult'⟩ |
        ⟨before, leaf, after, outcomes', u, e, v, hleaves, hvisits', hfail, hrun'⟩
      · refine .inl ⟨compose connective outcomes outcomes', u, combine connective result result',
          ?_, hvisits.append hvisits', ?_, hresult.combine hresult'⟩
        · exact congrArg₂ (compose connective) hshape hshape'
        · rw [Attempt.run_bind_of_ok hrun', Attempt.run_pure]
      · refine .inr ⟨l.leaves ++ before, leaf, after, outcomes.leaves ++ outcomes', u, e, v, ?_,
          hvisits.append hvisits', hfail, Attempt.run_bind_of_error hrun' _⟩
        rw [leaves, hleaves, List.append_assoc]
    · refine .inr ⟨before, leaf, after ++ r.leaves, outcomes, t, e, u, ?_, hvisits, hfail,
        Attempt.run_bind_of_error hrun _⟩
      rw [leaves, hleaves, List.append_assoc, List.cons_append]

/-- **A condition is evaluated by visiting its leaves**, each once and from left to right, and comes
to what remains of the tree of their outcomes, whose atoms are those of the leaves; or it ends with
the first leaf that fails, with the error of that leaf and in the state where the leaf has left
it. -/
theorem eval_visits (run : L → Attempt ε σ (Option Expr)) (c : Condition L) (s : σ) :
    (∃ (outcomes : Condition (Option Expr)) (t : σ) (result : Option Expr),
      outcomes.shape = c.shape ∧ Visits run c.leaves s outcomes.leaves t ∧
      (c.eval run).run s = (.ok result, t) ∧
      (result = none ↔ ∀ outcome ∈ outcomes.leaves, outcome = none) ∧
      (∀ e, result = some e ↔ outcomes.Remains e) ∧
      ∀ e, result = some e → e.atoms = outcomes.leaves.reduceOption.flatMap Expr.atoms) ∨
    ∃ before l after outcomes t e u, c.leaves = before ++ l :: after ∧
      Visits run before s outcomes t ∧ (run l).run t = (.error e, u) ∧
      (c.eval run).run s = (.error e, u) := by
  rcases eval_cases run c s with ⟨outcomes, t, result, hshape, hvisits, hrun, hresult⟩ | hfails
  · refine .inl ⟨outcomes, t, result, hshape, hvisits, hrun, hresult.eq_none_iff,
      hresult.eq_some_iff, ?_⟩
    intro e he
    exact ((hresult.eq_some_iff e).1 he).atoms_eq
  · exact .inr hfails

end Condition

end Criteria
