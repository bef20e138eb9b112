import Mathlib
import Criteria.Conjuncts
import Criteria.Proofs.Attempt

/-!
# Reducing conjuncts

The expression of gathered fragments holds just when all of their results do;
fragments without a result have no part in it.
-/

namespace Criteria

/-- The truth of atoms where comparisons have any truth values. -/
def Atom.truth (holds : Operator → String → Option Value → Bool) : Atom → Bool
  | .always => true
  | .never => false
  | .compare op path value => holds op path value

/-- The truth of a result; without an expression there is nothing to hold. -/
def Expr.admits (holds : Atom → Bool) (result : Option Expr) : Bool :=
  result.elim true (Expr.eval holds)

@[simp] theorem Expr.admits_none (holds : Atom → Bool) : Expr.admits holds none = true := rfl

@[simp] theorem Expr.admits_some (holds : Atom → Bool) (e : Expr) :
    Expr.admits holds (some e) = e.eval holds := rfl

namespace Conjuncts

variable {F ε S W : Type} {eval : F → Attempt ε (Workspace S W) (Option Expr)}
  {w w' : Workspace S W}

/-- The result of a fragment, which is entered in the tally. -/
def evaluate (eval : F → Attempt ε (Workspace S W) (Option Expr)) (fragment : F) :
    Attempt ε (Workspace S W) (Option Expr) := do
  let result ← eval fragment
  Workspace.record (·.recordFragment result.isSome)
  pure result

theorem evaluate_ok {fragment : F} {result : Option Expr}
    (h : (evaluate eval fragment).run w = (.ok result, w')) :
    ((eval fragment).run w).1 = .ok result := by
  obtain ⟨result', w₁, hresult, h⟩ := Attempt.bind_ok h
  obtain ⟨u, w₂, -, h⟩ := Attempt.bind_ok h
  obtain ⟨rfl, -⟩ := Attempt.pure_ok h
  rw [hresult]

theorem reduceFrom_cons (before : Option Expr) (fragment : F) (rest : List F) :
    reduceFrom eval before (fragment :: rest) =
      evaluate eval fragment >>= fun result =>
        reduceFrom eval (result.elim before fun e => some (conjoin before e)) rest := by
  simp [reduceFrom, evaluate]

theorem admits_conjoin (holds : Atom → Bool) (before : Option Expr) (result : Option Expr) :
    Expr.admits holds (result.elim before fun e => some (conjoin before e)) =
      (Expr.admits holds before && Expr.admits holds result) := by
  cases result with
  | none => simp
  | some e => cases before <;> simp [conjoin, Expr.eval]

/-- The conjunction grows by one result after the other. -/
theorem reduceFrom_ok {before e : Option Expr} {fragments : List F}
    (h : (reduceFrom eval before fragments).run w = (.ok e, w')) :
    ∃ results, (Attempt.forEach (evaluate eval) fragments).run w = (.ok results, w') ∧
      ∀ holds, Expr.admits holds e =
        (Expr.admits holds before && results.all (Expr.admits holds)) := by
  induction fragments generalizing before w with
  | nil =>
    obtain ⟨rfl, rfl⟩ := Attempt.pure_ok h
    exact ⟨[], rfl, by simp⟩
  | cons fragment rest ih =>
    rw [reduceFrom_cons] at h
    obtain ⟨result, w₁, hfirst, h⟩ := Attempt.bind_ok h
    obtain ⟨results, hresults, hadmits⟩ := ih h
    refine ⟨result :: results, ?_, ?_⟩
    · simp only [Attempt.forEach_cons, Attempt.run_bind, hfirst, hresults, Attempt.run_pure]
    · intro holds
      rw [hadmits, admits_conjoin, List.all_cons, Bool.and_assoc]

/-- The expression of gathered fragments holds just when all their results do. -/
theorem reduce_gathering_ok {e : Expr} {fragments : List F}
    (h : ((gathering fragments).reduce eval).run w = (.ok e, w')) :
    ∃ results, (Attempt.forEach (evaluate eval) fragments).run w = (.ok results, w') ∧
      ∀ holds : Operator → String → Option Value → Bool,
        e.eval (Atom.truth holds) = results.all (Expr.admits (Atom.truth holds)) := by
  obtain ⟨result, w₁, hreduce, h⟩ := Attempt.bind_ok h
  obtain ⟨rfl, rfl⟩ := Attempt.pure_ok h
  obtain ⟨results, hresults, hadmits⟩ := reduceFrom_ok hreduce
  refine ⟨results, hresults, ?_⟩
  intro holds
  have hresult : (result.getD .always).eval (Atom.truth holds) =
      Expr.admits (Atom.truth holds) result := by
    cases result <;> rfl
  rw [hresult, hadmits, Expr.admits_none, Bool.true_and]

/-! ## Fragments that never hold -/

/-- One of the fragments is `never`. -/
def Doomed (never : F) (c : Conjuncts F) : Prop := never ∈ c.fragments never

variable {never : F} {c other : Conjuncts F}

theorem doomed_contradiction : Doomed never contradiction := List.mem_singleton_self never

theorem foldl_append (fragments more : List F) :
    more.foldl append (gathering fragments) = gathering (fragments ++ more) := by
  induction more generalizing fragments with
  | nil => simp
  | cons fragment more ih =>
    rw [List.foldl_cons, append, ih, List.append_assoc, List.singleton_append]

theorem foldl_append_contradiction (more : List F) :
    more.foldl append contradiction = (contradiction : Conjuncts F) := by
  induction more with
  | nil => rfl
  | cons fragment more ih => rw [List.foldl_cons, append, ih]

/-- What was doomed before or after stays doomed when it is merged. -/
theorem Doomed.merge (h : Doomed never c ∨ Doomed never other) :
    Doomed never (c.merge never other) := by
  cases c with
  | contradiction =>
    rw [Conjuncts.merge, foldl_append_contradiction]
    exact doomed_contradiction
  | gathering fragments =>
    rw [Conjuncts.merge, foldl_append, Doomed, Conjuncts.fragments, List.mem_append]
    exact h

theorem Doomed.append (h : Doomed never c) (fragment : F) : Doomed never (c.append fragment) := by
  cases c with
  | contradiction => exact h
  | gathering fragments => exact List.mem_append_left [fragment] h

/-- A fragment whose result is `never` makes the whole one never hold, and so does giving up. -/
theorem Doomed.eval_eq_false (h : Doomed never c)
    (hnever : ∀ w result, ((eval never).run w).1 = .ok result → result = some .never)
    {e : Expr} (hreduce : (c.reduce eval).run w = (.ok e, w'))
    (holds : Operator → String → Option Value → Bool) : e.eval (Atom.truth holds) = false := by
  cases c with
  | contradiction =>
    obtain ⟨rfl, -⟩ := Attempt.pure_ok hreduce
    rfl
  | gathering fragments =>
    obtain ⟨results, hresults, heval⟩ := reduce_gathering_ok hreduce
    obtain ⟨result, w₁, w₂, hmem, hrun⟩ := Attempt.exists_of_mem_forEach hresults h
    have hr : result = some .never := hnever w₁ result (evaluate_ok hrun)
    rw [heval, List.all_eq_false]
    exact ⟨result, hmem, by simp [hr, Expr.eval, Atom.truth]⟩

end Conjuncts

end Criteria
