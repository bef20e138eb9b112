import Criteria.Expr
import Criteria.Workspace

/-!
# Conjuncts

The fragments that a query demands together, in order. Once a query is known to
have no results its fragments are given up for good: it becomes a contradiction,
and nothing that is added later changes that.
-/

namespace Criteria

/-- Fragments in order, or a contradiction. -/
inductive Conjuncts (F : Type) where
  | gathering (fragments : List F)
  | contradiction

namespace Conjuncts

variable {F ε S W : Type}

/-- No fragments. -/
def empty : Conjuncts F := gathering []

/-- The fragments were given up. -/
def isContradiction : Conjuncts F → Bool
  | contradiction => true
  | gathering _ => false

/-- Adds a fragment at the end; a contradiction has no use for it. -/
def append (c : Conjuncts F) (fragment : F) : Conjuncts F :=
  match c with
  | gathering fragments => gathering (fragments ++ [fragment])
  | contradiction => contradiction

/-- The fragments, of which a contradiction has one: `never`, a fragment that never holds. -/
def fragments (never : F) : Conjuncts F → List F
  | gathering fragments => fragments
  | contradiction => [never]

/-- The number of fragments. -/
def size : Conjuncts F → Nat
  | gathering fragments => fragments.length
  | contradiction => 1

/-- Adds the fragments of another one at the end. A contradiction adds `never` and so does not make
this one a contradiction too. -/
def merge (never : F) (c other : Conjuncts F) : Conjuncts F :=
  (other.fragments never).foldl append c

/-- The tally of giving up the fragments: what is a contradiction already is not counted again. -/
def recordGivingUp (c : Conjuncts F) (tally : Tally) : Tally :=
  if c.isContradiction then tally else tally.recordFreeze

/-! ## Reduction -/

/-- Both expressions, the first of which may be missing. -/
def conjoin (before : Option Expr) (e : Expr) : Expr :=
  match before with
  | none => e
  | some before => .and before e

/-- The conjunction of what was evaluated before and of the fragments' expressions. -/
def reduceFrom (eval : F → Attempt ε (Workspace S W) (Option Expr)) :
    Option Expr → List F → Attempt ε (Workspace S W) (Option Expr)
  | before, [] => pure before
  | before, fragment :: rest => do
    let result ← eval fragment
    Workspace.record (·.recordFragment result.isSome)
    reduceFrom eval (result.elim before fun e => some (conjoin before e)) rest

/-- The expression of all fragments together. Every fragment is evaluated once, in order, up to the
first that fails; a contradiction evaluates none. -/
def reduce (eval : F → Attempt ε (Workspace S W) (Option Expr)) :
    Conjuncts F → Attempt ε (Workspace S W) Expr
  | contradiction => pure .never
  | gathering fragments => do
    let result ← reduceFrom eval none fragments
    pure (result.getD .always)

/-! ## Description -/

/-- The conjuncts as they describe themselves. -/
def describe (c : Conjuncts F) : String :=
  "Accumulator \x7b frozen: " ++ (if c.isContradiction then "true" else "false") ++
    ", fragments: " ++ toString c.size ++ " \x7d"

end Conjuncts

end Criteria
