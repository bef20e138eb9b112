import Criteria.Attempt
import Criteria.Expr

/-!
# Conditions

A condition is a tree of leaves under `and` and `or`. Evaluating a leaf gives an
expression, or none where it does not constrain the query. A side without an
expression drops out, under `or` just as under `and`: the other side is the
result.
-/

namespace Criteria

/-- How two conditions are connected. -/
inductive Connective where
  | and
  | or
deriving DecidableEq

/-- The expression of two connected ones. -/
def Connective.apply : Connective → Expr → Expr → Expr
  | and => .and
  | or => .or

/-- A condition with leaves `L`. Either side of a connective may be absent. -/
inductive Condition (L : Type) where
  | leaf (l : L)
  | absent
  | compose (connective : Connective) (l r : Condition L)

namespace Condition

variable {L ε σ : Type}

/-- The result of two sides. -/
def combine (connective : Connective) : Option Expr → Option Expr → Option Expr
  | none, r => r
  | l, none => l
  | some l, some r => some (connective.apply l r)

@[simp] theorem combine_none_left (connective : Connective) (r : Option Expr) :
    combine connective none r = r := rfl

@[simp] theorem combine_none_right (connective : Connective) (l : Option Expr) :
    combine connective l none = l := by
  cases l <;> rfl

@[simp] theorem combine_some_some (connective : Connective) (l r : Expr) :
    combine connective (some l) (some r) = some (connective.apply l r) := rfl

/-- The result of a condition whose leaves are evaluated by `run`, from left to right. Every leaf
is evaluated, also where the other side has no expression. -/
def eval (run : L → Attempt ε σ (Option Expr)) : Condition L → Attempt ε σ (Option Expr)
  | leaf l => run l
  | absent => pure none
  | compose connective l r => do
    let l ← l.eval run
    let r ← r.eval run
    pure (combine connective l r)

@[simp] theorem eval_leaf (run : L → Attempt ε σ (Option Expr)) (l : L) :
    (leaf l).eval run = run l := rfl

@[simp] theorem eval_absent (run : L → Attempt ε σ (Option Expr)) :
    (absent : Condition L).eval run = pure none := rfl

theorem eval_compose (run : L → Attempt ε σ (Option Expr)) (connective : Connective)
    (l r : Condition L) :
    (compose connective l r).eval run =
      l.eval run >>= fun l => r.eval run >>= fun r => pure (combine connective l r) := rfl

/-- Both conditions. -/
def and (l r : Condition L) : Condition L := compose .and l r

/-- Either condition. -/
def or (l r : Condition L) : Condition L := compose .or l r

end Condition

end Criteria
