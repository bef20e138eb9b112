import Criteria.Operator
import Criteria.Value

/-!
# Boolean expressions

What a query's conditions evaluate to: comparisons, the two constants, and their
conjunctions and disjunctions. A written expression is a row of pieces, in which
only a disjunction inside a conjunction stands in parentheses; `and` binds
tighter than `or`.
-/

namespace Criteria

/-- An expression without parts. A comparison whose operator takes no value may carry one all the
same. -/
inductive Atom where
  | always
  | never
  | compare (op : Operator) (path : String) (value : Option Value)

/-- A boolean expression. -/
inductive Expr where
  | atom (a : Atom)
  | and (l r : Expr)
  | or (l r : Expr)

namespace Atom

/-- Equality of atoms; values are compared as values. -/
def same : Atom → Atom → Bool
  | always, always => true
  | never, never => true
  | compare op p v, compare op' p' v' => op == op' && p == p' && v == v'
  | _, _ => false

/-- A value behind an operator. -/
def valueText : Option Value → String
  | none => ""
  | some v => " " ++ v.render

/-- The atom as text. -/
def text : Atom → String
  | always => "1=1"
  | never => "1=0"
  | compare .notIn path value => "not " ++ path ++ " in" ++ valueText value
  | compare .equalsGreatest path _ => path ++ " equal max(" ++ path ++ ")"
  | compare op path value =>
    (if op.ignoresCase then "upper(" ++ path ++ ")" else path) ++ " " ++ op.text ++ valueText value

end Atom

/-- A piece of a written expression. -/
inductive Piece where
  | atom (a : Atom)
  | and
  | or
  | opening
  | closing

/-- The piece as text. -/
def Piece.text : Piece → String
  | atom a => a.text
  | and => " and "
  | or => " or "
  | opening => "("
  | closing => ")"

namespace Expr

/-- The expression that always holds. -/
abbrev always : Expr := .atom .always

/-- The expression that never holds. -/
abbrev never : Expr := .atom .never

/-- The comparison of a property with a value. -/
abbrev compare (op : Operator) (path : String) (value : Option Value) : Expr :=
  .atom (.compare op path value)

/-- Equality of expressions, part by part. -/
def same : Expr → Expr → Bool
  | atom a, atom b => a.same b
  | and l r, and l' r' => l.same l' && r.same r'
  | or l r, or l' r' => l.same l' && r.same r'
  | _, _ => false

/-- The expression is a disjunction. -/
def isOr : Expr → Bool
  | or _ _ => true
  | _ => false

/-- Pieces between parentheses, if they need them. -/
def enclose (needed : Bool) (pieces : List Piece) : List Piece :=
  if needed then .opening :: (pieces ++ [.closing]) else pieces

/-- The pieces of the written expression. -/
def pieces : Expr → List Piece
  | atom a => [.atom a]
  | and l r => enclose l.isOr l.pieces ++ .and :: enclose r.isOr r.pieces
  | or l r => l.pieces ++ .or :: r.pieces

/-- The written expression. -/
def text (e : Expr) : String := "".intercalate (e.pieces.map Piece.text)

/-- The truth of an expression where `holds` gives that of its atoms. -/
def eval (holds : Atom → Bool) : Expr → Bool
  | atom a => holds a
  | and l r => l.eval holds && r.eval holds
  | or l r => l.eval holds || r.eval holds

end Expr

end Criteria
