import Criteria.Condition
import Criteria.Property
import Criteria.Restriction

/-!
# Leaves of conditions

What the conditions of a query are made of: constants, comparisons of
properties, leaves that only change the plan, and whatever callers evaluate by
themselves.
-/

namespace Criteria

/-- A change of how results are presented. -/
inductive Shaping where
  | distinct
  | groupBy (names : List String)
  | select (names : List String)

/-- A leaf of a condition. -/
inductive Leaf where
  | always
  | never
  /-- No constraint. -/
  | nothing
  | compare (name : String) (op : Operator) (value : Option Value)
  /-- Compares a property whose last join is restricted. -/
  | compareOn (name : String) (restriction : Restriction) (op : Operator) (value : Option Value)
  /-- Resolves a property without constraining it. -/
  | mention (name : String)
  /-- Makes the query distinct or not, without constraining it. -/
  | distinct (value : Bool)
  /-- Changes how results are presented, with an expression that always holds. -/
  | shape (shaping : Shaping)
  | fail (failure : Failure)
  /-- Evaluated by the caller. -/
  | custom (run : Attempt Failure Scope (Option Expr))

/-- Presents the results of a query in another way. -/
def Shaping.run : Shaping → Attempt Failure Scope Unit
  | distinct => Workspace.onHost (.change fun p => { p with isDistinct := true })
  | groupBy names => do
    let paths ← Attempt.forEach Property.path names
    Workspace.onHost (.change fun p => { p with grouping := paths })
  | select names => do
    let paths ← Attempt.forEach Property.path names
    Workspace.onHost (.change fun p => { p with selection := paths })

namespace Leaf

/-- The expression of a leaf, or nothing. -/
def eval : Leaf → Attempt Failure Scope (Option Expr)
  | always => pure (some .always)
  | never => pure (some .never)
  | nothing => pure none
  | compare name op value => do
    let path ← Property.path name
    some <$> Attempt.ofExcept (Plan.compare op path value)
  | compareOn name restriction op value => do
    let path ← Property.pathOn name restriction.eval
    some <$> Attempt.ofExcept (Plan.compare op path value)
  | mention name => do
    let _ ← Property.path name
    pure none
  | distinct value => do
    Workspace.onHost (.change fun p => { p with isDistinct := value })
    pure none
  | shape shaping => do
    shaping.run
    pure (some .always)
  | fail failure => Attempt.fail failure
  | custom run => run

end Leaf

end Criteria
