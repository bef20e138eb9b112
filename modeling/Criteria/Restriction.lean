import Criteria.Plan

/-!
# Restrictions

Conditions that a join itself has to meet. They speak of the attributes of the
joined records and of the root, and may join further.
-/

namespace Criteria

/-- A restriction on a join. -/
inductive Restriction where
  | always
  | never
  /-- Compares an attribute of the joined records. -/
  | compare (name : String) (op : Operator) (value : Option Value)
  /-- Compares an attribute of the root. -/
  | compareRoot (name : String) (op : Operator) (value : Option Value)
  /-- A restriction on a join that starts from this one. -/
  | join (name : String) (inner : Restriction)
  | fail (failure : Failure)
  | and (l r : Restriction)
  | or (l r : Restriction)

namespace Restriction

/-- A comparison of an attribute behind a join, or of one of the root. -/
def compareAt (join : Option Join) (name : String) (op : Operator) (value : Option Value) :
    Attempt Failure Plan Expr := do
  let path ← Plan.property join name
  .ofExcept (Plan.compare op path value)

/-- The condition on a join, in the terms of the plan. -/
def eval : Restriction → Join → Attempt Failure Plan Expr
  | always, _ => pure .always
  | never, _ => pure .never
  | compare name op value, here => compareAt (some here) name op value
  | compareRoot name op value, _ => compareAt none name op value
  | join name inner, here => do
    let next ← Plan.join (some here) name
    inner.eval next
  | fail failure, _ => Attempt.fail failure
  | and l r, here => do
    let l ← l.eval here
    let r ← r.eval here
    pure (.and l r)
  | or l r, here => do
    let l ← l.eval here
    let r ← r.eval here
    pure (.or l r)

end Restriction

end Criteria
