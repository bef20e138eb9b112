import Criteria.Plan
import Criteria.Relation.Table

/-!
# Properties

A property is named by attributes between points. All but the last lead along
joins, which are resolved in the table of joins, and the last is read behind the
last join, or on the root if there is none.

A name with an empty attribute anywhere is refused before anything is joined.
-/

namespace Criteria

/-- The table of joins over a plan, in which properties are resolved. -/
abbrev Scope := Workspace (RelationTable Join) Plan

namespace Property

/-- The attributes of a name. -/
def attributes (name : String) : List String := (name.toList.splitOn '.').map String.ofList

/-- The attributes that are joined, and the one that is read; nothing if one of them is empty. -/
def cut? (name : String) : Option (List String × String) :=
  let attributes := attributes name
  if attributes.any String.isEmpty then none
  else some (attributes.dropLast, attributes.getLastD "")

/-- Puts a condition on a join of the table, whose handle carries it from then on. -/
def restrictAt (restriction : Join → Attempt Failure Plan Expr) (id : Nat) :
    Attempt Failure Scope Unit := do
  match (← Attempt.current).store.handle? id with
  | none => pure ()
  | some join =>
    let restricted ← Workspace.onHost do
      let condition ← restriction join
      Plan.restrict join condition
    Workspace.changeStore (·.replaceHandle id restricted)

/-- Resolves a property, doing something with its last join, if it has one, before the property is
read. -/
def resolve (name : String) (visit : Nat → Attempt Failure Scope Unit) :
    Attempt Failure Scope String :=
  match cut? name with
  | none => .fail (.invalidTraversal name)
  | some (chain, last) => do
    let id ← RelationTable.resolve Plan.join chain
    id.elim (pure ()) visit
    let table := (← Attempt.current).store
    Workspace.onHost (Plan.property (id.bind table.handle?) last)

/-- The path of a property. -/
def path (name : String) : Attempt Failure Scope String := resolve name fun _ => pure ()

/-- The path of a property whose last join is restricted; without a join there is nothing to
restrict. -/
def pathOn (name : String) (restriction : Join → Attempt Failure Plan Expr) :
    Attempt Failure Scope String :=
  resolve name (restrictAt restriction)

end Property

end Criteria
