import Criteria.Attempt
import Criteria.Expr
import Criteria.Failure

/-!
# Query plans

A plan records what a query asks of its engine: joins, relations to be fetched
along, restrictions on joins, and how results are grouped, selected and made
distinct. Joins and fetches are numbered from zero in the order in which they
were asked for and are never taken back.

Attributes that the plan rejects do not exist; asking for one changes nothing.
-/

namespace Criteria

/-- A join or a fetch: its number, the one it starts from, and the attribute it follows. -/
structure Link where
  id : Nat
  parent : Option Nat
  name : String
deriving DecidableEq

/-- A handle on a join: its number, and the path that stands for it in conditions. -/
structure Join where
  id : Nat
  path : String
deriving DecidableEq

/-- A query plan. -/
structure Plan where
  joins : List Link := []
  fetches : List Link := []
  /-- Numbers of joins with the conditions put on them. -/
  restrictions : List (Nat × String) := []
  isDistinct : Bool := false
  grouping : List String := []
  selection : List String := []
  /-- The query only counts its results, so nothing is fetched along. -/
  isCount : Bool := false
  rejected : List String := []
deriving DecidableEq

namespace Plan

/-- The joins that start from the root. -/
def rootJoins (p : Plan) : List Link := p.joins.filter (·.parent.isNone)

/-- Makes an attribute one that does not exist. -/
def reject (p : Plan) (name : String) : Plan := { p with rejected := p.rejected ++ [name] }

/-- Makes the query one that only counts. -/
def count (p : Plan) : Plan := { p with isCount := true }

/-! ## Asking for parts -/

/-- Fails on an attribute that does not exist. -/
def check (name : String) : Attempt Failure Plan Unit :=
  ⟨fun p => (if name ∈ p.rejected then .error (.unknownAttribute name) else .ok (), p)⟩

@[simp] theorem run_check (name : String) (p : Plan) :
    (check name).run p =
      (if name ∈ p.rejected then .error (.unknownAttribute name) else .ok (), p) := rfl

/-- The path of an attribute behind a join, or of one of the root. -/
def pathFrom (join : Option Join) (name : String) : String :=
  match join with
  | none => name
  | some join => join.path ++ "." ++ name

/-- Joins the records an attribute refers to. -/
def join (parent : Option Join) (name : String) : Attempt Failure Plan Join := do
  check name
  let id := (← Attempt.current).joins.length
  .change fun p => { p with joins := p.joins ++ [⟨id, parent.map (·.id), name⟩] }
  pure ⟨id, pathFrom parent name⟩

theorem run_join (parent : Option Join) (name : String) (p : Plan) :
    (join parent name).run p =
      if name ∈ p.rejected then (.error (.unknownAttribute name), p)
      else
        (.ok ⟨p.joins.length, pathFrom parent name⟩,
          { p with joins := p.joins ++ [⟨p.joins.length, parent.map (·.id), name⟩] }) := by
  by_cases h : name ∈ p.rejected <;> simp [join, Attempt.run_bind, Attempt.run_map, h]

/-- The path of an attribute. -/
def property (join : Option Join) (name : String) : Attempt Failure Plan String := do
  check name
  pure (pathFrom join name)

theorem run_property (join : Option Join) (name : String) (p : Plan) :
    (property join name).run p =
      (if name ∈ p.rejected then .error (.unknownAttribute name) else .ok (pathFrom join name),
        p) := by
  by_cases h : name ∈ p.rejected <;> simp [property, Attempt.run_map, h]

/-- Puts a condition on a join. The new handle carries the condition in its path. -/
def restrict (join : Join) (condition : Expr) : Attempt Failure Plan Join := do
  .change fun p => { p with restrictions := p.restrictions ++ [(join.id, condition.text)] }
  pure { join with path := join.path ++ "[on " ++ condition.text ++ "]" }

@[simp] theorem run_restrict (join : Join) (condition : Expr) (p : Plan) :
    (restrict join condition).run p =
      (.ok { join with path := join.path ++ "[on " ++ condition.text ++ "]" },
        { p with restrictions := p.restrictions ++ [(join.id, condition.text)] }) := rfl

/-- Fetches the records an attribute refers to. The parent is a number that nothing checks. -/
def fetch (parent : Option Nat) (name : String) : Attempt Failure Plan Nat := do
  check name
  let id := (← Attempt.current).fetches.length
  .change fun p => { p with fetches := p.fetches ++ [⟨id, parent, name⟩] }
  pure id

theorem run_fetch (parent : Option Nat) (name : String) (p : Plan) :
    (fetch parent name).run p =
      if name ∈ p.rejected then (.error (.unknownAttribute name), p)
      else
        (.ok p.fetches.length,
          { p with fetches := p.fetches ++ [⟨p.fetches.length, parent, name⟩] }) := by
  by_cases h : name ∈ p.rejected <;> simp [fetch, Attempt.run_bind, Attempt.run_map, h]

/-- A comparison of a property; an operator that takes a value has to be given one. -/
def compare (op : Operator) (path : String) (value : Option Value) : Except Failure Expr :=
  if op.takesValue && value.isNone then .error (.unsupportedOperator (path ++ " " ++ op.text))
  else .ok (.compare op path value)

end Plan

end Criteria
