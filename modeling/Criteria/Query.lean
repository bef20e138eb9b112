import Criteria.Condition.Leaf
import Criteria.Conjuncts
import Criteria.Query.Filter
import Criteria.Query.Options
import Criteria.Text.Blank

/-!
# Queries

A query is assembled call by call: filters, conditions, the shape of its results
and requests for prefetching. Queries can be merged; the merged one keeps the
options of the first.

Assembling never evaluates anything. It can only go wrong where a comparison is
to be registered for a property without a name.
-/

namespace Criteria

/-- A query. -/
structure Query where
  options : Query.Options := {}
  conjuncts : Conjuncts (Condition Leaf) := .empty
  prefetches : List String := []

namespace Query

/-- A step of assembling a query. -/
inductive Call where
  | filter (f : Filter)
  /-- A condition, unless there is none. -/
  | demand (condition : Option (Condition Leaf))
  | shape (shaping : Shaping)
  | prefetch (request : String)
  /-- Adds the conditions and requests of a query that is assembled by itself. -/
  | merge (calls : List Call)

/-- The query has no results, whatever else it demands. -/
def isContradiction (q : Query) : Bool := q.conjuncts.isContradiction

/-- Adds a condition. -/
def demand (q : Query) (condition : Condition Leaf) : Query :=
  { q with conjuncts := q.conjuncts.append condition }

/-- Adds a request for prefetching. -/
def request (q : Query) (request : String) : Query :=
  { q with prefetches := q.prefetches ++ [request] }

/-- Adds the conditions and requests of another query. -/
def merge (q other : Query) : Query :=
  { q with
    conjuncts := q.conjuncts.merge (.leaf .never) other.conjuncts
    prefetches := q.prefetches ++ other.prefetches }

/-- Adds a comparison of a property, which has to have a name. -/
def register (q : Query) (name : String) (op : Operator) (value : Option Value) :
    Except Misuse Query :=
  if Text.isBlankText name then .error .blankName
  else .ok (q.demand (.leaf (.compare name op value)))

/-- Makes the query one without results. -/
def contradict (q : Query) : Attempt Misuse Tally Query := do
  .change q.conjuncts.recordGivingUp
  pure { q with conjuncts := .contradiction }

/-- Adds a filter. -/
def filter (q : Query) (f : Filter) : Attempt Misuse Tally Query :=
  match f.verdict with
  | .skip => pure q
  | .register op value => .ofExcept (q.register f.name op value)
  | .contradict => q.contradict

mutual

/-- The query after one more call. -/
def apply (q : Query) : Call → Attempt Misuse Tally Query
  | .filter f => q.filter f
  | .demand condition => pure (condition.elim q q.demand)
  | .shape shaping => pure (q.demand (.leaf (.shape shaping)))
  | .prefetch request => pure (q.request request)
  | .merge calls => do
    let other ← applyAll {} calls
    pure (q.merge other)

/-- The query after some more calls. -/
def applyAll (q : Query) : List Call → Attempt Misuse Tally Query
  | [] => pure q
  | call :: calls => do
    let q ← q.apply call
    q.applyAll calls

end

/-- The query of some calls. -/
def assemble (options : Options) (calls : List Call) : Attempt Misuse Tally Query :=
  applyAll { options } calls

/-- The query as it describes itself. -/
def describe (q : Query) : String :=
  "PredicateBuilder \x7b options: " ++ q.options.describe ++ ", predicates: " ++
    q.conjuncts.describe ++ ", prefetches: " ++ Text.Quoted.shownList q.prefetches ++ ", .. \x7d"

end Query

end Criteria
