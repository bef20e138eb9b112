import Criteria.Outline.Parse
import Criteria.Plan
import Criteria.Relation.Table

/-!
# Prefetching

Requests for relations to be loaded along with a query. A request is a text; how
it is met is up to a prefetcher, which keeps a store of its own from one request
to the next.
-/

namespace Criteria

/-- Meets a request, with a store `E`. -/
abbrev Prefetcher (E : Type) := String → Attempt Failure (Workspace E Plan) Unit

namespace Prefetch

/-- The table of fetches before the first request. -/
def noFetches : RelationTable Nat := .empty .fetch true

/-- Reads a request as an outline and fetches along all of its leaves; a relation that was fetched
once serves all later requests. Blank requests and queries that only count fetch nothing. -/
def outlined : Prefetcher (RelationTable Nat) := fun request => do
  let plan := (← Attempt.current).host
  if Text.isBlankText request || plan.isCount then pure ()
  else
    let _ ← Attempt.forEach (RelationTable.resolve Plan.fetch) (Outline.parse request).leaves
    pure ()

/-- The table of fetches as it describes itself. -/
def describe (fetches : RelationTable Nat) : String :=
  "DefaultPrefetchEngine \x7b fetches: " ++ fetches.describe ++ " \x7d"

/-- Notes the requests and fetches nothing. -/
def recorded : Prefetcher (List String) := fun request => Workspace.changeStore (· ++ [request])

/-- Refuses every request. -/
def refused : Prefetcher Unit := fun request => .fail (.backend request)

end Prefetch

end Criteria
