import Criteria.Prefetch
import Criteria.Query

/-!
# Building queries

A build meets the requests for prefetching, if they are to be met, and then
reduces the conditions to one expression, over a table of joins of its own. The
first error ends it; what was recorded in the plan up to there stays.
-/

namespace Criteria.Query

variable {E : Type}

/-- Meets the requests, in order. -/
def meetRequests (meet : Prefetcher E) (q : Query) : Attempt Failure (Workspace E Plan) Unit :=
  if q.options.prefetch then do
    let _ ← Attempt.forEach meet q.prefetches
    pure ()
  else pure ()

/-- The expression of the conditions, over a table of joins. -/
def reduce (q : Query) : Attempt Failure Scope Expr := q.conjuncts.reduce (·.eval Leaf.eval)

/-- Builds a query: its expression, and the joins it needs. -/
def build (meet : Prefetcher E) (q : Query) :
    Attempt Failure (Workspace E Plan) (Expr × RelationTable Join) := do
  Workspace.record (·.recordBuild)
  Attempt.onError
    (do
      q.meetRequests meet
      Workspace.withStore (.empty .join q.options.reuseJoins) q.reduce)
    fun w => { w with tally := w.tally.recordOutcome false }

end Criteria.Query
