import Mathlib
import Criteria.Query.Build
import Criteria.Proofs.Attempt
import Criteria.Proofs.Relation.Views

/-!
# Running builds

A build meets the requests for prefetching and then reduces the conditions, over
a table of joins that it starts with. Whether joins are reused makes a difference
to this table only.
-/

namespace Criteria

/-! ## What requests leave alone -/

namespace Prefetch

variable {E : Type}

/-- Meeting a request makes no joins. -/
def KeepsJoins (meet : Prefetcher E) : Prop :=
  ∀ request, (meet request).Keeps fun w => w.host.joins

/-- Fetching makes no joins. -/
theorem keepsJoins_outlined : KeepsJoins outlined := by
  intro request
  have hfetch : ∀ parent name, (Plan.fetch parent name).Keeps Plan.joins := by
    intro parent name p
    rw [Plan.run_fetch]
    split <;> rfl
  refine Attempt.keeps_current.bind fun w => ?_
  dsimp only
  split
  · exact Attempt.keeps_pure ()
  · refine Attempt.Keeps.bind ?_ fun ids => Attempt.keeps_pure ()
    exact Attempt.Keeps.forEach (fun leaf => RelationTable.keeps_walk hfetch none leaf) _

end Prefetch

namespace Query

variable {E : Type} {meet : Prefetcher E} {q : Query} {w w₁ w' : Workspace E Plan} {e : Expr}
  {joins : RelationTable Join}

theorem keeps_meetRequests (h : Prefetch.KeepsJoins meet) (q : Query) :
    (q.meetRequests meet).Keeps fun w => w.host.joins := by
  rw [meetRequests]
  split
  · exact (Attempt.Keeps.forEach h q.prefetches).bind fun results => Attempt.keeps_pure ()
  · exact Attempt.keeps_pure ()

/-! ## Stages -/

/-- Where a build has got to once the requests are met. -/
def prepare (meet : Prefetcher E) (q : Query) (w : Workspace E Plan) :
    Except Failure Unit × Workspace E Plan :=
  (q.meetRequests meet).run { w with tally := w.tally.recordBuild }

theorem joins_of_prepare (h : Prefetch.KeepsJoins meet) {r : Except Failure Unit}
    (hprepare : q.prepare meet w = (r, w₁)) : w₁.host.joins = w.host.joins := by
  have hkeeps := keeps_meetRequests h q { w with tally := w.tally.recordBuild }
  rw [prepare] at hprepare
  rw [hprepare] at hkeeps
  exact hkeeps

/-- The scope in which the reduction of the conditions starts. -/
def opening (q : Query) (w : Workspace E Plan) : Scope :=
  ⟨.empty .join q.options.reuseJoins, w.host, w.tally⟩

theorem run_build (meet : Prefetcher E) (q : Query) (w : Workspace E Plan) :
    (q.build meet).run w =
      match q.prepare meet w with
      | (.error e, w₁) => (.error e, { w₁ with tally := w₁.tally.recordOutcome false })
      | (.ok _, w₁) =>
        match q.reduce.run (q.opening w₁) with
        | (.error e, scope) =>
          (.error e, ⟨w₁.store, scope.host, scope.tally.recordOutcome false⟩)
        | (.ok e, scope) => (.ok (e, scope.store), ⟨w₁.store, scope.host, scope.tally⟩) := by
  rw [build, Attempt.run_bind, Workspace.run_record]
  simp only [Attempt.run_onError, Attempt.run_bind, prepare]
  rcases (q.meetRequests meet).run { w with tally := w.tally.recordBuild } with ⟨e | u, w₁⟩
  · rfl
  · rcases hreduce : q.reduce.run (q.opening w₁) with ⟨e | e, scope⟩ <;>
    · rw [opening] at hreduce
      simp only [Workspace.run_withStore, opening, hreduce, Except.map]

/-- A build that succeeds has met the requests, and ends with the reduced conditions. -/
theorem build_ok (h : (q.build meet).run w = (.ok (e, joins), w')) :
    ∃ w₁ scope, q.prepare meet w = (.ok (), w₁) ∧ q.reduce.run (q.opening w₁) = (.ok e, scope) ∧
      joins = scope.store ∧ w' = ⟨w₁.store, scope.host, scope.tally⟩ := by
  rw [run_build] at h
  rcases hmeet : q.prepare meet w with ⟨error | u, w₁⟩
  · rw [hmeet] at h
    cases h
  · rw [hmeet] at h
    rcases hreduce : q.reduce.run (q.opening w₁) with ⟨error | e', scope⟩
    · simp only [hreduce] at h
      cases h
    · simp only [hreduce] at h
      cases h
      exact ⟨w₁, scope, rfl, hreduce, rfl, rfl⟩

/-! ## Reuse of joins -/

/-- The same query, with or without reuse of joins. -/
def reusing (q : Query) (reuseJoins : Bool) : Query :=
  { q with options := { q.options with reuseJoins } }

@[simp] theorem prepare_reusing (meet : Prefetcher E) (q : Query) (b : Bool)
    (w : Workspace E Plan) :
    (q.reusing b).prepare meet w = q.prepare meet w := rfl

@[simp] theorem reduce_reusing (q : Query) (b : Bool) : (q.reusing b).reduce = q.reduce := rfl

end Query

end Criteria
