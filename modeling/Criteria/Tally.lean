import Criteria.Binary64
import Criteria.Relation

/-!
# Tallies

What happened while queries were assembled and built, in numbers: builds,
evaluated fragments, contradictions, and relations that were created or found.
-/

namespace Criteria

/-- How often relations of one kind were found again and created. -/
structure Usage where
  hits : Nat := 0
  created : Nat := 0
deriving DecidableEq

/-- All counters, at first zero. -/
structure Tally where
  builds : Nat := 0
  failedBuilds : Nat := 0
  evaluated : Nat := 0
  skipped : Nat := 0
  freezes : Nat := 0
  joins : Usage := {}
  fetches : Usage := {}
deriving DecidableEq

namespace Tally

/-- The counters of one kind of relation. -/
def usage (t : Tally) : RelationKind → Usage
  | .join => t.joins
  | .fetch => t.fetches

/-- Changes the counters of one kind of relation. -/
def onUsage (t : Tally) (kind : RelationKind) (f : Usage → Usage) : Tally :=
  match kind with
  | .join => { t with joins := f t.joins }
  | .fetch => { t with fetches := f t.fetches }

@[simp] theorem usage_onUsage (t : Tally) (kind : RelationKind) (f : Usage → Usage) :
    (t.onUsage kind f).usage kind = f (t.usage kind) := by
  cases kind <;> rfl

/-- A relation was found again. -/
def recordHit (t : Tally) (kind : RelationKind) : Tally :=
  t.onUsage kind fun u => { u with hits := u.hits + 1 }

/-- A relation was created. -/
def recordCreated (t : Tally) (kind : RelationKind) : Tally :=
  t.onUsage kind fun u => { u with created := u.created + 1 }

/-- A fragment was evaluated, with or without a constraint as its result. -/
def recordFragment (t : Tally) (constrained : Bool) : Tally :=
  { t with
    evaluated := t.evaluated + 1
    skipped := if constrained then t.skipped else t.skipped + 1 }

/-- A query became a contradiction. -/
def recordFreeze (t : Tally) : Tally := { t with freezes := t.freezes + 1 }

/-- A build began. -/
def recordBuild (t : Tally) : Tally := { t with builds := t.builds + 1 }

/-- A build ended, well or with an error. -/
def recordOutcome (t : Tally) (success : Bool) : Tally :=
  { t with failedBuilds := if success then t.failedBuilds else t.failedBuilds + 1 }

/-- The share of joins that were found among all that were asked for; zero if none was. -/
def joinHitRate (t : Tally) : Binary64 :=
  Binary64.ofRatio t.joins.hits (t.joins.hits + t.joins.created)

end Tally

end Criteria
