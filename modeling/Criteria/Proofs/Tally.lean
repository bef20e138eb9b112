import Mathlib
import Criteria.Expr
import Criteria.Tally

/-!
# Sums of tallies

Whatever is entered in a tally adds to it, so entries that are made one after the
other are added up.
-/

namespace Criteria

attribute [ext] Usage Tally

instance : Add Usage where
  add u v := ⟨u.hits + v.hits, u.created + v.created⟩

namespace Usage

@[simp] theorem hits_add (u v : Usage) : (u + v).hits = u.hits + v.hits := rfl

@[simp] theorem created_add (u v : Usage) : (u + v).created = u.created + v.created := rfl

end Usage

instance : Add Tally where
  add s t :=
    { builds := s.builds + t.builds
      failedBuilds := s.failedBuilds + t.failedBuilds
      evaluated := s.evaluated + t.evaluated
      skipped := s.skipped + t.skipped
      freezes := s.freezes + t.freezes
      joins := s.joins + t.joins
      fetches := s.fetches + t.fetches }

namespace Tally

@[simp] theorem builds_add (s t : Tally) : (s + t).builds = s.builds + t.builds := rfl

@[simp] theorem failedBuilds_add (s t : Tally) :
    (s + t).failedBuilds = s.failedBuilds + t.failedBuilds := rfl

@[simp] theorem evaluated_add (s t : Tally) : (s + t).evaluated = s.evaluated + t.evaluated := rfl

@[simp] theorem skipped_add (s t : Tally) : (s + t).skipped = s.skipped + t.skipped := rfl

@[simp] theorem freezes_add (s t : Tally) : (s + t).freezes = s.freezes + t.freezes := rfl

@[simp] theorem joins_add (s t : Tally) : (s + t).joins = s.joins + t.joins := rfl

@[simp] theorem fetches_add (s t : Tally) : (s + t).fetches = s.fetches + t.fetches := rfl

theorem zero_add (t : Tally) : {} + t = t := by
  ext <;> exact Nat.zero_add _

theorem add_zero (t : Tally) : t + {} = t := rfl

theorem add_assoc (s t u : Tally) : s + t + u = s + (t + u) := by
  ext <;> exact Nat.add_assoc ..

theorem add_right_comm (s t u : Tally) : s + t + u = s + u + t := by
  ext <;> exact Nat.add_right_comm ..

theorem usage_add (s t : Tally) (kind : RelationKind) :
    (s + t).usage kind = s.usage kind + t.usage kind := by
  cases kind <;> rfl

/-- The tally with nothing but counters of one kind of relation. -/
def only (kind : RelationKind) (u : Usage) : Tally := onUsage {} kind fun _ => u

@[simp] theorem usage_only (kind : RelationKind) (u : Usage) : (only kind u).usage kind = u :=
  usage_onUsage _ _ _

theorem only_join (u : Usage) : only .join u = { joins := u } := rfl

theorem only_fetch (u : Usage) : only .fetch u = { fetches := u } := rfl

theorem only_zero (kind : RelationKind) : only kind {} = {} := by cases kind <;> rfl

theorem only_add (kind : RelationKind) (u v : Usage) :
    only kind u + only kind v = only kind (u + v) := by
  cases kind <;> rfl

theorem recordHit_eq_add (t : Tally) (kind : RelationKind) :
    t.recordHit kind = t + only kind ⟨1, 0⟩ := by
  cases kind <;> rfl

theorem recordCreated_eq_add (t : Tally) (kind : RelationKind) :
    t.recordCreated kind = t + only kind ⟨0, 1⟩ := by
  cases kind <;> rfl

/-- The tally of builds that were begun. -/
def ofBuilds (n : Nat) : Tally := { builds := n }

theorem recordBuild_eq_add (t : Tally) : t.recordBuild = t + ofBuilds 1 := rfl

/-- The tally of builds that failed. -/
def ofFailures (n : Nat) : Tally := { failedBuilds := n }

theorem recordOutcome_eq_add (t : Tally) : t.recordOutcome false = t + ofFailures 1 := rfl

/-- The tally of queries that were given up. -/
def ofFreezes (n : Nat) : Tally := { freezes := n }

theorem ofFreezes_add (n m : Nat) : ofFreezes n + ofFreezes m = ofFreezes (n + m) := rfl

/-- The tally of fragments with their results. -/
def ofResults (results : List (Option Expr)) : Tally :=
  { evaluated := results.length, skipped := results.countP (·.isNone) }

@[simp] theorem usage_ofResults (results : List (Option Expr)) (kind : RelationKind) :
    (ofResults results).usage kind = {} := by
  cases kind <;> rfl

theorem recordFragment_eq_add (t : Tally) (result : Option Expr) :
    t.recordFragment result.isSome = t + ofResults [result] := by
  cases result <;> rfl

/-- The entry for a result, with those for the results behind it. -/
theorem ofResults_cons (result : Option Expr) (results : List (Option Expr)) :
    ofResults [result] + ofResults results = ofResults (result :: results) := by
  ext <;> simp [ofResults, List.countP_cons, Nat.add_comm]

/-- Relations and fragments are entered in turn; in the end they are counted separately. -/
theorem only_add_ofResults (kind : RelationKind) (u v : Usage) (result : Option Expr)
    (results : List (Option Expr)) :
    only kind u + (ofResults [result] + (only kind v + ofResults results)) =
      only kind (u + v) + ofResults (result :: results) := by
  have hskipped : (result :: results).countP (·.isNone) =
      [result].countP (·.isNone) + results.countP (·.isNone) := by
    rw [← List.countP_append, List.singleton_append]
  cases kind <;> ext <;> simp [only_join, only_fetch, ofResults, hskipped] <;> omega

/-- The entries of a build, one behind the other. -/
theorem sum_eq (frozen failed : Nat) (u v : Usage) (results : List (Option Expr)) :
    {} + ofFreezes frozen + (ofBuilds 1 + only .fetch u) + (only .join v + ofResults results) +
        ofFailures failed =
      { builds := 1, failedBuilds := failed, evaluated := results.length
        skipped := results.countP (·.isNone), freezes := frozen, joins := v, fetches := u } := by
  ext <;> simp [only_join, only_fetch, ofBuilds, ofFreezes, ofResults, ofFailures]

end Tally

end Criteria
