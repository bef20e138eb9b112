import Mathlib
import Criteria.Proofs.Query.Merging
import Criteria.Proofs.Tally

/-!
# Counting what is given up

Assembling enters nothing in the tally but the queries that are given up, the
merged ones among them, and each of them once however many values it lacks.
-/

namespace Criteria.Query

variable {q q₁ q' : Query} {s t : Tally}

mutual

/-- The queries that are merged in a call, each by its calls, with those merged in them. -/
def Call.merged : Call → List (List Call)
  | .merge calls => calls :: allMerged calls
  | .filter _ | .demand _ | .shape _ | .prefetch _ => []

/-- The queries that are merged in the calls. -/
def allMerged : List Call → List (List Call)
  | [] => []
  | call :: calls => call.merged ++ allMerged calls

end

/-- How many of the queries are given up. -/
def countFrozen (queries : List (List Call)) : Nat := queries.countP (GivesUp ·)

theorem countFrozen_cons (calls : List Call) (queries : List (List Call)) :
    countFrozen (calls :: queries) = (if GivesUp calls then 1 else 0) + countFrozen queries := by
  rw [countFrozen, List.countP_cons, countFrozen, Nat.add_comm]
  simp

theorem countFrozen_append (queries more : List (List Call)) :
    countFrozen (queries ++ more) = countFrozen queries + countFrozen more :=
  List.countP_append

/-- One if the query was given up from the first state to the second, and else zero. -/
def frozenFrom (q q' : Query) : Nat := if q'.isContradiction && !q.isContradiction then 1 else 0

theorem frozenFrom_of_eq (h : q'.isContradiction = q.isContradiction) : frozenFrom q q' = 0 := by
  rw [frozenFrom, h, Bool.and_not_self]
  rfl

theorem add_frozenFrom_of_eq (h : q'.isContradiction = q.isContradiction) (s : Tally) :
    s = s + .ofFreezes (frozenFrom q q') := by
  rw [frozenFrom_of_eq h]
  rfl

theorem isContradiction_demand (q : Query) (condition : Condition Leaf) :
    (q.demand condition).isContradiction = q.isContradiction :=
  Conjuncts.isContradiction_append q.conjuncts condition

/-- A query that was given up stays so. -/
theorem frozenFrom_add (h : q.isContradiction = true → q₁.isContradiction = true)
    (h' : q₁.isContradiction = true → q'.isContradiction = true) :
    frozenFrom q q₁ + frozenFrom q₁ q' = frozenFrom q q' := by
  simp only [frozenFrom]
  cases hq : q.isContradiction <;> cases hq₁ : q₁.isContradiction <;>
    cases hq' : q'.isContradiction <;> simp_all

/-- A new query is given up by calls that give up. -/
theorem frozenFrom_new {options : Options} {calls : List Call}
    (hok : (applyAll { options } calls).run s = (.ok q', t)) :
    frozenFrom { options } q' = if GivesUp calls then 1 else 0 := by
  have hgives := isContradiction_applyAll hok
  have hnew : isContradiction { options } = false := rfl
  rw [hnew] at hgives
  rw [frozenFrom, hnew]
  by_cases h : GivesUp calls
  · rw [if_pos h, hgives.2 (.inr h)]
    rfl
  · rw [if_neg h, if_neg]
    simpa [hgives] using h

/-- A filter enters nothing but the query's being given up. -/
theorem tally_filter {f : Filter} (hok : (q.filter f).run s = (.ok q', t)) :
    t = s + .ofFreezes (frozenFrom q q') := by
  rw [filter] at hok
  cases hv : f.verdict with
  | skip =>
    rw [hv] at hok
    cases hok
    exact add_frozenFrom_of_eq rfl s
  | register op value =>
    simp only [hv, Attempt.run_ofExcept, Prod.mk.injEq] at hok
    obtain ⟨hregister, rfl⟩ := hok
    rw [register_ok hregister]
    exact add_frozenFrom_of_eq (isContradiction_demand q _) s
  | contradict =>
    obtain ⟨options, conjuncts, prefetches⟩ := q
    rw [hv] at hok
    cases hok
    cases conjuncts <;> rfl

mutual

/-- What a call enters in the tally. -/
theorem tally_apply (call : Call) {q q' : Query} {s t : Tally}
    (hok : (q.apply call).run s = (.ok q', t)) :
    t = s + .ofFreezes (frozenFrom q q' + countFrozen call.merged) :=
  match call with
  | .filter f => tally_filter hok
  | .demand none => by
    cases hok
    exact add_frozenFrom_of_eq rfl s
  | .demand (some condition) => by
    cases hok
    exact add_frozenFrom_of_eq (isContradiction_demand q condition) s
  | .shape shaping => by
    cases hok
    exact add_frozenFrom_of_eq (isContradiction_demand q _) s
  | .prefetch request => by
    cases hok
    exact add_frozenFrom_of_eq rfl s
  | .merge calls => by
    obtain ⟨other, hother, rfl⟩ := apply_merge_ok hok
    have hsame : (q.merge other).isContradiction = q.isContradiction :=
      Conjuncts.isContradiction_merge _ _ _
    -- The merged query is assembled from new, and this one is not given up with it.
    rw [tally_applyAll calls hother, frozenFrom_new hother, frozenFrom_of_eq hsame, Call.merged,
      countFrozen_cons, Nat.zero_add]

theorem tally_applyAll (calls : List Call) {q q' : Query} {s t : Tally}
    (hok : (q.applyAll calls).run s = (.ok q', t)) :
    t = s + .ofFreezes (frozenFrom q q' + countFrozen (allMerged calls)) :=
  match calls with
  | [] => by
    cases hok
    rw [frozenFrom_of_eq rfl]
    rfl
  | call :: calls => by
    obtain ⟨q₁, s₁, hcall, hcalls⟩ := applyAll_cons_ok hok
    have hfrozen : frozenFrom q q₁ + frozenFrom q₁ q' = frozenFrom q q' :=
      frozenFrom_add (fun h => (isContradiction_apply hcall).2 (.inl h))
        fun h => (isContradiction_applyAll hcalls).2 (.inl h)
    rw [tally_applyAll calls hcalls, tally_apply call hcall, Tally.add_assoc, Tally.ofFreezes_add,
      ← hfrozen, allMerged, countFrozen_append, Nat.add_add_add_comm]

end

/-- Assembling a query counts the queries that were given up, this one and those merged in it. -/
theorem tally_assemble {options : Options} {calls : List Call}
    (hok : (assemble options calls).run s = (.ok q, t)) :
    t = s + .ofFreezes (countFrozen (calls :: allMerged calls)) := by
  rw [tally_applyAll calls hok, frozenFrom_new hok, countFrozen_cons]

end Criteria.Query
