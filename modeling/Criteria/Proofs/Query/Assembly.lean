import Mathlib
import Criteria.Proofs.Query.Filters
import Criteria.Proofs.Query.Merging

/-!
# What standard calls assemble

Standard calls are those that bring no conditions of callers' own. What they
assemble demands leaves and no other conditions, in the order of the calls, and
those leaves can fail on nothing but the properties they name.
-/

namespace Criteria

open Criteria.Property (Presentation)

/-! ## Leaves -/

/-- The names of the properties that are shown. -/
def Shaping.names : Shaping → List String
  | distinct => []
  | groupBy names | select names => names

/-- The presentation, where the path of a property is its name. -/
def Shaping.presentation : Shaping → Presentation
  | distinct => .distinct true
  | groupBy names => .groupBy names
  | select names => .select names

namespace Leaf

/-- The names of the properties that the leaf asks for, in order. -/
def names : Leaf → List String
  | compare name _ _ | compareOn name _ _ _ | mention name => [name]
  | shape shaping => shaping.names
  | always | never | nothing | distinct _ | fail _ | custom _ => []

/-- Nothing but a property can be refused, and no condition is put on its joins. -/
def IsDirect : Leaf → Prop
  | compare name op value => Plan.compare op name value = .ok (.compare op name value)
  | compareOn .. | fail _ | custom _ => False
  | always | never | nothing | mention _ | distinct _ | shape _ => True

/-- What a direct leaf comes to if no property is refused. -/
def result : Leaf → Option Expr
  | always | shape _ => some .always
  | never => some .never
  | compare name op value => some (.compare op name value)
  | nothing | mention _ | distinct _ | compareOn .. | fail _ | custom _ => none

/-- The plan after a direct leaf if no property is refused, but for its joins. -/
def settle : Leaf → Plan → Plan
  | distinct value => (Presentation.distinct value).apply
  | shape shaping => shaping.presentation.apply
  | _ => id

@[simp] theorem rejected_settle (l : Leaf) (p : Plan) : (l.settle p).rejected = p.rejected := by
  cases l with
  | distinct value => exact Presentation.rejected_apply _ p
  | shape shaping => exact Presentation.rejected_apply _ p
  | _ => rfl

end Leaf

namespace Query

variable {options : Options} {q q' : Query} {calls : List Call} {s t : Tally}

/-! ## Standard calls -/

mutual

/-- The call brings no condition of the caller's own. -/
def Call.Standard : Call → Prop
  | .demand condition => condition = none
  | .merge calls => AllStandard calls
  | .filter _ | .shape _ | .prefetch _ => True

/-- None of the calls brings a condition of the caller's own. -/
def AllStandard : List Call → Prop
  | [] => True
  | call :: calls => call.Standard ∧ AllStandard calls

end

theorem allStandard_iff : AllStandard calls ↔ ∀ call ∈ calls, call.Standard := by
  induction calls with
  | nil => simp [AllStandard]
  | cons call calls ih => rw [AllStandard, ih, List.forall_mem_cons]

mutual

/-- The leaves that a standard call registers, in order. A merged query that was given up has one
that never holds. -/
def Call.leaves : Call → List Leaf
  | .filter f => f.leaf?.toList
  | .shape shaping => [.shape shaping]
  | .demand _ | .prefetch _ => []
  | .merge calls => if GivesUp calls then [.never] else allLeaves calls

/-- The leaves that standard calls register, in order. -/
def allLeaves : List Call → List Leaf
  | [] => []
  | call :: calls => call.leaves ++ allLeaves calls

end

theorem allLeaves_eq_flatMap (calls : List Call) : allLeaves calls = calls.flatMap Call.leaves := by
  induction calls with
  | nil => rfl
  | cons call calls ih => rw [allLeaves, ih, List.flatMap_cons]

theorem allRequested_eq_flatMap (calls : List Call) :
    allRequested calls = calls.flatMap Call.requested := by
  induction calls with
  | nil => rfl
  | cons call calls ih => rw [allRequested, ih, List.flatMap_cons]

/-- The leaf of a filter compares the property of the filter, with a value if it takes one. -/
theorem Filter.compare_of_leaf? {f : Filter} {l : Leaf} (h : f.leaf? = some l) :
    ∃ op value, l = .compare f.name op value ∧
      Plan.compare op f.name value = .ok (.compare op f.name value) := by
  by_cases hf : f.Lacks
  · rw [Filter.leaf?, f.verdict_eq_contradict_iff.2 hf] at h
    cases h
  · rcases Filter.leaf?_cases hf with ⟨hnone, -⟩ | ⟨op, value, hsome, -, hcompare⟩
    · rw [hnone] at h
      cases h
    · rw [hsome, Option.some.injEq] at h
      exact ⟨op, value, h.symm, hcompare⟩

mutual

theorem isDirect_of_mem_leaves : (call : Call) → ∀ l ∈ call.leaves, l.IsDirect
  | .filter f, l, hl => by
    rw [Call.leaves, Option.mem_toList] at hl
    obtain ⟨op, value, rfl, hcompare⟩ := Filter.compare_of_leaf? hl
    exact hcompare
  | .shape shaping, l, hl => by
    rw [Call.leaves, List.mem_singleton] at hl
    rw [hl]
    trivial
  | .demand _, l, hl | .prefetch _, l, hl => by
    rw [Call.leaves] at hl
    cases hl
  | .merge calls, l, hl => by
    rw [Call.leaves] at hl
    split at hl
    · rw [List.mem_singleton.1 hl]
      trivial
    · exact isDirect_of_mem_allLeaves calls l hl

/-- The leaves that standard calls register can fail on nothing but properties. -/
theorem isDirect_of_mem_allLeaves : (calls : List Call) → ∀ l ∈ allLeaves calls, l.IsDirect
  | [], l, hl => by
    rw [allLeaves] at hl
    cases hl
  | call :: calls, l, hl => by
    rw [allLeaves, List.mem_append] at hl
    exact hl.elim (isDirect_of_mem_leaves call l) (isDirect_of_mem_allLeaves calls l)

end

/-! ## Assembled queries -/

/-- The query, given up. -/
def givenUp (q : Query) : Query := { q with conjuncts := .contradiction }

@[simp] theorem extended_givenUp (q : Query) (conditions : List (Condition Leaf))
    (requests : List String) :
    q.givenUp.extended conditions requests = (q.extended conditions requests).givenUp := by
  simp [extended, givenUp, Conjuncts.foldl_append_contradiction]

@[simp] theorem givenUp_givenUp (q : Query) : q.givenUp.givenUp = q.givenUp := rfl

/-- Merging what was assembled from nothing and then given up. -/
theorem merge_givenUp (q : Query) (options : Options) (conditions : List (Condition Leaf))
    (requests : List String) :
    q.merge (extended { options } conditions requests).givenUp =
      q.extended [.leaf .never] requests := by
  simp [Query.merge, extended, givenUp, Conjuncts.merge, Conjuncts.fragments]

mutual

/-- A standard call extends the query by its leaves and requests, and may give it up. -/
theorem apply_standard (call : Call) {q q' : Query} {s t : Tally} (h : call.Standard)
    (hok : (q.apply call).run s = (.ok q', t)) :
    q' = let extended := q.extended (call.leaves.map .leaf) call.requested
      if call.GivesUp then extended.givenUp else extended :=
  match call with
  | .filter f => by
    by_cases hf : f.Lacks
    · have hleaf : f.leaf? = none := by
        rw [Filter.leaf?, f.verdict_eq_contradict_iff.2 hf]
      rw [filter_ok_of_lacks hf hok]
      simp [Call.GivesUp, hf, Call.leaves, Call.requested, hleaf, givenUp]
    · have hregistered : Call.registered (.filter f) = f.leaf?.toList.map .leaf := by
        rw [Call.registered, Filter.leaf?]
        cases f.verdict <;> rfl
      rw [filter_ok hf hok, hregistered]
      simp [Call.GivesUp, hf, Call.leaves, Call.requested]
  | .demand condition => by
    have hnone : condition = none := h
    subst hnone
    cases hok
    simp [Call.GivesUp, Call.leaves, Call.requested]
  | .shape shaping => by
    cases hok
    simp [Call.GivesUp, Call.leaves, Call.requested, demand_eq_extended]
  | .prefetch request => by
    cases hok
    simp [Call.GivesUp, Call.leaves, Call.requested, request_eq_extended]
  | .merge calls => by
    obtain ⟨other, hother, rfl⟩ := apply_merge_ok hok
    rw [applyAll_standard calls h hother]
    by_cases hgives : GivesUp calls
    · simp [Call.GivesUp, hgives, Call.leaves, Call.requested, merge_givenUp]
    · simp [Call.GivesUp, hgives, Call.leaves, Call.requested, merge_extended]

theorem applyAll_standard (calls : List Call) {q q' : Query} {s t : Tally} (h : AllStandard calls)
    (hok : (q.applyAll calls).run s = (.ok q', t)) :
    q' = let extended := q.extended ((allLeaves calls).map .leaf) (allRequested calls)
      if GivesUp calls then extended.givenUp else extended :=
  match calls with
  | [] => by
    cases hok
    simp [GivesUp, allLeaves, allRequested]
  | call :: calls => by
    obtain ⟨q₁, s₁, hcall, hcalls⟩ := applyAll_cons_ok hok
    rw [applyAll_standard calls h.2 hcalls, apply_standard call h.1 hcall]
    by_cases hfirst : call.GivesUp <;> by_cases hrest : GivesUp calls <;>
      simp [givesUp_cons_iff, hfirst, hrest, allLeaves, allRequested, extended_extended]

end

/-- The leaves that are left of standard calls: none once the query is given up. -/
def demanded (calls : List Call) : List Leaf := if GivesUp calls then [] else allLeaves calls

/-- What standard calls assemble. -/
def assembled (options : Options) (calls : List Call) : Query where
  options := options
  conjuncts :=
    if GivesUp calls then .contradiction else .gathering ((allLeaves calls).map .leaf)
  prefetches := allRequested calls

theorem assemble_standard (h : AllStandard calls)
    (hok : (assemble options calls).run s = (.ok q, t)) : q = assembled options calls := by
  rw [applyAll_standard calls h hok, assembled]
  by_cases hgives : GivesUp calls
  · simp [hgives, givenUp, extended]
  · simp [hgives, extended, Conjuncts.empty, Conjuncts.foldl_append]

theorem leaves_assembled (options : Options) (calls : List Call) :
    (assembled options calls).leaves = demanded calls := by
  rw [assembled, demanded]
  by_cases hgives : GivesUp calls
  · simp [hgives, leaves]
  · rw [if_neg hgives, if_neg hgives]
    exact leaves_demanding options (allLeaves calls)

theorem isContradiction_assembled (options : Options) (calls : List Call) :
    (assembled options calls).isContradiction = decide (GivesUp calls) := by
  rw [assembled, isContradiction]
  by_cases hgives : GivesUp calls <;> simp [hgives, Conjuncts.isContradiction]

theorem isDirect_of_mem_demanded {l : Leaf} (h : l ∈ demanded calls) : l.IsDirect := by
  rw [demanded] at h
  split at h
  · cases h
  · exact isDirect_of_mem_allLeaves calls l h

end Query

end Criteria
