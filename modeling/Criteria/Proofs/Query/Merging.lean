import Mathlib
import Criteria.Proofs.Query.Requirements

/-!
# Merging as replay

A query that is merged into another one was assembled by itself, from nothing. As
long as no required value was missing among its own calls, the other one might
as well have been given these calls directly: conditions, requests and tally are
the same, and so is every build.

Where a value was missing, the merged query adds one condition that never holds
while the calls themselves would give up what was demanded before. Neither of the
two has results.
-/

namespace Criteria

namespace Conjuncts

variable {F : Type} {never : F} {a b : Conjuncts F}

@[simp] theorem isContradiction_append (c : Conjuncts F) (fragment : F) :
    (c.append fragment).isContradiction = c.isContradiction := by
  cases c <;> rfl

@[simp] theorem isContradiction_foldl_append (c : Conjuncts F) (fragments : List F) :
    (fragments.foldl append c).isContradiction = c.isContradiction := by
  induction fragments generalizing c with
  | nil => rfl
  | cons fragment fragments ih => rw [List.foldl_cons, ih, isContradiction_append]

/-- What is merged does not make a contradiction. -/
@[simp] theorem isContradiction_merge (never : F) (c other : Conjuncts F) :
    (c.merge never other).isContradiction = c.isContradiction :=
  isContradiction_foldl_append c (other.fragments never)

/-- Merging one after the other merges both together, unless the first of them was given up: then it
would have no use for the second. -/
theorem merge_merge (h : a.isContradiction = false) (c : Conjuncts F) :
    (c.merge never a).merge never b = c.merge never (a.merge never b) := by
  cases a with
  | contradiction => cases h
  | gathering fragments =>
    simp only [merge, foldl_append, Conjuncts.fragments, List.foldl_append]

end Conjuncts

namespace Query

variable {q q' other : Query} {call : Call} {calls : List Call} {s t : Tally}

/-! ## Giving up -/

instance (f : Filter) : Decidable f.Lacks :=
  decidable_of_iff ((f.verdict matches .contradict) = true) <| by
    rw [← f.verdict_eq_contradict_iff]
    cases f.verdict <;> simp

/-- The call makes the query a contradiction: it is a filter that lacks a value. A merged query
keeps what it lacks to itself. -/
def Call.GivesUp : Call → Prop
  | .filter f => f.Lacks
  | .demand _ | .shape _ | .prefetch _ | .merge _ => False

instance : (call : Call) → Decidable call.GivesUp
  | .filter f => inferInstanceAs (Decidable f.Lacks)
  | .demand _ | .shape _ | .prefetch _ | .merge _ => inferInstanceAs (Decidable False)

/-- One of the calls makes the query a contradiction. -/
def GivesUp (calls : List Call) : Prop := ∃ call ∈ calls, call.GivesUp

instance (calls : List Call) : Decidable (GivesUp calls) :=
  inferInstanceAs (Decidable (∃ call ∈ calls, call.GivesUp))

theorem givesUp_cons_iff : GivesUp (call :: calls) ↔ call.GivesUp ∨ GivesUp calls := by
  simp [GivesUp]

/-- Who gives up lacks something. -/
theorem GivesUp.lacksAny (h : GivesUp calls) : LacksAny calls := by
  induction calls with
  | nil => simp [GivesUp] at h
  | cons call calls ih =>
    rcases givesUp_cons_iff.1 h with h | h
    · left
      cases call with
      | filter f => exact h
      | _ => exact h.elim
    · exact .inr (ih h)

@[simp] theorem isContradiction_extended (q : Query) (conditions : List (Condition Leaf))
    (requests : List String) :
    (q.extended conditions requests).isContradiction = q.isContradiction :=
  Conjuncts.isContradiction_foldl_append q.conjuncts conditions

/-- A query becomes a contradiction by calls that give up, and by no others. -/
theorem isContradiction_apply (hok : (q.apply call).run s = (.ok q', t)) :
    q'.isContradiction = true ↔ q.isContradiction = true ∨ call.GivesUp := by
  cases call with
  | filter f =>
    by_cases hf : f.Lacks
    · rw [filter_ok_of_lacks hf hok]
      simp [isContradiction, Conjuncts.isContradiction, Call.GivesUp, hf]
    · rw [filter_ok hf hok, isContradiction_extended]
      simp [Call.GivesUp, hf]
  | demand condition =>
    cases hok
    cases condition <;> simp [demand, isContradiction, Call.GivesUp]
  | shape shaping =>
    cases hok
    simp [demand, isContradiction, Call.GivesUp]
  | prefetch request =>
    cases hok
    simp [Query.request, isContradiction, Call.GivesUp]
  | merge calls =>
    obtain ⟨other, -, rfl⟩ := apply_merge_ok hok
    simp [merge, isContradiction, Call.GivesUp]

theorem isContradiction_applyAll (hok : (q.applyAll calls).run s = (.ok q', t)) :
    q'.isContradiction = true ↔ q.isContradiction = true ∨ GivesUp calls := by
  induction calls generalizing q s with
  | nil =>
    cases hok
    simp [GivesUp]
  | cons call calls ih =>
    obtain ⟨q₁, s₁, hcall, hcalls⟩ := applyAll_cons_ok hok
    rw [ih hcalls, isContradiction_apply hcall, givesUp_cons_iff, or_assoc]

/-! ## Replaying -/

@[simp] theorem merge_empty (q : Query) (options : Options) : q.merge { options } = q := by
  simp [Query.merge, Conjuncts.merge, Conjuncts.empty, Conjuncts.fragments]

/-- Merging one query after the other merges both together, unless the first was given up. -/
theorem merge_merge {a b : Query} (h : a.isContradiction = false) (q : Query) :
    (q.merge a).merge b = q.merge (a.merge b) := by
  simp only [Query.merge, Conjuncts.merge_merge h, List.append_assoc]

/-- A call that does not give up might as well be made on a new query which is merged then. -/
theorem apply_eq_merge (h : ¬ call.GivesUp) (q : Query) :
    q.apply call = apply {} call >>= fun other => pure (q.merge other) := by
  have hempty : (({} : Query).conjuncts).isContradiction = false := rfl
  cases call with
  | filter f =>
    rw [apply, apply, filter, filter]
    cases hv : f.verdict with
    | skip => simp
    | register op value =>
      simp only [register]
      by_cases hblank : Text.isBlankText f.name = true
      · rw [if_pos hblank, if_pos hblank]
        rfl
      · rw [if_neg hblank, if_neg hblank]
        have hdemand : ∀ condition, q.merge (demand {} condition) = q.demand condition := by
          intro condition
          rw [demand_eq_extended, merge_extended, demand_eq_extended]
        rw [← hdemand]
        rfl
    | contradict => exact absurd (f.verdict_eq_contradict_iff.1 hv) h
  | demand condition =>
    cases condition with
    | none => simp [apply]
    | some condition => simp [apply, demand_eq_extended, merge_extended]
  | shape shaping => simp [apply, demand_eq_extended, merge_extended]
  | prefetch request => simp [apply, request_eq_extended, merge_extended]
  | merge calls =>
    simp [apply, ← merge_merge hempty]

/-- **Calls none of which gives up do to a query what merging does** that is assembled from them: in
the same way they succeed or go wrong, leave the same query and the same tally. -/
theorem applyAll_eq_merge (h : ¬ GivesUp calls) (q : Query) :
    q.applyAll calls = q.apply (.merge calls) := by
  induction calls generalizing q with
  | nil => simp [applyAll, apply]
  | cons call calls ih =>
    rw [givesUp_cons_iff, not_or] at h
    ext1
    funext s
    have hleft : q.applyAll (call :: calls) =
        apply {} call >>= fun a => applyAll {} calls >>= fun b => pure ((q.merge a).merge b) := by
      rw [applyAll, apply_eq_merge h.1, bind_assoc]
      refine congrArg _ (funext fun a => ?_)
      rw [pure_bind, ih h.2, apply]
    have hright : q.apply (.merge (call :: calls)) =
        apply {} call >>= fun a => applyAll {} calls >>= fun b => pure (q.merge (a.merge b)) := by
      rw [apply, applyAll, bind_assoc]
      refine congrArg _ (funext fun a => ?_)
      rw [ih h.2, apply, bind_assoc]
      rfl
    rw [hleft, hright]
    rcases hcall : (apply {} call).run s with ⟨e | a, s₁⟩
    · rw [Attempt.run_bind_of_error hcall, Attempt.run_bind_of_error hcall]
    · -- the first call has not made a contradiction, so both orders of merging agree
      have ha : a.isContradiction = false := by
        rw [← Bool.not_eq_true, isContradiction_apply hcall]
        simp [h.1, isContradiction, Conjuncts.empty, Conjuncts.isContradiction]
      rw [Attempt.run_bind_of_ok hcall, Attempt.run_bind_of_ok hcall]
      simp only [merge_merge ha]

/-- What was assembled without giving up leaves, made of another query, what merging it leaves. -/
theorem applyAll_merge (hother : (applyAll {} calls).run s = (.ok other, t))
    (hfree : other.isContradiction = false) (q : Query) :
    (q.applyAll calls).run s = (.ok (q.merge other), t) := by
  have hgives : ¬ GivesUp calls := by
    intro h
    rw [(isContradiction_applyAll hother).2 (.inr h)] at hfree
    cases hfree
  rw [applyAll_eq_merge hgives, apply, Attempt.run_bind_of_ok hother, Attempt.run_pure]

/-! ## Builds -/

variable {E : Type}

/-- What is built of the query never holds, whatever the comparisons in it come to. -/
def Unsatisfiable (meet : Prefetcher E) (q : Query) : Prop :=
  ∀ w e joins w', (q.build meet).run w = (.ok (e, joins), w') →
    ∀ holds, e.eval (Atom.truth holds) = false

theorem Doomed.unsatisfiable (h : q.Doomed) (meet : Prefetcher E) : q.Unsatisfiable meet :=
  fun _ _ _ _ hbuild => eval_of_doomed h hbuild

/-- A contradiction dooms the query it is merged into. -/
theorem doomed_merge_of_isContradiction (h : other.isContradiction = true) (q : Query) :
    (q.merge other).Doomed := by
  refine Conjuncts.Doomed.merge (.inr ?_)
  obtain ⟨options, conjuncts, prefetches⟩ := other
  cases conjuncts with
  | gathering fragments => cases h
  | contradiction => exact Conjuncts.doomed_contradiction

/-- **Merging a query is replaying its calls.** If the merged query was not given up, its calls can
be made of the other query as well, with the same tally, and every build comes to the same: result,
joins, plan, store and tally. If it was given up, what is built never holds, either way. -/
theorem build_merge_replayed (meet : Prefetcher E) (q : Query)
    (hother : (applyAll {} calls).run s = (.ok other, t)) :
    (other.isContradiction = false →
      ∃ q', (q.applyAll calls).run s = (.ok q', t) ∧
        ∀ w, (q'.build meet).run w = ((q.merge other).build meet).run w) ∧
    (other.isContradiction = true →
      (q.merge other).Unsatisfiable meet ∧
        ∀ q' s' t', (q.applyAll calls).run s' = (.ok q', t') → q'.Unsatisfiable meet) := by
  constructor
  · intro hfree
    exact ⟨q.merge other, applyAll_merge hother hfree q, fun w => rfl⟩
  · intro hgiven
    have hgives : GivesUp calls := by
      refine ((isContradiction_applyAll hother).1 hgiven).resolve_left ?_
      simp [isContradiction, Conjuncts.empty, Conjuncts.isContradiction]
    refine ⟨(doomed_merge_of_isContradiction hgiven q).unsatisfiable meet, ?_⟩
    intro q' s' t' hq
    exact (doomed_applyAll calls (.inl hgives.lacksAny) hq).unsatisfiable meet

/-- Calls of all kinds, with a query merged among them that is given up. -/
def variedCalls : List Call :=
  [.filter (.equal "a.x" (some (.bool true))), .prefetch "a.[b,c]",
    .demand (some (.or (.leaf (.mention "d.y")) .absent)),
    .merge [.filter (.required "k" none), .prefetch "d"], .shape (.groupBy ["a.x", "z"])]

/-- Calls that give up what was demanded before them and behind. -/
def givenUpCalls : List Call :=
  [.filter (.notNull "d"), .filter (.required "k" (some (.text ""))), .filter (.null "d")]

theorem build_merge_replayed_varied :
    (∃ other t, (applyAll {} variedCalls).run {} = (.ok other, t) ∧ t.freezes = 1 ∧
      ∀ q : Query, ∃ q', (q.applyAll variedCalls).run {} = (.ok q', t) ∧
        ∀ w, (q'.build Prefetch.outlined).run w =
          ((q.merge other).build Prefetch.outlined).run w) ∧
    ∃ other t, (applyAll {} givenUpCalls).run {} = (.ok other, t) ∧
      ∀ q, (merge q other).Unsatisfiable Prefetch.outlined := by
  constructor
  · refine ⟨_, _, rfl, rfl, fun q => ?_⟩
    exact (build_merge_replayed Prefetch.outlined q rfl).1 rfl
  · refine ⟨_, _, rfl, fun q => ?_⟩
    have hgiven : (applyAll {} givenUpCalls).run {} =
        (.ok { conjuncts := .contradiction }, { freezes := 1 }) := rfl
    exact ((build_merge_replayed Prefetch.outlined q hgiven).2 rfl).1

end Query

end Criteria
