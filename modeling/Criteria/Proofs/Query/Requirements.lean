import Mathlib
import Criteria.Proofs.Query.Builds
import Criteria.Proofs.Query.Reduction
import Criteria.Query.Build

/-!
# Missing requirements

A query lacks something if a required value was missing where it, or one of the
queries merged into it, was assembled. Then no build of it has results. A query
that lacks nothing demands what was registered in all of them, in order, as if
it had been assembled by itself.
-/

namespace Criteria.Query

variable {q q' : Query} {s t : Tally}

/-! ## What calls lack and what they register -/

/-- The filter requires a value and has none. -/
def Filter.Lacks : Filter → Prop
  | .required _ value => value = none ∨ value = some (.text "")
  | .requiredIn _ values => values = none ∨ values = some []
  | _ => False

theorem Filter.ofValue_ne_contradict (op : Operator) (value : Option Value) :
    Verdict.ofValue op value ≠ .contradict := by
  cases value <;> simp [Verdict.ofValue]

/-- A query is contradicted by the filters that lack a value, and no others. -/
theorem Filter.verdict_eq_contradict_iff (f : Filter) : f.verdict = .contradict ↔ f.Lacks := by
  cases f with
  | required name value =>
    rw [Filter.verdict, Filter.Lacks]
    cases value with
    | none => simp
    | some v => cases v <;> simp [Value.isBlankText]
  | requiredIn name values =>
    rw [Filter.verdict, Filter.Lacks]
    cases values <;> simp
  | _ => simp [Filter.verdict, Filter.Lacks, Filter.ofValue_ne_contradict]

mutual

/-- A required value is missing somewhere in the call. -/
def Call.Lacks : Call → Prop
  | .filter f => f.Lacks
  | .merge calls => LacksAny calls
  | .demand _ | .shape _ | .prefetch _ => False

/-- A required value is missing somewhere in the calls. -/
def LacksAny : List Call → Prop
  | [] => False
  | call :: calls => call.Lacks ∨ LacksAny calls

end

mutual

/-- The conditions that a call registers, in order, with those of merged queries in their place. -/
def Call.registered : Call → List (Condition Leaf)
  | .filter f =>
    match f.verdict with
    | .register op value => [.leaf (.compare f.name op value)]
    | _ => []
  | .demand condition => condition.toList
  | .shape shaping => [.leaf (.shape shaping)]
  | .prefetch _ => []
  | .merge calls => allRegistered calls

/-- The conditions that the calls register. -/
def allRegistered : List Call → List (Condition Leaf)
  | [] => []
  | call :: calls => call.registered ++ allRegistered calls

end

mutual

/-- The requests of a call, in order, with those of merged queries in their place. -/
def Call.requested : Call → List String
  | .prefetch request => [request]
  | .merge calls => allRequested calls
  | .filter _ | .demand _ | .shape _ => []

/-- The requests of the calls. -/
def allRequested : List Call → List String
  | [] => []
  | call :: calls => call.requested ++ allRequested calls

end

/-! ## Single calls -/

/-- The query with further conditions and requests at the end. -/
def extended (q : Query) (conditions : List (Condition Leaf)) (requests : List String) : Query :=
  { q with
    conjuncts := conditions.foldl Conjuncts.append q.conjuncts
    prefetches := q.prefetches ++ requests }

@[simp] theorem extended_nil (q : Query) : q.extended [] [] = q := by simp [extended]

theorem extended_extended (q : Query) (conditions more : List (Condition Leaf))
    (requests further : List String) :
    (q.extended conditions requests).extended more further =
      q.extended (conditions ++ more) (requests ++ further) := by
  simp [extended, List.foldl_append]

theorem demand_eq_extended (q : Query) (condition : Condition Leaf) :
    q.demand condition = q.extended [condition] [] := by
  simp [demand, extended]

theorem request_eq_extended (q : Query) (request : String) :
    q.request request = q.extended [] [request] := by
  simp [Query.request, extended]

/-- Merging a query that was extended from nothing extends by the same. -/
theorem merge_extended (q : Query) (options : Options) (conditions : List (Condition Leaf))
    (requests : List String) :
    q.merge (extended { options } conditions requests) = q.extended conditions requests := by
  simp [Query.merge, extended, Conjuncts.merge, Conjuncts.empty, Conjuncts.foldl_append,
    Conjuncts.fragments]

theorem register_ok {name : String} {op : Operator} {value : Option Value}
    (h : q.register name op value = .ok q') : q' = q.demand (.leaf (.compare name op value)) := by
  rw [register] at h
  split at h
  · cases h
  · exact (Except.ok.inj h).symm

theorem contradict_ok (h : q.contradict.run s = (.ok q', t)) :
    q' = { q with conjuncts := .contradiction } := by
  obtain ⟨u, s₁, -, h⟩ := Attempt.bind_ok h
  exact (Attempt.pure_ok h).1

/-- A filter that lacks a value leaves a contradiction. -/
theorem filter_ok_of_lacks {f : Filter} (hf : f.Lacks) (h : (q.filter f).run s = (.ok q', t)) :
    q' = { q with conjuncts := .contradiction } := by
  rw [filter, f.verdict_eq_contradict_iff.2 hf] at h
  exact contradict_ok h

/-- A filter that lacks nothing demands what it registers. -/
theorem filter_ok {f : Filter} (hf : ¬ f.Lacks) (h : (q.filter f).run s = (.ok q', t)) :
    q' = q.extended (Call.registered (.filter f)) [] := by
  rw [filter] at h
  rw [Call.registered]
  cases hv : f.verdict with
  | skip =>
    rw [hv] at h
    rw [(Attempt.pure_ok h).1, extended_nil]
  | register op value =>
    rw [hv] at h
    simp only [Attempt.run_ofExcept, Prod.mk.injEq] at h
    rw [register_ok h.1, demand_eq_extended]
  | contradict => exact absurd (f.verdict_eq_contradict_iff.1 hv) hf

theorem applyAll_cons_ok {call : Call} {calls : List Call}
    (h : (q.applyAll (call :: calls)).run s = (.ok q', t)) :
    ∃ q₁ s₁, (q.apply call).run s = (.ok q₁, s₁) ∧ (q₁.applyAll calls).run s₁ = (.ok q', t) :=
  Attempt.bind_ok h

theorem apply_merge_ok {calls : List Call} (h : (q.apply (.merge calls)).run s = (.ok q', t)) :
    ∃ other, (applyAll {} calls).run s = (.ok other, t) ∧ q' = q.merge other := by
  obtain ⟨other, s₁, hother, h⟩ := Attempt.bind_ok h
  obtain ⟨rfl, rfl⟩ := Attempt.pure_ok h
  exact ⟨other, hother, rfl⟩

/-! ## Queries that lack something -/

/-- The query demands what never holds, or was given up. -/
def Doomed (q : Query) : Prop := q.conjuncts.Doomed (.leaf .never)

theorem Doomed.extended (h : q.Doomed) (conditions : List (Condition Leaf))
    (requests : List String) : (q.extended conditions requests).Doomed := by
  induction conditions generalizing q with
  | nil => exact h
  | cons condition conditions ih =>
    have hdemand : (q.demand condition).Doomed := Conjuncts.Doomed.append h condition
    exact ih hdemand

mutual

/-- A call that lacks something dooms the query, and a doomed query stays so. -/
theorem doomed_apply (call : Call) {q q' : Query} {s t : Tally} (h : call.Lacks ∨ q.Doomed)
    (hok : (q.apply call).run s = (.ok q', t)) : q'.Doomed :=
  match call with
  | .filter f => by
    by_cases hf : f.Lacks
    · rw [filter_ok_of_lacks hf hok]
      exact Conjuncts.doomed_contradiction
    · have hq : q.Doomed := h.resolve_left hf
      rw [filter_ok hf hok]
      exact hq.extended _ _
  | .demand condition => by
    have hq : q.Doomed := h.resolve_left id
    cases hok
    cases condition with
    | none => exact hq
    | some condition => exact hq.extended [condition] []
  | .shape shaping => by
    have hq : q.Doomed := h.resolve_left id
    cases hok
    exact hq.extended [_] []
  | .prefetch request => by
    have hq : q.Doomed := h.resolve_left id
    cases hok
    exact hq
  | .merge calls => by
    obtain ⟨other, hother, rfl⟩ := apply_merge_ok hok
    refine Conjuncts.Doomed.merge ?_
    rcases h with h | h
    · exact .inr (doomed_applyAll calls (.inl h) hother)
    · exact .inl h

theorem doomed_applyAll (calls : List Call) {q q' : Query} {s t : Tally}
    (h : LacksAny calls ∨ q.Doomed) (hok : (q.applyAll calls).run s = (.ok q', t)) : q'.Doomed :=
  match calls with
  | [] => by
    have hq : q.Doomed := h.resolve_left id
    cases hok
    exact hq
  | call :: calls => by
    obtain ⟨q₁, s₁, hcall, hcalls⟩ := applyAll_cons_ok hok
    rcases h with (h | h) | h
    · exact doomed_applyAll calls (.inr (doomed_apply call (.inl h) hcall)) hcalls
    · exact doomed_applyAll calls (.inl h) hcalls
    · exact doomed_applyAll calls (.inr (doomed_apply call (.inr h) hcall)) hcalls

end

/-! ## Queries that lack nothing -/

mutual

/-- A call that lacks nothing adds what it registers and requests. -/
theorem apply_eq_extended (call : Call) {q q' : Query} {s t : Tally} (h : ¬ call.Lacks)
    (hok : (q.apply call).run s = (.ok q', t)) : q' = q.extended call.registered call.requested :=
  match call with
  | .filter f => filter_ok h hok
  | .demand condition => by
    cases hok
    cases condition with
    | none => exact (extended_nil q).symm
    | some condition => exact demand_eq_extended q condition
  | .shape shaping => by
    cases hok
    exact demand_eq_extended q _
  | .prefetch request => by
    cases hok
    exact request_eq_extended q request
  | .merge calls => by
    obtain ⟨other, hother, rfl⟩ := apply_merge_ok hok
    rw [applyAll_eq_extended calls h hother, merge_extended]
    rfl

theorem applyAll_eq_extended (calls : List Call) {q q' : Query} {s t : Tally}
    (h : ¬ LacksAny calls) (hok : (q.applyAll calls).run s = (.ok q', t)) :
    q' = q.extended (allRegistered calls) (allRequested calls) :=
  match calls with
  | [] => by
    cases hok
    exact (extended_nil q).symm
  | call :: calls => by
    obtain ⟨q₁, s₁, hcall, hcalls⟩ := applyAll_cons_ok hok
    rw [LacksAny, not_or] at h
    rw [applyAll_eq_extended calls h.2 hcalls, apply_eq_extended call h.1 hcall,
      extended_extended]
    rfl

end

/-- What calls that lack nothing assemble is told from their conditions and requests in order,
however they are merged. -/
theorem assemble_of_not_lacksAny {options : Options} {calls : List Call} (h : ¬ LacksAny calls)
    (hok : (assemble options calls).run s = (.ok q, t)) :
    q = ⟨options, .gathering (allRegistered calls), allRequested calls⟩ := by
  rw [applyAll_eq_extended calls h hok]
  simp [extended, Conjuncts.empty, Conjuncts.foldl_append]

/-! ## Builds -/

variable {E : Type} {meet : Prefetcher E} {w w' : Workspace E Plan} {e : Expr}
  {joins : RelationTable Join}

theorem eval_of_doomed (hq : q.Doomed) (h : (q.build meet).run w = (.ok (e, joins), w'))
    (holds : Operator → String → Option Value → Bool) : e.eval (Atom.truth holds) = false := by
  obtain ⟨w₁, scope, -, hreduce, -⟩ := build_ok h
  refine Conjuncts.Doomed.eval_eq_false hq ?_ hreduce holds
  intro w result hrun
  exact (Except.ok.inj hrun).symm

/-- If a required value was missing anywhere, the expression of a query never holds. Otherwise it
holds just when all results of the registered conditions do, evaluated one after the other once the
requests are met; and nothing depends on how they were merged. -/
theorem build_of_assemble {options : Options} {calls : List Call}
    (hq : (assemble options calls).run s = (.ok q, t))
    (hbuild : (q.build meet).run w = (.ok (e, joins), w')) :
    (LacksAny calls → ∀ holds, e.eval (Atom.truth holds) = false) ∧
    (¬ LacksAny calls →
      (∃ w₁ results scope,
        (q.meetRequests meet).run { w with tally := w.tally.recordBuild } = (.ok (), w₁) ∧
        (Attempt.forEach (Conjuncts.evaluate (·.eval Leaf.eval)) (allRegistered calls)).run
          ⟨.empty .join options.reuseJoins, w₁.host, w₁.tally⟩ = (.ok results, scope) ∧
        ∀ holds, e.eval (Atom.truth holds) = results.all (Expr.admits (Atom.truth holds))) ∧
      ∀ calls' s' q'' t', ¬ LacksAny calls' → allRegistered calls' = allRegistered calls →
        allRequested calls' = allRequested calls →
        (assemble options calls').run s' = (.ok q'', t') → q'' = q) := by
  constructor
  · intro hlacks holds
    have hdoomed : q.Doomed := doomed_applyAll calls (.inl hlacks) hq
    exact eval_of_doomed hdoomed hbuild holds
  · intro hlacks
    have hassembled := assemble_of_not_lacksAny hlacks hq
    subst hassembled
    constructor
    · obtain ⟨w₁, scope, hmeet, hreduce, -⟩ := build_ok hbuild
      obtain ⟨results, hresults, heval⟩ := Conjuncts.reduce_gathering_ok hreduce
      exact ⟨w₁, results, scope, hmeet, hresults, heval⟩
    · intro calls' s' q'' t' hlacks' hregistered hrequested hq''
      rw [assemble_of_not_lacksAny hlacks' hq'', hregistered, hrequested]

/-- Two merges deep, a value is required and missing; what is demanded behind it has no effect. -/
def lackingCalls : List Call :=
  [.filter (.equal "a" (some (.text "x"))),
    .merge [.filter (.notNull "b"), .merge [.filter (.required "c" none), .filter (.null "d")]]]

/-- The same calls with the value that was missing. -/
def completeCalls : List Call :=
  [.filter (.equal "a" (some (.text "x"))),
    .merge [.filter (.notNull "b"),
      .merge [.filter (.required "c" (some (.text "y"))), .filter (.null "d")]]]

theorem build_of_assemble_nested :
    (LacksAny lackingCalls ∧ ∀ holds,
      (Expr.and (.and (.compare .equal "a" (some (.text "x"))) (.compare .isNotNull "b" none))
        .never).eval (Atom.truth holds) = false) ∧
    ¬ LacksAny completeCalls ∧ ∃ results : List (Option Expr), results.length = 4 ∧
      ∀ holds,
        (Expr.and (.and (.and (.compare .equal "a" (some (.text "x")))
            (.compare .isNotNull "b" none)) (.compare .equal "c" (some (.text "y"))))
          (.compare .isNull "d" none)).eval (Atom.truth holds) =
        results.all (Expr.admits (Atom.truth holds)) := by
  have hlacks : LacksAny lackingCalls := by simp [LacksAny, lackingCalls, Call.Lacks, Filter.Lacks]
  have hcomplete : ¬ LacksAny completeCalls := by
    simp [LacksAny, completeCalls, Call.Lacks, Filter.Lacks]
  have hbuilt {calls : List Call} {q : Query} {t : Tally} {e : Expr} {joins : RelationTable Join}
      {w' : Workspace Unit Plan} (hq : (assemble {} calls).run {} = (.ok q, t))
      (hb : (q.build Prefetch.refused).run ⟨(), {}, {}⟩ = (.ok (e, joins), w')) :=
    build_of_assemble hq hb
  refine ⟨⟨hlacks, (hbuilt rfl rfl).1 hlacks⟩, hcomplete, ?_⟩
  obtain ⟨⟨w₁, results, scope, hmeet, hresults, heval⟩, -⟩ := (hbuilt rfl rfl).2 hcomplete
  cases hmeet
  cases hresults
  exact ⟨_, rfl, heval⟩

end Criteria.Query
