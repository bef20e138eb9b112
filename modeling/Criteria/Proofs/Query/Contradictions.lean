import Mathlib
import Criteria.Proofs.Query.Accounting
import Criteria.Proofs.Query.Filters

/-!
# What is built of contradictions

A query that was given up stays so, whatever is called on it, and keeps nothing
of it but the requests for prefetching. A build of it meets these requests and
does nothing else: no condition is evaluated, and the outcome is the expression
that never holds.
-/

namespace Criteria.Query

variable {q q' : Query} {calls : List Call} {s t : Tally}

/-! ## Further calls -/

mutual

/-- No property without a name is asked for, nor is it in the calls of a query that is merged. -/
def Call.Named : Call → Prop
  | .filter f => Text.isBlankText f.name = false
  | .merge calls => AllNamed calls
  | .demand _ | .shape _ | .prefetch _ => True

/-- No property without a name is asked for in any of the calls. -/
def AllNamed : List Call → Prop
  | [] => True
  | call :: calls => call.Named ∧ AllNamed calls

end

mutual

/-- Calls that name their properties can be made of every query. -/
theorem apply_named : (call : Call) → call.Named → ∀ (q : Query) (s : Tally),
    ∃ q' t, (q.apply call).run s = (.ok q', t)
  | .filter _, h, q, s => filter_total h q s
  | .demand _, _, _, _ | .shape _, _, _, _ | .prefetch _, _, _, _ => ⟨_, _, rfl⟩
  | .merge calls, h, q, s => by
    obtain ⟨other, t, hother⟩ := applyAll_named calls h {} s
    exact ⟨q.merge other, t, Attempt.run_bind_of_ok hother _⟩

theorem applyAll_named : (calls : List Call) → AllNamed calls → ∀ (q : Query) (s : Tally),
    ∃ q' t, (q.applyAll calls).run s = (.ok q', t)
  | [], _, q, s => ⟨q, s, rfl⟩
  | call :: calls, h, q, s => by
    obtain ⟨q₁, s₁, hcall⟩ := apply_named call h.1 q s
    obtain ⟨q', t, hcalls⟩ := applyAll_named calls h.2 q₁ s₁
    exact ⟨q', t, (Attempt.run_bind_of_ok hcall _).trans hcalls⟩

end

mutual

/-- Whatever becomes of the conditions, the options stay and requests are added in order. -/
theorem requests_apply (call : Call) {q q' : Query} {s t : Tally}
    (hok : (q.apply call).run s = (.ok q', t)) :
    q'.options = q.options ∧ q'.prefetches = q.prefetches ++ call.requested :=
  match call with
  | .filter f => by
    by_cases hf : f.Lacks
    · rw [filter_ok_of_lacks hf hok]
      simp [Call.requested]
    · rw [filter_ok hf hok]
      simp [extended, Call.requested]
  | .demand condition => by
    cases hok
    cases condition <;> simp [demand, Call.requested]
  | .shape shaping => by
    cases hok
    simp [demand, Call.requested]
  | .prefetch request => by
    cases hok
    simp [Query.request, Call.requested]
  | .merge calls => by
    obtain ⟨other, hother, rfl⟩ := apply_merge_ok hok
    have hrequests := (requests_applyAll calls hother).2
    simp [Query.merge, Call.requested, hrequests]

theorem requests_applyAll (calls : List Call) {q q' : Query} {s t : Tally}
    (hok : (q.applyAll calls).run s = (.ok q', t)) :
    q'.options = q.options ∧ q'.prefetches = q.prefetches ++ allRequested calls :=
  match calls with
  | [] => by
    cases hok
    simp [allRequested]
  | call :: calls => by
    obtain ⟨q₁, s₁, hcall, hcalls⟩ := applyAll_cons_ok hok
    obtain ⟨hoptions, hrequests⟩ := requests_apply call hcall
    obtain ⟨hoptions', hrequests'⟩ := requests_applyAll calls hcalls
    simp [hoptions', hoptions, hrequests', hrequests, allRequested]

end

/-- A query that was given up keeps nothing of further calls but their requests. -/
theorem applyAll_of_isContradiction (hq : q.isContradiction = true)
    (hok : (q.applyAll calls).run s = (.ok q', t)) :
    q' = ⟨q.options, .contradiction, q.prefetches ++ allRequested calls⟩ := by
  have hgiven := (isContradiction_applyAll hok).2 (.inl hq)
  obtain ⟨hoptions, hrequests⟩ := requests_applyAll calls hok
  obtain ⟨options, conjuncts, prefetches⟩ := q'
  cases conjuncts with
  | gathering fragments => cases hgiven
  | contradiction =>
    subst hoptions hrequests
    rfl

/-! ## Builds -/

/-- A query with requests and no conditions. -/
def requesting (options : Options) (requests : List String) : Query :=
  { options, prefetches := requests }

/-- Requests by themselves add to the requests, and enter nothing in the tally. -/
theorem applyAll_map_prefetch (requests : List String) (q : Query) (s : Tally) :
    (q.applyAll (requests.map .prefetch)).run s =
      (.ok { q with prefetches := q.prefetches ++ requests }, s) := by
  induction requests generalizing q with
  | nil => simp [applyAll]
  | cons request requests ih =>
    have hfirst : (q.apply (.prefetch request)).run s = (.ok (q.request request), s) := rfl
    rw [List.map_cons, applyAll, Attempt.run_bind_of_ok hfirst, ih]
    simp [Query.request]

variable {E : Type} {meet : Prefetcher E} {w w₁ : Workspace E Plan}

/-- Where requests are not met, one of them fails behind others that do not. -/
theorem exists_of_prepare_error {e : Failure} (h : q.prepare meet w = (.error e, w₁)) :
    ∃ before request after results w₂, q.prefetches = before ++ request :: after ∧
      (Attempt.forEach meet before).run { w with tally := w.tally.recordBuild } =
        (.ok results, w₂) ∧
      (meet request).run w₂ = (.error e, w₁) := by
  rw [prepare, meetRequests] at h
  split at h
  · rcases hmet : (Attempt.forEach meet q.prefetches).run
        { w with tally := w.tally.recordBuild } with ⟨e' | results, w₂⟩
    · rw [Attempt.run_bind_of_error hmet] at h
      cases h
      exact Attempt.exists_of_forEach_error hmet
    · rw [Attempt.run_bind_of_ok hmet] at h
      cases h
  · cases h

/-- What is built where requests are met and nothing else is done. If it fails, it fails with one of
the requests, behind others that are met; and else it never holds and needs no joins. What is left
is what the requests alone would leave. -/
structure OnlyMeets (meet : Prefetcher E) (options : Options) (requests : List String)
    (w : Workspace E Plan)
    (built : Except Failure (Expr × RelationTable Join) × Workspace E Plan) : Prop where
  refused : ∀ e, built.1 = .error e → ∃ before request after results w₁ w₂,
    requests = before ++ request :: after ∧
      (Attempt.forEach meet before).run { w with tally := w.tally.recordBuild } =
        (.ok results, w₁) ∧
      (meet request).run w₁ = (.error e, w₂)
  never : ∀ e joins, built.1 = .ok (e, joins) →
    e = .never ∧ joins = .empty .join options.reuseJoins
  left_eq : built.2 = (((requesting options requests).build meet).run w).2

/-- The stages of building a contradiction, beside those of building its requests: the same requests
are met, and then there is nothing to evaluate in either. -/
theorem onlyMeets_contradiction (meet : Prefetcher E) (options : Options) (requests : List String)
    (w : Workspace E Plan) :
    OnlyMeets meet options requests w
      (((⟨options, .contradiction, requests⟩ : Query).build meet).run w) := by
  have hsame : (⟨options, .contradiction, requests⟩ : Query).prepare meet w =
      (requesting options requests).prepare meet w := rfl
  rcases hprepare : (requesting options requests).prepare meet w with ⟨e | u, w₁⟩
  · obtain ⟨before, request, after, results, w₂, hrequests⟩ := exists_of_prepare_error hprepare
    constructor
    · intro e' he
      rw [run_build, hsame, hprepare, Except.error.injEq] at he
      exact ⟨before, request, after, results, w₂, w₁, he ▸ hrequests⟩
    · intro e' joins he
      rw [run_build, hsame, hprepare] at he
      cases he
    · rw [run_build, run_build, hsame, hprepare]
  · constructor
    · intro e he
      rw [run_build, hsame, hprepare] at he
      cases he
    · intro e joins he
      rw [run_build, hsame, hprepare] at he
      cases he
      exact ⟨rfl, rfl⟩
    · rw [run_build, run_build, hsame, hprepare]
      rfl

/-! ## Plans -/

/-- Requests are not counted as fragments. -/
theorem evaluated_meetRequests (q : Query) (w : Workspace (RelationTable Nat) Plan) :
    let met := ((q.meetRequests Prefetch.outlined).run w).2
    met.tally.evaluated = w.tally.evaluated ∧ met.tally.skipped = w.tally.skipped := by
  intro met
  obtain ⟨u, hcounted, -⟩ := countsAt_meetRequests q w
  have hentered : met.tally = w.tally + .only w.store.kind u := hcounted.tally_eq
  rw [hentered]
  cases w.store.kind <;> exact ⟨rfl, rfl⟩

/-- A query with nothing but requests changes nothing in the plan but fetches, and counts no
fragment. -/
theorem spares_build_requesting (options : Options) (requests : List String)
    (w : Workspace (RelationTable Nat) Plan) :
    let left := (((requesting options requests).build Prefetch.outlined).run w).2
    left.host.withoutFetches = w.host.withoutFetches ∧
      left.tally.evaluated = w.tally.evaluated ∧ left.tally.skipped = w.tally.skipped := by
  intro left
  have hkept := keeps_prepare (requesting options requests) w
  have hcounted := evaluated_meetRequests (requesting options requests)
    { w with tally := w.tally.recordBuild }
  rw [← prepare] at hcounted
  simp only [left, run_build]
  rcases hprepare : (requesting options requests).prepare Prefetch.outlined w with ⟨e | u, w₁⟩ <;>
  · rw [hprepare] at hkept hcounted
    exact ⟨hkept, hcounted⟩

/-- **A query that was given up only prefetches.** Whatever is called on it, it stays given up, and
a build meets the requests that were made before and since, in order and with those of merged
queries in their place, and does nothing else. Where requests are read as outlines, nothing in the
plan changes but the fetches, and no fragment is counted. -/
theorem build_givenUp (hq : q.isContradiction = true) (hcalls : AllNamed calls) (s : Tally) :
    let requests := q.prefetches ++ allRequested calls
    ∃ q' t, (q.applyAll calls).run s = (.ok q', t) ∧ q'.isContradiction = true ∧
      (assemble q.options (requests.map .prefetch)).run s =
        (.ok (requesting q.options requests), s) ∧
      (∀ {E : Type} (meet : Prefetcher E) (w : Workspace E Plan),
        OnlyMeets meet q.options requests w ((q'.build meet).run w)) ∧
      ∀ w : Workspace (RelationTable Nat) Plan,
        let left := ((q'.build Prefetch.outlined).run w).2
        left.host.withoutFetches = w.host.withoutFetches ∧
          left.tally.evaluated = w.tally.evaluated ∧ left.tally.skipped = w.tally.skipped := by
  intro requests
  obtain ⟨q', t, hok⟩ := applyAll_named calls hcalls q s
  have hgiven := applyAll_of_isContradiction hq hok
  subst hgiven
  refine ⟨_, t, hok, rfl, applyAll_map_prefetch requests { options := q.options } s, ?_, ?_⟩
  · intro E meet w
    exact onlyMeets_contradiction meet q.options requests w
  · intro w left
    have hleft := (onlyMeets_contradiction Prefetch.outlined q.options requests w).left_eq
    rw [show left = _ from hleft]
    exact spares_build_requesting q.options requests w

/-- A condition that fails, requests, and a merged query that is given up itself. -/
def laterCalls : List Call :=
  [.filter (.equal "a.x" (some (.bool true))), .demand (some (.leaf (.fail (.backend "down")))),
    .prefetch "a.[b,c]", .shape .distinct,
    .merge [.filter (.required "k" (some (.text ""))), .prefetch "d.ghost"],
    .shape (.groupBy ["a.x"])]

/-- The last of the requests fails where its second attribute is rejected. -/
theorem build_givenUp_later :
    let q : Query := { conjuncts := .contradiction, prefetches := ["e"] }
    let q' : Query :=
      { conjuncts := .contradiction, prefetches := ["e", "a.[b,c]", "d.ghost"] }
    let built (plan : Plan) := (q'.build Prefetch.outlined).run ⟨Prefetch.noFetches, plan, {}⟩
    (applyAll {} [.prefetch "e", .filter (.required "k" none)]).run {} =
        (.ok q, { freezes := 1 }) ∧
      q.isContradiction = true ∧ AllNamed laterCalls ∧
      (q.applyAll laterCalls).run { freezes := 1 } = (.ok q', { freezes := 2 }) ∧
      q'.isContradiction = true ∧
      (∀ plan, OnlyMeets Prefetch.outlined {} ["e", "a.[b,c]", "d.ghost"]
        ⟨Prefetch.noFetches, plan, {}⟩ (built plan)) ∧
      (built {}).2.host.withoutFetches = {} ∧ (built {}).2.host.fetches.length = 6 ∧
      (built { rejected := ["ghost"] }).1.isOk = false ∧
      (built { rejected := ["ghost"] }).2.host.fetches.length = 5 := by
  intro q q' built
  have hnamed : AllNamed laterCalls := by simp [AllNamed, laterCalls, Call.Named]; decide
  have hrun : (q.applyAll laterCalls).run { freezes := 1 } = (.ok q', { freezes := 2 }) := rfl
  obtain ⟨_, _, hok, hgiven, -, hmeets, hplan⟩ :=
    build_givenUp (q := q) rfl hnamed { freezes := 1 }
  rw [hrun] at hok
  cases hok
  refine ⟨rfl, rfl, hnamed, hrun, hgiven, fun plan => hmeets Prefetch.outlined _,
    (hplan ⟨Prefetch.noFetches, {}, {}⟩).1, ?_, ?_, ?_⟩
  · decide +kernel
  · decide +kernel
  · decide +kernel

end Criteria.Query
