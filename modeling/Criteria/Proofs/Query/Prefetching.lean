import Mathlib
import Criteria.Proofs.Property.Views
import Criteria.Proofs.Query.Inquiries

/-!
# Prefetching and conditions

Requests for prefetching and conditions have nothing to do with each other. The
conditions neither make fetches nor go by them, so with and without prefetching
they come to the same; and which fetches are made goes by the requests and the
plan alone, whatever the conditions are and whether or not they fail.
-/

namespace Criteria

open Criteria.Property (Request)
open Criteria.Workspace (seen seen_eq_iff)

/-- The condition of the request, if it has one, neither makes fetches nor goes by them. -/
structure Property.Request.SparesFetches (request : Request) : Prop where
  keeps : request.Keeps Plan.fetches
  sees : request.Sees Plan.withoutFetches

/-- No leaf has anything to do with fetches, unless what callers evaluate has. -/
theorem Leaf.sparesFetches_inquiry {script : Script} (l : Leaf)
    (hcustom : ∀ run, l = custom run → (script run).All Request.SparesFetches) :
    (l.inquiry script).All Request.SparesFetches := by
  refine l.all_inquiry (fun _ => ⟨trivial, trivial⟩) ?_ hcustom
  intro name restriction op value _
  exact ⟨restriction.keeps_fetches_eval, restriction.sees_eval Plan.isView_withoutFetches⟩

/-! ## What requests for prefetching look at -/

namespace Plan

/-- What fetching looks at: the fetches, which names are rejected, and whether results are only
counted. -/
def fetching (p : Plan) : List Link × Set String × Bool :=
  (p.fetches, {name | name ∈ p.rejected}, p.isCount)

theorem fetching_eq_iff {p p' : Plan} :
    p.fetching = p'.fetching ↔ p.fetches = p'.fetches ∧
      (∀ name, name ∈ p.rejected ↔ name ∈ p'.rejected) ∧ p.isCount = p'.isCount := by
  simp [fetching, Set.ext_iff]

theorem sees_fetch (parent : Option Nat) (name : String) : (fetch parent name).Sees fetching := by
  intro p p' h
  obtain ⟨hfetches, hrejected, -⟩ := fetching_eq_iff.1 h
  rw [run_fetch, run_fetch]
  by_cases hname : name ∈ p.rejected
  · rw [if_pos hname, if_pos ((hrejected name).1 hname)]
    exact ⟨rfl, h⟩
  · rw [if_neg hname, if_neg fun hm => hname ((hrejected name).2 hm), hfetches]
    exact ⟨rfl, fetching_eq_iff.2 ⟨rfl, (fetching_eq_iff.1 h).2⟩⟩

theorem keeps_withoutFetches_fetch (parent : Option Nat) (name : String) :
    (fetch parent name).Keeps withoutFetches := by
  intro p
  rw [run_fetch]
  split <;> rfl

end Plan

namespace Prefetch

/-- A request changes nothing in the plan but fetches. -/
theorem keeps_withoutFetches_outlined (request : String) :
    (outlined request).Keeps fun w => w.host.withoutFetches := by
  refine Attempt.keeps_current.bind fun w => ?_
  dsimp only
  split
  · exact Attempt.keeps_pure ()
  · refine Attempt.Keeps.bind (Attempt.Keeps.forEach ?_ _) fun ids => Attempt.keeps_pure ()
    exact RelationTable.keeps_walk Plan.keeps_withoutFetches_fetch none

theorem isCount_outlined (request : String) (w : Workspace (RelationTable Nat) Plan) :
    ((outlined request).run w).2.host.isCount = w.host.isCount := by
  have hcount := congrArg Plan.isCount (keeps_withoutFetches_outlined request w)
  exact hcount

/-- A request goes by the table and by what fetching looks at. -/
theorem sees_outlined (request : String) : (outlined request).Sees (seen Plan.fetching) := by
  refine Attempt.Sees.current_bind (fun w => ?_) fun w w' h => ?_
  · dsimp only
    split
    · exact Attempt.sees_pure ()
    · refine Attempt.Sees.bind (Attempt.Sees.forEach ?_ _) fun ids => Attempt.sees_pure ()
      exact RelationTable.sees_walk Plan.sees_fetch none
  · dsimp only
    rw [(Plan.fetching_eq_iff.1 (seen_eq_iff.1 h).2).2.2]

end Prefetch

namespace Query

variable {q q' : Query} {script : Script} {w w' w₁ w₁' : Workspace (RelationTable Nat) Plan}

/-- The same query, with or without prefetching. -/
def prefetching (q : Query) (prefetch : Bool) : Query :=
  { q with options := { q.options with prefetch } }

@[simp] theorem reduce_prefetching (q : Query) (b : Bool) :
    (q.prefetching b).reduce = q.reduce := rfl

@[simp] theorem opening_prefetching (q : Query) (b : Bool) (w : Workspace (RelationTable Nat) Plan) :
    (q.prefetching b).opening w = q.opening w := rfl

/-- What callers evaluate by themselves are inquiries that have nothing to do with fetches. -/
structure SparesFetches (script : Script) (q : Query) : Prop where
  scripted : q.Scripted script
  custom : ∀ run, Leaf.custom run ∈ q.leaves → (script run).All Request.SparesFetches

theorem SparesFetches.prefetching (h : q.SparesFetches script) (b : Bool) :
    (q.prefetching b).SparesFetches script := ⟨h.scripted, h.custom⟩

theorem SparesFetches.all_inquiry (h : q.SparesFetches script) :
    (q.inquiry script).All Request.SparesFetches := by
  refine Query.all_inquiry fun l hl => l.sparesFetches_inquiry ?_
  rintro run rfl
  exact h.custom run hl

/-! ## Stages -/

/-- Conditions that make no fetches themselves leave the fetches alone. -/
theorem keeps_fetches_reduce (hscript : q.Scripted script)
    (hkeeps : (q.inquiry script).All (Request.Keeps Plan.fetches)) :
    q.reduce.Keeps fun w => w.host.fetches := by
  rw [← attempt_inquiry hscript]
  exact Property.Inquiry.keeps_fetches_attempt hkeeps

theorem SparesFetches.keeps_reduce (h : q.SparesFetches script) :
    q.reduce.Keeps fun w => w.host.fetches :=
  keeps_fetches_reduce h.scripted (h.all_inquiry.mono fun _ => Request.SparesFetches.keeps)

/-- The conditions do not go by fetches. -/
theorem SparesFetches.sees_reduce (h : q.SparesFetches script) :
    q.reduce.Sees (seen Plan.withoutFetches) := by
  rw [← attempt_inquiry h.scripted]
  exact Property.Inquiry.sees_attempt Plan.isView_withoutFetches
    (h.all_inquiry.mono fun _ => Request.SparesFetches.sees)

/-- The requests change nothing in the plan but fetches. -/
theorem keeps_prepare (q : Query) (w : Workspace (RelationTable Nat) Plan) :
    (q.prepare Prefetch.outlined w).2.host.withoutFetches = w.host.withoutFetches := by
  rw [prepare, meetRequests]
  split
  · have hmeet := Attempt.Keeps.forEach Prefetch.keeps_withoutFetches_outlined q.prefetches
    exact (hmeet.bind fun results => Attempt.keeps_pure ()) _
  · rfl

/-- What the requests do goes by their texts, the table and what fetching looks at. -/
theorem sees_prepare (hrequests : q'.prefetches = q.prefetches)
    (hw : w'.seen Plan.fetching = w.seen Plan.fetching) :
    ((q'.prefetching true).prepare Prefetch.outlined w').2.host.fetches =
      ((q.prefetching true).prepare Prefetch.outlined w).2.host.fetches := by
  have hsame : (q'.prefetching true).meetRequests Prefetch.outlined =
      (q.prefetching true).meetRequests Prefetch.outlined := by
    simp only [meetRequests, prefetching, hrequests]
  have hmeet : ((q.prefetching true).meetRequests Prefetch.outlined).Sees (seen Plan.fetching) :=
    (Attempt.Sees.forEach Prefetch.sees_outlined q.prefetches).bind fun _ => Attempt.sees_pure ()
  have hseen := (hmeet { w' with tally := w'.tally.recordBuild }
    { w with tally := w.tally.recordBuild } hw).2
  rw [prepare, prepare, hsame]
  exact (Plan.fetching_eq_iff.1 (seen_eq_iff.1 hseen).2).1

/-! ## Builds -/

/-- All fetches of a build are made while the requests are met. -/
theorem SparesFetches.fetches_build (h : q.SparesFetches script)
    (w : Workspace (RelationTable Nat) Plan) :
    ((q.build Prefetch.outlined).run w).2.host.fetches =
      (q.prepare Prefetch.outlined w).2.host.fetches := by
  rw [run_build]
  rcases q.prepare Prefetch.outlined w with ⟨e | u, w₁⟩
  · rfl
  · have hkeeps := h.keeps_reduce (q.opening w₁)
    dsimp only
    rcases hreduce : q.reduce.run (q.opening w₁) with ⟨e | e, scope⟩ <;>
    · rw [hreduce] at hkeeps
      exact hkeeps

/-- Once the requests are met, builds go on alike, whatever was fetched. -/
theorem SparesFetches.build_congr (h : q.SparesFetches script) {b b' : Bool}
    (hw : (q.prefetching b).prepare Prefetch.outlined w = (.ok (), w₁))
    (hw' : (q.prefetching b').prepare Prefetch.outlined w' = (.ok (), w₁'))
    (heq : w₁.host.withoutFetches = w₁'.host.withoutFetches) :
    let built := ((q.prefetching b).build Prefetch.outlined).run w
    let built' := ((q.prefetching b').build Prefetch.outlined).run w'
    built.1 = built'.1 ∧ built.2.host.withoutFetches = built'.2.host.withoutFetches := by
  intro built built'
  -- Both scopes open with an empty table of joins, and without the fetches their plans agree.
  obtain ⟨hresult, hseen⟩ :=
    h.sees_reduce (q.opening w₁) (q.opening w₁') (seen_eq_iff.2 ⟨rfl, heq⟩)
  simp only [built, built', run_build, hw, hw', reduce_prefetching, opening_prefetching]
  rcases hreduce : q.reduce.run (q.opening w₁) with ⟨r, scope⟩
  rcases hreduce' : q.reduce.run (q.opening w₁') with ⟨r', scope'⟩
  rw [hreduce, hreduce'] at hresult hseen
  obtain ⟨hstore, hhost⟩ := seen_eq_iff.1 hseen
  cases hresult
  cases r with
  | error e => exact ⟨rfl, hhost⟩
  | ok e => exact ⟨congrArg (fun store => Except.ok (e, store)) hstore, hhost⟩

/-- **Prefetching and conditions do not interfere.** If its requests are met, a query comes to the
same with and without prefetching, and to the same plan but for the fetches; without prefetching
these stay as they were. With prefetching they go by the requests and by the fetches, the rejected
names and the way of counting before, whatever the conditions and the reuse of joins are and whether
or not the build succeeds. -/
theorem build_prefetching (h : q.SparesFetches script) (w : Workspace (RelationTable Nat) Plan) :
    let built := ((q.prefetching true).build Prefetch.outlined).run w
    let unfetched := ((q.prefetching false).build Prefetch.outlined).run w
    (((q.prefetching true).prepare Prefetch.outlined w).1 = .ok () → built.1 = unfetched.1 ∧
        built.2.host.withoutFetches = unfetched.2.host.withoutFetches) ∧
      unfetched.2.host.fetches = w.host.fetches ∧
      ∀ (script' : Script) (q' : Query) (w' : Workspace (RelationTable Nat) Plan),
        q'.SparesFetches script' → q'.prefetches = q.prefetches → w'.store = w.store →
        w'.host.fetches = w.host.fetches →
        (∀ name, name ∈ w'.host.rejected ↔ name ∈ w.host.rejected) →
        w'.host.isCount = w.host.isCount →
        (((q'.prefetching true).build Prefetch.outlined).run w').2.host.fetches =
          built.2.host.fetches := by
  intro built unfetched
  refine ⟨fun hmet => ?_, (h.prefetching false).fetches_build w, ?_⟩
  · rcases hprepare : (q.prefetching true).prepare Prefetch.outlined w with ⟨r, w₁⟩
    rw [hprepare] at hmet
    cases hmet
    refine h.build_congr hprepare rfl ?_
    have hkeeps := keeps_prepare (q.prefetching true) w
    rw [hprepare] at hkeeps
    exact hkeeps
  · intro script' q' w' h' hrequests hstore hfetches hrejected hcount
    have hseen : w'.seen Plan.fetching = w.seen Plan.fetching :=
      seen_eq_iff.2 ⟨hstore, Plan.fetching_eq_iff.2 ⟨hfetches, hrejected, hcount⟩⟩
    rw [(h'.prefetching true).fetches_build w', sees_prepare hrequests hseen]
    exact ((h.prefetching true).fetches_build w).symm

/-- A caller's own condition on a property behind a join. -/
def mentioningInquiry : Property.Inquiry (Option Expr) := do
  let path ← Property.Inquiry.single (.path "c.x")
  pure (some (.compare .isNull path none))

/-- Conditions that join, one of them on a join and one a caller's own, beside a request. -/
def mixedQuery : Query where
  conjuncts := .gathering
    [.leaf (.compareOn "a.x" (.join "b" (.compare "y" .isNull none)) .isNull none),
      .leaf (.custom mentioningInquiry.attempt)]
  prefetches := ["a.[b,c]"]

/-- The same request beside a condition on an attribute that may be rejected. -/
def strayQuery : Query where
  options := { reuseJoins := false }
  conjuncts := .gathering [.leaf (.compare "a.ghost" .isNull none)]
  prefetches := ["a.[b,c]"]

theorem build_prefetching_mixed :
    let w : Workspace (RelationTable Nat) Plan := ⟨Prefetch.noFetches, { rejected := ["ghost"] }, {}⟩
    let built := ((mixedQuery.prefetching true).build Prefetch.outlined).run w
    let unfetched := ((mixedQuery.prefetching false).build Prefetch.outlined).run w
    let stray := ((strayQuery.prefetching true).build Prefetch.outlined).run w
    built.1 = unfetched.1 ∧ built.2.host.withoutFetches = unfetched.2.host.withoutFetches ∧
      unfetched.2.host.fetches = [] ∧ stray.2.host.fetches = built.2.host.fetches ∧
      stray.1.isOk = false ∧ built.2.host.fetches.length = 3 := by
  intro w built unfetched stray
  have hmixed : mixedQuery.SparesFetches fun _ => mentioningInquiry := by
    constructor
    · intro run hrun
      simpa [mixedQuery, leaves, Condition.leaves, eq_comm] using hrun
    · exact fun _ _ => (Property.Inquiry.all_single.2 ⟨trivial, trivial⟩).bind fun _ => trivial
  have hstray : strayQuery.SparesFetches fun _ => mentioningInquiry := by
    constructor <;>
    · intro run hrun
      simp [strayQuery, leaves, Condition.leaves] at hrun
  have hmet : ((mixedQuery.prefetching true).prepare Prefetch.outlined w).1 = .ok () := by
    decide +kernel
  obtain ⟨hsame, hkept, hfetches⟩ := build_prefetching hmixed w
  refine ⟨(hsame hmet).1, (hsame hmet).2, hkept, ?_, by decide +kernel, by decide +kernel⟩
  exact hfetches _ strayQuery w hstray rfl rfl rfl (fun _ => Iff.rfl) rfl

end Query

end Criteria
