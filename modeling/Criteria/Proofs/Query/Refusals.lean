import Mathlib
import Criteria.Proofs.Prefetch.Refusals
import Criteria.Proofs.Query.Assembly

/-!
# Why builds fail

A build of standard calls can be refused an attribute by a request for
prefetching, or a property by a leaf. The first refusal, requests before leaves
and each in order, is what the build fails with; without one it succeeds. Leaves
before the one that is refused have changed how results are presented, and no
others.
-/

namespace Criteria

open Criteria.Property (attributes answer Inquiry Presentation)

/-! ## Properties -/

namespace Property

variable {p : Plan}

/-- Why a property is refused: one of its attributes is empty, or else one is rejected, of which the
first counts. -/
def refusal (rejected : List String) (name : String) : Option Failure :=
  if "" ∈ attributes name then some (.invalidTraversal name)
  else ((attributes name).find? (· ∈ rejected)).map .unknownAttribute

theorem answer_eq_refusal (rejected : List String) (name : String) :
    answer rejected name = (refusal rejected name).elim (.ok name) .error := by
  rw [answer, refusal]
  split
  · rfl
  · cases (attributes name).find? (· ∈ rejected) <;> rfl

theorem refusal_ne_unsupportedOperator (rejected : List String) (name what : String) :
    refusal rejected name ≠ some (.unsupportedOperator what) := by
  rw [refusal]
  split
  · simp
  · cases (attributes name).find? (· ∈ rejected) <;> simp

namespace Inquiry

variable {name : String} {names : List String}

theorem reading_path (name : String) (p : Plan) :
    (single (.path name)).reading p = ((refusal p.rejected name).elim (.ok name) .error, p) := by
  rw [← answer_eq_refusal]
  rfl

theorem reading_path_of_eq_none (h : refusal p.rejected name = none) :
    (single (.path name)).reading p = (.ok name, p) := by
  rw [reading_path, h, Option.elim_none]

/-- The paths of properties are their names, unless one is refused. -/
theorem reading_paths (names : List String) (p : Plan) :
    (paths names).reading p =
      ((names.findSome? (refusal p.rejected)).elim (.ok names) .error, p) := by
  induction names with
  | nil => rfl
  | cons name names ih =>
    rw [paths, reading_bind, reading_path, List.findSome?_cons]
    cases refusal p.rejected name with
    | some e => rfl
    | none =>
      simp only [Option.elim_none, reading_bind, ih]
      cases names.findSome? (refusal p.rejected) <;> rfl

theorem reading_paths_of_eq_none (h : names.findSome? (refusal p.rejected) = none) :
    (paths names).reading p = (.ok names, p) := by
  rw [reading_paths, h, Option.elim_none]

/-- If none is refused, all are asked for. -/
theorem asked_paths (h : names.findSome? (refusal p.rejected) = none) :
    (paths names).asked p = names := by
  induction names with
  | nil => rfl
  | cons name names ih =>
    rw [List.findSome?_eq_none_iff, List.forall_mem_cons, ← List.findSome?_eq_none_iff] at h
    rw [paths, asked_bind (reading_path_of_eq_none h.1), asked_bind (reading_paths_of_eq_none h.2),
      ih h.2, asked_pure, asked_single, List.append_nil, List.singleton_append]
    rfl

end Inquiry

end Property

/-! ## Leaves -/

section Leaves

variable {script : Script} {shaping : Shaping} {l : Leaf} {leaves : List Leaf} {p : Plan}

/-- How results are presented is settled unless a property is refused. -/
theorem Shaping.reading_inquiry (shaping : Shaping) (p : Plan) :
    shaping.inquiry.reading p =
      match shaping.names.findSome? (Property.refusal p.rejected) with
      | some e => (.error e, p)
      | none => (.ok (), shaping.presentation.apply p) := by
  cases shaping with
  | distinct => rfl
  | groupBy shown | select shown =>
    rw [inquiry, Inquiry.reading_bind, Inquiry.reading_paths, names]
    cases shown.findSome? (Property.refusal p.rejected) <;> rfl

theorem Shaping.asked_inquiry
    (h : shaping.names.findSome? (Property.refusal p.rejected) = none) :
    shaping.inquiry.asked p = shaping.names := by
  cases shaping with
  | distinct => rfl
  | groupBy shown | select shown =>
    rw [names] at h
    rw [inquiry, Inquiry.asked_bind (Inquiry.reading_paths_of_eq_none h), Inquiry.asked_paths h]
    exact List.append_nil shown

namespace Leaf

/-- Why a leaf is refused: the first of its properties that is. -/
def refusal (rejected : List String) (l : Leaf) : Option Failure :=
  l.names.findSome? (Property.refusal rejected)

theorem refusal_ne_unsupportedOperator (rejected : List String) (l : Leaf) (what : String) :
    l.refusal rejected ≠ some (.unsupportedOperator what) := by
  intro h
  obtain ⟨name, -, hname⟩ := List.exists_of_findSome?_eq_some h
  exact Property.refusal_ne_unsupportedOperator rejected name what hname

/-- A direct leaf is refused, or comes to its result and settles how results are presented. -/
theorem reading_inquiry (h : l.IsDirect) (p : Plan) :
    (l.inquiry script).reading p =
      match l.refusal p.rejected with
      | some e => (.error e, p)
      | none => (.ok l.result, l.settle p) := by
  rw [refusal]
  cases l with
  | compare name op value =>
    have hcompare : Plan.compare op name value = .ok (.compare op name value) := h
    rw [inquiry, Inquiry.reading_bind, Inquiry.reading_path, names, List.findSome?_singleton]
    cases Property.refusal p.rejected name with
    | some e => rfl
    | none =>
      simp only [Option.elim_none, hcompare]
      rfl
  | mention name =>
    rw [inquiry, Inquiry.reading_bind, Inquiry.reading_path, names, List.findSome?_singleton]
    cases Property.refusal p.rejected name <;> rfl
  | shape shaping =>
    rw [inquiry, Inquiry.reading_bind, Shaping.reading_inquiry, names]
    cases shaping.names.findSome? (Property.refusal p.rejected) <;> rfl
  | compareOn name restriction op value => exact h.elim
  | fail failure => exact h.elim
  | custom run => exact h.elim
  | always | never | nothing | distinct value => rfl

/-- A direct leaf that is not refused asks for all its properties. -/
theorem asked_inquiry (h : l.IsDirect) (hnone : l.refusal p.rejected = none) :
    (l.inquiry script).asked p = l.names := by
  rw [refusal] at hnone
  cases l with
  | compare name op value | mention name =>
    rw [names, List.findSome?_singleton] at hnone
    rw [inquiry, Inquiry.asked_bind (Inquiry.reading_path_of_eq_none hnone)]
    rfl
  | shape shaping =>
    have hshaping : shaping.inquiry.reading p = (.ok (), shaping.presentation.apply p) := by
      rw [Shaping.reading_inquiry, show shaping.names.findSome? _ = none from hnone]
    rw [inquiry, Inquiry.asked_bind hshaping, Shaping.asked_inquiry hnone]
    exact List.append_nil shaping.names
  | compareOn name restriction op value => exact h.elim
  | fail failure => exact h.elim
  | custom run => exact h.elim
  | always | never | nothing | distinct value => rfl

/-- The plan after direct leaves, but for its joins: those before the first one that is refused have
settled how results are presented. -/
def settleAll (rejected : List String) (leaves : List Leaf) (p : Plan) : Plan :=
  (leaves.takeWhile fun l => (l.refusal rejected).isNone).foldl (fun p l => l.settle p) p

/-- A leaf that is not refused is settled before the rest. -/
theorem settleAll_cons_of_eq_none {rejected : List String} (h : l.refusal rejected = none)
    (leaves : List Leaf) (p : Plan) :
    settleAll rejected (l :: leaves) p = settleAll rejected leaves (l.settle p) := by
  rw [settleAll, List.takeWhile_cons_of_pos (by simp [h]), List.foldl_cons]
  rfl

theorem settleAll_cons_of_eq_some {rejected : List String} {e : Failure}
    (h : l.refusal rejected = some e) (leaves : List Leaf) (p : Plan) :
    settleAll rejected (l :: leaves) p = p := by
  rw [settleAll, List.takeWhile_cons_of_neg (by simp [h]), List.foldl_nil]

end Leaf

namespace Conjuncts

variable (script) in
/-- Direct leaves come to what is conjoined of their results, unless one of them is refused. -/
theorem reading_inquiryFrom_leaves (h : ∀ l ∈ leaves, l.IsDirect) (before : Option Expr)
    (p : Plan) :
    (inquiryFrom (Condition.inquiry (Leaf.inquiry script)) before (leaves.map .leaf)).reading p =
      ((leaves.findSome? (Leaf.refusal p.rejected)).elim
        (.ok ((leaves.filterMap Leaf.result).foldl
          (fun before e => some (conjoin before e)) before)) .error,
        Leaf.settleAll p.rejected leaves p) := by
  induction leaves generalizing before p with
  | nil => rfl
  | cons l leaves ih =>
    rw [List.forall_mem_cons] at h
    have hleaf : (Condition.leaf l).inquiry (Leaf.inquiry script) = l.inquiry script := rfl
    rw [List.map_cons, inquiryFrom, Inquiry.reading_bind, hleaf, Leaf.reading_inquiry h.1,
      List.findSome?_cons]
    cases hl : l.refusal p.rejected with
    | some e => rw [Leaf.settleAll_cons_of_eq_some hl]; rfl
    | none =>
      simp only [Inquiry.reading, ih h.2, Leaf.rejected_settle, Leaf.settleAll_cons_of_eq_none hl,
        List.filterMap_cons]
      cases l.result <;> rfl

/-- If none is refused, the properties of all leaves are asked for, in order. -/
theorem asked_inquiryFrom_leaves (h : ∀ l ∈ leaves, l.IsDirect) (before : Option Expr)
    (hnone : leaves.findSome? (Leaf.refusal p.rejected) = none) :
    (inquiryFrom (Condition.inquiry (Leaf.inquiry script)) before (leaves.map .leaf)).asked p =
      leaves.flatMap Leaf.names := by
  induction leaves generalizing before p with
  | nil => rfl
  | cons l leaves ih =>
    rw [List.forall_mem_cons] at h
    rw [List.findSome?_eq_none_iff, List.forall_mem_cons, ← List.findSome?_eq_none_iff] at hnone
    have hleaf : (l.inquiry script).reading p = (.ok l.result, l.settle p) := by
      rw [Leaf.reading_inquiry h.1, hnone.1]
    have hrest : leaves.findSome? (Leaf.refusal (l.settle p).rejected) = none := by
      rw [Leaf.rejected_settle]
      exact hnone.2
    rw [List.map_cons, inquiryFrom, Condition.inquiry, Inquiry.asked_bind hleaf,
      Leaf.asked_inquiry h.1 hnone.1, List.flatMap_cons]
    exact congrArg (l.names ++ ·) (ih h.2 _ hrest)

end Conjuncts

end Leaves

/-! ## Presentation -/

/-- How results are presented: whether they are distinct, how they are grouped, and what is
selected. -/
def Plan.shown (p : Plan) : Bool × List String × List String :=
  (p.isDistinct, p.grouping, p.selection)

namespace Leaf

variable {l : Leaf} {leaves : List Leaf} {p p' : Plan}

/-- What a leaf settles depends on nothing else in the plan. -/
theorem shown_settle (h : p.shown = p'.shown) (l : Leaf) :
    (l.settle p).shown = (l.settle p').shown := by
  rw [Plan.shown, Plan.shown, Prod.mk.injEq, Prod.mk.injEq] at h
  cases l with
  | distinct value => simp [settle, Presentation.apply, Plan.shown, h]
  | shape shaping =>
    cases shaping <;> simp [settle, Shaping.presentation, Presentation.apply, Plan.shown, h]
  | _ => simp [settle, Plan.shown, h]

theorem shown_settleAll (h : p.shown = p'.shown) (rejected : List String) (leaves : List Leaf) :
    (settleAll rejected leaves p).shown = (settleAll rejected leaves p').shown := by
  rw [settleAll, settleAll]
  generalize leaves.takeWhile (fun l => (l.refusal rejected).isNone) = settled
  induction settled generalizing p p' with
  | nil => exact h
  | cons l settled ih => exact ih (shown_settle h l)

/-- Nothing is fetched by leaves. -/
theorem fetches_settleAll (rejected : List String) (leaves : List Leaf) (p : Plan) :
    (settleAll rejected leaves p).fetches = p.fetches := by
  have hsettle : ∀ (l : Leaf) (p : Plan), (l.settle p).fetches = p.fetches := by
    intro l p
    cases l with
    | shape shaping => cases shaping <;> rfl
    | _ => rfl
  rw [settleAll]
  generalize leaves.takeWhile (fun l => (l.refusal rejected).isNone) = settled
  induction settled generalizing p with
  | nil => rfl
  | cons l settled ih => rw [List.foldl_cons, ih, hsettle]

end Leaf

/-! ## Builds of standard calls -/

namespace Query

variable {E : Type} {options : Options} {calls : List Call} {plan : Plan} {tally s t : Tally}
  {q : Query}

/-- The expression that standard calls come to if no property is refused. -/
def meaning (calls : List Call) : Expr :=
  if GivesUp calls then .never else Expr.conjunction ((allLeaves calls).filterMap Leaf.result)

/-- Standard calls leave nothing that callers evaluate, so any script will do. -/
def noScript : Script := fun _ => pure none

theorem scripted_assembled (options : Options) (calls : List Call) :
    (assembled options calls).Scripted noScript := by
  intro run hrun
  rw [leaves_assembled] at hrun
  exact (isDirect_of_mem_demanded hrun).elim

/-- All that standard calls leave to be asked for is plain paths. -/
theorem all_assembled {P : Property.Request → Prop} (hpath : ∀ name, P (.path name)) :
    ∀ l ∈ (assembled options calls).leaves, (l.inquiry noScript).All P := by
  intro l hl
  rw [leaves_assembled] at hl
  refine l.all_inquiry hpath ?_ fun _ _ => trivial
  rintro name restriction op value rfl
  exact (isDirect_of_mem_demanded hl).elim

theorem reading_assembled (options : Options) (calls : List Call) (p : Plan) :
    ((assembled options calls).inquiry noScript).reading p =
      (((demanded calls).findSome? (Leaf.refusal p.rejected)).elim (.ok (meaning calls)) .error,
        Leaf.settleAll p.rejected (demanded calls) p) := by
  rw [inquiry, assembled, demanded, meaning]
  by_cases hgives : GivesUp calls
  · simp only [if_pos hgives]
    rfl
  · simp only [if_neg hgives]
    rw [Conjuncts.inquiry, Inquiry.reading_bind,
      Conjuncts.reading_inquiryFrom_leaves _ (isDirect_of_mem_allLeaves calls),
      ← Conjuncts.getD_foldl_conjoin]
    cases (allLeaves calls).findSome? (Leaf.refusal p.rejected) <;> rfl

theorem asked_assembled {p : Plan}
    (h : (demanded calls).findSome? (Leaf.refusal p.rejected) = none) :
    ((assembled options calls).inquiry noScript).asked p =
      (demanded calls).flatMap Leaf.names := by
  rw [demanded] at h ⊢
  rw [inquiry, assembled]
  by_cases hgives : GivesUp calls
  · simp only [if_pos hgives]
    rfl
  · simp only [if_neg hgives] at h ⊢
    have hdirect := isDirect_of_mem_allLeaves calls
    have hread := Conjuncts.reading_inquiryFrom_leaves noScript hdirect none p
    rw [h, Option.elim_none] at hread
    rw [Conjuncts.inquiry, Inquiry.asked_bind hread, Inquiry.asked_pure, List.append_nil,
      Conjuncts.asked_inquiryFrom_leaves hdirect none h]

/-- The requests of standard calls that a build meets: all of them, or none if prefetching is turned
off or the query only counts. -/
def met (options : Options) (calls : List Call) (plan : Plan) : List String :=
  if options.prefetch && !plan.isCount then allRequested calls else []

theorem meets_prepare (options : Options) (calls : List Call) (hfresh : plan.fetches = [])
    (tally : Tally) :
    let prepared := (assembled options calls).prepare Prefetch.outlined
      ⟨Prefetch.noFetches, plan, tally⟩
    Prefetch.Meets plan (met options calls plan) prepared.1 prepared.2.host := by
  intro prepared
  have hnone := Prefetch.meets_nil hfresh
  cases hprefetch : options.prefetch with
  | false =>
    have hprepared : prepared = (.ok (), ⟨Prefetch.noFetches, plan, tally.recordBuild⟩) := by
      simp [prepared, prepare, meetRequests, assembled, hprefetch]
    simpa [met, hprefetch, hprepared] using hnone
  | true =>
    have hprepared : prepared =
        let fetched := (Attempt.forEach Prefetch.outlined (allRequested calls)).run
          ⟨Prefetch.noFetches, plan, tally.recordBuild⟩
        (fetched.1.map fun _ => (), fetched.2) := by
      simp only [prepared, prepare, meetRequests, assembled, hprefetch, if_true, Attempt.run_bind]
      rcases (Attempt.forEach Prefetch.outlined (allRequested calls)).run
        ⟨Prefetch.noFetches, plan, tally.recordBuild⟩ with ⟨_ | _, _⟩ <;> rfl
    cases hcount : plan.isCount with
    | false =>
      rw [hprepared]
      simpa [met, hprefetch, hcount] using
        Prefetch.meets_requests (allRequested calls) hfresh hcount tally.recordBuild
    | true =>
      obtain ⟨results, hrun⟩ := Prefetch.run_forEach_of_isCount
        (w := ⟨Prefetch.noFetches, plan, tally.recordBuild⟩) hcount (allRequested calls)
      rw [hrun] at hprepared
      simpa [met, hprefetch, hcount, hprepared, Except.map] using hnone

/-- The reduction of the conditions fails with the first refusal among the leaves, or comes to the
meaning of the calls; the leaves before the refusal are settled. -/
theorem reduce_assembled (options : Options) (calls : List Call) (w₁ : Workspace E Plan) :
    let q := assembled options calls
    let refused := (demanded calls).findSome? (Leaf.refusal w₁.host.rejected)
    ∃ scope, q.reduce.run (q.opening w₁) = (refused.elim (.ok (meaning calls)) .error, scope) ∧
      scope.host.withoutJoins =
        Leaf.settleAll w₁.host.rejected (demanded calls) w₁.host.withoutJoins ∧
      (refused = none →
        (q.inquiry noScript).names (q.opening w₁) = (demanded calls).flatMap Leaf.names) := by
  intro q refused
  obtain ⟨scope, hrun, hnames, hpasses⟩ := reduce_plain (scripted_assembled options calls)
    (all_assembled fun _ => trivial) options.reuseJoins w₁
  have hhost := hpasses.host_eq
  rw [reading_assembled] at hrun hhost
  exact ⟨scope, hrun, hhost, fun hnone => hnames.trans (asked_assembled hnone)⟩

/-- A build of standard calls fails with the first refusal among its requests and then among its
leaves, or comes to the meaning of the calls. A refused request leaves what is shown as it was. -/
theorem build_assembled (options : Options) (calls : List Call) (hfresh : plan.fetches = [])
    (tally : Tally) :
    let built := ((assembled options calls).build Prefetch.outlined).run
      ⟨Prefetch.noFetches, plan, tally⟩
    let refusedRequest := Prefetch.refusal plan.rejected (met options calls plan)
    let refusedLeaf := (demanded calls).findSome? (Leaf.refusal plan.rejected)
    built.1.map Prod.fst =
        (refusedRequest.or refusedLeaf).elim (.ok (meaning calls)) .error ∧
      built.2.host.shown =
        (if refusedRequest.isSome then plan
          else Leaf.settleAll plan.rejected (demanded calls) plan).shown := by
  intro built refusedRequest refusedLeaf
  have hmeets := meets_prepare options calls hfresh tally
  have hbuilt := run_build Prefetch.outlined (assembled options calls)
    ⟨Prefetch.noFetches, plan, tally⟩
  rcases hprepare : (assembled options calls).prepare Prefetch.outlined
    ⟨Prefetch.noFetches, plan, tally⟩ with ⟨r, w₁⟩
  rw [hprepare] at hmeets hbuilt
  have hresult : r = refusedRequest.elim (.ok ()) .error := hmeets.result_eq
  have hothers : { w₁.host with fetches := [] } = plan := hmeets.others_eq
  have hshown : w₁.host.withoutJoins.shown = plan.shown := by
    rw [← hothers]
    rfl
  have hrejected : w₁.host.rejected = plan.rejected := by rw [← hothers]
  cases hrequest : refusedRequest with
  | some e =>
    rw [hrequest, Option.elim_some] at hresult
    subst hresult
    have hfailed : built = (.error e, { w₁ with tally := w₁.tally.recordOutcome false }) := hbuilt
    rw [hfailed]
    exact ⟨rfl, hshown⟩
  | none =>
    rw [hrequest, Option.elim_none] at hresult
    subst hresult
    obtain ⟨scope, hreduce, hhost, -⟩ := reduce_assembled options calls w₁
    rw [hrejected] at hreduce hhost
    have hsettled : scope.host.shown =
        (Leaf.settleAll plan.rejected (demanded calls) plan).shown :=
      (congrArg Plan.shown hhost).trans (Leaf.shown_settleAll hshown _ _)
    have hleaf : (demanded calls).findSome? (Leaf.refusal plan.rejected) = refusedLeaf := rfl
    simp only [hreduce, hleaf] at hbuilt
    rw [show built = _ from hbuilt]
    cases refusedLeaf with
    | some e => exact ⟨rfl, hsettled⟩
    | none => exact ⟨rfl, hsettled⟩

/-- **Exactly when and with what a build of standard calls fails.** It fails with the first
attribute that is rejected on the leaves of its requests, unless requests are not met; then, unless
the query was given up, with the first property that is refused among those that its conditions
name, in the order of the calls. An operator is never what it fails with. What is shown afterwards
was settled by the leaves before the one that is refused. -/
theorem build_eq_error_iff (hcalls : AllStandard calls)
    (hassemble : (assemble options calls).run s = (.ok q, t)) (hfresh : plan.fetches = [])
    (tally : Tally) :
    let built := (q.build Prefetch.outlined).run ⟨Prefetch.noFetches, plan, tally⟩
    let requests := if options.prefetch && !plan.isCount then allRequested calls else []
    let leaves := if q.isContradiction then [] else allLeaves calls
    let refusedRequest := Prefetch.refusal plan.rejected requests
    let refusedLeaf := leaves.findSome? (Leaf.refusal plan.rejected)
    let settled := if refusedRequest.isSome then []
      else leaves.takeWhile fun l => (l.refusal plan.rejected).isNone
    (∀ e, built.1 = .error e ↔ refusedRequest.or refusedLeaf = some e) ∧
      (∀ what, built.1 ≠ .error (.unsupportedOperator what)) ∧
      built.2.host.shown = (settled.foldl (fun p l => l.settle p) plan).shown := by
  intro built requests leaves refusedRequest refusedLeaf settled
  obtain rfl := assemble_standard hcalls hassemble
  have hleaves : leaves = demanded calls := by
    simp only [leaves, demanded, isContradiction_assembled, decide_eq_true_eq]
  obtain ⟨hresult, hshown⟩ := build_assembled options calls hfresh tally
  have hrequest : Prefetch.refusal plan.rejected (met options calls plan) = refusedRequest := rfl
  rw [hrequest, ← hleaves] at hresult hshown
  have herror : ∀ e, built.1 = .error e ↔ refusedRequest.or refusedLeaf = some e := by
    intro e
    have hmap : built.1 = .error e ↔ built.1.map Prod.fst = .error e := by
      cases built.1 <;> simp [Except.map]
    rw [hmap, hresult]
    cases refusedRequest.or refusedLeaf <;> simp
  refine ⟨herror, ?_, ?_⟩
  · intro what hwhat
    rcases Option.or_eq_some_iff.1 ((herror _).1 hwhat) with hrequests | ⟨-, hleaf⟩
    · exact Prefetch.refusal_ne_unsupportedOperator _ _ what hrequests
    · obtain ⟨l, -, hl⟩ := List.exists_of_findSome?_eq_some hleaf
      exact Leaf.refusal_ne_unsupportedOperator _ l what hl
  · rw [hshown]
    cases hsome : refusedRequest.isSome <;> simp [settled, hsome, Leaf.settleAll]

/-- Calls of all standard kinds, with a query merged among them that was given up. -/
def refusedCalls : List Call :=
  [.shape .distinct, .filter (.equal "a.x" (some (.bool true))),
    .merge [.filter (.null "c..y"), .filter (.required "k" none), .prefetch "a.[b,d]"],
    .shape (.groupBy ["a.x", "z"]), .shape (.select ["k", "b.c.y", "c"]), .shape (.groupBy [])]

theorem build_eq_error_iff_rejected :
    ∃ q t, (assemble {} refusedCalls).run {} = (.ok q, t) ∧
      (∃ w, (q.build Prefetch.outlined).run ⟨Prefetch.noFetches, { rejected := ["c"] }, {}⟩ =
          (.error (.unknownAttribute "c"), w) ∧
        w.host.shown = (true, ["a.x", "z"], [])) ∧
      ∃ w, (q.build Prefetch.outlined).run ⟨Prefetch.noFetches, { rejected := ["c", "d"] }, {}⟩ =
          (.error (.unknownAttribute "d"), w) ∧
        w.host.shown = (false, [], []) := by
  have hcalls : AllStandard refusedCalls := by simp [refusedCalls, AllStandard, Call.Standard]
  have hassemble : (assemble {} refusedCalls).run {} =
      (.ok (assembled {} refusedCalls), { freezes := 1 }) := rfl
  have hfails := fun rejected : List String =>
    build_eq_error_iff hcalls hassemble (show ({ rejected } : Plan).fetches = [] from rfl) {}
  refine ⟨_, _, hassemble, ⟨_, Prod.ext ?_ rfl, ?_⟩, _, Prod.ext ?_ rfl, ?_⟩
  · exact ((hfails ["c"]).1 _).2 (by decide +kernel)
  · exact (hfails ["c"]).2.2.trans (by decide +kernel)
  · exact ((hfails ["c", "d"]).1 _).2 (by decide +kernel)
  · exact (hfails ["c", "d"]).2.2.trans (by decide +kernel)

end Query

end Criteria
