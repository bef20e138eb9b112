import Mathlib
import Criteria.Proofs.Query.Joins
import Criteria.Proofs.Query.Refusals

/-!
# The order of filters

Filters and requests mean the same in any order. What differs is which of them is
refused first, how joins and fetches are numbered, and how the expression is
written, and none of this tells whether a build succeeds, which results it has,
or where its joins and fetches lead.

No call is followed through both builds for this. Either build is told from the
leaves and the requests of all calls, and these only change places.
-/

namespace Criteria

open Criteria.Property (joined)
open Criteria.Relation (chainsOf)

/-! ## Conjunctions -/

theorem Expr.eval_foldl_and (holds : Atom → Bool) (e : Expr) (es : List Expr) :
    (es.foldl .and e).eval holds = (e.eval holds && es.all (·.eval holds)) := by
  induction es generalizing e with
  | nil => simp
  | cons e' es ih => rw [List.foldl_cons, ih, List.all_cons, Expr.eval, Bool.and_assoc]

/-- A conjunction holds if all its members do. -/
theorem Expr.eval_conjunction (holds : Operator → String → Option Value → Bool)
    (es : List Expr) :
    (Expr.conjunction es).eval (Atom.truth holds) = es.all (·.eval (Atom.truth holds)) := by
  cases es with
  | nil => rfl
  | cons e es => exact eval_foldl_and _ e es

/-! ## Refusals -/

/-- The order of requests makes no difference to whether one is refused. -/
theorem Prefetch.refusal_perm {requests requests' : List String} (h : requests.Perm requests')
    (rejected : List String) :
    refusal rejected requests = none ↔ refusal rejected requests' = none := by
  rw [refusal, refusal, Option.map_eq_none_iff, Option.map_eq_none_iff, List.find?_eq_none,
    List.find?_eq_none]
  exact forall_congr' fun name => by rw [(h.flatMap_right _).mem_iff]

/-- Nor does the order of leaves. -/
theorem Leaf.refusal_perm {leaves leaves' : List Leaf} (h : leaves.Perm leaves')
    (rejected : List String) :
    leaves.findSome? (refusal rejected) = none ↔ leaves'.findSome? (refusal rejected) = none := by
  rw [List.findSome?_eq_none_iff, List.findSome?_eq_none_iff]
  exact forall_congr' fun l => by rw [h.mem_iff]

namespace Query

variable {options : Options} {call : Call} {calls calls' : List Call} {plan : Plan} {e : Expr}
  {tally : Tally} {joins : RelationTable Join} {w : Workspace (RelationTable Nat) Plan}

/-! ## What the calls come to -/

theorem givesUp_perm (h : calls.Perm calls') : GivesUp calls ↔ GivesUp calls' := by
  rw [GivesUp, GivesUp]
  exact exists_congr fun call => by rw [h.mem_iff]

theorem allLeaves_perm (h : calls.Perm calls') : (allLeaves calls).Perm (allLeaves calls') := by
  rw [allLeaves_eq_flatMap, allLeaves_eq_flatMap]
  exact h.flatMap_right _

theorem demanded_perm (h : calls.Perm calls') : (demanded calls).Perm (demanded calls') := by
  rw [demanded, demanded]
  by_cases hgives : GivesUp calls
  · rw [if_pos hgives, if_pos ((givesUp_perm h).1 hgives)]
  · rw [if_neg hgives, if_neg (mt (givesUp_perm h).2 hgives)]
    exact allLeaves_perm h

theorem met_perm (h : calls.Perm calls') (options : Options) (plan : Plan) :
    (met options calls plan).Perm (met options calls' plan) := by
  rw [met, met]
  split
  · rw [allRequested_eq_flatMap, allRequested_eq_flatMap]
    exact h.flatMap_right _
  · rfl

theorem eval_meaning_perm (h : calls.Perm calls')
    (holds : Operator → String → Option Value → Bool) :
    (meaning calls).eval (Atom.truth holds) = (meaning calls').eval (Atom.truth holds) := by
  rw [meaning, meaning]
  by_cases hgives : GivesUp calls
  · rw [if_pos hgives, if_pos ((givesUp_perm h).1 hgives)]
  · rw [if_neg hgives, if_neg (mt (givesUp_perm h).2 hgives), Expr.eval_conjunction,
      Expr.eval_conjunction]
    exact ((allLeaves_perm h).filterMap _).all_eq

/-! ## What a build leaves -/

/-- A build of standard calls succeeds if nothing is refused. -/
theorem isOk_build_assembled (options : Options) (calls : List Call) (hfresh : plan.fetches = [])
    (tally : Tally) :
    (((assembled options calls).build Prefetch.outlined).run
        ⟨Prefetch.noFetches, plan, tally⟩).1.isOk = true ↔
      Prefetch.refusal plan.rejected (met options calls plan) = none ∧
        (demanded calls).findSome? (Leaf.refusal plan.rejected) = none := by
  obtain ⟨hresult, -⟩ := build_assembled options calls hfresh tally
  have hmap : ∀ r : Except Failure (Expr × RelationTable Join),
      r.isOk = (r.map Prod.fst).isOk := by
    rintro (error | result) <;> rfl
  rw [hmap, hresult, ← Option.or_eq_none_iff]
  cases (Prefetch.refusal plan.rejected (met options calls plan)).or
    ((demanded calls).findSome? (Leaf.refusal plan.rejected)) <;> simp [Except.isOk, Except.toBool]

/-- A build of standard calls that succeeds comes to their meaning, and has fetched what they
request. If joins are reused, it has made those of the properties that they name. -/
theorem build_assembled_ok (hjoins : plan.joins = []) (hfetches : plan.fetches = [])
    (hbuild : ((assembled options calls).build Prefetch.outlined).run
      ⟨Prefetch.noFetches, plan, tally⟩ = (.ok (e, joins), w)) :
    e = meaning calls ∧
      (options.reuseJoins = true → chainsOf w.host.joins =
        (((demanded calls).flatMap Leaf.names).flatMap joined).eraseDups) ∧
      chainsOf w.host.fetches = ((met options calls plan).flatMap Prefetch.asked).eraseDups := by
  obtain ⟨hnone, hnames⟩ := (isOk_build_assembled options calls hfetches tally).1 (by
    rw [hbuild]
    rfl)
  have hmeets := meets_prepare options calls hfetches tally
  obtain ⟨w₁, scope, hprepare, hreduce, rfl, rfl⟩ := build_ok hbuild
  rw [hprepare] at hmeets
  have hothers : { w₁.host with fetches := [] } = plan := hmeets.others_eq
  have hrejected : w₁.host.rejected = plan.rejected := by rw [← hothers]
  have hjoins₁ : w₁.host.joins = [] := by rw [← hjoins, ← hothers]
  obtain ⟨scope', hrun, hhost, hasked⟩ := reduce_assembled options calls w₁
  rw [hrejected] at hrun hhost hasked
  rw [hreduce, hnames, Option.elim_none, Prod.mk.injEq, Except.ok.injEq] at hrun
  obtain ⟨rfl, rfl⟩ := hrun
  refine ⟨rfl, ?_, ?_⟩
  · intro hreuse
    have hcharted := charted_reduce hreuse (scripted_assembled options calls)
      (fun _ _ => trivial) (all_assembled fun _ => trivial) hjoins₁ hreduce
    rw [hasked hnames] at hcharted
    exact hcharted.traces.chainsOf_eq
  · have hkept : scope.host.fetches = w₁.host.fetches :=
      (congrArg Plan.fetches hhost).trans (Leaf.fetches_settleAll _ _ _)
    rw [← hmeets.chainsOf_eq hnone]
    exact congrArg chainsOf hkept

/-! ## Calls in any order -/

/-- A filter on a property that has a name, or a request. -/
def Call.IsUnordered : Call → Prop
  | .filter f => Text.isBlankText f.name = false
  | .prefetch _ => True
  | .demand _ | .shape _ | .merge _ => False

instance : (call : Call) → Decidable call.IsUnordered
  | .filter f => inferInstanceAs (Decidable (Text.isBlankText f.name = false))
  | .prefetch _ => inferInstanceAs (Decidable True)
  | .demand _ | .shape _ | .merge _ => inferInstanceAs (Decidable False)

theorem Call.IsUnordered.standard (h : call.IsUnordered) : call.Standard := by
  cases call with
  | filter f | prefetch request => trivial
  | demand condition | shape shaping | merge calls => exact h.elim

theorem Call.IsUnordered.apply_total (h : call.IsUnordered) (q : Query) (s : Tally) :
    ∃ q' t, (q.apply call).run s = (.ok q', t) := by
  cases call with
  | filter f => exact filter_total h q s
  | prefetch request => exact ⟨_, _, rfl⟩
  | demand condition | shape shaping | merge calls => exact h.elim

/-- Such calls can be made, and assemble what standard calls do. -/
theorem assemble_unordered (h : ∀ call ∈ calls, call.IsUnordered) (options : Options) (s : Tally) :
    ∃ t, (assemble options calls).run s = (.ok (assembled options calls), t) := by
  have hstandard : AllStandard calls := allStandard_iff.2 fun call hcall => (h call hcall).standard
  obtain ⟨q, t, hq⟩ := applyAll_total (fun call hcall => (h call hcall).apply_total) { options } s
  refine ⟨t, hq.trans ?_⟩
  rw [assemble_standard hstandard hq]

/-- **The order of filters and requests does not matter.** Either both orders give the query up or
neither does, and either both builds fail or both succeed. If they succeed, both expressions are
true of the same comparisons, and fetches lead along the same chains, as do joins if they are
reused. -/
theorem build_perm (hcalls : ∀ call ∈ calls, call.IsUnordered) (hperm : calls.Perm calls')
    (options : Options) (s s' tally tally' : Tally) (hjoins : plan.joins = [])
    (hfetches : plan.fetches = []) :
    ∃ q q' t t', (assemble options calls).run s = (.ok q, t) ∧
      (assemble options calls').run s' = (.ok q', t') ∧
      q.isContradiction = q'.isContradiction ∧
      let built := (q.build Prefetch.outlined).run ⟨Prefetch.noFetches, plan, tally⟩
      let built' := (q'.build Prefetch.outlined).run ⟨Prefetch.noFetches, plan, tally'⟩
      built.1.isOk = built'.1.isOk ∧
        ∀ e e' joins joins', built.1 = .ok (e, joins) → built'.1 = .ok (e', joins') →
          (∀ holds, e.eval (Atom.truth holds) = e'.eval (Atom.truth holds)) ∧
          (options.reuseJoins = true → ∀ chain,
            chain ∈ chainsOf built.2.host.joins ↔ chain ∈ chainsOf built'.2.host.joins) ∧
          ∀ chain,
            chain ∈ chainsOf built.2.host.fetches ↔ chain ∈ chainsOf built'.2.host.fetches := by
  have hcalls' : ∀ call ∈ calls', call.IsUnordered := fun call hcall =>
    hcalls call (hperm.mem_iff.2 hcall)
  obtain ⟨t, hassemble⟩ := assemble_unordered hcalls options s
  obtain ⟨t', hassemble'⟩ := assemble_unordered hcalls' options s'
  refine ⟨_, _, t, t', hassemble, hassemble', ?_, ?_⟩
  · rw [isContradiction_assembled, isContradiction_assembled, decide_eq_decide]
    exact givesUp_perm hperm
  intro built built'
  constructor
  · rw [Bool.eq_iff_iff, isOk_build_assembled options calls hfetches,
      isOk_build_assembled options calls' hfetches,
      Prefetch.refusal_perm (met_perm hperm options plan), Leaf.refusal_perm (demanded_perm hperm)]
  · intro e e' joins joins' hbuilt hbuilt'
    obtain ⟨rfl, hchains, hfetched⟩ :=
      build_assembled_ok hjoins hfetches (Prod.ext hbuilt rfl)
    obtain ⟨rfl, hchains', hfetched'⟩ :=
      build_assembled_ok hjoins hfetches (Prod.ext hbuilt' rfl)
    refine ⟨eval_meaning_perm hperm, fun hreuse chain => ?_, fun chain => ?_⟩
    · rw [hchains hreuse, hchains' hreuse, List.mem_eraseDups, List.mem_eraseDups]
      exact (((demanded_perm hperm).flatMap_right _).flatMap_right _).mem_iff
    · rw [hfetched, hfetched', List.mem_eraseDups, List.mem_eraseDups]
      exact ((met_perm hperm options plan).flatMap_right _).mem_iff

/-- Filters behind joins that they share, among requests that share relations. -/
def sharingCalls : List Call :=
  [.filter (.equal "a.b.x" (some (.bool true))), .prefetch "d.[e,f]", .filter (.equal "c.x" none),
    .filter (.required "a.y" (some (.text "v"))), .prefetch "d.e.g", .filter (.notNull "k.x")]

theorem build_perm_reversed :
    ∃ q q' t t', (assemble {} sharingCalls).run {} = (.ok q, t) ∧
      (assemble {} sharingCalls.reverse).run {} = (.ok q', t') ∧
      let built := (q.build Prefetch.outlined).run ⟨Prefetch.noFetches, {}, {}⟩
      let built' := (q'.build Prefetch.outlined).run ⟨Prefetch.noFetches, {}, {}⟩
      chainsOf built.2.host.joins = [["a"], ["a", "b"], ["k"]] ∧
        (∀ chain, chain ∈ chainsOf built'.2.host.joins ↔ chain ∈ [["a"], ["a", "b"], ["k"]]) ∧
        ∀ chain, chain ∈ chainsOf built'.2.host.fetches ↔
          chain ∈ [["d"], ["d", "e"], ["d", "f"], ["d", "e", "g"]] := by
  have hassemble : (assemble {} sharingCalls).run {} = (.ok (assembled {} sharingCalls), {}) := rfl
  have hunordered : ∀ call ∈ sharingCalls, call.IsUnordered := by decide +kernel
  obtain ⟨q, q', t, t', hq, hq', -, hsame, hbuilds⟩ := build_perm hunordered
    (List.reverse_perm sharingCalls).symm {} {} {} {} {} (show ({} : Plan).joins = [] from rfl) rfl
  rw [hassemble] at hq
  cases hq
  generalize hbuilt : ((assembled {} sharingCalls).build Prefetch.outlined).run
    ⟨Prefetch.noFetches, {}, {}⟩ = built at hsame hbuilds
  have hjoins : chainsOf built.2.host.joins = [["a"], ["a", "b"], ["k"]] := by
    rw [← hbuilt]
    decide +kernel
  have hfetches : chainsOf built.2.host.fetches =
      [["d"], ["d", "e"], ["d", "f"], ["d", "e", "g"]] := by
    rw [← hbuilt]
    decide +kernel
  have hok : built.1.isOk = true := by
    rw [← hbuilt]
    decide +kernel
  obtain ⟨⟨e, joins⟩, hleft⟩ := Attempt.exists_of_isOk hok
  obtain ⟨⟨e', joins'⟩, hright⟩ := Attempt.exists_of_isOk (hsame.symm.trans hok)
  obtain ⟨-, hchains, hfetched⟩ := hbuilds e e' joins joins' hleft hright
  rw [hjoins] at hchains
  rw [hfetches] at hfetched
  refine ⟨_, q', _, t', hassemble, hq', ?_, fun chain => (hchains rfl chain).symm,
    fun chain => (hfetched chain).symm⟩
  rw [hbuilt]
  exact hjoins

end Query

end Criteria
