import Mathlib
import Criteria.Proofs.Prefetch.Refusals
import Criteria.Proofs.Query.Counting
import Criteria.Proofs.Query.Freezes

/-!
# Accounts of builds

What a build enters in the tally is what it did: one build, whether it failed,
the fragments it evaluated, and the joins and fetches it found again and created,
of which the latter are those that the plan has gained. This is so wherever the
build ended.
-/

namespace Criteria.Query

open Criteria.Property (Inquiry Request)
open Criteria.Property.Inquiry (joinsTaken)
open Criteria.Register (counts_of_keeps)
open Prefetch (leafLength outlined countsAt_requests)

variable {q : Query} {script : Script} {w w₁ : Workspace (RelationTable Nat) Plan}

/-! ## Stages -/

/-- The requests that are processed: none without prefetching, and none for a plan that only
counts. -/
def processed (q : Query) (plan : Plan) : List String :=
  if q.options.prefetch && !plan.isCount then q.prefetches else []

/-- The results of the conditions in a build. If the requests are not met, nothing is evaluated. -/
def outcomes (q : Query) (w : Workspace (RelationTable Nat) Plan) : List (Option Expr) :=
  match q.prepare outlined w with
  | (.error _, _) => []
  | (.ok _, w₁) => q.results (q.opening w₁)

theorem countsAt_meetRequests (q : Query) (w : Workspace (RelationTable Nat) Plan) :
    Register.fetches.CountsAt (leafLength (q.processed w.host)) (q.meetRequests outlined) w := by
  rw [processed, meetRequests]
  cases q.options.prefetch with
  | false => exact counts_of_keeps (Attempt.keeps_pure ()) w
  | true =>
    cases hcount : w.host.isCount with
    | false =>
      exact (countsAt_requests hcount q.prefetches).bind fun results w₁ _ =>
        counts_of_keeps (Attempt.keeps_pure ()) w₁
    | true =>
      obtain ⟨results, hrun⟩ := Prefetch.run_forEach_of_isCount hcount q.prefetches
      refine Register.countsAt_of_ledger ?_
      rw [if_pos rfl, Attempt.run_bind_of_ok hrun]
      rfl

/-- Before the conditions are evaluated, a build enters itself and the relations it fetches. -/
theorem counted_prepare (hkind : w.store.kind = .fetch) :
    let prepared := q.prepare outlined w
    ∃ u : Usage, prepared.2.tally = w.tally + (.ofBuilds 1 + .only .fetch u) ∧
      prepared.2.host.fetches.length = w.host.fetches.length + u.created ∧
      (prepared.1.isOk = true → u.hits + u.created = leafLength (q.processed w.host)) := by
  intro prepared
  let begun : Workspace (RelationTable Nat) Plan := { w with tally := w.tally.recordBuild }
  obtain ⟨u, hmet, hu⟩ := countsAt_meetRequests q begun
  have hkind' : begun.store.kind = .fetch := hkind
  have hlength := hmet.length_eq
  rw [hkind', Tally.usage_only] at hlength
  rw [hkind'] at hmet
  refine ⟨u, ?_, hlength, hu⟩
  rw [← Tally.add_assoc, ← Tally.recordBuild_eq_add]
  exact hmet.tally_eq

/-- In the scope where it starts, reducing the conditions makes as many joins as it enters. -/
theorem Accountable.reduce_opening (h : q.Accountable script)
    (w₁ : Workspace (RelationTable Nat) Plan) :
    let reduced := q.reduce.run (q.opening w₁)
    ∃ v : Usage,
      reduced.2.tally = w₁.tally + (.only .join v + .ofResults (q.results (q.opening w₁))) ∧
      reduced.2.host.joins.length = w₁.host.joins.length + v.created ∧
      (q.options.reuseJoins = false → v.hits = 0) ∧
      (q.Strict script → reduced.1.isOk = true →
        v.hits + v.created = joinsTaken ((q.inquiry script).names (q.opening w₁))) := by
  intro reduced
  obtain ⟨v, hcounted, hv⟩ := h.counted_reduce (q.opening w₁)
  have husage : (Tally.only .join v + .ofResults (q.results (q.opening w₁))).usage .join = v := by
    rw [Tally.usage_add, Tally.usage_only, Tally.usage_ofResults]
    rfl
  have hlength := hcounted.length_eq
  have hforgets := hcounted.forgets
  have hkind : (q.opening w₁).store.kind = .join := rfl
  rw [hkind, husage] at hlength hforgets
  exact ⟨v, hcounted.tally_eq, hlength, fun hreuse => (hforgets ⟨hreuse, rfl⟩).2, hv⟩

/-! ## Builds -/

/-- What a build has entered in the tally and added to the plan, wherever it ended: `u` fetches and
`v` joins, found again and created. -/
structure Accounts (q : Query) (script : Script) (w : Workspace (RelationTable Nat) Plan)
    (built : Except Failure (Expr × RelationTable Join) × Workspace (RelationTable Nat) Plan)
    (u v : Usage) : Prop where
  tally_eq : built.2.tally = w.tally + (.ofBuilds 1 + .only .fetch u) +
    (.only .join v + .ofResults (q.outcomes w)) + .ofFailures (if built.1.isOk then 0 else 1)
  fetches_eq : built.2.host.fetches.length = w.host.fetches.length + u.created
  joins_eq : built.2.host.joins.length = w.host.joins.length + v.created
  fetched_eq : built.1.isOk = true → u.hits + u.created = leafLength (q.processed w.host)
  joined_eq : q.Strict script → built.1.isOk = true →
    v.hits + v.created = joinsTaken (q.referenced script outlined w)
  hits_eq : q.options.reuseJoins = false → v.hits = 0

theorem Accountable.accounts (h : q.Accountable script) (hkind : w.store.kind = .fetch) :
    ∃ u v, q.Accounts script w ((q.build outlined).run w) u v := by
  obtain ⟨u, hmet, hfetches, hu⟩ := counted_prepare (q := q) hkind
  rw [run_build]
  -- A build ends in one of three ways: its requests are not met, its conditions fail, or it succeeds.
  rcases hprepare : q.prepare outlined w with ⟨e | _, w₁⟩ <;>
    rw [hprepare] at hmet hfetches hu <;>
    have hjoins := joins_of_prepare Prefetch.keepsJoins_outlined hprepare
  · have hnone : q.outcomes w = [] := by simp only [outcomes, hprepare]
    refine ⟨u, {}, ?_, hfetches, congrArg List.length hjoins, ?_, ?_, fun _ => rfl⟩
    · dsimp only
      rw [Tally.recordOutcome_eq_add, hmet, hnone]
      rfl
    · exact fun hok => by cases hok
    · exact fun _ hok => by cases hok
  · have houtcomes : q.outcomes w = q.results (q.opening w₁) := by simp only [outcomes, hprepare]
    have hreferenced : q.referenced script outlined w =
        (q.inquiry script).names (q.opening w₁) := by simp only [referenced, hprepare]
    obtain ⟨v, htally, hlength, hhits, hv⟩ := h.reduce_opening w₁
    have hkept := h.keeps_reduce (q.opening w₁)
    rw [← houtcomes, hmet] at htally
    rw [hjoins] at hlength
    rw [← hreferenced] at hv
    dsimp only
    rcases hreduce : q.reduce.run (q.opening w₁) with ⟨e | e, scope⟩ <;>
      rw [hreduce] at htally hlength hkept hv <;>
      have hlength' := (congrArg List.length hkept).trans hfetches
    · refine ⟨u, v, ?_, hlength', hlength, ?_, ?_, hhits⟩
      · dsimp only
        rw [Tally.recordOutcome_eq_add, htally]
        rfl
      · exact fun hok => by cases hok
      · exact fun _ hok => by cases hok
    · exact ⟨u, v, htally, hlength', hlength, fun _ => hu rfl, fun hs _ => hv hs rfl, hhits⟩

/-- **The tally accounts for what happened**, whether the build succeeds or fails. A query that was
assembled and built with a new tally has begun one build, which has failed just if there was an
error; it has given up as many queries as give up among its calls; it has evaluated as many fragments
as have a result, and skipped those whose result is none; and the plan has gained the joins and
fetches that were created. If the build succeeds, fetches found again and created are those on the
way to the leaves of all requests that are processed, and so are the joins for all names that are
asked for. Without reuse no join is found again. -/
theorem build_accounts {options : Options} {calls : List Call} {t : Tally}
    (hassemble : (assemble options calls).run {} = (.ok q, t)) (h : q.Accountable script)
    (plan : Plan) :
    let w : Workspace (RelationTable Nat) Plan := ⟨Prefetch.noFetches, plan, t⟩
    let built := (q.build outlined).run w
    let tally := built.2.tally
    tally.builds = 1 ∧ tally.failedBuilds = (if built.1.isOk then 0 else 1) ∧
      tally.freezes = countFrozen (calls :: allMerged calls) ∧
      tally.evaluated = (q.outcomes w).length ∧
      tally.skipped = (q.outcomes w).countP (·.isNone) ∧
      built.2.host.joins.length = plan.joins.length + tally.joins.created ∧
      built.2.host.fetches.length = plan.fetches.length + tally.fetches.created ∧
      (built.1.isOk = true →
        tally.fetches.hits + tally.fetches.created = leafLength (q.processed plan) ∧
        (q.Strict script → tally.joins.hits + tally.joins.created =
          joinsTaken (q.referenced script outlined w))) ∧
      (q.options.reuseJoins = false → tally.joins.hits = 0) := by
  intro w built tally
  obtain ⟨u, v, haccounts⟩ := h.accounts (w := w) rfl
  have htally : tally = { builds := 1, failedBuilds := if built.1.isOk then 0 else 1
                          evaluated := (q.outcomes w).length
                          skipped := (q.outcomes w).countP (·.isNone)
                          freezes := countFrozen (calls :: allMerged calls)
                          joins := v, fetches := u } := by
    rw [← Tally.sum_eq, ← tally_assemble hassemble]
    exact haccounts.tally_eq
  rw [htally]
  refine ⟨rfl, rfl, rfl, rfl, rfl, haccounts.joins_eq, haccounts.fetches_eq, fun hok => ?_,
    haccounts.hits_eq⟩
  exact ⟨haccounts.fetched_eq hok, fun hstrict => haccounts.joined_eq hstrict hok⟩

/-- A query that gave up is merged, and what is demanded besides takes joins in common. -/
def mergingCalls : List Call :=
  [.merge [.filter (.required "x" none)], .filter (.equal "a.b.x" (some (.text "1"))),
    .demand (some (.or (.leaf (.custom ownInquiry.attempt)) .absent)),
    .demand (some (.leaf (.mention "a.b.y"))), .prefetch "a.[b,c]"]

/-- The query of these calls. -/
def mergedQuery : Query where
  conjuncts := .gathering
    [.leaf .never, .leaf (.compare "a.b.x" .equal (some (.text "1"))),
      .or (.leaf (.custom ownInquiry.attempt)) .absent, .leaf (.mention "a.b.y")]
  prefetches := ["a.[b,c]"]

theorem build_accounts_merging :
    let built (plan : Plan) :=
      (mergedQuery.build outlined).run ⟨Prefetch.noFetches, plan, { freezes := 1 }⟩
    let tally := (built {}).2.tally
    let refused := (built { rejected := ["d"] }).2.tally
    tally.builds = 1 ∧ tally.failedBuilds = 0 ∧ tally.freezes = 1 ∧ tally.evaluated = 4 ∧
      tally.skipped = 1 ∧ (built {}).2.host.joins.length = tally.joins.created ∧
      tally.fetches.hits + tally.fetches.created = 4 ∧
      tally.joins.hits + tally.joins.created = 6 ∧
      refused.builds = 1 ∧ refused.failedBuilds = 1 ∧ refused.evaluated = 2 ∧
      (built { rejected := ["d"] }).2.host.joins.length = refused.joins.created := by
  intro built tally refused
  have hassemble : (assemble {} mergingCalls).run {} = (.ok mergedQuery, { freezes := 1 }) := rfl
  have hown : ownInquiry.All Request.KeepsJoins ∧ ownInquiry.All (Request.Keeps Plan.fetches) :=
    ⟨(Inquiry.all_single.2 trivial).bind fun _ => trivial,
      (Inquiry.all_single.2 trivial).bind fun _ => trivial⟩
  have hleaves : mergedQuery.leaves =
      [.never, .compare "a.b.x" .equal (some (.text "1")), .custom ownInquiry.attempt,
        .mention "a.b.y"] := rfl
  have haccountable : mergedQuery.Accountable fun _ => ownInquiry := by
    refine ⟨?_, ?_, fun _ _ => hown.2, fun _ _ => (Inquiry.silent_single _).bind fun _ => trivial⟩
    · intro run hrun
      rw [hleaves] at hrun
      simpa [eq_comm] using hrun
    · intro l hl
      refine l.keepsJoins_inquiry ?_ fun _ _ => hown.1
      rintro name restriction op value rfl
      simp [hleaves] at hl
  have hstrict : mergedQuery.Strict fun _ => ownInquiry :=
    fun _ _ => (Inquiry.strict_single _).bind fun _ => trivial
  have hok : (built {}).1.isOk = true := by decide +kernel
  have hrefused : (built { rejected := ["d"] }).1.isOk = false := by decide +kernel
  obtain ⟨hbuilds, hfailed, hfrozen, hevaluated, hskipped, hjoins, -, hsums, -⟩ :=
    build_accounts hassemble haccountable {}
  obtain ⟨hbuilds', hfailed', -, hevaluated', -, hjoins', -, -, -⟩ :=
    build_accounts hassemble haccountable { rejected := ["d"] }
  refine ⟨hbuilds, hfailed.trans ?_, hfrozen.trans ?_, hevaluated.trans ?_, hskipped.trans ?_,
    hjoins.trans (Nat.zero_add _), (hsums hok).1.trans ?_, ((hsums hok).2 hstrict).trans ?_,
    hbuilds', hfailed'.trans ?_, hevaluated'.trans ?_, hjoins'.trans (Nat.zero_add _)⟩
  · exact if_pos hok
  · decide +kernel
  · decide +kernel
  · decide +kernel
  · decide +kernel
  · decide +kernel
  · exact if_neg (Bool.eq_false_iff.1 hrefused)
  · decide +kernel

end Criteria.Query
