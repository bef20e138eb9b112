import Mathlib
import Criteria.Proofs.Property.Answers
import Criteria.Proofs.Query.Inquiries

/-!
# Reuse of joins

A query whose conditions put nothing on joins comes to the same with and without
reuse of joins: its result, and what it leaves in the plan beside the joins, are
those of its inquiry without any joins. Without reuse there is a join for each one
on the way to each property that is asked for, and with reuse there are no more.
-/

namespace Criteria

/-- A leaf puts nothing on joins unless it is a comparison that does. -/
theorem Leaf.plain_inquiry {script : Script} (l : Leaf)
    (hcompare : ∀ name restriction op value, l ≠ compareOn name restriction op value)
    (hcustom : ∀ run, l = custom run → (script run).All Property.Request.IsPlain) :
    (l.inquiry script).All Property.Request.IsPlain :=
  l.all_inquiry (fun _ => trivial)
    (fun name restriction op value hl => absurd hl (hcompare name restriction op value)) hcustom

namespace Query

open Criteria.Property (Request attributes distance Passes run_inquiry unconditioned_empty)

section Plain

variable {E : Type} {meet : Prefetcher E} {q : Query} {script : Script} {w w₁ : Workspace E Plan}

/-- The conditions come to what their inquiry comes to without any joins, with reuse or without. -/
theorem reduce_plain (hscript : q.Scripted script)
    (hplain : ∀ l ∈ q.leaves, (l.inquiry script).All Request.IsPlain) (b : Bool)
    (w₁ : Workspace E Plan) :
    let opening := (q.reusing b).opening w₁
    let asked := (q.inquiry script).asked w₁.host.withoutJoins
    let reading := (q.inquiry script).reading w₁.host.withoutJoins
    ∃ scope, q.reduce.run opening = (reading.1, scope) ∧
      (q.inquiry script).names opening = asked ∧
      Passes opening scope reading.2 (asked.map (distance w₁.host.rejected)).sum := by
  intro opening asked reading
  rw [← attempt_inquiry hscript]
  exact run_inquiry (w := opening) (unconditioned_empty b w₁.host w₁.tally) (all_inquiry hplain)

/-- So does a build whose requests are met. Without reuse there is a join for each one on the way to
a property. -/
theorem build_plain (hscript : q.Scripted script)
    (hplain : ∀ l ∈ q.leaves, (l.inquiry script).All Request.IsPlain)
    (hprepare : q.prepare meet w = (.ok (), w₁)) (b : Bool) :
    let built := ((q.reusing b).build meet).run w
    let asked := (q.inquiry script).asked w₁.host.withoutJoins
    let reading := (q.inquiry script).reading w₁.host.withoutJoins
    let total := w₁.host.joins.length + (asked.map (distance w₁.host.rejected)).sum
    built.1.map Prod.fst = reading.1 ∧ built.2.store = w₁.store ∧
      built.2.host.withoutJoins = reading.2 ∧ built.2.host.joins.length ≤ total ∧
      (b = false → built.2.host.joins.length = total) ∧
      (q.reusing b).referenced script meet w = asked := by
  intro built asked reading total
  obtain ⟨scope, hrun, hnames, hpasses⟩ := reduce_plain hscript hplain b w₁
  have hreferenced : (q.reusing b).referenced script meet w = asked := by
    rw [referenced, prepare_reusing, hprepare]
    exact hnames
  have hbuilt : built =
      match reading.1 with
      | .error e => (.error e, ⟨w₁.store, scope.host, scope.tally.recordOutcome false⟩)
      | .ok e => (.ok (e, scope.store), ⟨w₁.store, scope.host, scope.tally⟩) := by
    simp only [built, reading, run_build, prepare_reusing, hprepare, reduce_reusing, hrun]
    cases ((q.inquiry script).reading w₁.host.withoutJoins).1 <;> rfl
  have hexact : b = false → scope.host.joins.length = total := fun hb => hpasses.length_eq hb
  rw [hbuilt]
  cases reading.1 with
  | error e => exact ⟨rfl, rfl, hpasses.host_eq, hpasses.length_le, hexact, hreferenced⟩
  | ok e => exact ⟨rfl, rfl, hpasses.host_eq, hpasses.length_le, hexact, hreferenced⟩

/-- Whether joins are reused makes no difference to the result of a build nor to anything in the
plan but the joins. Without reuse there are at least as many joins; in a plan that had none, a build
that succeeds has made one for each attribute but the last of each name that was asked for. -/
theorem build_reusing (hscript : q.Scripted script)
    (hplain : ∀ l ∈ q.leaves, (l.inquiry script).All Request.IsPlain) (meet : Prefetcher E)
    (w : Workspace E Plan) :
    let cached := ((q.reusing true).build meet).run w
    let uncached := ((q.reusing false).build meet).run w
    cached.1.map Prod.fst = uncached.1.map Prod.fst ∧
      cached.2.host.withoutJoins = uncached.2.host.withoutJoins ∧
      cached.2.store = uncached.2.store ∧
      cached.2.host.joins.length ≤ uncached.2.host.joins.length ∧
      ((∀ run, Leaf.custom run ∈ q.leaves → (script run).Strict) → Prefetch.KeepsJoins meet →
        w.host.joins = [] → ∀ e joins, uncached.1 = .ok (e, joins) →
        uncached.2.host.joins.length =
          (((q.reusing false).referenced script meet w).map
            fun name => (attributes name).length - 1).sum) := by
  intro cached uncached
  rcases hprepare : q.prepare meet w with ⟨error | u, w₁⟩
  · -- the requests failed before any join was made
    have hsame : cached = uncached := by simp [cached, uncached, run_build, hprepare]
    have herror : uncached.1 = .error error := by simp [uncached, run_build, hprepare]
    rw [hsame]
    refine ⟨rfl, rfl, rfl, le_refl _, ?_⟩
    intro _ _ _ e joins hok
    rw [herror] at hok
    cases hok
  · obtain ⟨hresult, hstore, hhost, hle, -, -⟩ := build_plain hscript hplain hprepare true
    obtain ⟨hresult', hstore', hhost', -, hexact, hreferenced⟩ :=
      build_plain hscript hplain hprepare false
    refine ⟨hresult.trans hresult'.symm, hhost.trans hhost'.symm, hstore.trans hstore'.symm, ?_, ?_⟩
    · rw [hexact rfl]
      exact hle
    · intro hstrict hmeet hfresh e joins hok
      have hread : ((q.inquiry script).reading w₁.host.withoutJoins).1 = .ok e := by
        rw [← hresult']
        exact congrArg (Except.map Prod.fst) hok
      have hjoins : w₁.host.joins = [] := (joins_of_prepare hmeet hprepare).trans hfresh
      have hdistances := (strict_inquiry hstrict).map_distance hread
      rw [hreferenced, ← hdistances, hexact rfl, hjoins, List.length_nil, Nat.zero_add]
      rfl

end Plain

/-- Names with common beginnings, in comparisons and in a grouping. -/
def repeatingQuery : Query where
  conjuncts := .gathering
    [.leaf (.compare "a.b.x" .isNull none), .leaf (.shape (.groupBy ["a.b.y", "a.z", "k"]))]
  prefetches := ["a.p"]

theorem build_reusing_repeating :
    let w : Workspace (RelationTable Nat) Plan := ⟨Prefetch.noFetches, {}, {}⟩
    let cached := ((repeatingQuery.reusing true).build Prefetch.outlined).run w
    let uncached := ((repeatingQuery.reusing false).build Prefetch.outlined).run w
    cached.1.map Prod.fst = uncached.1.map Prod.fst ∧
      cached.2.host.withoutJoins = uncached.2.host.withoutJoins ∧
      cached.2.host.joins.length ≤ uncached.2.host.joins.length ∧
      uncached.2.host.joins.length = 5 := by
  intro w cached uncached
  have hleaves : repeatingQuery.leaves =
      [.compare "a.b.x" .isNull none, .shape (.groupBy ["a.b.y", "a.z", "k"])] := rfl
  have hscript : repeatingQuery.Scripted fun _ => pure none := by
    intro run hrun
    simp [hleaves] at hrun
  have hplain : ∀ l ∈ repeatingQuery.leaves,
      (l.inquiry fun _ => pure none).All Request.IsPlain := by
    intro l hl
    refine l.plain_inquiry ?_ fun _ _ => trivial
    rintro name restriction op value rfl
    simp [hleaves] at hl
  obtain ⟨hresult, hhost, -, hle, hcount⟩ := build_reusing hscript hplain Prefetch.outlined w
  refine ⟨hresult, hhost, hle, ?_⟩
  have hok : uncached.1.isOk = true := by decide +kernel
  rcases huncached : uncached.1 with error | ⟨e, joins⟩
  · rw [huncached] at hok
    cases hok
  · refine (hcount (fun _ _ => trivial) Prefetch.keepsJoins_outlined rfl e joins huncached).trans ?_
    decide +kernel

end Query

end Criteria
