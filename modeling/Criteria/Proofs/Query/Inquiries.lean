import Mathlib
import Criteria.Query.Build
import Criteria.Proofs.Property.Inquiry
import Criteria.Proofs.Query.Builds

/-!
# Queries as inquiries

Reducing the conditions of a query is an inquiry: it is put together from those
of the leaves, in order. What callers evaluate by themselves is one as well if it
only asks for properties and goes on with the answers.
-/

namespace Criteria

open Criteria.Property (Inquiry Request)
open Criteria.Property.Inquiry (single Closed Composed)

/-! ## Leaves -/

/-- For each leaf that callers evaluate, an inquiry. -/
abbrev Script := Attempt Failure Scope (Option Expr) → Inquiry (Option Expr)

/-- How results are presented, once the properties are known. -/
def Shaping.inquiry : Shaping → Inquiry Unit
  | distinct => .present (.distinct true) (pure ())
  | groupBy names => do
    let paths ← Inquiry.paths names
    .present (.groupBy paths) (pure ())
  | select names => do
    let paths ← Inquiry.paths names
    .present (.select paths) (pure ())

theorem Shaping.attempt_inquiry (shaping : Shaping) : shaping.inquiry.attempt = shaping.run := by
  cases shaping with
  | distinct => rfl
  | groupBy names =>
    rw [inquiry, Inquiry.attempt_bind, Inquiry.attempt_paths]
    rfl
  | select names =>
    rw [inquiry, Inquiry.attempt_bind, Inquiry.attempt_paths]
    rfl

namespace Leaf

/-- What evaluating a leaf asks for. -/
def inquiry (script : Script) : Leaf → Inquiry (Option Expr)
  | always => pure (some .always)
  | never => pure (some .never)
  | nothing => pure none
  | compare name op value => do
    let path ← single (.path name)
    .done (some <$> Plan.compare op path value)
  | compareOn name restriction op value => do
    let path ← single (.pathOn name restriction.eval)
    .done (some <$> Plan.compare op path value)
  | mention name => do
    let _ ← single (.path name)
    pure none
  | distinct value => .present (.distinct value) (pure none)
  | shape shaping => do
    shaping.inquiry
    pure (some .always)
  | fail failure => .done (.error failure)
  | custom run => script run

theorem attempt_inquiry {script : Script} (l : Leaf)
    (h : ∀ run, l = custom run → (script run).attempt = run) :
    (l.inquiry script).attempt = l.eval := by
  cases l with
  | shape shaping =>
    rw [inquiry, Inquiry.attempt_bind, Shaping.attempt_inquiry]
    rfl
  | custom run => exact h run rfl
  | compare name op value =>
    rw [inquiry, Inquiry.attempt_bind, Inquiry.attempt_single]
    simp only [eval, Attempt.map_ofExcept]
    rfl
  | compareOn name restriction op value =>
    rw [inquiry, Inquiry.attempt_bind, Inquiry.attempt_single]
    simp only [eval, Attempt.map_ofExcept]
    rfl
  | mention name =>
    rw [inquiry, Inquiry.attempt_bind, Inquiry.attempt_single]
    rfl
  | _ => rfl

/-- A leaf that callers do not evaluate is what it asks for. -/
theorem custom_or_attempt (l : Leaf) :
    (∃ run, l = custom run) ∨ ∀ script : Script, (l.inquiry script).attempt = l.eval := by
  by_cases hcustom : ∃ run, l = custom run
  · exact .inl hcustom
  · exact .inr fun script => l.attempt_inquiry fun run hl => absurd ⟨run, hl⟩ hcustom

/-- The inquiry of a leaf is of the kind that its requests are, and what callers evaluate. -/
theorem composed_inquiry {C : ∀ {α : Type}, Inquiry α → Prop} (hC : Composed C) {script : Script}
    (l : Leaf) (hpath : ∀ name, C (single (.path name)))
    (hpathOn : ∀ name restriction op value, l = compareOn name restriction op value →
      C (single (.pathOn name restriction.eval)))
    (hcustom : ∀ run, l = custom run → C (script run)) : C (l.inquiry script) := by
  cases l with
  | compare name op value => exact hC.bind (hpath name) fun path => hC.done _
  | compareOn name restriction op value =>
    exact hC.bind (hpathOn name restriction op value rfl) fun path => hC.done _
  | mention name => exact hC.bind (hpath name) fun path => hC.done _
  | distinct value => exact hC.present _ (hC.done _)
  | shape shaping =>
    have hshaping : C shaping.inquiry := by
      cases shaping with
      | distinct => exact hC.present _ (hC.done _)
      | groupBy names => exact hC.bind (hC.paths hpath names) fun _ => hC.present _ (hC.done _)
      | select names => exact hC.bind (hC.paths hpath names) fun _ => hC.present _ (hC.done _)
    exact hC.bind hshaping fun _ => hC.done _
  | custom run => exact hcustom run rfl
  | always | never | nothing => exact hC.done _
  | fail failure => exact hC.done _

/-- All requests of a leaf have a property if those for plain paths do, those for its restriction,
and those of what callers evaluate. -/
theorem all_inquiry {P : Request → Prop} {script : Script} (l : Leaf)
    (hpath : ∀ name, P (.path name))
    (hpathOn : ∀ name restriction op value, l = compareOn name restriction op value →
      P (.pathOn name restriction.eval))
    (hcustom : ∀ run, l = custom run → (script run).All P) : (l.inquiry script).All P :=
  l.composed_inquiry (C := fun {_} x => x.All P) (Inquiry.closed_all P).composed
    (fun name => Inquiry.all_single.2 (hpath name))
    (fun name restriction op value hl =>
      Inquiry.all_single.2 (hpathOn name restriction op value hl)) hcustom

/-- A request of a leaf that fails ends its evaluation. -/
theorem strict_inquiry {script : Script} (l : Leaf)
    (hcustom : ∀ run, l = custom run → (script run).Strict) : (l.inquiry script).Strict :=
  l.composed_inquiry (C := fun {_} x => x.Strict) Inquiry.closed_strict.composed
    (fun _ => Inquiry.strict_single _) (fun _ _ _ _ _ => Inquiry.strict_single _) hcustom

end Leaf

/-! ## Conditions -/

namespace Condition

variable {L : Type}

/-- The leaves of a condition, from left to right. -/
def leaves : Condition L → List L
  | leaf l => [l]
  | absent => []
  | compose _ l r => l.leaves ++ r.leaves

/-- What evaluating a condition asks for. -/
def inquiry (inquire : L → Inquiry (Option Expr)) : Condition L → Inquiry (Option Expr)
  | leaf l => inquire l
  | absent => pure none
  | compose connective l r => do
    let l ← l.inquiry inquire
    let r ← r.inquiry inquire
    pure (combine connective l r)

variable {inquire : L → Inquiry (Option Expr)} {run : L → Attempt Failure Scope (Option Expr)}

theorem attempt_inquiry {c : Condition L} (h : ∀ l ∈ c.leaves, (inquire l).attempt = run l) :
    (c.inquiry inquire).attempt = c.eval run := by
  induction c with
  | leaf l => exact h l (by simp [leaves])
  | absent => rfl
  | compose connective l r ihl ihr =>
    have hl := ihl fun leaf hm => h leaf (List.mem_append_left _ hm)
    have hr := ihr fun leaf hm => h leaf (List.mem_append_right _ hm)
    simp only [inquiry, Inquiry.attempt_bind, hl, hr, eval_compose, Inquiry.attempt_pure]

theorem composed_inquiry {C : ∀ {α : Type}, Inquiry α → Prop} (hC : Composed C) {c : Condition L}
    (h : ∀ l ∈ c.leaves, C (inquire l)) : C (c.inquiry inquire) := by
  induction c with
  | leaf l => exact h l (by simp [leaves])
  | absent => exact hC.done (.ok none)
  | compose connective l r ihl ihr =>
    have hl := ihl fun leaf hm => h leaf (List.mem_append_left _ hm)
    have hr := ihr fun leaf hm => h leaf (List.mem_append_right _ hm)
    exact hC.bind hl fun _ => hC.bind hr fun _ => hC.done _

end Condition

/-! ## Conjuncts -/

namespace Conjuncts

variable {F : Type} {inquire : F → Inquiry (Option Expr)}
  {eval : F → Attempt Failure Scope (Option Expr)}

/-- What evaluating fragments asks for, with the expression of those before. -/
def inquiryFrom (inquire : F → Inquiry (Option Expr)) :
    Option Expr → List F → Inquiry (Option Expr)
  | before, [] => pure before
  | before, fragment :: rest => do
    let result ← inquire fragment
    .record (·.recordFragment result.isSome)
      (inquiryFrom inquire (result.elim before fun e => some (conjoin before e)) rest)

/-- What reducing conjuncts asks for. -/
def inquiry (inquire : F → Inquiry (Option Expr)) : Conjuncts F → Inquiry Expr
  | contradiction => pure .never
  | gathering fragments => do
    let result ← inquiryFrom inquire none fragments
    pure (result.getD .always)

theorem attempt_inquiryFrom {fragments : List F} (before : Option Expr)
    (h : ∀ fragment ∈ fragments, (inquire fragment).attempt = eval fragment) :
    (inquiryFrom inquire before fragments).attempt = reduceFrom eval before fragments := by
  induction fragments generalizing before with
  | nil => rfl
  | cons fragment rest ih =>
    have hfirst := h fragment List.mem_cons_self
    have hrest := fun before => ih before fun fragment hm => h fragment (List.mem_cons_of_mem _ hm)
    simp only [inquiryFrom, Inquiry.attempt_bind, hfirst, reduceFrom, Inquiry.attempt, hrest]

theorem closed_inquiryFrom {C : ∀ {α : Type}, Inquiry α → Prop} (hC : Closed C) {fragments : List F}
    (before : Option Expr) (h : ∀ fragment ∈ fragments, C (inquire fragment)) :
    C (inquiryFrom inquire before fragments) := by
  induction fragments generalizing before with
  | nil => exact hC.done _
  | cons fragment rest ih =>
    refine hC.bind (h fragment List.mem_cons_self) fun result => hC.record _ ?_
    exact ih _ fun fragment hm => h fragment (List.mem_cons_of_mem _ hm)

end Conjuncts

/-! ## Queries -/

namespace Query

variable {q : Query} {script : Script}

/-- The leaves of all conditions of the query, in order. -/
def leaves (q : Query) : List Leaf :=
  match q.conjuncts with
  | .gathering fragments => fragments.flatMap Condition.leaves
  | .contradiction => []

/-- What reducing the conditions asks for. -/
def inquiry (script : Script) (q : Query) : Inquiry Expr :=
  q.conjuncts.inquiry (·.inquiry (Leaf.inquiry script))

/-- The leaves that callers evaluate are inquiries too. -/
def Scripted (script : Script) (q : Query) : Prop :=
  ∀ run, Leaf.custom run ∈ q.leaves → (script run).attempt = run

/-- The conditions of the query are inquiries. -/
theorem Scripted.attempt_inquiry_of_mem {fragments : List (Condition Leaf)}
    (h : q.Scripted script) (hq : q.conjuncts = .gathering fragments) :
    ∀ fragment ∈ fragments,
      (fragment.inquiry (Leaf.inquiry script)).attempt = fragment.eval Leaf.eval := by
  intro fragment hf
  refine Condition.attempt_inquiry fun l hl => Leaf.attempt_inquiry l ?_
  rintro run rfl
  refine h run ?_
  rw [leaves, hq]
  exact List.mem_flatMap.2 ⟨fragment, hf, hl⟩

theorem attempt_inquiry (h : q.Scripted script) : (q.inquiry script).attempt = q.reduce := by
  obtain ⟨options, conjuncts, prefetches⟩ := q
  cases conjuncts with
  | contradiction => rfl
  | gathering fragments =>
    simp only [inquiry, Conjuncts.inquiry, Inquiry.attempt_bind,
      Conjuncts.attempt_inquiryFrom none (h.attempt_inquiry_of_mem rfl)]
    rfl

/-- The inquiries of the conditions are of the kind that those of the leaves are. -/
theorem composed_inquiry_of_mem {C : ∀ {α : Type}, Inquiry α → Prop} (hC : Composed C)
    {fragments : List (Condition Leaf)} (hq : q.conjuncts = .gathering fragments)
    (h : ∀ l ∈ q.leaves, C (l.inquiry script)) :
    ∀ fragment ∈ fragments, C (fragment.inquiry (Leaf.inquiry script)) := by
  intro fragment hf
  refine Condition.composed_inquiry hC fun l hl => h l ?_
  rw [leaves, hq]
  exact List.mem_flatMap.2 ⟨fragment, hf, hl⟩

/-- The inquiry of a query is of the kind that those of its leaves are. -/
theorem closed_inquiry {C : ∀ {α : Type}, Inquiry α → Prop} (hC : Closed C)
    (h : ∀ l ∈ q.leaves, C (l.inquiry script)) : C (q.inquiry script) := by
  obtain ⟨options, conjuncts, prefetches⟩ := q
  cases conjuncts with
  | contradiction => exact hC.done _
  | gathering fragments =>
    refine hC.bind (Conjuncts.closed_inquiryFrom hC none ?_) fun _ => hC.done _
    exact composed_inquiry_of_mem hC.composed rfl h

theorem all_inquiry {P : Request → Prop} (h : ∀ l ∈ q.leaves, (l.inquiry script).All P) :
    (q.inquiry script).All P :=
  closed_inquiry (C := fun {_} x => x.All P) (Inquiry.closed_all P) h

/-- A request that fails ends the inquiry of a query. -/
theorem strict_inquiry (h : ∀ run, Leaf.custom run ∈ q.leaves → (script run).Strict) :
    (q.inquiry script).Strict := by
  refine closed_inquiry (C := fun {_} x => x.Strict) Inquiry.closed_strict fun l hl => ?_
  refine l.strict_inquiry ?_
  rintro run rfl
  exact h run hl

/-- The names for whose properties a build asks, in order, once the requests are met. -/
def referenced {E : Type} (script : Script) (meet : Prefetcher E) (q : Query)
    (w : Workspace E Plan) : List String :=
  (q.inquiry script).names (q.opening (q.prepare meet w).2)

end Query

end Criteria
