import Mathlib
import Criteria.Restriction
import Criteria.Proofs.Attempt
import Criteria.Proofs.Property.Requests

/-!
# Surveys

What a condition on a join asks of the plan: it reads properties and joins
further, one question after the other, and goes on with the answers. A survey is
such a course by itself. It starts from the joins that were handed to it, so all
it does to the plan is to add joins behind others.
-/

namespace Criteria

/-! ## Links that are added -/

/-- Links were added at the end, each behind an earlier one or behind the root. -/
inductive Grown (links : List Link) : List Link → Prop
  | refl : Grown links links
  | join {grown : List Link} (h : Grown links grown) {parent : Option Nat} (name : String)
      (hparent : ∀ id, parent = some id → id < grown.length) :
      Grown links (grown ++ [⟨grown.length, parent, name⟩])

namespace Grown

variable {links links' links'' : List Link}

theorem trans (h : Grown links links') (h' : Grown links' links'') : Grown links links'' := by
  induction h' with
  | refl => exact h
  | join _ name hparent ih => exact ih.join name hparent

theorem isPrefix (h : Grown links links') : links <+: links' := by
  induction h with
  | refl => exact List.prefix_refl links
  | join _ name _ ih => exact ih.trans (List.prefix_append _ _)

end Grown

/-- Each link has its place as its number, and starts from an earlier one or from the root. -/
def Numbered (links : List Link) : Prop :=
  ∀ (i : Nat) (link : Link), links[i]? = some link →
    link.id = i ∧ ∀ parent, link.parent = some parent → parent < i

theorem numbered_nil : Numbered [] := by
  intro i link h
  cases h

theorem Numbered.concat {links : List Link} (h : Numbered links) {parent : Option Nat}
    (name : String) (hparent : ∀ id, parent = some id → id < links.length) :
    Numbered (links ++ [⟨links.length, parent, name⟩]) := by
  intro i link hlink
  rw [List.getElem?_append] at hlink
  split at hlink
  · exact h i link hlink
  · next hi =>
    rw [List.getElem?_singleton] at hlink
    split at hlink
    · next hzero =>
      cases hlink
      have hlast : i = links.length := by omega
      rw [hlast]
      exact ⟨rfl, hparent⟩
    · cases hlink

theorem Numbered.grown {links links' : List Link} (h : Numbered links) (hg : Grown links links') :
    Numbered links' := by
  induction hg with
  | refl => exact h
  | join _ name hparent ih => exact ih.concat name hparent

namespace Property

/-! ## Surveys -/

/-- A course of questions to a plan. How it goes on may depend on the answers, and it may also go on
after a failure. -/
inductive Survey where
  | done (result : Except Failure Expr)
  | property (from? : Option Join) (name : String) (next : Except Failure String → Survey)
  | join (from? : Option Join) (name : String) (next : Except Failure Join → Survey)

namespace Survey

variable {known known' : List Join} {p : Plan}

/-- The survey of a plan. -/
def attempt : Survey → Attempt Failure Plan Expr
  | done result => .ofExcept result
  | property from? name next => (Plan.property from? name).outcome >>= fun answer =>
    (next answer).attempt
  | join from? name next => (Plan.join from? name).outcome >>= fun answer => (next answer).attempt

/-- The survey joins from the root, from joins that are known, and from those it has made itself. -/
def StartsFrom (known : List Join) : Survey → Prop
  | done _ => True
  | property _ _ next => ∀ answer, (next answer).StartsFrom known
  | join from? _ next => (∀ here, from? = some here → here ∈ known) ∧
      (∀ e, (next (.error e)).StartsFrom known) ∧
      ∀ made, (next (.ok made)).StartsFrom (made :: known)

theorem StartsFrom.mono {survey : Survey} (h : survey.StartsFrom known) (hk : known ⊆ known') :
    survey.StartsFrom known' := by
  induction survey generalizing known known' with
  | done result => trivial
  | property from? name next ih => exact fun answer => ih answer (h answer) hk
  | join from? name next ih =>
    obtain ⟨hfrom, herror, hok⟩ := h
    exact ⟨fun here hh => hk (hfrom here hh), fun e => ih _ (herror e) hk,
      fun made => ih _ (hok made) (List.cons_subset_cons made hk)⟩

/-- A survey adds joins to the plan and changes nothing else. -/
theorem grown_attempt {survey : Survey} (h : survey.StartsFrom known)
    (hknown : ∀ here ∈ known, here.id < p.joins.length) :
    ∃ links, (survey.attempt.run p).2 = { p with joins := links } ∧ Grown p.joins links := by
  induction survey generalizing known p with
  | done result => exact ⟨p.joins, rfl, .refl⟩
  | property from? name next ih =>
    rw [attempt, Attempt.run_bind, Attempt.run_outcome, Plan.run_property]
    exact ih _ (h _) hknown
  | join from? name next ih =>
    obtain ⟨hfrom, herror, hok⟩ := h
    rw [attempt, Attempt.run_bind, Attempt.run_outcome, Plan.run_join]
    by_cases hname : name ∈ p.rejected
    · rw [if_pos hname]
      exact ih _ (herror _) hknown
    · rw [if_neg hname]
      let made : Join := ⟨p.joins.length, Plan.pathFrom from? name⟩
      let p' : Plan := { p with joins := p.joins ++ [⟨p.joins.length, from?.map (·.id), name⟩] }
      have hlength : p'.joins.length = p.joins.length + 1 := List.length_append
      have hjoined : Grown p.joins p'.joins := by
        refine Grown.refl.join name ?_
        intro id hid
        obtain ⟨here, hh, rfl⟩ := Option.map_eq_some_iff.1 hid
        exact hknown here (hfrom here hh)
      have hknown' : ∀ here ∈ made :: known, here.id < p'.joins.length := by
        rw [hlength, List.forall_mem_cons]
        exact ⟨Nat.lt_succ_self _, fun here hh => Nat.lt_succ_of_lt (hknown here hh)⟩
      obtain ⟨links, hrun, hgrown⟩ := ih (.ok made) (hok made) hknown'
      exact ⟨links, hrun, hjoined.trans hgrown⟩

/-! ## Sequencing -/

/-- Goes on with the expression; a failure ends the whole. -/
def bind : Survey → (Expr → Survey) → Survey
  | done (.ok e), f => f e
  | done (.error e), _ => done (.error e)
  | property from? name next, f => property from? name fun answer => (next answer).bind f
  | join from? name next, f => join from? name fun answer => (next answer).bind f

theorem attempt_bind (survey : Survey) (f : Expr → Survey) :
    (survey.bind f).attempt = survey.attempt >>= fun e => (f e).attempt := by
  induction survey with
  | done result => cases result <;> rfl
  | property from? name next ih => simp only [bind, attempt, ih, bind_assoc]
  | join from? name next ih => simp only [bind, attempt, ih, bind_assoc]

theorem StartsFrom.bind {survey : Survey} {f : Expr → Survey} (h : survey.StartsFrom known)
    (hf : ∀ e, (f e).StartsFrom known) : (survey.bind f).StartsFrom known := by
  induction survey generalizing known with
  | done result =>
    cases result with
    | error e => trivial
    | ok e => exact hf e
  | property from? name next ih => exact fun answer => ih answer (h answer) hf
  | join from? name next ih =>
    obtain ⟨hfrom, herror, hok⟩ := h
    refine ⟨hfrom, fun e => ih _ (herror e) hf, fun made => ih _ (hok made) fun e => ?_⟩
    exact (hf e).mono (List.subset_cons_self made known)

end Survey

/-- The condition of the request, if it has one, is the result of a survey that starts from the
restricted join. -/
def Request.Surveys : Request → Prop
  | .path _ => True
  | .pathOn _ restriction =>
    ∀ here, ∃ survey : Survey, survey.StartsFrom [here] ∧ survey.attempt = restriction here

end Property

/-! ## Restrictions -/

namespace Restriction

open Criteria.Property (Survey)

/-- What comparing a property asks for. -/
def surveyAt (from? : Option Join) (name : String) (op : Operator) (value : Option Value) :
    Survey :=
  .property from? name fun answer => .done (answer >>= (Plan.compare op · value))

/-- What a restriction asks for. -/
def survey : Restriction → Join → Survey
  | always, _ => .done (.ok .always)
  | never, _ => .done (.ok .never)
  | compare name op value, here => surveyAt (some here) name op value
  | compareRoot name op value, _ => surveyAt none name op value
  | join name inner, here => .join (some here) name fun answer =>
    match answer with
    | .error e => .done (.error e)
    | .ok next => inner.survey next
  | fail failure, _ => .done (.error failure)
  | and l r, here =>
    (l.survey here).bind fun l => (r.survey here).bind fun r => .done (.ok (.and l r))
  | or l r, here =>
    (l.survey here).bind fun l => (r.survey here).bind fun r => .done (.ok (.or l r))

theorem attempt_surveyAt (from? : Option Join) (name : String) (op : Operator)
    (value : Option Value) :
    (surveyAt from? name op value).attempt = compareAt from? name op value := by
  ext1
  funext p
  rw [surveyAt, Survey.attempt, compareAt, Attempt.run_bind, Attempt.run_bind, Attempt.run_outcome]
  rcases (Plan.property from? name).run p with ⟨e | path, p'⟩ <;> rfl

/-- The survey of a restriction comes to its condition. -/
theorem attempt_survey (restriction : Restriction) (here : Join) :
    (restriction.survey here).attempt = restriction.eval here := by
  induction restriction generalizing here with
  | compare name op value => exact attempt_surveyAt (some here) name op value
  | compareRoot name op value => exact attempt_surveyAt none name op value
  | join name inner ih =>
    ext1
    funext p
    rw [survey, Survey.attempt, eval, Attempt.run_bind, Attempt.run_bind, Attempt.run_outcome]
    rcases (Plan.join (some here) name).run p with ⟨e | next, p'⟩
    · rfl
    · simp only [ih]
  | and l r ihl ihr =>
    simp only [survey, Survey.attempt_bind, ihl, ihr]
    rfl
  | or l r ihl ihr =>
    simp only [survey, Survey.attempt_bind, ihl, ihr]
    rfl
  | _ => rfl

/-- A restriction joins further from its own join only. -/
theorem startsFrom_survey (restriction : Restriction) {here : Join} {known : List Join}
    (hh : here ∈ known) : (restriction.survey here).StartsFrom known := by
  induction restriction generalizing here known with
  | compare name op value => exact fun _ => trivial
  | compareRoot name op value => exact fun _ => trivial
  | join name inner ih =>
    refine ⟨?_, fun _ => trivial, fun made => ih List.mem_cons_self⟩
    rintro here' heq
    rwa [← Option.some.inj heq]
  | and l r ihl ihr => exact (ihl hh).bind fun _ => (ihr hh).bind fun _ => trivial
  | or l r ihl ihr => exact (ihl hh).bind fun _ => (ihr hh).bind fun _ => trivial
  | _ => trivial

/-- Asking for a property with a restriction surveys the plan. -/
theorem surveys (name : String) (restriction : Restriction) :
    (Property.Request.pathOn name restriction.eval).Surveys := fun here =>
  ⟨restriction.survey here, restriction.startsFrom_survey List.mem_cons_self,
    restriction.attempt_survey here⟩

end Restriction

end Criteria
