import Mathlib
import Criteria.Restriction
import Criteria.Proofs.Property.Inquiry
import Criteria.Proofs.Relation.Views

/-!
# What requests look at

Resolving a property goes by the table of joins and by a part of the plan, and
never by the tally. The fetches of the plan do not belong to this part: whatever
they are, a course of requests comes to the same, and they stay as they were.
-/

namespace Criteria

/-! ## Plans -/

namespace Plan

variable {τ : Type}

/-- The plan but for its fetches. -/
def withoutFetches (p : Plan) : Plan := { p with fetches := [] }

/-- What joining, reading properties and putting conditions on joins look at. -/
structure IsView (view : Plan → τ) : Prop where
  join : ∀ parent name, (Plan.join parent name).Sees view
  property : ∀ join name, (Plan.property join name).Sees view
  restrict : ∀ join condition, (Plan.restrict join condition).Sees view
  present : ∀ presentation : Property.Presentation,
    (Attempt.change presentation.apply : Attempt Failure Plan Unit).Sees view

theorem isView_id : IsView id where
  join _ _ := Attempt.sees_id _
  property _ _ := Attempt.sees_id _
  restrict _ _ := Attempt.sees_id _
  present _ := Attempt.sees_id _

theorem withoutFetches_eq_iff {p p' : Plan} :
    p.withoutFetches = p'.withoutFetches ↔ p' = { p with fetches := p'.fetches } := by
  constructor
  · intro h
    cases p
    cases p'
    simp_all [withoutFetches]
  · intro h
    rw [h]
    rfl

/-- Joins and properties do not depend on fetches. -/
theorem isView_withoutFetches : IsView withoutFetches where
  join parent name p p' h := by
    rw [withoutFetches_eq_iff.1 h, run_join, run_join]
    dsimp only
    split <;> exact ⟨rfl, rfl⟩
  property join name p p' h := by
    rw [withoutFetches_eq_iff.1 h, run_property, run_property]
    exact ⟨rfl, rfl⟩
  restrict join condition p p' h := by
    rw [withoutFetches_eq_iff.1 h]
    exact ⟨rfl, rfl⟩
  present presentation p p' h := by
    rw [withoutFetches_eq_iff.1 h]
    cases presentation <;> exact ⟨rfl, rfl⟩

theorem keeps_fetches_join (parent : Option Join) (name : String) :
    (Plan.join parent name).Keeps fetches := by
  intro p
  rw [run_join]
  split <;> rfl

theorem keeps_fetches_property (join : Option Join) (name : String) :
    (Plan.property join name).Keeps fetches := by
  intro p
  rw [run_property]

end Plan

namespace Property

open Workspace (keeps_onHost seen seen_eq_iff sees_onHost sees_changeStore sees_record)

variable {τ α : Type} {view : Plan → τ} {part : Plan → τ}

/-! ## Requests -/

theorem sees_restrictAt (hview : Plan.IsView view)
    {restriction : Join → Attempt Failure Plan Expr} (h : ∀ join, (restriction join).Sees view)
    (id : Nat) : (restrictAt restriction id).Sees (seen view) := by
  refine Attempt.Sees.current_bind (fun w => ?_) fun w w' h => ?_
  · cases w.store.handle? id with
    | none => exact Attempt.sees_pure ()
    | some join =>
      refine (sees_onHost ?_).bind fun restricted => sees_changeStore _
      exact (h join).bind fun condition => hview.restrict join condition
  · rw [(seen_eq_iff.1 h).1]

theorem keeps_fetches_restrictAt {restriction : Join → Attempt Failure Plan Expr}
    (h : ∀ join, (restriction join).Keeps Plan.fetches) (id : Nat) :
    (restrictAt restriction id).Keeps fun w => w.host.fetches := by
  refine Attempt.keeps_current.bind fun w => ?_
  cases w.store.handle? id with
  | none => exact Attempt.keeps_pure ()
  | some join =>
    refine Attempt.Keeps.bind (keeps_onHost ?_) fun restricted _ => rfl
    exact (h join).bind fun condition _ => rfl

theorem sees_resolve (hview : Plan.IsView view) {visit : Nat → Attempt Failure Scope Unit}
    (hvisit : ∀ id, (visit id).Sees (seen view)) (name : String) :
    (resolve name visit).Sees (seen view) := by
  rw [resolve]
  split
  · exact Attempt.sees_fail _
  · next chain last hcut =>
    refine (RelationTable.sees_walk hview.join none chain).bind fun id => ?_
    refine Attempt.Sees.bind ?_ fun _ => ?_
    · cases id with
      | none => exact Attempt.sees_pure ()
      | some id => exact hvisit id
    · refine Attempt.Sees.current_bind (fun w => ?_) fun w w' h => ?_
      · exact sees_onHost (hview.property _ last)
      · rw [(seen_eq_iff.1 h).1]

theorem keeps_fetches_resolve {visit : Nat → Attempt Failure Scope Unit}
    (hvisit : ∀ id, (visit id).Keeps fun w => w.host.fetches) (name : String) :
    (resolve name visit).Keeps fun w => w.host.fetches := by
  rw [resolve]
  split
  · exact Attempt.keeps_fail _
  · next chain last hcut =>
    refine Attempt.Keeps.bind (RelationTable.keeps_walk Plan.keeps_fetches_join none chain) ?_
    refine fun id => Attempt.Keeps.bind ?_ fun _ => Attempt.keeps_current.bind fun w => ?_
    · cases id with
      | none => exact Attempt.keeps_pure ()
      | some id => exact hvisit id
    · exact keeps_onHost (Plan.keeps_fetches_property _ last)

namespace Request

/-- The condition of the request, if it has one, goes by a view of the plan. -/
def Sees (view : Plan → τ) : Request → Prop
  | path _ => True
  | pathOn _ restriction => ∀ join, (restriction join).Sees view

/-- The condition of the request, if it has one, leaves a part of the plan alone. -/
def Keeps (part : Plan → τ) : Request → Prop
  | path _ => True
  | pathOn _ restriction => ∀ join, (restriction join).Keeps part

theorem sees_attempt (hview : Plan.IsView view) {request : Request} (h : request.Sees view) :
    request.attempt.Sees (seen view) := by
  cases request with
  | path name => exact sees_resolve hview (fun _ => Attempt.sees_pure ()) name
  | pathOn name restriction => exact sees_resolve hview (sees_restrictAt hview h) name

theorem keeps_fetches_attempt {request : Request} (h : request.Keeps Plan.fetches) :
    request.attempt.Keeps fun w => w.host.fetches := by
  cases request with
  | path name => exact keeps_fetches_resolve (fun _ => Attempt.keeps_pure ()) name
  | pathOn name restriction => exact keeps_fetches_resolve (keeps_fetches_restrictAt h) name

end Request

/-! ## Inquiries -/

namespace Inquiry

/-- An inquiry whose conditions go by a view of the plan goes by the table and that view. -/
theorem sees_attempt (hview : Plan.IsView view) {x : Inquiry α} (h : x.All (Request.Sees view)) :
    x.attempt.Sees (seen view) := by
  induction x with
  | done result => exact Attempt.sees_ofExcept result
  | ask request next ih =>
    exact (Request.sees_attempt hview h.1).outcome.bind fun answer => ih answer (h.2 answer)
  | present presentation next ih =>
    exact (sees_onHost (hview.present presentation)).bind fun _ => ih h
  | record entry next ih => exact (sees_record entry).bind fun _ => ih h

/-- No inquiry looks at the tally. -/
theorem sees_id_attempt (x : Inquiry α) : x.attempt.Sees (seen id) := by
  refine sees_attempt Plan.isView_id (all_of_forall (fun request => ?_) x)
  cases request with
  | path name => trivial
  | pathOn name restriction => exact fun join => Attempt.sees_id _

theorem keeps_fetches_attempt {x : Inquiry α} (h : x.All (Request.Keeps Plan.fetches)) :
    x.attempt.Keeps fun w => w.host.fetches := by
  induction x with
  | done result => exact Attempt.keeps_ofExcept result
  | ask request next ih =>
    exact Attempt.Keeps.bind (Request.keeps_fetches_attempt h.1) fun answer => ih answer (h.2 answer)
  | present presentation next ih =>
    refine Attempt.Keeps.bind (fun w => ?_) fun _ => ih h
    cases presentation <;> rfl
  | record entry next ih => exact Attempt.Keeps.bind (fun _ => rfl) fun _ => ih h

end Inquiry

end Property

/-! ## Restrictions -/

namespace Restriction

open Attempt (keeps_pure sees_pure)

/-- A restriction fetches nothing. -/
theorem keeps_fetches_eval (restriction : Restriction) (here : Join) :
    (restriction.eval here).Keeps Plan.fetches := by
  induction restriction generalizing here with
  | compare name | compareRoot name =>
    exact (Plan.keeps_fetches_property _ name).bind fun path => Attempt.keeps_ofExcept _
  | join name inner ih => exact (Plan.keeps_fetches_join _ name).bind ih
  | and l r ihl ihr | or l r ihl ihr =>
    exact (ihl here).bind fun el => (ihr here).bind fun er => keeps_pure _
  | always | never => exact keeps_pure _
  | fail failure => exact Attempt.keeps_fail failure

/-- A restriction joins and reads properties, and goes by what these go by. -/
theorem sees_eval {τ : Type} {view : Plan → τ} (hview : Plan.IsView view)
    (restriction : Restriction) (here : Join) : (restriction.eval here).Sees view := by
  induction restriction generalizing here with
  | compare name | compareRoot name =>
    exact (hview.property _ name).bind fun path => Attempt.sees_ofExcept _
  | join name inner ih => exact (hview.join _ name).bind ih
  | and l r ihl ihr | or l r ihl ihr =>
    exact (ihl here).bind fun el => (ihr here).bind fun er => sees_pure _
  | always | never => exact sees_pure _
  | fail failure => exact Attempt.sees_fail failure

end Restriction

end Criteria
