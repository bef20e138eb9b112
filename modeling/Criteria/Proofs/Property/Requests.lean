import Mathlib
import Criteria.Proofs.Property.Changes

/-!
# Requests for properties

In one scope, properties are asked for one after the other, with conditions on
their last joins or without. Every request, also one that fails, does nothing
to the table of joins but change it.
-/

namespace Criteria.Property

open Criteria.Relation (along along_none)

variable {w w' : Scope} {chain : List String}

/-! ## Conditions on a join -/

theorem run_restrictAt (restriction : Join → Attempt Failure Plan Expr) (id : Nat) (w : Scope) :
    (restrictAt restriction id).run w =
      match w.store.handle? id with
      | none => (.ok (), w)
      | some join =>
        match (restriction join).run w.host with
        | (.error e, host) => (.error e, { w with host })
        | (.ok condition, host) =>
          (.ok (),
            { w with
              store := w.store.replaceHandle id
                { join with path := join.path ++ onText condition.text }
              host := { host with
                restrictions := host.restrictions ++ [(join.id, condition.text)] } }) := by
  rw [restrictAt, Attempt.run_bind, Attempt.run_current]
  dsimp only
  cases w.store.handle? id with
  | none => rfl
  | some join =>
    simp only [Attempt.run_bind, Workspace.run_onHost]
    rcases (restriction join).run w.host with ⟨e | condition, host⟩
    · rfl
    · simp [onText, String.append_assoc]

theorem changes_restrictAt (restriction : Join → Attempt Failure Plan Expr) (id : Nat) (w : Scope) :
    Changes w.store ((restrictAt restriction id).run w).2.store := by
  rw [run_restrictAt]
  cases hj : w.store.handle? id with
  | none => exact .refl
  | some join =>
    rcases hr : (restriction join).run w.host with ⟨e | condition, host⟩
    · simp only [hr]
      exact .refl
    · simp only [hr]
      exact .single (.restrict condition.text hj)

/-! ## Resolving a property -/

/-- What a visit of the last join does to the table of joins. -/
def ChangesOnly (visit : Nat → Attempt Failure Scope Unit) : Prop :=
  ∀ id w, Changes w.store ((visit id).run w).2.store

theorem changesOnly_pure : ChangesOnly fun _ => pure () := fun _ _ => .refl

theorem changesOnly_restrictAt (restriction : Join → Attempt Failure Plan Expr) :
    ChangesOnly (restrictAt restriction) :=
  changes_restrictAt restriction

theorem run_resolve {visit : Nat → Attempt Failure Scope Unit} {name last : String}
    (hcut : cut? name = some (chain, last)) (w : Scope) :
    (resolve name visit).run w =
      match (RelationTable.resolve Plan.join chain).run w with
      | (.error e, w₁) => (.error e, w₁)
      | (.ok id, w₁) =>
        match (id.elim (pure ()) visit).run w₁ with
        | (.error e, w₂) => (.error e, w₂)
        | (.ok _, w₂) =>
          (((Plan.property (id.bind w₂.store.handle?) last).run w₂.host).1, w₂) := by
  rw [resolve, hcut]
  simp only [Attempt.run_bind]
  rcases (RelationTable.resolve Plan.join chain).run w with ⟨e | id, w₁⟩
  · rfl
  · simp only
    rcases (id.elim (pure ()) visit).run w₁ with ⟨e | u, w₂⟩
    · rfl
    · simp [Plan.run_property]

theorem changes_resolve {visit : Nat → Attempt Failure Scope Unit} (hvisit : ChangesOnly visit)
    (h : Sound w.store) (name : String) :
    Changes w.store ((resolve name visit).run w).2.store := by
  cases hcut : cut? name with
  | none =>
    rw [resolve, hcut]
    exact .refl
  | some parts =>
    obtain ⟨chain, last⟩ := parts
    rw [run_resolve hcut]
    rcases hwalk : (RelationTable.resolve Plan.join chain).run w with ⟨e | id, w₁⟩
    · exact (changes_joins h (point_not_mem_of_cut? hcut) hwalk).1
    · have hchanges := (changes_joins h (point_not_mem_of_cut? hcut) hwalk).1
      have hvisited : Changes w₁.store ((id.elim (pure ()) visit).run w₁).2.store := by
        cases id with
        | none => exact .refl
        | some id => exact hvisit id w₁
      simp only
      rcases hv : (id.elim (pure ()) visit).run w₁ with ⟨e | u, w₂⟩ <;>
      · rw [hv] at hvisited
        exact hchanges.trans hvisited

/-- A property behind a join is read from the handle of that join. -/
theorem resolve_ok {visit : Nat → Attempt Failure Scope Unit} {name last text : String}
    (h : Sound w.store) (hcut : cut? name = some (chain, last)) (hne : chain ≠ [])
    (hrun : (resolve name visit).run w = (.ok text, w')) :
    ∃ id w₁, Changes w.store w₁.store ∧ w₁.store.lookup (".".intercalate chain) = some id ∧
      (visit id).run w₁ = (.ok (), w') ∧
      text = Plan.pathFrom (w'.store.handle? id) last := by
  rw [run_resolve hcut] at hrun
  rcases hwalk : (RelationTable.resolve Plan.join chain).run w with ⟨e | id, w₁⟩
  · rw [hwalk] at hrun
    cases hrun
  · obtain ⟨hchanges, hend⟩ := changes_joins h (point_not_mem_of_cut? hcut) hwalk
    have hat : w₁.store.At (along none chain) id := hend id rfl
    rw [along_none hne] at hat
    cases id with
    | none => exact hat.elim
    | some id =>
      rw [hwalk] at hrun
      simp only [Option.elim_some, Option.bind_some] at hrun
      rcases hv : (visit id).run w₁ with ⟨e | u, w₂⟩
      · rw [hv] at hrun
        cases hrun
      · simp only [hv, Plan.run_property, Prod.mk.injEq] at hrun
        obtain ⟨htext, rfl⟩ := hrun
        refine ⟨id, w₁, hchanges, hat, hv, ?_⟩
        split at htext
        · cases htext
        · exact (Except.ok.inj htext).symm

/-! ## Requests -/

/-- What can be asked of a scope. -/
inductive Request where
  | path (name : String)
  | pathOn (name : String) (restriction : Join → Attempt Failure Plan Expr)

namespace Request

/-- The name of the property. -/
def name : Request → String
  | path name => name
  | pathOn name _ => name

/-- Asks for the path of the property. -/
def attempt : Request → Attempt Failure Scope String
  | path name => Property.path name
  | pathOn name restriction => Property.pathOn name restriction

/-- What the request does with the last join. -/
def visit : Request → Nat → Attempt Failure Scope Unit
  | path _ => fun _ => pure ()
  | pathOn _ restriction => restrictAt restriction

theorem attempt_eq_resolve (request : Request) :
    request.attempt = resolve request.name request.visit := by
  cases request <;> rfl

theorem changesOnly_visit (request : Request) : ChangesOnly request.visit := by
  cases request with
  | path name => exact changesOnly_pure
  | pathOn name restriction => exact changesOnly_restrictAt restriction

theorem changes_attempt (request : Request) (h : Sound w.store) :
    Changes w.store (request.attempt.run w).2.store := by
  rw [attempt_eq_resolve]
  exact changes_resolve request.changesOnly_visit h request.name

end Request

/-- The scope after requests, which may have failed. -/
def after (requests : List Request) (w : Scope) : Scope :=
  requests.foldl (fun w request => (request.attempt.run w).2) w

theorem changes_after (requests : List Request) (h : Sound w.store) :
    Changes w.store (after requests w).store := by
  induction requests generalizing w with
  | nil => exact .refl
  | cons request requests ih =>
    have hchanges := request.changes_attempt h
    exact hchanges.trans (ih (h.changes hchanges))

end Criteria.Property
