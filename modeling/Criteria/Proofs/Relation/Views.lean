import Mathlib
import Criteria.Relation.Table
import Criteria.Proofs.Attempt

/-!
# What walks look at

A walk in a table of relations goes by the table and by what making a handle
looks at, and never by the tally. What making a handle leaves alone is left alone
by the walk.
-/

namespace Criteria

/-! ## Workspaces -/

namespace Workspace

variable {ε S W τ α : Type} {view : W → τ}

theorem keeps_onHost {x : Attempt ε W α} (hx : x.Keeps view) :
    (onHost x : Attempt ε (Workspace S W) α).Keeps fun w => view w.host := fun w => hx w.host

/-- The store, and what is seen of the host. -/
def seen (view : W → τ) (w : Workspace S W) : S × τ := (w.store, view w.host)

theorem seen_eq_iff {w w' : Workspace S W} :
    w.seen view = w'.seen view ↔ w.store = w'.store ∧ view w.host = view w'.host :=
  Prod.mk_inj

theorem sees_onHost {x : Attempt ε W α} (hx : x.Sees view) :
    (onHost x : Attempt ε (Workspace S W) α).Sees (seen view) := by
  intro w w' h
  obtain ⟨hstore, hhost⟩ := seen_eq_iff.1 h
  obtain ⟨hresult, hview⟩ := hx w.host w'.host hhost
  exact ⟨hresult, seen_eq_iff.2 ⟨hstore, hview⟩⟩

theorem sees_changeStore (f : S → S) :
    (changeStore f : Attempt ε (Workspace S W) Unit).Sees (seen view) := by
  intro w w' h
  obtain ⟨hstore, hhost⟩ := seen_eq_iff.1 h
  exact ⟨rfl, seen_eq_iff.2 ⟨congrArg f hstore, hhost⟩⟩

/-- The tally is not looked at. -/
theorem sees_record (f : Tally → Tally) :
    (record f : Attempt ε (Workspace S W) Unit).Sees (seen view) := fun _ _ h => ⟨rfl, h⟩

end Workspace

/-! ## Tables -/

namespace RelationTable

open Workspace (keeps_onHost seen seen_eq_iff sees_onHost sees_changeStore sees_record)

variable {H W ε τ : Type} {create : Option H → String → Attempt ε W H} {view : W → τ}

theorem keeps_reach (hcreate : ∀ parent name, (create parent name).Keeps view) (path : String)
    (parent : Option Nat) (name : String) :
    (reach create path parent name).Keeps fun w => view w.host := by
  refine Attempt.keeps_current.bind fun w => ?_
  dsimp only
  cases w.store.lookup path with
  | some id => exact fun _ => rfl
  | none => exact Attempt.Keeps.bind (keeps_onHost (hcreate _ name)) fun handle _ => rfl

/-- What making a handle leaves alone is left alone by a walk. -/
theorem keeps_walk (hcreate : ∀ parent name, (create parent name).Keeps view)
    (start : Option (String × Nat)) (chain : List String) :
    (walk create start chain).Keeps fun w => view w.host := by
  induction chain generalizing start with
  | nil => exact Attempt.keeps_pure _
  | cons name chain ih =>
    rw [walk_cons]
    exact (keeps_reach hcreate _ _ name).bind fun id => ih _

theorem sees_reach (hcreate : ∀ parent name, (create parent name).Sees view) (path : String)
    (parent : Option Nat) (name : String) : (reach create path parent name).Sees (seen view) := by
  refine Attempt.Sees.current_bind (fun w => ?_) fun w w' h => ?_
  · dsimp only
    cases w.store.lookup path with
    | some id => exact (sees_record _).bind fun _ => Attempt.sees_pure id
    | none =>
      refine (sees_onHost (hcreate _ name)).bind fun handle => ?_
      exact (sees_changeStore _).bind fun _ => (sees_record _).bind fun _ => Attempt.sees_pure _
  · rw [(seen_eq_iff.1 h).1]

/-- A walk looks at the part of the host that making a handle looks at. -/
theorem sees_walk (hcreate : ∀ parent name, (create parent name).Sees view)
    (start : Option (String × Nat)) (chain : List String) :
    (walk create start chain).Sees (seen view) := by
  induction chain generalizing start with
  | nil => exact Attempt.sees_pure _
  | cons name chain ih =>
    rw [walk_cons]
    exact (sees_reach hcreate _ _ name).bind fun id => ih _

end RelationTable

end Criteria
