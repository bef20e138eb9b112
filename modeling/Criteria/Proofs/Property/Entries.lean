import Mathlib
import Criteria.Proofs.Property.Counting
import Criteria.Proofs.Query.Inquiries

/-!
# What is entered in the tally

Walks, requests and leaves enter in the tally what they find and what they
create, and never look at what is entered there already. So entries that are
made before can just as well be made afterwards.
-/

namespace Criteria

/-- The workspace with further entries in its tally. -/
def Workspace.enter {S W : Type} (entries : Tally) (w : Workspace S W) : Workspace S W :=
  { w with tally := w.tally + entries }

theorem Workspace.enter_enter {S W : Type} (s t : Tally) (w : Workspace S W) :
    (w.enter s).enter t = w.enter (s + t) := by
  simp only [Workspace.enter, Tally.add_assoc]

namespace Attempt

variable {ε S W α β : Type}

/-- The attempt adds to the tally at most, and the entries in it make no difference. -/
def Enters (x : Attempt ε (Workspace S W) α) : Prop :=
  ∀ entries w, x.run (w.enter entries) = ((x.run w).1, (x.run w).2.enter entries)

theorem enters_pure (a : α) : (pure a : Attempt ε (Workspace S W) α).Enters := fun _ _ => rfl

theorem enters_fail (e : ε) : (fail e : Attempt ε (Workspace S W) α).Enters := fun _ _ => rfl

theorem enters_ofExcept (r : Except ε α) : (ofExcept r : Attempt ε (Workspace S W) α).Enters :=
  fun _ _ => rfl

theorem Enters.bind {x : Attempt ε (Workspace S W) α} {f : α → Attempt ε (Workspace S W) β}
    (hx : x.Enters) (hf : ∀ a, (f a).Enters) : (x >>= f).Enters := by
  intro entries w
  have hfirst := hx entries w
  rcases hrun : x.run w with ⟨e | a, w₁⟩ <;> rw [hrun] at hfirst
  · rw [run_bind_of_error hrun, run_bind_of_error hfirst]
  · rw [run_bind_of_ok hrun, run_bind_of_ok hfirst]
    exact hf a entries w₁

/-- Looking at the workspace is allowed if what follows does not go by the entries. -/
theorem Enters.current_bind {f : Workspace S W → Attempt ε (Workspace S W) α}
    (hf : ∀ w, (f w).Enters) (heq : ∀ entries w, f (w.enter entries) = f w) :
    (current >>= f).Enters := by
  intro entries w
  have hlook : (current >>= f).run (w.enter entries) = (f w).run (w.enter entries) := by
    rw [← heq entries w]
    rfl
  rw [hlook]
  exact hf w entries w

theorem Enters.outcome {x : Attempt ε (Workspace S W) α} (hx : x.Enters) : x.outcome.Enters := by
  intro entries w
  rw [run_outcome, hx entries w]
  rfl

theorem enters_onHost (x : Attempt ε W α) :
    (Workspace.onHost x : Attempt ε (Workspace S W) α).Enters := fun _ _ => rfl

theorem enters_changeStore (f : S → S) :
    (Workspace.changeStore f : Attempt ε (Workspace S W) Unit).Enters := fun _ _ => rfl

theorem enters_record {f : Tally → Tally} {entry : Tally} (h : ∀ t, f t = t + entry) :
    (Workspace.record f : Attempt ε (Workspace S W) Unit).Enters := by
  intro entries w
  simp only [Workspace.run_record, Workspace.enter, h, Tally.add_right_comm]

end Attempt

open Attempt (Enters enters_pure enters_fail enters_ofExcept enters_onHost enters_changeStore
  enters_record)

/-! ## Walks -/

namespace RelationTable

variable {H W ε : Type}

theorem enters_reach (create : Option H → String → Attempt ε W H) (path : String)
    (parent : Option Nat) (name : String) : (reach create path parent name).Enters := by
  refine Enters.current_bind (fun w => ?_) fun _ _ => rfl
  dsimp only
  cases w.store.lookup path with
  | some id =>
    exact (enters_record fun t => t.recordHit_eq_add _).bind fun _ => enters_pure id
  | none =>
    refine (enters_onHost _).bind fun handle => (enters_changeStore _).bind fun _ => ?_
    exact (enters_record fun t => t.recordCreated_eq_add _).bind fun _ => enters_pure _

theorem enters_walk (create : Option H → String → Attempt ε W H) (start : Option (String × Nat))
    (chain : List String) : (walk create start chain).Enters := by
  induction chain generalizing start with
  | nil => exact enters_pure _
  | cons name chain ih =>
    rw [walk_cons]
    exact (enters_reach create _ _ name).bind fun id => ih _

end RelationTable

/-! ## Requests -/

namespace Property

variable {α : Type}

theorem enters_restrictAt (restriction : Join → Attempt Failure Plan Expr) (id : Nat) :
    (restrictAt restriction id).Enters := by
  refine Enters.current_bind (fun w => ?_) fun _ _ => rfl
  cases w.store.handle? id with
  | none => exact enters_pure ()
  | some join => exact (enters_onHost _).bind fun restricted => enters_changeStore _

theorem enters_resolve {visit : Nat → Attempt Failure Scope Unit} (hvisit : ∀ id, (visit id).Enters)
    (name : String) : (resolve name visit).Enters := by
  rw [resolve]
  split
  · exact enters_fail _
  · next chain last hcut =>
    refine (RelationTable.enters_walk Plan.join none chain).bind fun id => ?_
    refine Enters.bind ?_ fun _ => ?_
    · cases id with
      | none => exact enters_pure ()
      | some id => exact hvisit id
    · exact Enters.current_bind (fun w => enters_onHost _) fun _ _ => rfl

theorem Request.enters_attempt (request : Request) : request.attempt.Enters := by
  cases request with
  | path name => exact enters_resolve (fun _ => enters_pure ()) name
  | pathOn name restriction => exact enters_resolve (enters_restrictAt restriction) name

/-- An inquiry that enters nothing itself enters what its requests do. -/
theorem Inquiry.Silent.enters_attempt {x : Inquiry α} (h : x.Silent) : x.attempt.Enters := by
  induction x with
  | done result => exact enters_ofExcept result
  | ask request next ih =>
    exact request.enters_attempt.outcome.bind fun answer => ih answer (h answer)
  | present presentation next ih => exact (enters_onHost _).bind fun _ => ih h
  | record entry next ih => exact h.elim

end Property

/-! ## Conditions -/

open Property (Inquiry)

namespace Leaf

theorem silent_inquiry {script : Script} (l : Leaf)
    (hcustom : ∀ run, l = custom run → (script run).Silent) : (l.inquiry script).Silent :=
  l.composed_inquiry (C := fun {_} x => x.Silent) Inquiry.composed_silent
    (fun _ => Inquiry.silent_single _) (fun _ _ _ _ _ => Inquiry.silent_single _) hcustom

/-- A leaf adds to the tally at most, unless callers evaluate it in another way. -/
theorem enters_eval (l : Leaf) (h : ∀ run, l = custom run → run.Enters) : l.eval.Enters := by
  rcases l.custom_or_attempt with ⟨run, rfl⟩ | hattempt
  · exact h run rfl
  · rw [← hattempt fun _ => pure none]
    refine Inquiry.Silent.enters_attempt (l.silent_inquiry ?_)
    exact fun _ _ => trivial

end Leaf

theorem Condition.enters_eval {L ε S W : Type}
    {run : L → Attempt ε (Workspace S W) (Option Expr)} {c : Condition L}
    (h : ∀ l ∈ c.leaves, (run l).Enters) : (c.eval run).Enters := by
  induction c with
  | leaf l => exact h l List.mem_cons_self
  | absent => exact enters_pure none
  | compose connective l r ihl ihr =>
    rw [leaves, List.forall_mem_append] at h
    exact (ihl h.1).bind fun _ => (ihr h.2).bind fun _ => enters_pure _

end Criteria
