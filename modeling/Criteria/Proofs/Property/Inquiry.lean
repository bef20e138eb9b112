import Mathlib
import Criteria.Proofs.Attempt
import Criteria.Proofs.Property.Requests

/-!
# Inquiries

What is evaluated in a scope asks for one property after the other and goes on
with the answers; in between it may change how results are presented and keep
the tally. An inquiry is such a course by itself. It can be followed in any
scope, and it tells which names are asked for there.
-/

namespace Criteria.Property

variable {α β : Type}

/-- A change of how results are presented. -/
inductive Presentation where
  | distinct (value : Bool)
  | groupBy (paths : List String)
  | select (paths : List String)

/-- The plan with its results presented that way. -/
def Presentation.apply : Presentation → Plan → Plan
  | distinct value, p => { p with isDistinct := value }
  | groupBy paths, p => { p with grouping := paths }
  | select paths, p => { p with selection := paths }

@[simp] theorem Presentation.joins_apply (presentation : Presentation) (p : Plan) :
    (presentation.apply p).joins = p.joins := by
  cases presentation <;> rfl

@[simp] theorem Presentation.restrictions_apply (presentation : Presentation) (p : Plan) :
    (presentation.apply p).restrictions = p.restrictions := by
  cases presentation <;> rfl

@[simp] theorem Presentation.rejected_apply (presentation : Presentation) (p : Plan) :
    (presentation.apply p).rejected = p.rejected := by
  cases presentation <;> rfl

/-- A course of requests. How it goes on after a request may depend on the answer, and it may also
go on after a failure. -/
inductive Inquiry (α : Type) where
  | done (result : Except Failure α)
  | ask (request : Request) (next : Except Failure String → Inquiry α)
  | present (presentation : Presentation) (next : Inquiry α)
  | record (entry : Tally → Tally) (next : Inquiry α)

namespace Inquiry

/-! ## Sequencing -/

/-- Goes on with the result; a failure ends the whole. -/
protected def bind : Inquiry α → (α → Inquiry β) → Inquiry β
  | done (.ok a), f => f a
  | done (.error e), _ => done (.error e)
  | ask request next, f => ask request fun answer => (next answer).bind f
  | present presentation next, f => present presentation (next.bind f)
  | record entry next, f => record entry (next.bind f)

instance : Monad Inquiry where
  pure a := done (.ok a)
  bind := Inquiry.bind

/-- A single request, whose answer is the result. -/
def single (request : Request) : Inquiry String := ask request done

/-- The paths of properties, in order. -/
def paths : List String → Inquiry (List String)
  | [] => pure []
  | name :: names => do
    let path ← single (.path name)
    let rest ← paths names
    pure (path :: rest)

/-! ## Following an inquiry -/

/-- The inquiry in a scope. -/
def attempt : Inquiry α → Attempt Failure Scope α
  | done result => .ofExcept result
  | ask request next => request.attempt.outcome >>= fun answer => (next answer).attempt
  | present presentation next =>
    Workspace.onHost (.change presentation.apply) >>= fun _ => next.attempt
  | record entry next => Workspace.record entry >>= fun _ => next.attempt

theorem run_ask (request : Request) (next : Except Failure String → Inquiry α) (w : Scope) :
    (ask request next).attempt.run w =
      (next (request.attempt.run w).1).attempt.run (request.attempt.run w).2 := rfl

theorem run_present (presentation : Presentation) (next : Inquiry α) (w : Scope) :
    (present presentation next).attempt.run w =
      next.attempt.run { w with host := presentation.apply w.host } := rfl

theorem run_record (entry : Tally → Tally) (next : Inquiry α) (w : Scope) :
    (record entry next).attempt.run w =
      next.attempt.run { w with tally := entry w.tally } := rfl

@[simp] theorem attempt_pure (a : α) : (pure a : Inquiry α).attempt = pure a := rfl

@[simp] theorem attempt_single (request : Request) : (single request).attempt = request.attempt :=
  rfl

theorem attempt_bind (x : Inquiry α) (f : α → Inquiry β) :
    (x >>= f).attempt = x.attempt >>= fun a => (f a).attempt := by
  induction x with
  | done result => cases result <;> rfl
  | ask request next ih =>
    have hask : (ask request next >>= f).attempt =
        request.attempt.outcome >>= fun answer => (next answer >>= f).attempt := rfl
    simp only [hask, ih, attempt, bind_assoc]
  | present presentation next ih =>
    have hpresent : (present presentation next >>= f).attempt =
        Workspace.onHost (.change presentation.apply) >>= fun _ => (next >>= f).attempt := rfl
    simp only [hpresent, ih, attempt, bind_assoc]
  | record entry next ih =>
    have hrecord : (record entry next >>= f).attempt =
        Workspace.record entry >>= fun _ => (next >>= f).attempt := rfl
    simp only [hrecord, ih, attempt, bind_assoc]

theorem attempt_paths (names : List String) :
    (paths names).attempt = Attempt.forEach Property.path names := by
  induction names with
  | nil => rfl
  | cons name names ih =>
    simp only [paths, attempt_bind, attempt_single, attempt_pure, ih, Attempt.forEach_cons]
    rfl

/-- The names that are asked for from a scope on, in order. -/
def names : Inquiry α → Scope → List String
  | done _, _ => []
  | ask request next, w =>
    request.name :: (next (request.attempt.run w).1).names (request.attempt.run w).2
  | present presentation next, w => next.names { w with host := presentation.apply w.host }
  | record entry next, w => next.names { w with tally := entry w.tally }

/-! ## Kinds of inquiries -/

/-- All requests that can be made have a property. -/
def All (P : Request → Prop) : Inquiry α → Prop
  | done _ => True
  | ask request next => P request ∧ ∀ answer, (next answer).All P
  | present _ next => next.All P
  | record _ next => next.All P

/-- A request that fails ends the inquiry. -/
def Strict : Inquiry α → Prop
  | done _ => True
  | ask _ next => (∀ e, next (.error e) = done (.error e)) ∧ ∀ answer, (next answer).Strict
  | present _ next => next.Strict
  | record _ next => next.Strict

/-- A kind of inquiries to which those belong that are put together from inquiries of that kind. -/
structure Closed (C : ∀ {α : Type}, Inquiry α → Prop) : Prop where
  done : ∀ {α : Type} (result : Except Failure α), C (done result)
  bind : ∀ {α β : Type} {x : Inquiry α} {f : α → Inquiry β}, C x → (∀ a, C (f a)) → C (x >>= f)
  present : ∀ {α : Type} (presentation : Presentation) {x : Inquiry α},
    C x → C (present presentation x)
  record : ∀ {α : Type} (entry : Tally → Tally) {x : Inquiry α}, C x → C (record entry x)

/-- The same for what is put together without entries in the tally. -/
structure Composed (C : ∀ {α : Type}, Inquiry α → Prop) : Prop where
  done : ∀ {α : Type} (result : Except Failure α), C (done result)
  bind : ∀ {α β : Type} {x : Inquiry α} {f : α → Inquiry β}, C x → (∀ a, C (f a)) → C (x >>= f)
  present : ∀ {α : Type} (presentation : Presentation) {x : Inquiry α},
    C x → C (present presentation x)

theorem Closed.composed {C : ∀ {α : Type}, Inquiry α → Prop} (h : Closed C) : Composed C where
  done := h.done
  bind := h.bind
  present := h.present

theorem All.bind {P : Request → Prop} {x : Inquiry α} {f : α → Inquiry β} (hx : x.All P)
    (hf : ∀ a, (f a).All P) : (x >>= f).All P := by
  induction x with
  | done result =>
    cases result with
    | error e => trivial
    | ok a => exact hf a
  | ask request next ih => exact ⟨hx.1, fun answer => ih answer (hx.2 answer)⟩
  | present presentation next ih => exact ih hx
  | record entry next ih => exact ih hx

theorem Strict.bind {x : Inquiry α} {f : α → Inquiry β} (hx : x.Strict)
    (hf : ∀ a, (f a).Strict) : (x >>= f).Strict := by
  induction x with
  | done result =>
    cases result with
    | error e => trivial
    | ok a => exact hf a
  | ask request next ih =>
    refine ⟨?_, fun answer => ih answer (hx.2 answer)⟩
    intro e
    change (next (.error e)).bind f = done (.error e)
    rw [hx.1 e]
    rfl
  | present presentation next ih => exact ih hx
  | record entry next ih => exact ih hx

theorem all_of_forall {P : Request → Prop} (h : ∀ request, P request) (x : Inquiry α) : x.All P := by
  induction x with
  | done result => trivial
  | ask request next ih => exact ⟨h request, ih⟩
  | present presentation next ih => exact ih
  | record entry next ih => exact ih

theorem All.mono {P Q : Request → Prop} (h : ∀ request, P request → Q request) {x : Inquiry α}
    (hx : x.All P) : x.All Q := by
  induction x with
  | done result => trivial
  | ask request next ih => exact ⟨h request hx.1, fun answer => ih answer (hx.2 answer)⟩
  | present presentation next ih => exact ih hx
  | record entry next ih => exact ih hx

theorem closed_all (P : Request → Prop) : Closed (fun {_} x => x.All P) where
  done _ := trivial
  bind := All.bind
  present _ _ h := h
  record _ _ h := h

theorem closed_strict : Closed (fun {_} x => x.Strict) where
  done _ := trivial
  bind := Strict.bind
  present _ _ h := h
  record _ _ h := h

theorem strict_single (request : Request) : (single request).Strict :=
  ⟨fun _ => rfl, fun _ => trivial⟩

theorem all_single {P : Request → Prop} {request : Request} :
    (single request).All P ↔ P request := by
  simp [single, All]

theorem Composed.paths {C : ∀ {α : Type}, Inquiry α → Prop} (hC : Composed C)
    (hpath : ∀ name, C (single (.path name))) (names : List String) : C (paths names) := by
  induction names with
  | nil => exact hC.done (.ok [])
  | cons name names ih =>
    exact hC.bind (hpath name) fun path => hC.bind ih fun rest => hC.done (.ok (path :: rest))

end Inquiry

end Criteria.Property
