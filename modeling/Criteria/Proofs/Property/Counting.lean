import Mathlib
import Criteria.Proofs.Property.Inquiry
import Criteria.Proofs.Query.Joins
import Criteria.Proofs.Relation.Counting

/-!
# Counting joins

A property that is read takes one join for each attribute of its name but the
last, found again or created. Conditions that make no joins change nothing about
this, so an inquiry that keeps no tally of its own has entered, at its end, as
many joins as all names it asked for take together.
-/

namespace Criteria.Property

open Criteria.Register (Counted Counts counts_of_keeps counts_walk)

variable {w w' : Scope} {α β : Type} {name : String}

/-! ## Requests -/

/-- Putting a condition that makes no joins on a join is not counted. -/
theorem keeps_ledger_restrictAt {restriction : Join → Attempt Failure Plan Expr}
    (h : ∀ join, (restriction join).Keeps Plan.joins) (id : Nat) :
    (restrictAt restriction id).Keeps Register.joins.ledger := by
  intro w
  rw [run_restrictAt]
  cases w.store.handle? id with
  | none => rfl
  | some join =>
    have hkeeps := h join w.host
    dsimp only
    rcases hrun : (restriction join).run w.host with ⟨e | condition, host⟩ <;>
    · rw [hrun] at hkeeps
      exact congrArg (fun joins => (w.store.kind, w.store.memoize, w.store.memo, w.tally, joins))
        hkeeps

theorem keeps_ledger_property (join : Option Join) (name : String) :
    (Workspace.onHost (Plan.property join name) : Attempt Failure Scope String).Keeps
      Register.joins.ledger := by
  intro w
  rw [Workspace.run_onHost, Plan.run_property]

/-- A property takes a join for each attribute of its name but the last. -/
theorem counts_resolve {visit : Nat → Attempt Failure Scope Unit}
    (hvisit : ∀ id, (visit id).Keeps Register.joins.ledger) (name : String) :
    Register.joins.Counts ((attributes name).length - 1) (resolve name visit) := by
  cases hcut : cut? name with
  | none =>
    intro w
    rw [resolve, hcut]
    refine ⟨{}, ?_, fun hok => by cases hok⟩
    rw [Tally.only_zero]
    exact .of_ledger rfl
  | some parts =>
    obtain ⟨chain, last⟩ := parts
    have hlength : (attributes name).length - 1 = chain.length + 0 := by
      rw [attributes_of_cut? hcut, List.length_append, List.length_singleton]
      rfl
    rw [resolve, hcut, hlength]
    refine Counts.bind (counts_walk none chain) fun id => counts_of_keeps ?_
    refine Attempt.Keeps.bind ?_ fun _ => Attempt.keeps_current.bind fun w => ?_
    · cases id with
      | none => exact Attempt.keeps_pure ()
      | some id => exact hvisit id
    · exact keeps_ledger_property _ last

theorem Request.counts_attempt {request : Request} (h : request.KeepsJoins) :
    Register.joins.Counts ((attributes request.name).length - 1) request.attempt := by
  cases request with
  | path name => exact counts_resolve (fun _ => Attempt.keeps_pure ()) name
  | pathOn name restriction => exact counts_resolve (keeps_ledger_restrictAt h) name

namespace Inquiry

/-! ## Inquiries without entries -/

/-- The inquiry enters nothing in the tally itself. -/
def Silent : Inquiry α → Prop
  | done _ => True
  | ask _ next => ∀ answer, (next answer).Silent
  | present _ next => next.Silent
  | record _ _ => False

theorem Silent.bind {x : Inquiry α} {f : α → Inquiry β} (hx : x.Silent)
    (hf : ∀ a, (f a).Silent) : (x >>= f).Silent := by
  induction x with
  | done result =>
    cases result with
    | error e => trivial
    | ok a => exact hf a
  | ask request next ih => exact fun answer => ih answer (hx answer)
  | present presentation next ih => exact ih hx
  | record entry next ih => exact hx.elim

theorem composed_silent : Composed (fun {_} x => x.Silent) where
  done _ := trivial
  bind := Silent.bind
  present _ _ h := h

theorem silent_single (request : Request) : (single request).Silent := fun _ => trivial

/-- An inquiry that succeeds asks for its names, and then for those of what follows. -/
theorem names_bind {x : Inquiry α} (f : α → Inquiry β) {a : α}
    (h : x.attempt.run w = (.ok a, w')) : (x >>= f).names w = x.names w ++ (f a).names w' := by
  induction x generalizing w with
  | done result =>
    cases h
    rfl
  | ask request next ih => exact congrArg (request.name :: ·) (ih _ h)
  | present presentation next ih => exact ih h
  | record entry next ih => exact ih h

/-- How many joins the names take together. -/
def joinsTaken (names : List String) : Nat :=
  (names.map fun name => (attributes name).length - 1).sum

theorem joinsTaken_append (names more : List String) :
    joinsTaken (names ++ more) = joinsTaken names + joinsTaken more := by
  simp [joinsTaken]

/-- All that an inquiry enters are the joins for its names, and these in full if it succeeds and
does not go on after failures. -/
theorem counted_attempt {x : Inquiry α} (hkeeps : x.All Request.KeepsJoins) (hsilent : x.Silent)
    (w : Scope) :
    ∃ u : Usage, Counted .joins w (x.attempt.run w).2 (.only w.store.kind u) ∧
      (x.Strict → (x.attempt.run w).1.isOk = true →
        u.hits + u.created = joinsTaken (x.names w)) := by
  induction x generalizing w with
  | done result =>
    refine ⟨{}, ?_, fun _ _ => rfl⟩
    rw [Tally.only_zero]
    exact .of_ledger rfl
  | ask request next ih =>
    obtain ⟨u, hfirst, hu⟩ := request.counts_attempt hkeeps.1 w
    obtain ⟨v, hrest, hv⟩ := ih _ (hkeeps.2 _) (hsilent _) (request.attempt.run w).2
    rw [run_ask, names]
    rw [hfirst.kind_eq] at hrest
    refine ⟨u + v, Tally.only_add w.store.kind u v ▸ hfirst.trans hrest, fun hstrict hok => ?_⟩
    cases hanswer : (request.attempt.run w).1 with
    | error e =>
      rw [hanswer, hstrict.1 e] at hok
      cases hok
    | ok text =>
      have hsum := hv (hstrict.2 _) hok
      have hsize := hu (by rw [hanswer]; rfl)
      rw [Usage.hits_add, Usage.created_add, joinsTaken, List.map_cons, List.sum_cons, ← hanswer]
      rw [joinsTaken] at hsum
      omega
  | present presentation next ih =>
    obtain ⟨u, hrest, hu⟩ := ih hkeeps hsilent { w with host := presentation.apply w.host }
    have hfirst : Counted .joins w { w with host := presentation.apply w.host } {} := by
      refine .of_ledger ?_
      simp [Register.ledger, Register.joins]
    exact ⟨u, Tally.zero_add (.only w.store.kind u) ▸ hfirst.trans hrest, hu⟩
  | record entry next ih => exact hsilent.elim

end Inquiry

end Criteria.Property
