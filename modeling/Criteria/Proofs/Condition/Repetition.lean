import Mathlib
import Criteria.Proofs.Property.Repetition
import Criteria.Proofs.Query.Reuse

/-!
# Evaluating conditions again

A condition can be used more than once. If it puts nothing on joins, then
evaluating it again comes to the same, makes no joins and leaves the plan as it
is, also where it has failed halfway. So a condition together with itself needs
no more joins than alone.
-/

namespace Criteria

open Property (Inquiry Memoizing Reachable Request Settles settles_ofExcept)

/-- The leaf puts no conditions on joins. What callers evaluate asks for paths only. -/
def Leaf.IsPlain : Leaf → Prop
  | compareOn _ _ _ _ => False
  | custom run => ∃ x : Inquiry (Option Expr), x.attempt = run ∧ x.All Request.IsPlain
  | _ => True

variable {w : Scope}

theorem Leaf.IsPlain.settles_eval {l : Leaf} (h : l.IsPlain) (hw : Memoizing w.store) :
    Settles l.eval w := by
  rcases l.custom_or_attempt with ⟨run, rfl⟩ | hattempt
  · obtain ⟨x, rfl, hplain⟩ := h
    exact Inquiry.settles_attempt hplain hw
  · rw [← hattempt fun _ => pure none]
    refine Inquiry.settles_attempt (l.plain_inquiry ?_ fun _ _ => trivial) hw
    rintro name restriction op value rfl
    exact h

namespace Condition

theorem settles_eval {c : Condition Leaf} (h : ∀ l ∈ c.leaves, l.IsPlain)
    (hw : Memoizing w.store) : Settles (c.eval Leaf.eval) w := by
  induction c generalizing w with
  | leaf l => exact (h l List.mem_cons_self).settles_eval hw
  | absent => exact settles_ofExcept hw (.ok none)
  | compose connective l r ihl ihr =>
    rw [leaves, List.forall_mem_append] at h
    rw [eval_compose]
    refine (ihl h.1 hw).bind fun el w₁ _ hw₁ => (ihr h.2 hw₁).bind fun er w₂ _ hw₂ => ?_
    exact settles_ofExcept hw₂ (.ok _)

theorem combine_and_self (result : Option Expr) :
    combine .and result result = result.map fun e => .and e e := by
  cases result <;> rfl

/-- **Evaluating a condition twice is as good as evaluating it once**, if its leaves put nothing on
joins and the table memoizes: the second time it has the same result or the same error, and table
and plan stay as they are. Together with itself, a condition has its expression twice, in the scope
where it alone would have ended. -/
theorem eval_again (c : Condition Leaf) (hplain : ∀ l ∈ c.leaves, l.IsPlain)
    (hreachable : Reachable w) (hmemoize : w.store.memoize = true) :
    let first := (c.eval Leaf.eval).run w
    let second := (c.eval Leaf.eval).run first.2
    let both := ((c.and c).eval Leaf.eval).run w
    (second.1 = first.1 ∧ second.2.store = first.2.store ∧ second.2.host = first.2.host) ∧
      both.1 = first.1.map (Option.map fun e => .and e e) ∧ both.2.store = first.2.store ∧
      both.2.host = first.2.host := by
  intro first second both
  have hw : Memoizing w.store := ⟨hmemoize, hreachable.findable⟩
  have hsettles : Settles (c.eval Leaf.eval) w := settles_eval hplain hw
  refine ⟨hsettles.again, ?_⟩
  obtain ⟨hresult, hrest⟩ := hsettles.twice (combine .and)
  simp only [combine_and_self] at hresult
  exact ⟨hresult, hrest⟩

/-- A condition with a side that is absent, one without a result, and one of a caller. -/
def repeated : Condition Leaf :=
  .and (.leaf (.distinct true))
    (.or (.leaf (.custom Query.ownInquiry.attempt))
      (.compose .and .absent (.leaf (.compare "a.b.x" .isNull none))))

/-- It makes joins, and fails at an attribute that does not exist. -/
def brokenOff : Condition Leaf :=
  repeated.and (.and (.leaf (.distinct false)) (.leaf (.mention "e.f.r.x")))

theorem isPlain_of_mem_brokenOff : ∀ l ∈ brokenOff.leaves, l.IsPlain := by
  intro l hl
  simp only [brokenOff, repeated, and, or, leaves, List.cons_append, List.nil_append, List.mem_cons,
    List.not_mem_nil, or_false] at hl
  rcases hl with rfl | rfl | rfl | rfl | rfl
  · trivial
  · exact ⟨Query.ownInquiry, rfl, Inquiry.All.bind (Inquiry.all_single.2 trivial) fun _ => trivial⟩
  · trivial
  · trivial
  · trivial

/-- Before, a condition was put on the join `a`, and joining `b.r` has failed. -/
theorem eval_again_brokenOff :
    let w := Property.after
      [.pathOn "a.y" (Restriction.compare "k" .isNull none).eval, .path "b.r.x"]
      ⟨.empty .join true, { rejected := ["r"] }, {}⟩
    let first := (brokenOff.eval Leaf.eval).run w
    let second := (brokenOff.eval Leaf.eval).run first.2
    let both := ((repeated.and repeated).eval Leaf.eval).run w
    Reachable w ∧
      (second.1 = first.1 ∧ second.2.store = first.2.store ∧ second.2.host = first.2.host) ∧
      first.1.map Option.isSome = .error (.unknownAttribute "r") ∧
      first.2.store.paths = ["a", "b", "c", "c.d", "a.b", "e", "e.f"] ∧
      both.1.toOption.join.map Expr.text =
        some ("(c.d.x is null or a[on a.k is null].b.x is null) and " ++
          "(c.d.x is null or a[on a.k is null].b.x is null)") ∧
      both.2.store.paths = ["a", "b", "c", "c.d", "a.b"] := by
  intro w first second both
  have hreachable : Reachable w := .request (.request (.empty .join true _ {}) _) _
  have hmemoize : w.store.memoize = true := by decide +kernel
  obtain ⟨hagain, -⟩ := eval_again brokenOff isPlain_of_mem_brokenOff hreachable hmemoize
  refine ⟨hreachable, ?_, ?_, ?_, ?_, ?_⟩
  -- The two evaluations are the same as they stand; neither of them need be run.
  · with_reducible exact hagain
  · decide +kernel
  · decide +kernel
  · decide +kernel
  · decide +kernel

end Condition

end Criteria
