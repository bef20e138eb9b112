import Mathlib
import Criteria.Proofs.Outline.Brackets
import Criteria.Proofs.Prefetch.Grouping
import Criteria.Proofs.Query.Prefetching

/-!
# Requests between commas

A request with as many closing brackets as opening ones ends at the depth where it
began, so a comma behind it stands outside all brackets. What is written behind
that comma is read as a request of its own, and meeting both requests at once is
meeting one after the other.
-/

namespace Criteria

namespace Outline

variable {s : String}

/-- A text with as many opening as closing brackets, whatever their order, is read as if nothing
followed the comma behind it. -/
theorem parse_append_comma (h : s.toList.count '[' = s.toList.count ']') (t : String) :
    parse (s ++ "," ++ t) = parse s ++ parse t := by
  have hdepth : depth s.toList = 0 := by
    rw [depth_eq_count]
    omega
  have htext : (s ++ "," ++ t).toList = s.toList ++ ',' :: t.toList := by simp
  rw [parse, htext, parseChars_append_comma hdepth, parse, parse]

theorem leaves_append (t u : Outline) : leaves (t ++ u) = t.leaves ++ u.leaves :=
  leavesFrom_append [] t u

end Outline

namespace Prefetch

variable {s : String}

/-- **A request that joins two by a comma is both, one after the other.** If the first has as many
opening as closing brackets, in whatever order, the joined request is read as the routes of the
first and then those of the second. From every table, plan and tally it comes to what meeting the
first comes to and then, unless that failed, meeting the second. -/
theorem outlined_append_comma (s t : String) (h : s.toList.count '[' = s.toList.count ']') :
    Outline.parse (s ++ "," ++ t) = Outline.parse s ++ Outline.parse t ∧
      ∀ w : Workspace (RelationTable Nat) Plan,
        (outlined (s ++ "," ++ t)).run w =
          match (outlined s).run w with
          | (.ok _, w₁) => (outlined t).run w₁
          | (.error e, w₁) => (.error e, w₁) := by
  have hparse := Outline.parse_append_comma h t
  refine ⟨hparse, fun w => ?_⟩
  by_cases hcount : w.host.isCount = true
  · simp [run_outlined_eq, hcount]
  · have hkept := isCount_outlined s w
    rw [run_outlined_eq s, if_neg hcount] at hkept ⊢
    rw [run_outlined_eq, if_neg hcount, hparse, Outline.leaves_append, Attempt.forEach_append]
    rcases hfirst : (Attempt.forEach (RelationTable.resolve Plan.fetch)
        (Outline.parse s).leaves).run w with ⟨e | ids, w₁⟩
    · rw [Attempt.run_bind_of_error hfirst]
      rfl
    · -- the plan that the first request leaves counts no more than the one before
      have hcount₁ : ¬ w₁.host.isCount = true := by
        rw [hfirst] at hkept
        exact hkept ▸ hcount
      rw [Attempt.run_bind_of_ok hfirst]
      dsimp only [Except.map]
      rw [run_outlined_eq t, if_neg hcount₁, Attempt.run_bind]
      rcases (Attempt.forEach (RelationTable.resolve Plan.fetch) (Outline.parse t).leaves).run w₁
        with ⟨_ | _, _⟩ <;> rfl

/-- The first request closes a bracket before it opens one, and the second closes none. -/
theorem outlined_append_comma_unmatched :
    let s := "a.[b,c],]d,e["
    let t := "a.[b,f"
    s.toList.count '[' = s.toList.count ']' ∧
      Outline.parse (s ++ "," ++ t) = Outline.parse s ++ Outline.parse t ∧
      (Outline.parse (s ++ "," ++ t)).leaves =
        [["a", "b"], ["a", "c"], ["]d,e"], ["a", "b"], ["a", "f"]] ∧
      ∀ w : Workspace (RelationTable Nat) Plan,
        (outlined (s ++ "," ++ t)).run w =
          match (outlined s).run w with
          | (.ok _, w₁) => (outlined t).run w₁
          | (.error e, w₁) => (.error e, w₁) := by
  intro s t
  have h : s.toList.count '[' = s.toList.count ']' := by decide
  obtain ⟨hparse, hrun⟩ := outlined_append_comma s t h
  refine ⟨h, hparse, ?_, hrun⟩
  decide +kernel

end Prefetch

end Criteria
