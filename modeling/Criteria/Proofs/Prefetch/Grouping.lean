import Mathlib
import Criteria.Proofs.Outline.Expansion
import Criteria.Proofs.Prefetch.Closure

/-!
# Grouped and flat requests

What a request fetches depends on the leaves of its outline alone. So a request in
which beginnings are shared by groups may be exchanged for the one that lists all
leaves, whatever was fetched before and whatever is rejected.
-/

namespace Criteria.Prefetch

variable {request request' : String} {outline : Outline}

/-- A request is met by resolving its leaves; if there are none, as in a blank request, there is
nothing to do. -/
theorem run_outlined_eq (request : String) (w : Workspace (RelationTable Nat) Plan) :
    (outlined request).run w =
      if w.host.isCount then (.ok (), w)
      else
        let fetched :=
          (Attempt.forEach (RelationTable.resolve Plan.fetch) (Outline.parse request).leaves).run w
        (fetched.1.map fun _ => (), fetched.2) := by
  rw [run_outlined]
  by_cases hblank : Text.isBlankText request = true
  · have hnone : (Outline.parse request).leaves = [] := by
      rw [Outline.parse_of_isBlankText hblank, Outline.leaves, Outline.leavesFrom]
    rw [hnone, if_pos (by simp [hblank])]
    split <;> rfl
  · rw [Bool.not_eq_true] at hblank
    rw [hblank, Bool.false_or]

/-- Requests with the same leaves are met in the same way. -/
theorem outlined_congr (h : (Outline.parse request).leaves = (Outline.parse request').leaves) :
    outlined request = outlined request' := by
  ext1
  funext w
  rw [run_outlined_eq, run_outlined_eq, h]

/-- **A well-formed outline and the list of its leaves are the same request**: from every table and
plan they have the same result and leave the same table, plan and tally, whichever way the outline
is spelled. The list has no brackets. -/
theorem outlined_leaves (h : outline.WellFormed) :
    let flat := ",".intercalate (outline.leaves.map ".".intercalate)
    '[' ∉ flat.toList ∧ ']' ∉ flat.toList ∧
      ∀ w : Workspace (RelationTable Nat) Plan,
        (outlined outline.render).run w = (outlined flat).run w ∧
        ∀ text, outline.Spells text → (outlined text).run w = (outlined flat).run w := by
  intro flat
  have hexpanded := Outline.wellFormed_expanded h
  have hflat : (Outline.parse flat).leaves = outline.leaves := by
    have hread := Outline.parse_of_spells hexpanded (Outline.spells_render hexpanded)
    rw [Outline.render_expanded] at hread
    rw [hread, Outline.leaves_expanded h]
  have hspelled : ∀ text, outline.Spells text → outlined text = outlined flat := by
    intro text htext
    refine outlined_congr ?_
    rw [Outline.parse_of_spells h htext, hflat]
  have hplain : ∀ c ∈ ['[', ']'], c ∉ flat.toList := by
    intro c hc
    have hnone := Outline.bracket_not_mem_render_expanded h hc
    rwa [Outline.render_expanded] at hnone
  refine ⟨hplain '[' (by simp), hplain ']' (by simp), fun w => ⟨?_, fun text htext => ?_⟩⟩
  · rw [hspelled _ (Outline.spells_render h)]
  · rw [hspelled text htext]

/-- A group in a group, an empty one, and one without a chain in front. -/
def groupedOutline : Outline :=
  [Route.chain ["a"] ++
      [.group [Route.chain ["b"] ++ [.group [Route.chain ["c"], Route.chain ["d"]]],
        Route.chain [] ++ [.group []]]],
    Route.chain [] ++ [.group [Route.chain ["e", "f"]]]]

theorem wellFormed_groupedOutline : groupedOutline.WellFormed := by
  have hname : ∀ name ∈ ["a", "b", "c", "d", "e", "f"], IsName name := by decide
  simp only [List.forall_mem_cons] at hname
  obtain ⟨ha, hb, hc, hd, he, hf, -⟩ := hname
  simp [groupedOutline, Outline.WellFormed, Route.wellFormed_group_iff, Route.wellFormed_chain_iff,
    ha, hb, hc, hd, he, hf, -Route.chain_cons, -Route.chain_nil]

theorem outlined_leaves_grouped :
    groupedOutline.WellFormed ∧ groupedOutline.render = "a.[b.[c,d],[]],[e.f]" ∧
      ∀ w : Workspace (RelationTable Nat) Plan,
        (outlined "a.[b.[c,d],[]],[e.f]").run w = (outlined "a.b.c,a.b.d,a,e.f").run w := by
  have hrender : groupedOutline.render = "a.[b.[c,d],[]],[e.f]" := by decide +kernel
  have hflat : ",".intercalate (groupedOutline.leaves.map ".".intercalate) =
      "a.b.c,a.b.d,a,e.f" := by decide +kernel
  have hsame := (outlined_leaves wellFormed_groupedOutline).2.2
  rw [hrender, hflat] at hsame
  exact ⟨wellFormed_groupedOutline, hrender, fun w => (hsame w).1⟩

end Criteria.Prefetch
