import Mathlib
import Criteria.Proofs.Outline.Spelling

/-!
# Outlines without groups

The leaves of an outline are an outline again, one in which every route is a
chain. It names the same leaves, in the same order, and if the outline was
well-formed it can be written and read as well.
-/

namespace Criteria

variable {before names : List String} {outline routes : Outline} {route : Route}

/-! ## Leaves of routes -/

theorem Route.leavesFrom_nil (before : List String) :
    Route.leavesFrom before [] = if before.isEmpty then [] else [before] := by
  rw [Route.leavesFrom]

/-- A chain in front belongs to the beginning of the leaves. -/
theorem Route.leavesFrom_chain_append (before names : List String) (rest : Route) :
    Route.leavesFrom before (Route.chain names ++ rest) =
      Route.leavesFrom (before ++ names) rest := by
  induction names generalizing before with
  | nil => simp
  | cons name names ih =>
    rw [Route.chain_cons, List.cons_append, Route.leavesFrom, ih, List.append_assoc,
      List.singleton_append]

/-- A chain is its own leaf. -/
theorem Route.leavesFrom_chain (hne : names ≠ []) :
    Route.leavesFrom before (Route.chain names) = [before ++ names] := by
  rw [← List.append_nil (Route.chain names), Route.leavesFrom_chain_append, Route.leavesFrom_nil,
    if_neg (by simp [hne])]

theorem Outline.leavesFrom_eq_flatMap (before : List String) (outline : Outline) :
    Outline.leavesFrom before outline = outline.flatMap (Route.leavesFrom before) := by
  induction outline with
  | nil => rw [Outline.leavesFrom, List.flatMap_nil]
  | cons route routes ih => rw [Outline.leavesFrom, ih, List.flatMap_cons]

theorem Outline.leavesFrom_append (before : List String) (t u : Outline) :
    Outline.leavesFrom before (t ++ u) =
      Outline.leavesFrom before t ++ Outline.leavesFrom before u := by
  simp only [Outline.leavesFrom_eq_flatMap, List.flatMap_append]

/-- A group at the end has the leaves of its routes, or none but the beginning if it is empty. -/
theorem Route.leavesFrom_group (before : List String) (routes : Outline) :
    Route.leavesFrom before [.group routes] =
      if routes = [] then Route.leavesFrom before [] else Outline.leavesFrom before routes := by
  cases routes with
  | nil => simp [Route.leavesFrom]
  | cons route routes => rw [if_neg (by simp), Route.leavesFrom, Outline.leavesFrom]

/-! ## Leaves of well-formed outlines -/

/-- The beginning alone is a leaf if there is one. -/
theorem Route.mem_leavesFrom_nil {leaf : List String} (h : leaf ∈ Route.leavesFrom before []) :
    leaf ≠ [] ∧ leaf = before := by
  rw [Route.leavesFrom_nil] at h
  split at h
  · cases h
  · next hb =>
    rw [List.mem_singleton.1 h]
    exact ⟨by simpa using hb, rfl⟩

/-- The leaves of a well-formed route are chains of names. -/
theorem Route.WellFormed.wellFormed_leaf (h : Route.WellFormed route)
    (hb : ∀ name ∈ before, IsName name) :
    ∀ leaf ∈ Route.leavesFrom before route, Route.WellFormed (Route.chain leaf) := by
  induction h generalizing before with
  | chain hne hn =>
    intro leaf hleaf
    rw [Route.leavesFrom_chain hne, List.mem_singleton] at hleaf
    rw [hleaf]
    exact .chain (by simp [hne]) (List.forall_mem_append.2 ⟨hb, hn⟩)
  | @group names routes hn hr ih =>
    intro leaf hleaf
    have hbefore : ∀ name ∈ before ++ names, IsName name := List.forall_mem_append.2 ⟨hb, hn⟩
    rw [Route.leavesFrom_chain_append, Route.leavesFrom_group] at hleaf
    split at hleaf
    · obtain ⟨hne, rfl⟩ := Route.mem_leavesFrom_nil hleaf
      exact .chain hne hbefore
    · rw [Outline.leavesFrom_eq_flatMap, List.mem_flatMap] at hleaf
      obtain ⟨route, hroute, hleaf⟩ := hleaf
      exact ih route hroute hbefore leaf hleaf

namespace Outline

/-- The leaves, each as a route of its own. -/
def expanded (outline : Outline) : Outline := outline.leaves.map Route.chain

theorem wellFormed_expanded (h : outline.WellFormed) : outline.expanded.WellFormed := by
  intro route hroute
  obtain ⟨leaf, hleaf, rfl⟩ := List.mem_map.1 hroute
  rw [leaves, leavesFrom_eq_flatMap, List.mem_flatMap] at hleaf
  obtain ⟨route, hroute, hleaf⟩ := hleaf
  exact (h route hroute).wellFormed_leaf (by simp) leaf hleaf

/-- Chains of names are the leaves of the outline they make. -/
theorem leaves_map_chain {chains : List (List String)} (h : ∀ chain ∈ chains, chain ≠ []) :
    leaves (chains.map Route.chain) = chains := by
  rw [leaves, leavesFrom_eq_flatMap]
  induction chains with
  | nil => rfl
  | cons chain chains ih =>
    rw [List.forall_mem_cons] at h
    rw [List.map_cons, List.flatMap_cons, ih h.2, Route.leavesFrom_chain h.1, List.nil_append,
      List.singleton_append]

/-- Without its groups an outline has the leaves that it has with them. -/
theorem leaves_expanded (h : outline.WellFormed) : outline.expanded.leaves = outline.leaves := by
  refine leaves_map_chain fun chain hchain => ?_
  exact (Route.wellFormed_chain_iff.1
    (wellFormed_expanded h _ (List.mem_map.2 ⟨chain, hchain, rfl⟩))).1

/-- It is written with points and commas alone. -/
theorem render_expanded (outline : Outline) :
    outline.expanded.render = ",".intercalate (outline.leaves.map ".".intercalate) := by
  have hchain : ∀ names, Route.render (Route.chain names) = ".".intercalate names := by
    intro names
    rw [Route.render, Route.renderSteps_eq_map, Route.chain, List.map_map]
    congr 1
    exact List.map_id names
  rw [render, renderRoutes_eq_map, expanded, List.map_map]
  congr 1
  exact List.map_congr_left fun names _ => hchain names

/-- There are no brackets in it. -/
theorem bracket_not_mem_render_expanded (h : outline.WellFormed) {c : Char} (hc : c ∈ ['[', ']']) :
    c ∉ outline.expanded.render.toList := by
  have hmark : c ∈ ['.', ',', '[', ']'] := List.mem_cons_of_mem '.' (List.mem_cons_of_mem ',' hc)
  have hne : c ≠ ',' ∧ c ≠ '.' := by
    simp only [List.mem_cons, List.not_mem_nil, or_false] at hc
    rcases hc with rfl | rfl <;> decide
  rw [toList_render]
  refine not_mem_intercalate hne.1 fun part hpart => ?_
  obtain ⟨route, hroute, rfl⟩ := List.mem_map.1 hpart
  have hwell := wellFormed_expanded h route hroute
  obtain ⟨leaf, -, rfl⟩ := List.mem_map.1 hroute
  rw [Route.toList_render_chain]
  refine not_mem_intercalate hne.2 fun piece hpiece => ?_
  obtain ⟨name, hname, rfl⟩ := List.mem_map.1 hpiece
  exact ((Route.wellFormed_chain_iff.1 hwell).2 name hname).not_mem hmark

end Outline

end Criteria
