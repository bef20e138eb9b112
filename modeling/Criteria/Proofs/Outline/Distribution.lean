import Mathlib
import Criteria.Proofs.Outline.Conservation
import Criteria.Proofs.Outline.Expansion

/-!
# Distributing chains over groups

A group only saves writing: its routes may as well stand in its place, each behind
the chain in front of the group. One such step, at any depth, keeps the leaves and
leaves one group with routes less, so that the steps come to an end, and there the
leaves can be read off the routes.
-/

namespace Criteria

variable {t t' routes : Outline} {names before : List String}

/-! ## Steps -/

/-- The routes, each behind the chain of names. -/
def Outline.behind (names : List String) (routes : Outline) : Outline :=
  routes.map (Route.chain names ++ ·)

/-- At one place in an outline, at any depth, the routes of a group that has some stand in the place
of the group, behind the chain in front of it. -/
inductive Outline.Distributes : Outline → Outline → Prop
  | here (front back : Outline) (names : List String) {routes : Outline} (hne : routes ≠ []) :
      Outline.Distributes (front ++ (Route.chain names ++ [.group routes]) :: back)
        (front ++ (routes.behind names ++ back))
  | inside (front back : Outline) (names : List String) {routes routes' : Outline}
      (h : Outline.Distributes routes routes') :
      Outline.Distributes (front ++ (Route.chain names ++ [.group routes]) :: back)
        (front ++ (Route.chain names ++ [.group routes']) :: back)

/-! ## Routes without routes in them -/

namespace Route

theorem attributes_chain_append (names : List String) (rest : Route) :
    attributes (chain names ++ rest) = names ++ attributes rest := by
  induction names with
  | nil => rfl
  | cons name names ih => rw [chain_cons, List.cons_append, attributes, ih, List.cons_append]

/-- A route whose group is empty, if it has one, is its own leaf if it has attributes. -/
theorem Shaped.leavesFrom_nil {route : Route} (h : Shaped route)
    (hflat : ∀ routes ∈ subgroups route, routes = []) :
    leavesFrom [] route = if route.attributes.isEmpty then [] else [route.attributes] := by
  obtain ⟨names, group, rfl⟩ := h
  rw [leavesFrom_chain_append, List.nil_append, attributes_chain_append]
  cases group with
  | none => simp [Route.leavesFrom_nil, attributes]
  | some routes =>
    obtain rfl : routes = [] := hflat routes (by simp [subgroups_group])
    simp [leavesFrom_group, Route.leavesFrom_nil, attributes]

end Route

/-! ## Outlines whose groups are at the end of routes -/

namespace Outline

/-- No group has routes. -/
def IsFlat (t : Outline) : Prop := ∀ routes ∈ subgroups t, routes = []

/-- The number of groups that have routes. -/
def filledGroups (t : Outline) : Nat := (subgroups t).countP (!·.isEmpty)

theorem filledGroups_eq_zero_iff : filledGroups t = 0 ↔ t.IsFlat := by
  simp [filledGroups, IsFlat, List.countP_eq_zero]

theorem filledGroups_append (t u : Outline) :
    filledGroups (t ++ u) = filledGroups t + filledGroups u := by
  rw [filledGroups, subgroups_append, List.countP_append, filledGroups, filledGroups]

theorem filledGroups_group_cons (hne : routes ≠ []) (names : List String) (t : Outline) :
    filledGroups ((Route.chain names ++ [.group routes]) :: t) =
      filledGroups routes + filledGroups t + 1 := by
  rw [filledGroups, subgroups, Route.subgroups_group, List.cons_append,
    List.countP_cons_of_pos (by simp [hne]), List.countP_append, filledGroups, filledGroups]

/-- Groups stand only at the end of routes, at all depths. -/
def Shaped (t : Outline) : Prop := t.Throughout fun routes => ∀ route ∈ routes, Route.Shaped route

theorem shaped_append_iff {t u : Outline} : (t ++ u).Shaped ↔ t.Shaped ∧ u.Shaped := by
  simp only [Shaped, Throughout, List.forall_mem_cons, subgroups_append, List.forall_mem_append]
  tauto

theorem shaped_cons_iff {route : Route} : Shaped (route :: t) ↔ Shaped [route] ∧ t.Shaped :=
  shaped_append_iff (t := [route])

theorem shaped_group_iff : Shaped [Route.chain names ++ [.group routes]] ↔ routes.Shaped := by
  have hroute : Route.Shaped (Route.chain names ++ [.group routes]) := ⟨names, some routes, rfl⟩
  rw [Shaped, throughout_group_iff, List.forall_mem_singleton]
  exact and_iff_right hroute

/-! ## What a chain in front changes -/

theorem subgroups_behind (names : List String) (routes : Outline) :
    subgroups (routes.behind names) = subgroups routes := by
  induction routes with
  | nil => rfl
  | cons route routes ih =>
    rw [behind] at ih
    rw [behind, List.map_cons, subgroups, subgroups, ih, Route.subgroups_chain_append]

theorem Shaped.behind (h : routes.Shaped) (names : List String) : (routes.behind names).Shaped := by
  rw [Shaped, Throughout, List.forall_mem_cons] at h ⊢
  rw [subgroups_behind]
  refine ⟨?_, h.2⟩
  intro route hroute
  obtain ⟨route, hmem, rfl⟩ := List.mem_map.1 hroute
  obtain ⟨more, group, rfl⟩ := h.1 route hmem
  exact ⟨names ++ more, group, by simp [Route.chain]⟩

/-- A chain in front of all routes belongs to the beginning of the leaves. -/
theorem leavesFrom_behind (before names : List String) (routes : Outline) :
    leavesFrom before (routes.behind names) = leavesFrom (before ++ names) routes := by
  rw [leavesFrom_eq_flatMap, leavesFrom_eq_flatMap, behind, List.flatMap_map]
  exact List.flatMap_congr fun route _ => Route.leavesFrom_chain_append before names route

theorem leavesFrom_chain_group (hne : routes ≠ []) (before names : List String) :
    Route.leavesFrom before (Route.chain names ++ [.group routes]) =
      leavesFrom (before ++ names) routes := by
  rw [Route.leavesFrom_chain_append, Route.leavesFrom_group, if_neg hne]

/-! ## What a step keeps -/

namespace Distributes

theorem ne_nil (h : Distributes t t') : t ≠ [] ∧ t' ≠ [] := by
  cases h with
  | here front back names hne => simp [behind, hne]
  | inside front back names h => simp

/-- A step keeps the leaves, whatever they begin with. -/
theorem leavesFrom_eq (h : Distributes t t') (before : List String) :
    leavesFrom before t' = leavesFrom before t := by
  induction h generalizing before with
  | here front back names hne =>
    rw [leavesFrom_append, leavesFrom_append, leavesFrom_append, leavesFrom_behind, leavesFrom,
      leavesFrom_chain_group hne]
  | inside front back names h ih =>
    rw [leavesFrom_append, leavesFrom_append, leavesFrom, leavesFrom,
      leavesFrom_chain_group h.ne_nil.1, leavesFrom_chain_group h.ne_nil.2, ih]

theorem shaped (h : Distributes t t') (ht : t.Shaped) : t'.Shaped := by
  induction h with
  | here front back names hne =>
    rw [shaped_append_iff, shaped_cons_iff, shaped_group_iff] at ht
    rw [shaped_append_iff, shaped_append_iff]
    exact ⟨ht.1, ht.2.1.behind names, ht.2.2⟩
  | inside front back names h ih =>
    rw [shaped_append_iff, shaped_cons_iff, shaped_group_iff] at ht ⊢
    exact ⟨ht.1, ih ht.2.1, ht.2.2⟩

/-- After a step there is one group with routes less. -/
theorem filledGroups_eq (h : Distributes t t') : filledGroups t = filledGroups t' + 1 := by
  induction h with
  | @here front back names routes hne =>
    have hbehind : filledGroups (routes.behind names) = filledGroups routes := by
      rw [filledGroups, subgroups_behind, filledGroups]
    rw [filledGroups_append, filledGroups_group_cons hne, filledGroups_append,
      filledGroups_append, hbehind]
    omega
  | inside front back names h ih =>
    rw [filledGroups_append, filledGroups_group_cons h.ne_nil.1, filledGroups_append,
      filledGroups_group_cons h.ne_nil.2, ih]
    omega

end Distributes

/-! ## The end of the steps -/

/-- As long as there are groups with routes, there is a step. -/
theorem Shaped.exists_distributes (h : t.Shaped) (hfilled : ¬t.IsFlat) :
    ∃ t', Distributes t t' := by
  rw [IsFlat] at hfilled
  push Not at hfilled
  obtain ⟨routes, hroutes, hne⟩ := hfilled
  obtain ⟨route, hroute, hinner⟩ := mem_subgroups.1 hroutes
  obtain ⟨names, group, rfl⟩ := h _ List.mem_cons_self route hroute
  obtain ⟨front, back, rfl⟩ := List.append_of_mem hroute
  -- the group is the one at the end of its route, or inside that one
  cases group with
  | none => simp [Route.subgroups_chain] at hinner
  | some outer =>
    have houter : outer ≠ [] := by
      rintro rfl
      refine hne ?_
      simpa [Route.subgroups_group, subgroups] using hinner
    exact ⟨_, .here front back names houter⟩

/-- Without groups that have routes, the leaves are the attributes of the routes that have any. -/
theorem Shaped.leaves_of_isFlat (h : t.Shaped) (hflat : t.IsFlat) :
    (t.map Route.attributes).filter (!·.isEmpty) = t.leaves := by
  rw [leaves, leavesFrom_eq_flatMap]
  induction t with
  | nil => rfl
  | cons route t ih =>
    have hroute := h _ List.mem_cons_self route List.mem_cons_self
    rw [shaped_cons_iff] at h
    rw [IsFlat, subgroups, List.forall_mem_append] at hflat
    rw [List.map_cons, List.flatMap_cons, hroute.leavesFrom_nil hflat.1, ← ih h.2 hflat.2,
      List.filter_cons]
    cases route.attributes <;> rfl

/-- Steps that are taken for as long as groups have routes keep the shape and the leaves, and each
takes one of these groups. -/
theorem Shaped.run {run : ℕ → Outline} (h : (run 0).Shaped)
    (hrun : ∀ n, ¬(run n).IsFlat → Distributes (run n) (run (n + 1))) {n : ℕ}
    (hn : n ≤ filledGroups (run 0)) :
    (run n).Shaped ∧ (run n).leaves = (run 0).leaves ∧
      filledGroups (run n) + n = filledGroups (run 0) := by
  induction n with
  | zero => exact ⟨h, rfl, rfl⟩
  | succ n ih =>
    obtain ⟨hshaped, hleaves, hcount⟩ := ih (Nat.le_of_succ_le hn)
    have hfilled : ¬(run n).IsFlat := by
      rw [← filledGroups_eq_zero_iff]
      omega
    have hstep := hrun n hfilled
    refine ⟨hstep.shaped hshaped, (hstep.leavesFrom_eq []).trans hleaves, ?_⟩
    rw [← hcount, hstep.filledGroups_eq]
    omega

/-- **Groups only factor out what their routes begin with.** Putting the routes of one group in its
place, each behind the chain in front of it, keeps the leaves, at any depth. This can be repeated
until no group has routes, however the groups are chosen, it ends after as many steps as there were
groups with routes, and then the leaves are the attributes of the routes that have any. -/
theorem leaves_of_distributes (h : t.Shaped) :
    (∀ t', Distributes t t' → t'.leaves = t.leaves) ∧
      (∀ t', Relation.ReflTransGen Distributes t t' → ¬t'.IsFlat → ∃ t'', Distributes t' t'') ∧
      ∀ run : ℕ → Outline, run 0 = t →
        (∀ n, ¬(run n).IsFlat → Distributes (run n) (run (n + 1))) →
          (run t.filledGroups).IsFlat ∧
            ((run t.filledGroups).map Route.attributes).filter (!·.isEmpty) = t.leaves := by
  refine ⟨fun t' hstep => hstep.leavesFrom_eq [], fun t' hsteps => ?_, fun run hstart hrun => ?_⟩
  · have hshaped : t'.Shaped := by
      induction hsteps with
      | refl => exact h
      | tail _ hstep ih => exact hstep.shaped ih
    exact hshaped.exists_distributes
  · subst hstart
    obtain ⟨hshaped, hleaves, hcount⟩ := h.run hrun le_rfl
    have hflat : (run (run 0).filledGroups).IsFlat := by
      rw [← filledGroups_eq_zero_iff]
      omega
    exact ⟨hflat, (hshaped.leaves_of_isFlat hflat).trans hleaves⟩

/-- Routes without steps and an empty group among groups in groups, distributed from within. -/
def distributing : ℕ → Outline
  | 0 => [Route.chain ["a"] ++ [.group [[], Route.chain ["b"] ++
      [.group [Route.chain ["c"], Route.chain ["c"], [.group []]]]]], [.group [[]]]]
  | 1 => [Route.chain ["a"] ++ [.group [[], Route.chain ["b", "c"], Route.chain ["b", "c"],
      Route.chain ["b"] ++ [.group []]]], [.group [[]]]]
  | 2 => [Route.chain ["a"], Route.chain ["a", "b", "c"], Route.chain ["a", "b", "c"],
      Route.chain ["a", "b"] ++ [.group []], [.group [[]]]]
  | _ => [Route.chain ["a"], Route.chain ["a", "b", "c"], Route.chain ["a", "b", "c"],
      Route.chain ["a", "b"] ++ [.group []], []]

theorem distributes_distributing (n : ℕ) (h : ¬(distributing n).IsFlat) :
    Distributes (distributing n) (distributing (n + 1)) := by
  match n with
  | 0 => exact .inside [] _ ["a"] (.here [[]] [] ["b"] (by simp))
  | 1 => exact .here [] _ ["a"] (by simp)
  | 2 => exact .here [_, _, _, _] [] [] (by simp)
  | n + 3 => exact absurd (by simp [distributing, IsFlat, subgroups, Route.subgroups]) h

theorem leaves_of_distributes_nested :
    parse "a.[.,b.[c,c,[]]],[.]" = distributing 0 ∧ (distributing 0).Shaped ∧
      (∀ n, ¬(distributing n).IsFlat → Distributes (distributing n) (distributing (n + 1))) ∧
      (distributing 1).leaves = (distributing 0).leaves ∧ (distributing 3).IsFlat ∧
      (distributing 0).leaves = [["a"], ["a", "b", "c"], ["a", "b", "c"], ["a", "b"]] := by
  have hparse : parse "a.[.,b.[c,c,[]]],[.]" = distributing 0 := by decide +kernel
  have hshaped : (distributing 0).Shaped := by
    rw [← hparse]
    exact (reads_parseChars _).throughout_shape
  obtain ⟨hstep, -, hrun⟩ := leaves_of_distributes hshaped
  obtain ⟨hflat, hleaves⟩ := hrun distributing rfl distributes_distributing
  have hcount : (distributing 0).filledGroups = 3 := by decide +kernel
  rw [hcount] at hflat hleaves
  refine ⟨hparse, hshaped, distributes_distributing, hstep _ (distributes_distributing 0 ?_), hflat,
    hleaves.symm.trans ?_⟩
  · rw [← filledGroups_eq_zero_iff, hcount]
    simp
  · decide +kernel

end Outline

end Criteria
