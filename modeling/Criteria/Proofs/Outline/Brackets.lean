import Mathlib
import Criteria.Proofs.Outline.Leaves
import Criteria.Proofs.Outline.Reads
import Criteria.Proofs.Outline.Spelling

/-!
# Brackets and groups

Every opening bracket of a text opens a group of the outline that is read. A
closing bracket closes one or is left in a name. Such names show that the groups
of the text ended somewhere else than those of the outline do.
-/

namespace Criteria

open Text (Blank)

/-! ## Groups -/

mutual

/-- The groups in a route, each before those inside it. -/
def Route.subgroups : List Step → List Outline
  | [] => []
  | .attribute _ :: rest => Route.subgroups rest
  | .group routes :: rest => routes :: (Outline.subgroups routes ++ Route.subgroups rest)

/-- The groups in an outline, each before those inside it. -/
def Outline.subgroups : List (List Step) → List Outline
  | [] => []
  | route :: routes => Route.subgroups route ++ Outline.subgroups routes

end

theorem Route.subgroups_chain_append (names : List String) (route : Route) :
    Route.subgroups (Route.chain names ++ route) = Route.subgroups route := by
  induction names with
  | nil => rfl
  | cons name names ih => rw [Route.chain_cons, List.cons_append, Route.subgroups, ih]

theorem Route.subgroups_chain (names : List String) :
    Route.subgroups (Route.chain names) = [] := by
  simpa [Route.subgroups] using Route.subgroups_chain_append names []

theorem Route.subgroups_group (names : List String) (routes : Outline) :
    Route.subgroups (Route.chain names ++ [.group routes]) =
      routes :: Outline.subgroups routes := by
  simp [Route.subgroups_chain_append, Route.subgroups]

theorem Route.allNames_group (names : List String) (routes : Outline) :
    Route.allNames (Route.chain names ++ [.group routes]) =
      names ++ Outline.allNames routes := by
  simp [Route.allNames_append, Route.allNames_chain, Route.allNames]

namespace Outline

variable {t u : Outline} {names : List String} {routes : Outline} {P : Outline → Prop}

theorem subgroups_append (t u : Outline) : subgroups (t ++ u) = subgroups t ++ subgroups u := by
  induction t with
  | nil => simp [subgroups]
  | cons route t ih => rw [List.cons_append, subgroups, subgroups, ih, List.append_assoc]

theorem mem_subgroups : routes ∈ subgroups t ↔ ∃ route ∈ t, routes ∈ Route.subgroups route := by
  induction t with
  | nil => simp [subgroups]
  | cons route t ih => simp [subgroups, ih]

theorem subgroups_singleton (route : Route) : subgroups [route] = Route.subgroups route := by
  simp [subgroups]

theorem allNames_append (t u : Outline) : allNames (t ++ u) = allNames t ++ allNames u := by
  induction t with
  | nil => simp [allNames]
  | cons route t ih => rw [List.cons_append, allNames, allNames, ih, List.append_assoc]

theorem allNames_singleton (route : Route) : allNames [route] = Route.allNames route := by
  simp [allNames]

/-- The outline and all groups in it have a property. -/
def Throughout (P : Outline → Prop) (t : Outline) : Prop := ∀ routes ∈ t :: subgroups t, P routes

theorem throughout_chain_iff : Throughout P [Route.chain names] ↔ P [Route.chain names] := by
  rw [Throughout, subgroups_singleton, Route.subgroups_chain, List.forall_mem_singleton]

theorem throughout_group_iff :
    Throughout P [Route.chain names ++ [.group routes]] ↔
      P [Route.chain names ++ [.group routes]] ∧ Throughout P routes := by
  rw [Throughout, subgroups_singleton, Route.subgroups_group, List.forall_mem_cons, Throughout]

theorem Throughout.append (h : Throughout P t) (h' : Throughout P u) (happ : P (t ++ u)) :
    Throughout P (t ++ u) := by
  rw [Throughout, subgroups_append, List.forall_mem_cons, List.forall_mem_append]
  rw [Throughout, List.forall_mem_cons] at h h'
  exact ⟨happ, h.2, h'.2⟩

/-! ## Counting brackets -/

/-- The brackets that are left in names. -/
def closings (names : List String) : Nat := (names.flatMap String.toList).count ']'

theorem closings_append (names more : List String) :
    closings (names ++ more) = closings names + closings more := by
  rw [closings, List.flatMap_append, List.count_append, closings, closings]

theorem closings_eq_zero_iff : closings names = 0 ↔ ∀ name ∈ names, ']' ∉ name.toList := by
  rw [closings, List.count_eq_zero, List.mem_flatMap]
  simp

theorem depth_eq_count (cs : List Char) : depth cs = cs.count '[' - cs.count ']' := by
  induction cs with
  | nil => rfl
  | cons c cs ih =>
    rw [depth_cons, ih, List.count_cons, List.count_cons, nesting]
    by_cases ho : c = '['
    · subst ho
      simp
      omega
    · by_cases hc : c = ']'
      · subst hc
        simp
        omega
      · simp [ho, hc]

theorem count_opening_of_ending {after : List Char} (h : Ending after) : after.count '[' = 0 := by
  rcases h with hb | ⟨ws, hb, rfl⟩
  · exact hb.count_eq_zero (by decide)
  · rw [List.count_cons_of_ne (by decide), hb.count_eq_zero (by decide)]

theorem count_closing_of_ending {after : List Char} (h : Ending after) : after.count ']' ≤ 1 := by
  rcases h with hb | ⟨ws, hb, rfl⟩
  · rw [hb.count_eq_zero (by decide)]
    exact Nat.zero_le 1
  · rw [List.count_cons_self, hb.count_eq_zero (by decide)]

namespace Reads

variable {cs : List Char}

/-- An opening bracket opens a group. -/
theorem count_opening (h : Reads cs t) : cs.count '[' = (subgroups t).length := by
  induction h with
  | blank hb =>
    rw [subgroups, List.length_nil, hb.count_eq_zero (by decide)]
  | chain hw ho hb =>
    rw [subgroups_singleton, Route.subgroups_chain]
    exact List.count_eq_zero.2 ho
  | group hw ho ha hr ih =>
    rw [subgroups_singleton, Route.subgroups_group, List.count_append, List.count_cons_self,
      List.count_append, List.count_eq_zero.2 ho, ih, count_opening_of_ending ha]
    simp
  | cut hw hz hr hm ihr ihm =>
    rw [subgroups_append, List.count_append, List.count_cons_of_ne (by decide), ihr, ihm,
      List.length_append]

/-- A closing bracket closes a group or is left in a name. -/
theorem count_closing_le (h : Reads cs t) :
    cs.count ']' ≤ (subgroups t).length + closings (allNames t) := by
  induction h with
  | blank hb =>
    rw [hb.count_eq_zero (by decide)]
    exact Nat.zero_le _
  | @chain cs hw ho hb =>
    rw [allNames_singleton, Route.allNames_chain, closings, count_names (by decide) (by decide)]
    exact Nat.le_add_left _ _
  | @group cs inside after routes hw ho ha hr ih =>
    have hnames : closings (names cs) = cs.count ']' := count_names (by decide) (by decide) cs
    have hafter := count_closing_of_ending ha
    rw [subgroups_singleton, Route.subgroups_group, allNames_singleton, Route.allNames_group,
      closings_append, List.count_append, List.count_cons_of_ne (by decide), List.count_append,
      List.length_cons]
    omega
  | cut hw hz hr hm ihr ihm =>
    rw [subgroups_append, allNames_append, closings_append, List.count_append,
      List.count_cons_of_ne (by decide), List.length_append]
    omega

end Reads

/-- Only the last route has closing brackets in its names. -/
def Tidy (t : Outline) : Prop :=
  ∀ route ∈ t.dropLast, ∀ name ∈ Route.allNames route, ']' ∉ name.toList

/-- If as many brackets are closed as there are groups and brackets in names, then a comma ends no
route with closing brackets in its names. -/
theorem Reads.throughout_tidy {cs : List Char} (h : Reads cs t)
    (hcount : (subgroups t).length + closings (allNames t) ≤ cs.count ']') :
    t.Throughout Tidy := by
  induction h with
  | blank hb => simp [Throughout, subgroups, Tidy]
  | chain hw ho hb => exact throughout_chain_iff.2 (by simp [Tidy])
  | @group cs inside after routes hw ho ha hr ih =>
    have hnames : closings (names cs) = cs.count ']' := count_names (by decide) (by decide) cs
    have hafter := count_closing_of_ending ha
    rw [subgroups_singleton, Route.subgroups_group, allNames_singleton, Route.allNames_group,
      closings_append, List.count_append, List.count_cons_of_ne (by decide), List.count_append,
      List.length_cons] at hcount
    exact throughout_group_iff.2 ⟨by simp [Tidy], ih (by omega)⟩
  | @cut cs ds routes more hw hz hr hm ihr ihm =>
    have hfirst := hr.count_closing_le
    have hsecond := hm.count_closing_le
    have hopening := hr.count_opening
    rw [subgroups_append, allNames_append, closings_append, List.count_append,
      List.count_cons_of_ne (by decide), List.length_append] at hcount
    refine (ihr (by omega)).append (ihm (by omega)) ?_
    -- The text in front of the comma closes all that it opens, so nothing is left for its names.
    have hnone : closings (allNames routes) = 0 := by
      rw [depth_eq_count] at hz
      omega
    rw [closings_eq_zero_iff] at hnone
    have hmore : Tidy more := ihm (by omega) more List.mem_cons_self
    intro route hroute name hname
    have hplace : route ∈ routes ∨ route ∈ more.dropLast := by
      rw [List.dropLast_append] at hroute
      split at hroute
      · exact .inl (List.dropLast_subset routes hroute)
      · exact List.mem_append.1 hroute
    rcases hplace with hroute | hroute
    · exact hnone name (mem_allNames.2 ⟨route, hroute, hname⟩)
    · exact hmore route hroute name hname

end Outline

end Criteria
