import Mathlib
import Criteria.Proofs.Outline.Brackets

/-!
# Where commas stand

A comma cuts a text at depth zero, and in the parts all other commas stand deeper.
A group is read one level less deep than it stands, and deeper by each closing
bracket that is left in the names in front of it. So where such brackets are left,
the group has one route at most, and written again its commas stand where they
stood.
-/

namespace Criteria

open Text (isBlank trim Blank)

/-! ## Names that were read -/

/-- A name that is not empty, has nothing to trim and holds no mark but closing brackets. -/
structure IsRead (name : String) : Prop where
  ne_nil : name.toList ≠ []
  trimmed : trim name.toList = name.toList
  plain : ∀ c ∈ ['.', ',', '['], c ∉ name.toList

namespace Outline

variable {cs ds : List Char} {names : List String} {n : Nat}

theorem isRead_of_mem_names (hcomma : ',' ∉ cs) (ho : '[' ∉ cs) :
    ∀ name ∈ Outline.names cs, IsRead name := by
  intro name h
  obtain ⟨hne, htrim, hpoint, hsub⟩ := of_mem_names h
  refine ⟨hne, htrim, ?_⟩
  simp only [List.forall_mem_cons, List.not_mem_nil, IsEmpty.forall_iff, implies_true, and_true]
  exact ⟨hpoint, fun hm => hcomma (hsub hm), fun hm => ho (hsub hm)⟩

/-- The names of a chain that was read are read again, also with a point behind the last. -/
theorem names_of_areRead (hn : ∀ name ∈ names, IsRead name) {last : List (List Char)}
    (hlast : last.flatMap Outline.names = []) :
    Outline.names (['.'].intercalate (names.map String.toList ++ last)) = names := by
  rw [names_intercalate, List.flatMap_append, hlast, List.append_nil, List.flatMap_map,
    List.flatMap_congr fun name hname => names_toList (hn name hname).ne_nil
      (hn name hname).trimmed ((hn name hname).plain '.' (by simp)), List.flatMap_singleton']

/-! ## Depth of commas -/

/-- All commas of the text stand at depth `n` or deeper. -/
def Deep (n : Nat) (cs : List Char) : Prop :=
  ∀ before after, cs = before ++ ',' :: after → (n : Int) ≤ depth before

/-- In front of the first opening bracket of a whole text there are no such commas. -/
theorem Deep.comma_not_mem (h : Deep n (cs ++ ds)) (hw : Whole 0 (cs ++ ds)) (ho : '[' ∉ cs) :
    ',' ∉ cs := by
  intro hm
  obtain ⟨before, after, rfl⟩ := List.append_of_mem hm
  have heq : before ++ ',' :: after ++ ds = before ++ ',' :: (after ++ ds) := by simp
  have hle := h _ _ heq
  have hne := hw _ _ heq
  have hz : before.count '[' = 0 :=
    List.count_eq_zero.2 fun hb => ho (List.mem_append_left _ hb)
  rw [depth_eq_count] at hle hne
  omega

/-- The commas of a group stand one level less deep than in the text around it, and deeper by each
bracket that is closed in front of it. -/
theorem Deep.inside {inside after : List Char} (h : Deep n (cs ++ '[' :: (inside ++ after)))
    (hw : Whole 0 (cs ++ '[' :: (inside ++ after))) (ho : '[' ∉ cs) :
    Deep (n - 1 + closings (Outline.names cs)) inside := by
  rintro before rest rfl
  have heq : cs ++ '[' :: (before ++ ',' :: rest ++ after) =
      (cs ++ '[' :: before) ++ ',' :: (rest ++ after) := by simp
  have hle := h _ _ heq
  have hne := hw _ _ heq
  have hclosings : closings (Outline.names cs) = cs.count ']' :=
    count_names (by decide) (by decide) cs
  rw [depth_append, depth_cons, nesting_opening, depth_eq_count cs, List.count_eq_zero.2 ho,
    ← hclosings] at hle hne
  omega

end Outline

open Outline (closings)

/-- A route as it is read from a part whose commas stand deeper than `n`. Only a group whose commas
can stand where it is cut has more than one route. -/
inductive Route.Deep : Nat → Route → Prop
  | chain {n : Nat} {names : List String} (hn : ∀ name ∈ names, IsRead name) :
      Route.Deep n (Route.chain names)
  | group {n : Nat} {names : List String} {routes : Outline}
      (hn : ∀ name ∈ names, IsRead name)
      (hr : ∀ route ∈ routes, Route.Deep (n + closings names - 1) route)
      (hone : 0 < n + closings names → routes.length ≤ 1) :
      Route.Deep n (Route.chain names ++ [.group routes])

namespace Outline

variable {cs ds : List Char} {names : List String} {n : Nat} {t : Outline}

theorem Reads.deep (h : Reads cs t) (hd : Deep n cs) :
    (∀ route ∈ t, Route.Deep (n - 1) route) ∧ (0 < n → t.length ≤ 1) := by
  induction h generalizing n with
  | blank hb => simp
  | @chain cs hw ho hb =>
    rw [← List.append_nil cs] at hw hd
    rw [List.forall_mem_singleton]
    exact ⟨.chain (isRead_of_mem_names (hd.comma_not_mem hw ho) ho), by simp⟩
  | group hw ho ha hr ih =>
    obtain ⟨hroutes, hone⟩ := ih (hd.inside hw ho)
    rw [List.forall_mem_singleton]
    exact ⟨.group (isRead_of_mem_names (hd.comma_not_mem hw ho) ho) hroutes hone, by simp⟩
  | @cut cs ds routes more hw hz hr hm ihr ihm =>
    have hzero : n = 0 := by
      have hle := hd cs ds rfl
      omega
    subst hzero
    have hfirst : Deep 0 cs := by
      rintro before after rfl
      exact hd before (after ++ ',' :: ds) (by simp)
    have hsecond : Deep 0 ds := by
      rintro before after rfl
      have hle := hd (cs ++ ',' :: before) after (by simp)
      rwa [depth_append, depth_cons, hz, nesting_comma, zero_add, zero_add] at hle
    refine ⟨?_, fun hlt => absurd hlt (Nat.lt_irrefl 0)⟩
    rw [List.forall_mem_append]
    exact ⟨(ihr hfirst).1, (ihm hsecond).1⟩

/-- Besides its points, the text of a chain that was read has no mark but closing brackets. -/
theorem not_mem_chain (hn : ∀ name ∈ names, IsRead name) {c : Char} (hc : c ∈ [',', '['])
    {last : List (List Char)} (hlast : ∀ piece ∈ last, c ∉ piece) :
    c ∉ ['.'].intercalate (names.map String.toList ++ last) := by
  have hpoint : c ≠ '.' := by
    simp only [List.mem_cons, List.not_mem_nil, or_false] at hc
    rcases hc with rfl | rfl <;> decide
  refine not_mem_intercalate hpoint ?_
  rw [List.forall_mem_append, List.forall_mem_map]
  exact ⟨fun name hname => (hn name hname).plain c (List.mem_cons_of_mem '.' hc), hlast⟩

end Outline

/-! ## Brackets of what is written -/

theorem count_intercalate {c m : Char} (hcm : c ≠ m) (parts : List (List Char)) :
    ([m].intercalate parts).count c = parts.flatten.count c := by
  induction parts with
  | nil => rfl
  | cons part parts ih =>
    cases parts with
    | nil => simp
    | cons next parts =>
      rw [List.intercalate_cons_cons, List.append_assoc, List.singleton_append, List.count_append,
        List.count_cons_of_ne hcm.symm, ih, ← List.count_append, ← List.flatten_cons]

/-- An outline is written with the brackets of its groups and those in its names. -/
theorem Outline.count_render {c : Char} (hc : c ≠ ',') {t : Outline}
    (h : ∀ route ∈ t, (Route.render route).toList.count c =
      (Route.subgroups route).length + ((Route.allNames route).flatMap String.toList).count c) :
    t.render.toList.count c =
      (Outline.subgroups t).length + ((Outline.allNames t).flatMap String.toList).count c := by
  rw [toList_render, count_intercalate hc]
  induction t with
  | nil => simp [Outline.subgroups, Outline.allNames]
  | cons route t ih =>
    rw [List.forall_mem_cons] at h
    rw [List.map_cons, List.flatten_cons, List.count_append, ih h.2, h.1, Outline.subgroups,
      Outline.allNames, List.length_append, List.flatMap_append, List.count_append]
    omega

namespace Route.Deep

variable {n : Nat} {route : Route}

theorem count_render {c : Char} (hc : c = '[' ∨ c = ']') (h : Route.Deep n route) :
    (Route.render route).toList.count c =
      (Route.subgroups route).length + ((Route.allNames route).flatMap String.toList).count c := by
  have hpoint : c ≠ '.' := by rcases hc with rfl | rfl <;> decide
  have hcomma : c ≠ ',' := by rcases hc with rfl | rfl <;> decide
  induction h with
  | @chain n names hn =>
    rw [Route.toList_render_chain, count_intercalate hpoint, Route.subgroups_chain,
      Route.allNames_chain, List.length_nil, zero_add, List.flatMap_def]
  | @group n names routes hn hr hone ih =>
    have hbrackets : ('[' :: (routes.render.toList ++ [']'])).count c =
        routes.render.toList.count c + 1 := by
      rcases hc with rfl | rfl <;> simp
    rw [Route.toList_render_group, List.count_append, hbrackets, Outline.count_render hcomma ih,
      count_intercalate hpoint, Route.subgroups_group, Route.allNames_group, List.length_cons,
      List.flatMap_append, List.count_append, List.flatten_append, List.count_append]
    simp only [List.flatMap_def, List.flatten_cons, List.flatten_nil, List.append_nil,
      List.count_nil]
    omega

theorem opening_not_mem (h : Route.Deep n route) :
    ∀ name ∈ Route.allNames route, '[' ∉ name.toList := by
  induction h with
  | chain hn =>
    rw [Route.allNames_chain]
    exact fun name hname => (hn name hname).plain '[' (by simp)
  | group hn hr hone ih =>
    rw [Route.allNames_group, List.forall_mem_append]
    refine ⟨fun name hname => (hn name hname).plain '[' (by simp), ?_⟩
    intro name hname
    obtain ⟨route, hroute, hname⟩ := Outline.mem_allNames.1 hname
    exact ih route hroute name hname

/-- A route without closing brackets in its names is written with as many of them as of opening
ones. -/
theorem depth_render (h : Route.Deep n route)
    (hplain : ∀ name ∈ Route.allNames route, ']' ∉ name.toList) :
    Outline.depth (Route.render route).toList = 0 := by
  have hnone {c : Char} (hc : ∀ name ∈ Route.allNames route, c ∉ name.toList) :
      ((Route.allNames route).flatMap String.toList).count c = 0 := by
    rw [List.count_eq_zero, List.mem_flatMap]
    rintro ⟨name, hname, hm⟩
    exact hc name hname hm
  rw [Outline.depth_eq_count, h.count_render (.inl rfl), h.count_render (.inr rfl),
    hnone h.opening_not_mem, hnone hplain, sub_self]

end Route.Deep

namespace Outline

variable {cs ds : List Char} {names : List String} {n : Nat} {t : Outline} {d : Int}

/-! ## Legible outlines -/

/-- All routes have steps, and no name but those of last routes has a closing bracket. -/
def Legible (t : Outline) : Prop := t.Throughout fun routes => [] ∉ routes ∧ routes.Tidy

instance (t : Outline) : Decidable t.Legible :=
  inferInstanceAs (Decidable (∀ routes ∈ t :: subgroups t, [] ∉ routes ∧
    ∀ route ∈ routes.dropLast, ∀ name ∈ Route.allNames route, ']' ∉ name.toList))

theorem Legible.mem (h : Legible t) {route : Route} (hr : route ∈ t) : Legible [route] := by
  rw [Legible, Throughout, subgroups_singleton, List.forall_mem_cons]
  refine ⟨⟨?_, by simp [Tidy]⟩, ?_⟩
  · rw [List.mem_singleton]
    rintro rfl
    exact (h t List.mem_cons_self).1 hr
  · intro routes hm
    exact h routes (List.mem_cons_of_mem t (mem_subgroups.2 ⟨route, hr, hm⟩))

/-- All routes but the last are written with as many closing brackets as opening ones. -/
theorem Tidy.depth_render (h : t.Tidy) (hr : ∀ route ∈ t, Route.Deep n route) :
    ∀ part ∈ (t.map fun route => (Route.render route).toList).dropLast, depth part = 0 := by
  rw [← List.map_dropLast, List.forall_mem_map]
  intro route hroute
  exact (hr route (List.dropLast_subset t hroute)).depth_render (h route hroute)

/-- The commas in a route stand as deep as they did in the part that was read. -/
theorem whole_render {route : Route} (h : Route.Deep n route) (hl : Legible [route])
    (hd : -(n : Int) ≤ d) : Whole d (Route.render route).toList := by
  induction h generalizing d with
  | @chain n names hn =>
    have hcomma : ',' ∉ ['.'].intercalate (names.map String.toList ++ []) :=
      not_mem_chain hn (by simp) (by simp)
    rw [Route.toList_render_chain]
    rw [List.append_nil] at hcomma
    exact whole_of_not_mem hcomma
  | @group n names routes hn hr hone ih =>
    have hinner : Legible routes := (throughout_group_iff.1 hl).2
    have hcomma : ',' ∉ ['.'].intercalate (names.map String.toList ++ [[]]) :=
      not_mem_chain hn (by simp) (by simp)
    have hopening : '[' ∉ ['.'].intercalate (names.map String.toList ++ [[]]) :=
      not_mem_chain hn (by simp) (by simp)
    have hdepth : depth (['.'].intercalate (names.map String.toList ++ [[]])) =
        -(closings names : Int) := by
      rw [depth_eq_count, List.count_eq_zero.2 hopening, count_intercalate (by decide),
        List.flatten_append, List.count_append, closings, List.flatMap_def]
      simp
    -- If a bracket is left in a name, the group has one route, so it has no commas of its own.
    have hroutes : Whole (d + depth (['.'].intercalate (names.map String.toList ++ [[]])) + 1)
        routes.render.toList := by
      rw [hdepth, toList_render]
      refine whole_intercalate_of ?_ ((hinner routes List.mem_cons_self).2.depth_render hr) ?_
      · rw [List.forall_mem_map]
        intro route hroute
        exact ih route hroute (hinner.mem hroute) (by omega)
      · intro hz
        rw [List.length_map]
        exact hone (by omega)
    rw [Route.toList_render_group, whole_append_iff, whole_cons_iff, whole_append_iff,
      whole_cons_iff, nesting_opening]
    exact ⟨whole_of_not_mem hcomma, by simp, hroutes, by simp, whole_nil _⟩

end Outline

end Criteria
