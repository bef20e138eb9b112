import Mathlib
import Criteria.Proofs.Outline.Brackets

/-!
# What reading keeps

Whatever its brackets, a text is read in full and in order. The names of the
outline hold every character of the text that is neither white space nor a mark,
each opening bracket has its group, and a group stands only at the end of a route.
-/

namespace Criteria

open Text (isBlank trim)

/-- Names, and behind them one group or none. -/
def Route.Shaped (route : Route) : Prop :=
  ∃ names group, route = Route.chain names ++ (Option.map Step.group group).toList

namespace Outline

variable {cs : List Char} {t : Outline}

/-- The character is neither white space nor a mark. -/
def isContent (c : Char) : Bool := !isBlank c && !(['.', ',', '[', ']'].contains c)

theorem isContent_of_isBlank {c : Char} (h : isBlank c = true) : isContent c = false := by
  rw [isContent, h, Bool.not_true, Bool.false_and]

theorem filter_content_of_ending {after : List Char} (h : Ending after) :
    after.filter isContent = [] := by
  rcases h with hb | ⟨ws, hb, rfl⟩
  · exact hb.filter_eq_nil fun _ => isContent_of_isBlank
  · rw [List.filter_cons_of_neg (by decide), hb.filter_eq_nil fun _ => isContent_of_isBlank]

theorem filter_content_names (cs : List Char) :
    ((names cs).flatMap String.toList).filter isContent = cs.filter isContent :=
  filter_names (fun _ => isContent_of_isBlank) (by decide) cs

/-- The names that are read hold the content of the text, in its order. -/
theorem Reads.filter_content (h : Reads cs t) :
    ((allNames t).flatMap String.toList).filter isContent = cs.filter isContent := by
  induction h with
  | blank hb =>
    rw [hb.filter_eq_nil fun _ => isContent_of_isBlank, allNames, List.flatMap_nil,
      List.filter_nil]
  | chain hw ho hb => rw [allNames_singleton, Route.allNames_chain, filter_content_names]
  | group hw ho ha hr ih =>
    rw [allNames_singleton, Route.allNames_group, List.flatMap_append, List.filter_append, ih,
      filter_content_names, List.filter_append, List.filter_cons_of_neg (by decide),
      List.filter_append, filter_content_of_ending ha, List.append_nil]
  | cut hw hz hr hm ihr ihm =>
    rw [allNames_append, List.flatMap_append, List.filter_append, ihr, ihm, List.filter_append,
      List.filter_cons_of_neg (by decide)]

theorem Reads.throughout_shape (h : Reads cs t) :
    t.Throughout fun routes => ∀ route ∈ routes, Route.Shaped route := by
  induction h with
  | blank hb => simp [Throughout, subgroups]
  | @chain cs hw ho hb =>
    rw [throughout_chain_iff, List.forall_mem_singleton]
    exact ⟨names cs, none, by simp⟩
  | @group cs inside after routes hw ho ha hr ih =>
    rw [throughout_group_iff, List.forall_mem_singleton]
    exact ⟨⟨names cs, some routes, by simp⟩, ih⟩
  | cut hw hz hr hm ihr ihm =>
    refine ihr.append ihm ?_
    rw [List.forall_mem_append]
    exact ⟨ihr _ List.mem_cons_self, ihm _ List.mem_cons_self⟩

/-- A name that is read is not empty, has nothing to trim and holds neither a point nor an opening
bracket. -/
theorem of_mem_allNames_parse {s name : String} (h : name ∈ allNames (parse s)) :
    name.toList ≠ [] ∧ trim name.toList = name.toList ∧ '.' ∉ name.toList ∧ '[' ∉ name.toList := by
  have hnames : ∀ cs, '[' ∉ cs → ∀ name ∈ names cs, name.toList ≠ [] ∧
      trim name.toList = name.toList ∧ '.' ∉ name.toList ∧ '[' ∉ name.toList := by
    intro cs ho name hname
    obtain ⟨hne, htrim, hpoint, hsub⟩ := of_mem_names hname
    exact ⟨hne, htrim, hpoint, fun hm => ho (hsub hm)⟩
  exact forall_allNames_parse hnames s name h

/-- **Reading loses, invents and reorders nothing**: the names of the outline, each before those
behind it, hold the content of the text, each opening bracket has its group, a route has at most one
group and has it at its end, and every name is trimmed, not empty and without points and opening
brackets. -/
theorem parse_conserves (s : String) :
    ((allNames (parse s)).flatMap String.toList).filter isContent = s.toList.filter isContent ∧
      (subgroups (parse s)).length = s.toList.count '[' ∧
      (∀ routes ∈ parse s :: subgroups (parse s), ∀ route ∈ routes, Route.Shaped route) ∧
      ∀ name ∈ allNames (parse s), name.toList ≠ [] ∧ trim name.toList = name.toList ∧
        '.' ∉ name.toList ∧ '[' ∉ name.toList :=
  have h := reads_parseChars s.toList
  ⟨h.filter_content, h.count_opening.symm, h.throughout_shape, fun _ => of_mem_allNames_parse⟩

end Outline

end Criteria
