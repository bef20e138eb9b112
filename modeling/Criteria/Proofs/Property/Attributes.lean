import Mathlib
import Criteria.Property
import Criteria.Proofs.Relation.Path

/-!
# Attributes of names

Cutting at points and joining with points undo each other, so that the
attributes of a path are those along which it was extended.
-/

namespace Criteria.Property

open Criteria.Relation (extend)

variable {name last : String} {chain : List String}

/-! ## Cutting at marks -/

/-- No part of a cut list has the separator. -/
theorem not_mem_of_mem_splitOn {α : Type} [DecidableEq α] (sep : α) {l part : List α}
    (h : part ∈ l.splitOn sep) : sep ∉ part := by
  induction l generalizing part with
  | nil =>
    rw [List.splitOn_nil, List.mem_singleton] at h
    simp [h]
  | cons a l ih =>
    rw [List.splitOn_cons_eq_if_modifyHead] at h
    split at h
    · rcases List.mem_cons.1 h with rfl | h
      · exact List.not_mem_nil
      · exact ih h
    · next hne =>
      cases hl : l.splitOn sep with
      | nil => exact absurd hl (List.splitOn_ne_nil sep l)
      | cons first parts =>
        rw [hl, List.modifyHead_cons] at h
        rcases List.mem_cons.1 h with rfl | h
        · have hfirst : sep ∉ first := ih (hl ▸ List.mem_cons_self)
          have hsep : sep ≠ a := fun heq => hne (by simp [heq])
          simp [hsep, hfirst]
        · exact ih (hl ▸ List.mem_cons_of_mem first h)

/-- No part of a text that is cut at a mark has the mark. -/
theorem not_mem_toList_of_mem {mark : Char} {s part : String}
    (h : part ∈ (s.toList.splitOn mark).map String.ofList) : mark ∉ part.toList := by
  obtain ⟨cs, hcs, rfl⟩ := List.mem_map.1 h
  rw [String.toList_ofList]
  exact not_mem_of_mem_splitOn mark hcs

/-- Joined with the mark, the parts are the text again. -/
theorem intercalate_splitOn (mark : Char) (s : String) :
    (String.singleton mark).intercalate ((s.toList.splitOn mark).map String.ofList) = s := by
  have hlist : (s.toList.splitOn mark).map (String.toList ∘ String.ofList) =
      s.toList.splitOn mark := by simp
  rw [← String.toList_inj, String.toList_intercalate, List.map_map, hlist, String.toList_singleton]
  exact List.intercalate_splitOn mark

/-- Attributes have no points. -/
theorem point_not_mem (path : String) : ∀ a ∈ attributes path, '.' ∉ a.toList :=
  fun _ ha => not_mem_toList_of_mem ha

theorem attributes_ne_nil (path : String) : attributes path ≠ [] := by
  rw [attributes, Ne, List.map_eq_nil_iff]
  exact List.splitOn_ne_nil '.' path.toList

/-- Joined with points, the attributes are the path again. -/
theorem intercalate_attributes (path : String) : ".".intercalate (attributes path) = path :=
  intercalate_splitOn '.' path

/-- A chain of attributes without points is told from its path. -/
theorem attributes_intercalate (hne : chain ≠ []) (h : ∀ a ∈ chain, '.' ∉ a.toList) :
    attributes (".".intercalate chain) = chain :=
  (Relation.intercalate_inj (attributes_ne_nil _) hne (point_not_mem _) h).1
    (intercalate_attributes _)

/-! ## Places of relations -/

/-- The attributes from the root to a relation; there are none at the root itself. -/
def names : Option String → List String
  | none => []
  | some path => attributes path

@[simp] theorem names_none : names none = [] := rfl

@[simp] theorem names_some (path : String) : names (some path) = attributes path := rfl

theorem attributes_extend (path : Option String) (h : '.' ∉ name.toList) :
    attributes (extend path name) = names path ++ [name] := by
  cases path with
  | none =>
    rw [extend, names_none, List.nil_append]
    exact attributes_intercalate (List.cons_ne_nil name []) (by simpa using h)
  | some path =>
    have hlist : (extend (some path) name).toList = path.toList ++ '.' :: name.toList := by
      simp [extend]
    rw [attributes, hlist, List.splitOn_append_cons_self, List.splitOn_eq_singleton h,
      List.map_append, names_some, attributes, List.map_singleton, String.ofList_toList]

/-- What is in front of an extended path is the path or in front of that. -/
theorem prefix_extend_iff {path : Option String} (h : '.' ∉ name.toList) :
    chain <+: attributes (extend path name) ↔
      chain = names path ++ [name] ∨ chain <+: names path := by
  rw [attributes_extend path h, List.prefix_concat_iff]

theorem names_eq_iff {path : Option String} (hne : chain ≠ []) (h : ∀ a ∈ chain, '.' ∉ a.toList) :
    names path = chain ↔ path = some (".".intercalate chain) := by
  constructor
  · rintro rfl
    cases path with
    | none => exact absurd rfl hne
    | some path => rw [names_some, intercalate_attributes]
  · rintro rfl
    rw [names_some, attributes_intercalate hne h]

/-! ## Names of properties -/

/-- A name is refused if one of its attributes is empty. -/
theorem cut?_eq_none_iff : cut? name = none ↔ "" ∈ attributes name := by
  have hempty : (attributes name).any String.isEmpty = true ↔ "" ∈ attributes name := by
    simp [List.any_eq_true, String.isEmpty_iff]
  rw [cut?, ← hempty]
  by_cases h : (attributes name).any String.isEmpty = true <;> simp [h]

/-- The joined attributes and the one that is read are those of the name. -/
theorem attributes_of_cut? (h : cut? name = some (chain, last)) :
    attributes name = chain ++ [last] := by
  rw [cut?] at h
  split at h
  · cases h
  · rw [Option.some.injEq, Prod.mk.injEq] at h
    obtain ⟨rfl, rfl⟩ := h
    rw [List.getLastD_eq_getLast?, List.getLast?_eq_some_getLast (attributes_ne_nil name),
      Option.getD_some]
    exact (List.dropLast_append_getLast (attributes_ne_nil name)).symm

theorem point_not_mem_of_cut? (h : cut? name = some (chain, last)) :
    ∀ a ∈ chain, '.' ∉ a.toList := by
  intro a ha
  refine point_not_mem name a ?_
  rw [attributes_of_cut? h]
  exact List.mem_append_left [last] ha

end Criteria.Property
