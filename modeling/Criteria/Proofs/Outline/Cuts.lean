import Mathlib
import Criteria.Proofs.Outline.Brackets

/-!
# The parts of a text

A text is cut at the commas outside all brackets. Whether a comma stands outside
can be told from its own part, since brackets match in number in each part that
ends at a comma. So the parts can be described without following the depth
through the whole text, and only one list of parts fits the description.
-/

namespace Criteria.Outline

variable {cs ds : List Char} {parts : List (List Char)}

/-- Parts that make the text when commas are put between them, cut at all commas outside brackets
and at no others. Brackets are counted in each part by itself. -/
structure CutInto (cs : List Char) (parts : List (List Char)) : Prop where
  ne_nil : parts ≠ []
  joined : [','].intercalate parts = cs
  /-- A comma ends a part where as many brackets are closed as were opened. -/
  matched : ∀ part ∈ parts.dropLast, part.count '[' = part.count ']'
  /-- No comma is left in a part where that is so. -/
  uncut : ∀ part ∈ parts, ∀ before after, part = before ++ ',' :: after →
    before.count '[' ≠ before.count ']'

theorem depth_eq_zero_iff : depth cs = 0 ↔ cs.count '[' = cs.count ']' := by
  rw [depth_eq_count]
  omega

theorem whole_zero_iff : Whole 0 cs ↔ ∀ before after, cs = before ++ ',' :: after →
    before.count '[' ≠ before.count ']' := by
  simp only [Whole, zero_add, ne_eq, depth_eq_zero_iff]

theorem cutInto_of_whole (h : Whole 0 cs) : CutInto cs [cs] where
  ne_nil := List.cons_ne_nil cs []
  joined := List.intercalate_singleton
  matched := by simp
  uncut := by
    rw [List.forall_mem_singleton]
    exact whole_zero_iff.1 h

/-- A whole text with matching brackets is one more part in front. -/
theorem CutInto.cons (h : CutInto ds parts) (hw : Whole 0 cs) (hz : depth cs = 0) :
    CutInto (cs ++ ',' :: ds) (cs :: parts) where
  ne_nil := List.cons_ne_nil cs parts
  joined := by
    rw [List.intercalate_cons_of_ne_nil h.ne_nil, h.joined, List.append_assoc,
      List.singleton_append]
  matched := by
    rw [List.dropLast_cons_of_ne_nil h.ne_nil, List.forall_mem_cons]
    exact ⟨depth_eq_zero_iff.1 hz, h.matched⟩
  uncut := by
    rw [List.forall_mem_cons]
    exact ⟨whole_zero_iff.1 hw, h.uncut⟩

theorem cutInto_splitLevel (cs : List Char) : CutInto cs (splitLevel 0 cs) := by
  induction cs using comma_induction with
  | whole cs hw =>
    rw [splitLevel_of_whole hw]
    exact cutInto_of_whole hw
  | cut cs ds hw hz ih =>
    rw [splitLevel_append_comma (by rw [hz, add_zero]), splitLevel_of_whole hw,
      List.singleton_append]
    exact ih.cons hw hz

theorem CutInto.whole (h : CutInto cs parts) {part : List Char} (hp : part ∈ parts) :
    Whole 0 part :=
  whole_zero_iff.2 (h.uncut part hp)

/-- There are no other parts than those of splitting. -/
theorem CutInto.eq_splitLevel (h : CutInto cs parts) : parts = splitLevel 0 cs := by
  rw [← h.joined, splitLevel_intercalate h.ne_nil (fun _ => h.whole)
    fun part hp => depth_eq_zero_iff.2 (h.matched part hp)]

/-- **Splitting gives the one right list of parts.** Joined by commas the parts are the text again,
all but the last have matching numbers of brackets, and no part can be cut any further; no other
list of parts is like that. -/
theorem cutInto_iff_eq_splitLevel (cs : List Char) :
    (∀ parts, CutInto cs parts ↔ parts = splitLevel 0 cs) ∧
      ∀ part ∈ splitLevel 0 cs, splitLevel 0 part = [part] := by
  have hcut := cutInto_splitLevel cs
  refine ⟨fun parts => ⟨CutInto.eq_splitLevel, ?_⟩, fun part hp => ?_⟩
  · rintro rfl
    exact hcut
  · exact splitLevel_of_whole (hcut.whole hp)

/-- Behind a bracket that closes nothing, commas are cut only where another one opens. -/
example : splitLevel 0 "a],b[,c.[d,e],f".toList =
    ["a],b[".toList, "c.[d,e]".toList, "f".toList] := by
  decide

end Criteria.Outline
