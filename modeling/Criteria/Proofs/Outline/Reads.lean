import Mathlib
import Criteria.Proofs.Outline.Nesting
import Criteria.Proofs.Outline.Parts

/-!
# How texts are read

Every text is read in one of four ways. It is cut at the first comma at depth
zero; or it has none, and then it is blank, or a chain, or a chain that ends with
the group behind the first opening bracket. What is said of all outlines that are
read is proved along these ways.
-/

namespace Criteria.Outline

open Text (isBlank trim Blank)

variable {cs ds part : List Char}

/-! ## Cuts -/

/-- A text is whole, or it is cut at the first comma at depth zero. -/
theorem whole_or_cut (d : Int) (cs : List Char) :
    Whole d cs ∨ ∃ before after, cs = before ++ ',' :: after ∧ Whole d before ∧
      d + depth before = 0 := by
  induction cs generalizing d with
  | nil => exact .inl (whole_nil d)
  | cons c cs ih =>
    by_cases hcut : c = ',' ∧ d = 0
    · obtain ⟨rfl, rfl⟩ := hcut
      exact .inr ⟨[], cs, rfl, whole_nil 0, by simp⟩
    · have hc : c = ',' → d ≠ 0 := fun hc hd => hcut ⟨hc, hd⟩
      rcases ih (d + nesting c) with hw | ⟨before, after, rfl, hw, hz⟩
      · exact .inl (whole_cons_iff.2 ⟨hc, hw⟩)
      · refine .inr ⟨c :: before, after, rfl, whole_cons_iff.2 ⟨hc, hw⟩, ?_⟩
        rw [depth_cons, ← add_assoc, hz]

/-- What holds of whole texts, and of a whole one with a comma at depth zero behind it if it holds
of what follows, holds of all texts. -/
theorem comma_induction {P : List Char → Prop} (whole : ∀ cs, Whole 0 cs → P cs)
    (cut : ∀ cs ds, Whole 0 cs → depth cs = 0 → P ds → P (cs ++ ',' :: ds)) (cs : List Char) :
    P cs := by
  induction hlength : cs.length using Nat.strong_induction_on generalizing cs with
  | _ n ih =>
    subst hlength
    rcases whole_or_cut 0 cs with hw | ⟨before, after, rfl, hw, hz⟩
    · exact whole cs hw
    · rw [zero_add] at hz
      refine cut before after hw hz (ih _ ?_ after rfl)
      rw [List.length_append, List.length_cons]
      omega

theorem parseChars_of_whole (h : Whole 0 cs) : parseChars cs = (parsePart cs).toList := by
  rw [parseChars_eq, splitLevel_of_whole h]
  cases hp : parsePart cs <;> simp [hp]

/-- A text up to a comma at depth zero is read as if it stood alone, and so is the text behind. -/
theorem parseChars_append_comma (hz : depth cs = 0) (ds : List Char) :
    parseChars (cs ++ ',' :: ds) = parseChars cs ++ parseChars ds := by
  rw [parseChars_eq, parseChars_eq, parseChars_eq, splitLevel_append_comma (by rw [hz, add_zero]),
    List.filterMap_append]

/-! ## Groups -/

/-- What stands behind the text of a group: white space, in front of which a bracket may close the
group. -/
def Ending (after : List Char) : Prop := Blank after ∨ ∃ ws, Blank ws ∧ after = ']' :: ws

theorem exists_dropClosing_append (cs : List Char) {ws : List Char} (h : Blank ws) :
    ∃ after, Ending after ∧ cs ++ ws = dropClosing cs ++ after := by
  rw [dropClosing]
  split
  · next hlast =>
    refine ⟨']' :: ws, .inr ⟨ws, h, rfl⟩, ?_⟩
    obtain ⟨front, rfl⟩ := List.getLast?_eq_some_iff.1 hlast
    simp
  · exact ⟨ws, .inl h, rfl⟩

/-- A part with an opening bracket ends with a group. -/
theorem exists_group (h : '[' ∈ part) :
    ∃ cs inside after, part = cs ++ '[' :: (inside ++ after) ∧ '[' ∉ cs ∧ Ending after ∧
      parsePart part = some (Route.chain (names cs) ++ [.group (parseChars inside)]) := by
  obtain ⟨cs, rest, rfl, hcs⟩ := List.eq_append_cons_of_mem h
  obtain ⟨ws, hws, hrest⟩ := Text.exists_trimEnd_append rest
  obtain ⟨after, hafter, hend⟩ := exists_dropClosing_append (Text.trimEnd rest) hws
  refine ⟨cs, dropClosing (Text.trimEnd rest), after, ?_, hcs, hafter, parsePart_opening hcs rest⟩
  rw [← hend, ← hrest]

/-! ## Reading -/

/-- The ways in which a text is read as an outline. -/
inductive Reads : List Char → Outline → Prop
  | blank {cs : List Char} (hb : Blank cs) : Reads cs []
  | chain {cs : List Char} (hw : Whole 0 cs) (ho : '[' ∉ cs) (hb : ¬Blank cs) :
      Reads cs [Route.chain (names cs)]
  | group {cs inside after : List Char} {routes : Outline}
      (hw : Whole 0 (cs ++ '[' :: (inside ++ after))) (ho : '[' ∉ cs) (ha : Ending after)
      (hr : Reads inside routes) :
      Reads (cs ++ '[' :: (inside ++ after)) [Route.chain (names cs) ++ [.group routes]]
  | cut {cs ds : List Char} {routes more : Outline} (hw : Whole 0 cs) (hz : depth cs = 0)
      (hr : Reads cs routes) (hm : Reads ds more) : Reads (cs ++ ',' :: ds) (routes ++ more)

/-- A text is read in one of these ways. -/
theorem reads_parseChars (cs : List Char) : Reads cs (parseChars cs) := by
  induction hlength : cs.length using Nat.strong_induction_on generalizing cs with
  | _ n ih =>
    subst hlength
    rcases whole_or_cut 0 cs with hw | ⟨before, after, rfl, hw, hz⟩
    · by_cases ho : '[' ∈ cs
      · obtain ⟨front, inside, after, rfl, hfront, hafter, hparse⟩ := exists_group ho
        rw [parseChars_of_whole hw, hparse]
        refine .group hw hfront hafter (ih _ ?_ inside rfl)
        simp only [List.length_append, List.length_cons]
        omega
      · by_cases hb : Blank cs
        · rw [parseChars_of_whole hw, parsePart_of_blank hb]
          exact .blank hb
        · have hne : trim cs ≠ [] := fun h => hb (Text.trim_eq_nil_iff.1 h)
          rw [parseChars_of_whole hw, parsePart_chain ho hne]
          exact .chain hw ho hb
    · rw [zero_add] at hz
      rw [parseChars_append_comma hz]
      refine .cut hw hz (ih _ ?_ before rfl) (ih _ ?_ after rfl) <;>
      · simp only [List.length_append, List.length_cons]
        omega

end Criteria.Outline
