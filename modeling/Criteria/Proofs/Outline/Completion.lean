import Mathlib
import Criteria.Proofs.Outline.Brackets

/-!
# Missing closing brackets

A group ends at the end of its part, whether a bracket closes it there or not.
So the closing brackets that a text lacks can be left out at its end, and however
many of them are written, the same outline is read.
-/

namespace Criteria.Outline

open Text (Blank trimEnd)

variable {cs ws : List Char}

theorem depth_of_blank (h : Blank ws) : depth ws = 0 := by
  rw [depth_eq_count, h.count_eq_zero (by decide), h.count_eq_zero (by decide)]
  rfl

theorem depth_trimEnd (cs : List Char) : depth (trimEnd cs) = depth cs := by
  obtain ⟨ws, hws, h⟩ := Text.exists_trimEnd_append cs
  conv_rhs => rw [h, depth_append, depth_of_blank hws, add_zero]

/-- White space at the end is not read. -/
theorem parseChars_append_blank (h : Blank ws) (cs : List Char) :
    parseChars (cs ++ ws) = parseChars cs := by
  have hcomma : ',' ∉ ws := h.not_mem (by decide)
  induction cs using comma_induction with
  | whole cs hw =>
    have happend : Whole 0 (cs ++ ws) := whole_append_iff.2 ⟨hw, whole_of_not_mem hcomma⟩
    rw [parseChars_of_whole happend, parseChars_of_whole hw, parsePart_append_blank h]
  | cut cs ds hw hz ih =>
    rw [List.append_assoc, List.cons_append, parseChars_append_comma hz,
      parseChars_append_comma hz, ih]

theorem parseChars_trimEnd (cs : List Char) : parseChars (trimEnd cs) = parseChars cs := by
  obtain ⟨ws, hws, h⟩ := Text.exists_trimEnd_append cs
  conv_rhs => rw [h, parseChars_append_blank hws]

/-! ## One closing bracket -/

/-- If a bracket is left in the text behind the bracket that opens the group, the group is closed by
the one that is added. -/
theorem parseChars_append_closing_of_whole {front rest : List Char}
    (hw : Whole 0 (front ++ '[' :: rest)) (hfront : '[' ∉ front)
    (h : parseChars (dropClosing (trimEnd rest)) = parseChars rest) :
    parseChars (front ++ '[' :: rest ++ [']']) = parseChars (front ++ '[' :: rest) := by
  have happend : Whole 0 (front ++ '[' :: rest ++ [']']) :=
    whole_append_iff.2 ⟨hw, whole_of_not_mem (by decide)⟩
  have hend : trimEnd (rest ++ [']']) = rest ++ [']'] :=
    Text.trimEnd_append_cons (by decide) rest []
  rw [parseChars_of_whole happend, parseChars_of_whole hw, List.append_assoc, List.cons_append,
    parsePart_opening hfront, parsePart_opening hfront, hend, dropClosing_append_closing, h]

/-- If a closing bracket at the end is not read, it can be dropped. -/
theorem parseChars_dropClosing
    (h : ∀ inner, cs = inner ++ [']'] → parseChars (inner ++ [']']) = parseChars inner) :
    parseChars (dropClosing cs) = parseChars cs := by
  by_cases hlast : cs.getLast? = some ']'
  · obtain ⟨inner, rfl⟩ := List.getLast?_eq_some_iff.1 hlast
    rw [dropClosing_append_closing, h inner rfl]
  · rw [dropClosing, if_neg hlast]

/-- A closing bracket that the text lacks is not read at its end. -/
theorem parseChars_append_closing (cs : List Char) (h : 0 < depth cs) :
    parseChars (cs ++ [']']) = parseChars cs := by
  induction hlength : cs.length using Nat.strong_induction_on generalizing cs with
  | _ n ih =>
    subst hlength
    rcases whole_or_cut 0 cs with hw | ⟨before, after, rfl, -, hz⟩
    · have hopening : '[' ∈ cs := by
        rw [depth_eq_count] at h
        exact List.count_pos_iff.1 (by omega)
      obtain ⟨front, rest, rfl, hfront⟩ := List.eq_append_cons_of_mem hopening
      -- In front of the group no bracket is opened, so behind its own it closes none too many.
      have hrest : 0 ≤ depth (trimEnd rest) := by
        rw [depth_trimEnd]
        rw [depth_append, depth_cons, nesting_opening, depth_eq_count front,
          List.count_eq_zero.2 hfront] at h
        omega
      refine parseChars_append_closing_of_whole hw hfront ?_
      rw [← parseChars_trimEnd rest]
      refine parseChars_dropClosing fun inner hinner => ih _ ?_ inner ?_ rfl
      · have hle := Text.length_trimEnd_le rest
        rw [hinner, List.length_append, List.length_singleton] at hle
        rw [List.length_append, List.length_cons]
        omega
      · rw [hinner, depth_append, depth_cons, nesting_closing, depth_nil] at hrest
        omega
    · rw [zero_add] at hz
      have hshort : after.length < (before ++ ',' :: after).length := by
        rw [List.length_append, List.length_cons]
        omega
      have hdepth : 0 < depth after := by
        rwa [depth_append, depth_cons, hz, nesting_comma, zero_add, zero_add] at h
      rw [List.append_assoc, List.cons_append, parseChars_append_comma hz,
        parseChars_append_comma hz, ih _ hshort after hdepth rfl]

/-! ## All that are missing -/

theorem parseChars_append_closings (cs : List Char) (n : Nat) (h : (n : Int) ≤ depth cs) :
    parseChars (cs ++ List.replicate n ']') = parseChars cs := by
  induction n with
  | zero => rw [List.replicate_zero, List.append_nil]
  | succ n ih =>
    have hlacks : 0 < depth (cs ++ List.replicate n ']') := by
      rw [depth_append, depth_eq_count (List.replicate n ']'), List.count_replicate_self,
        List.count_eq_zero.2 (by simp)]
      omega
    rw [List.replicate_succ', ← List.append_assoc, parseChars_append_closing _ hlacks,
      ih (by omega)]

/-- The closing brackets that a text lacks. -/
def lacking (s : String) : String :=
  String.ofList (List.replicate (s.toList.count '[' - s.toList.count ']') ']')

/-- **Missing closing brackets at the end are implied**: a text with more opening brackets than
closing ones is read as it is with one closing bracket more, and with all that it lacks. -/
theorem parse_append_lacking (s : String) (h : s.toList.count ']' < s.toList.count '[') :
    parse (s ++ "]") = parse s ∧ parse (s ++ lacking s) = parse s := by
  have hdepth := depth_eq_count s.toList
  constructor
  · rw [parse, String.toList_append]
    exact parseChars_append_closing s.toList (by omega)
  · rw [parse, String.toList_append, lacking, String.toList_ofList]
    exact parseChars_append_closings s.toList _ (by omega)

/-- One of three groups is closed, with white space behind. -/
theorem parse_append_lacking_nested :
    "a.[b,c.[d.[e] ".toList.count ']' < "a.[b,c.[d.[e] ".toList.count '[' ∧
      lacking "a.[b,c.[d.[e] " = "]]" ∧
      parse ("a.[b,c.[d.[e] " ++ "]") = parse "a.[b,c.[d.[e] " ∧
      parse ("a.[b,c.[d.[e] " ++ lacking "a.[b,c.[d.[e] ") = parse "a.[b,c.[d.[e] " :=
  have h : "a.[b,c.[d.[e] ".toList.count ']' < "a.[b,c.[d.[e] ".toList.count '[' := by decide
  ⟨h, by decide, parse_append_lacking "a.[b,c.[d.[e] " h⟩

end Criteria.Outline
