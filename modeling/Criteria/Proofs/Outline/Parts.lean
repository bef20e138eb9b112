import Mathlib
import Criteria.Outline.Parse
import Criteria.Proofs.Text.Trimming

/-!
# Reading a part

What the parts between the commas of a text are read as: the names of a chain do
not depend on the white space around it, a part without a bracket is a chain, and
a part with one ends with a group.
-/

namespace Criteria.Outline

open Text (isBlank trim Blank)

variable {cs ws inside after : List Char}

/-! ## Names -/

theorem names_append_point (cs ds : List Char) :
    names (cs ++ '.' :: ds) = names cs ++ names ds := by
  simp [names, List.splitOn_append_cons_self]

theorem names_of_not_mem (h : '.' ∉ cs) :
    names cs = if trim cs = [] then [] else [String.ofList (trim cs)] := by
  rw [names, List.splitOn_eq_singleton h, List.map_singleton]
  split
  · next ht => simp [ht]
  · next ht => simp [ht]

/-- A piece without white space around it is a name. -/
theorem names_toList {name : String} (hne : name.toList ≠ [])
    (htrim : trim name.toList = name.toList) (hp : '.' ∉ name.toList) :
    names name.toList = [name] := by
  rw [names_of_not_mem hp, htrim, if_neg hne, String.ofList_toList]

theorem names_blank_append (h : Blank ws) (cs : List Char) : names (ws ++ cs) = names cs := by
  have hw : '.' ∉ ws := h.not_mem (by decide)
  by_cases hp : '.' ∈ cs
  · obtain ⟨first, rest, rfl, hf⟩ := List.eq_append_cons_of_mem hp
    have hwf : '.' ∉ ws ++ first := by simp [hw, hf]
    rw [← List.append_assoc, names_append_point, names_append_point, names_of_not_mem hf,
      names_of_not_mem hwf, Text.trim_blank_append h]
  · have hwc : '.' ∉ ws ++ cs := by simp [hw, hp]
    rw [names_of_not_mem hp, names_of_not_mem hwc, Text.trim_blank_append h]

theorem names_append_blank (h : Blank ws) (cs : List Char) : names (cs ++ ws) = names cs := by
  have hw : '.' ∉ ws := h.not_mem (by decide)
  by_cases hp : '.' ∈ cs
  · -- Only the piece behind the last point meets the white space.
    obtain ⟨last, rest, hr, hl⟩ := List.eq_append_cons_of_mem (List.mem_reverse.2 hp)
    have hcs : cs = rest.reverse ++ '.' :: last.reverse := by
      rw [← List.reverse_reverse cs, hr]
      simp
    have hl : '.' ∉ last.reverse := by simpa using hl
    have hlw : '.' ∉ last.reverse ++ ws := by
      rw [List.mem_append]
      exact not_or.2 ⟨hl, hw⟩
    rw [hcs, List.append_assoc, List.cons_append, names_append_point, names_append_point,
      names_of_not_mem hl, names_of_not_mem hlw, Text.trim_append_blank h]
  · have hcw : '.' ∉ cs ++ ws := by simp [hw, hp]
    rw [names_of_not_mem hp, names_of_not_mem hcw, Text.trim_append_blank h]

/-- The names of a chain do not depend on white space at its ends. -/
theorem names_trim (cs : List Char) : names (trim cs) = names cs := by
  obtain ⟨before, after, hb, ha, h⟩ := Text.exists_blank_append_trim cs
  conv_rhs => rw [h, names_blank_append hb, names_append_blank ha]

theorem names_dropWhile (cs : List Char) : names (cs.dropWhile isBlank) = names cs := by
  have hb : Blank (cs.takeWhile isBlank) := fun c hc => List.mem_takeWhile_imp hc
  rw [← names_blank_append hb, List.takeWhile_append_dropWhile]

/-- Texts between points have the names of each of them. -/
theorem names_intercalate (pieces : List (List Char)) :
    names (['.'].intercalate pieces) = pieces.flatMap names := by
  induction pieces with
  | nil => rfl
  | cons piece pieces ih =>
    cases pieces with
    | nil => simp
    | cons next pieces =>
      rw [List.intercalate_cons_cons, List.append_assoc, List.singleton_append,
        names_append_point, ih]
      rfl

/-- What holds of texts without points, and of two texts with a point between them if it holds of
both, holds of all texts. -/
theorem point_induction {P : List Char → Prop} (piece : ∀ cs, '.' ∉ cs → P cs)
    (point : ∀ cs ds, P cs → P ds → P (cs ++ '.' :: ds)) (cs : List Char) : P cs := by
  induction hlength : cs.length using Nat.strong_induction_on generalizing cs with
  | _ n ih =>
    subst hlength
    by_cases hp : '.' ∈ cs
    · obtain ⟨first, rest, rfl, hfirst⟩ := List.eq_append_cons_of_mem hp
      refine point first rest (piece first hfirst) (ih _ ?_ rest rfl)
      simp only [List.length_append, List.length_cons]
      omega
    · exact piece cs hp

/-- A name that is read is a piece of the text: it is not empty, and has no points and nothing to
trim. -/
theorem of_mem_names {name : String} (h : name ∈ names cs) :
    name.toList ≠ [] ∧ trim name.toList = name.toList ∧ '.' ∉ name.toList ∧
      name.toList ⊆ cs := by
  induction cs using point_induction with
  | piece cs hp =>
    rw [names_of_not_mem hp] at h
    split at h
    · cases h
    · next hne =>
      rw [List.mem_singleton.1 h, String.toList_ofList]
      exact ⟨hne, Text.trim_trim cs, fun hm => hp (Text.mem_of_mem_trim hm),
        fun _ => Text.mem_of_mem_trim⟩
  | point cs ds ihc ihd =>
    rw [names_append_point, List.mem_append] at h
    rcases h with h | h
    · obtain ⟨hne, htrim, hpoint, hsub⟩ := ihc h
      exact ⟨hne, htrim, hpoint, fun _ hc => List.mem_append_left _ (hsub hc)⟩
    · obtain ⟨hne, htrim, hpoint, hsub⟩ := ihd h
      exact ⟨hne, htrim, hpoint,
        fun _ hc => List.mem_append_right _ (List.mem_cons_of_mem _ (hsub hc))⟩

/-- Reading names passes over points and white space and nothing else. -/
theorem filter_names {p : Char → Bool} (hb : ∀ c, isBlank c = true → p c = false)
    (hp : p '.' = false) (cs : List Char) :
    ((names cs).flatMap String.toList).filter p = cs.filter p := by
  induction cs using point_induction with
  | piece cs hpoint =>
    have htrim : (trim cs).filter p = cs.filter p := by
      obtain ⟨before, after, hbefore, hafter, h⟩ := Text.exists_blank_append_trim cs
      conv_rhs => rw [h, List.filter_append, List.filter_append, hbefore.filter_eq_nil hb,
        hafter.filter_eq_nil hb, List.nil_append, List.append_nil]
    rw [names_of_not_mem hpoint]
    split
    · next hnil => rw [← htrim, hnil, List.flatMap_nil]
    · rw [List.flatMap_singleton, String.toList_ofList, htrim]
  | point cs ds ihc ihd =>
    rw [names_append_point, List.flatMap_append, List.filter_append, List.filter_append, ihc, ihd,
      List.filter_cons_of_neg (Bool.eq_false_iff.1 hp)]

theorem count_names {c : Char} (hb : isBlank c = false) (hc : c ≠ '.') (cs : List Char) :
    ((names cs).flatMap String.toList).count c = cs.count c := by
  have hblank : ∀ x, isBlank x = true → (x == c) = false := by
    intro x hx
    rw [beq_eq_false_iff_ne]
    rintro rfl
    rw [hb] at hx
    exact Bool.noConfusion hx
  rw [List.count_eq_length_filter, List.count_eq_length_filter,
    filter_names hblank (beq_eq_false_iff_ne.2 hc.symm)]

/-! ## Cutting a part -/

theorem cutPart_of_blank (h : Blank cs) : cutPart cs = none := by
  simp [cutPart, Text.trim_eq_nil h]

theorem cutPart_chain (h : '[' ∉ cs) (hne : trim cs ≠ []) : cutPart cs = some (names cs, none) := by
  have ht : ∀ c ∈ trim cs, (c != '[') = true := by
    intro c hc
    rw [bne_iff_ne]
    rintro rfl
    exact h (Text.mem_of_mem_trim hc)
  have hd : (trim cs).dropWhile (· != '[') = [] := List.dropWhile_eq_nil_iff.2 ht
  have hk : (trim cs).takeWhile (· != '[') = trim cs := List.takeWhile_eq_self_iff.2 ht
  simp [cutPart, hne, hd, hk, names_trim]

/-- The group begins at the first opening bracket, and what is left of the part without white space
at its end and a closing bracket in front of that is its text. -/
theorem cutPart_opening (h : '[' ∉ cs) (rest : List Char) :
    cutPart (cs ++ '[' :: rest) = some (names cs, some (dropClosing (Text.trimEnd rest))) := by
  have htrim : trim (cs ++ '[' :: rest) = cs.dropWhile isBlank ++ '[' :: Text.trimEnd rest := by
    rw [trim, Text.dropWhile_append_cons (by decide), Text.trimEnd_append_cons (by decide)]
  have hc : ∀ c ∈ cs.dropWhile isBlank, (c != '[') = true := by
    intro c hc
    rw [bne_iff_ne]
    rintro rfl
    exact h ((List.dropWhile_sublist isBlank).subset hc)
  simp [cutPart, htrim, List.takeWhile_append_of_pos hc, List.dropWhile_append_of_pos hc,
    names_dropWhile]

theorem dropClosing_append_closing (cs : List Char) : dropClosing (cs ++ [']']) = cs := by
  simp [dropClosing]

/-- A group ends before a closing bracket that only white space follows. -/
theorem cutPart_group (h : '[' ∉ cs) (ha : Blank after) :
    cutPart (cs ++ '[' :: (inside ++ ']' :: after)) = some (names cs, some inside) := by
  have hend : Text.trimEnd (inside ++ ']' :: after) = inside ++ [']'] := by
    rw [Text.trimEnd_append_cons (by decide), ← List.nil_append after,
      Text.trimEnd_append_blank ha]
    rfl
  rw [cutPart_opening h, hend, dropClosing_append_closing]

theorem cutPart_append_blank (h : Blank ws) (cs : List Char) :
    cutPart (cs ++ ws) = cutPart cs := by
  rw [cutPart, cutPart, Text.trim_append_blank h]

/-! ## Routes of parts -/

/-- The route of a part, if it is not blank. -/
def parsePart (part : List Char) : Option Route :=
  (cutPart part).map fun (names, inside) =>
    Route.chain names ++ (inside.map fun cs => Step.group (parseChars cs)).toList

/-- The routes of a text are those of its parts. -/
theorem parseChars_eq (cs : List Char) : parseChars cs = (splitLevel 0 cs).filterMap parsePart := by
  calc parseChars cs
      = (splitLevel 0 cs).attach.filterMap fun part => parsePart part.1 := by
        rw [parseChars]
        congr 1
        funext ⟨part, hp⟩
        simp only [parsePart]
        split <;> simp_all
    _ = ((splitLevel 0 cs).attach.map Subtype.val).filterMap parsePart := by
        rw [List.filterMap_map]
        rfl
    _ = (splitLevel 0 cs).filterMap parsePart := by rw [List.attach_map_subtype_val]

theorem parsePart_of_blank (h : Blank cs) : parsePart cs = none := by
  rw [parsePart, cutPart_of_blank h, Option.map_none]

theorem parsePart_chain (h : '[' ∉ cs) (hne : trim cs ≠ []) :
    parsePart cs = some (Route.chain (names cs)) := by
  simp [parsePart, cutPart_chain h hne]

theorem parsePart_opening (h : '[' ∉ cs) (rest : List Char) :
    parsePart (cs ++ '[' :: rest) =
      some (Route.chain (names cs) ++ [.group (parseChars (dropClosing (Text.trimEnd rest)))]) := by
  simp [parsePart, cutPart_opening h]

theorem parsePart_group (h : '[' ∉ cs) (ha : Blank after) :
    parsePart (cs ++ '[' :: (inside ++ ']' :: after)) =
      some (Route.chain (names cs) ++ [.group (parseChars inside)]) := by
  simp [parsePart, cutPart_group h ha]

theorem parsePart_append_blank (h : Blank ws) (cs : List Char) :
    parsePart (cs ++ ws) = parsePart cs := by
  rw [parsePart, cutPart_append_blank h, parsePart]

end Criteria.Outline
