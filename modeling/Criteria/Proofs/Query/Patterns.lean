import Mathlib
import Criteria.Proofs.Property.Attributes
import Criteria.Proofs.Query.Filters

/-!
# Patterns

In a pattern a star stands for any characters, and conditions have another mark
for that. Writing the pattern for a condition goes star by star: upper case keeps
both marks and makes no other character a star, so it does not matter whether it
comes before or after the marks are exchanged.
-/

namespace Criteria

/-! ## Upper case of marks -/

namespace Text

variable {c mark : Char}

/-- A code point is its own upper case, or it stands behind the marks, and so does its upper
case. -/
theorem upperCodes_cases (code : Nat) :
    upperCodes code = [code] ∨ 0x41 ≤ code ∧ ∀ upper ∈ upperCodes code, 0x41 ≤ upper := by
  have hexpansions : ∀ entry ∈ upperExpansions, 0x41 ≤ entry.1 ∧ ∀ upper ∈ entry.2, 0x41 ≤ upper :=
    by decide +kernel
  have hruns : ∀ run ∈ upperRuns, 0x41 ≤ run.first ∧ 0x41 ≤ run.target := by decide +kernel
  rw [upperCodes]
  split
  · next codes hlookup =>
    obtain ⟨before, after, hentries, -⟩ := List.lookup_eq_some_iff.1 hlookup
    exact .inr (hexpansions (code, codes) (by simp [hentries]))
  · split
    · next run hfind =>
      obtain ⟨hfirst, htarget⟩ := hruns run (List.mem_of_find?_eq_some hfind)
      have hcovers := List.find?_some hfind
      simp only [UpperRun.covers, Bool.and_eq_true, decide_eq_true_eq] at hcovers
      rw [List.forall_mem_singleton]
      exact .inr ⟨by omega, by omega⟩
    · exact .inl rfl

/-- Marks are their own upper case. -/
theorem upperChar_of_lt (h : c.toNat < 0x41) : upperChar c = [c] := by
  rcases upperCodes_cases c.toNat with hsame | ⟨hle, -⟩
  · rw [upperChar, hsame, List.map_singleton, Char.ofNat_toNat]
  · omega

/-- A mark is in the upper case of no other character. -/
theorem eq_of_mem_upperChar (hpos : 0 < mark.toNat) (hlt : mark.toNat < 0x41)
    (h : mark ∈ upperChar c) : c = mark := by
  rw [upperChar, List.mem_map] at h
  obtain ⟨code, hcode, rfl⟩ := h
  rcases upperCodes_cases c.toNat with hsame | ⟨-, hle⟩
  · rw [hsame, List.mem_singleton] at hcode
    rw [hcode, Char.ofNat_toNat]
  · have hmark := hle code hcode
    rw [Char.toNat_ofNat] at hpos hlt
    split_ifs at hpos hlt <;> omega

end Text

/-! ## Exchanging marks -/

namespace Query.Filter

variable {s beginning : String}

/-- The pieces of a pattern between its stars. -/
def pieces (pattern : String) : List String := (pattern.toList.splitOn '*').map String.ofList

/-- No other character brings a star in its upper case. -/
theorem star_not_mem_wildcards (pattern : String) : '*' ∉ (wildcards pattern).toList := by
  rw [wildcards, Text.toList_upper, String.toList_ofList, List.mem_flatMap]
  rintro ⟨c, hc, hstar⟩
  obtain rfl : c = '*' := Text.eq_of_mem_upperChar (by decide) (by decide) hstar
  obtain ⟨d, -, hd⟩ := List.mem_map.1 hc
  split at hd
  · cases hd
  · contradiction

/-- The parts of a pattern are written for a condition each by itself. -/
theorem wildcards_append (s t : String) : wildcards (s ++ t) = wildcards s ++ wildcards t := by
  rw [wildcards, String.toList_append, List.map_append, String.ofList_append, Text.upper_append,
    wildcards, wildcards]

theorem wildcards_star : wildcards "*" = "%" := by
  have hpercent : Text.upperChar '%' = ['%'] := Text.upperChar_of_lt (by decide)
  simp [wildcards, Text.upper, hpercent]

/-- Without stars only upper case is left to do. -/
theorem wildcards_of_not_mem (h : '*' ∉ s.toList) : wildcards s = Text.upper s := by
  have hsame : s.toList.map (fun c => if c = '*' then '%' else c) = s.toList := by
    refine (List.map_congr_left fun c hc => if_neg ?_).trans s.toList.map_id
    rintro rfl
    exact h hc
  rw [wildcards, hsame, String.ofList_toList]

theorem wildcards_intercalate (parts : List String) :
    wildcards ("*".intercalate parts) = "%".intercalate (parts.map wildcards) := by
  induction parts with
  | nil => rfl
  | cons part parts ih =>
    cases parts with
    | nil => simp
    | cons next parts =>
      rw [List.map_cons] at ih
      rw [String.intercalate_cons_cons, wildcards_append, wildcards_append, wildcards_star, ih,
        List.map_cons, List.map_cons, String.intercalate_cons_cons]

/-- The marks are exchanged between the upper cases of the pieces. -/
theorem wildcards_eq_intercalate (pattern : String) :
    wildcards pattern = "%".intercalate ((pieces pattern).map Text.upper) := by
  have hpieces : (pieces pattern).map wildcards = (pieces pattern).map Text.upper :=
    List.map_congr_left fun _ hpiece =>
      wildcards_of_not_mem (Property.not_mem_toList_of_mem hpiece)
  calc wildcards pattern
      = wildcards ("*".intercalate (pieces pattern)) :=
        congrArg wildcards (Property.intercalate_splitOn '*' pattern).symm
    _ = "%".intercalate ((pieces pattern).map Text.upper) := by
        rw [wildcards_intercalate, hpieces]

/-- The pattern of a beginning is that of the beginning with a star behind it. -/
theorem wildcards_append_star (h : '*' ∉ beginning.toList) :
    wildcards (beginning ++ "*") = beginningPattern (some beginning) := by
  rw [wildcards_append, wildcards_of_not_mem h, wildcards_star]
  rfl

end Query.Filter

/-! ## Filters with patterns -/

namespace Query

/-- **A pattern is written for a condition piece by piece.** The condition that is registered
compares with the upper cases of the pieces between the stars, joined by the mark for any
characters, and has no star. A beginning without a star registers the same condition as the pattern
with a star behind it, so that, whatever they are evaluated over, they come to the same. -/
theorem filter_likeIgnoreCase {name : String} (hname : Text.isBlankText name = false) :
    (∀ pattern,
      let literal := "%".intercalate ((Filter.pieces pattern).map Text.upper)
      '*' ∉ literal.toList ∧ ∀ (q : Query) s,
        (q.filter (.likeIgnoreCase name (some pattern))).run s =
          (.ok (q.demand (.leaf (.compare name .likeIgnoreCase (some (.text literal))))), s)) ∧
      ∀ beginning, '*' ∉ beginning.toList → ∃ condition, ∀ (q : Query) s,
        (q.filter (.startingWith name (some beginning))).run s = (.ok (q.demand condition), s) ∧
          (q.filter (.likeIgnoreCase name (some (beginning ++ "*")))).run s =
            (.ok (q.demand condition), s) := by
  have hlike : ∀ pattern (q : Query) s, (q.filter (.likeIgnoreCase name (some pattern))).run s =
      (.ok (q.demand (.leaf (.compare name .likeIgnoreCase
        (some (.text (Filter.wildcards pattern)))))), s) :=
    fun pattern => run_filter_of_register (f := .likeIgnoreCase name (some pattern)) rfl hname
  have hstarting : ∀ beginning (q : Query) s,
      (q.filter (.startingWith name (some beginning))).run s =
        (.ok (q.demand (.leaf (.compare name .likeIgnoreCase
          (some (.text (Filter.beginningPattern (some beginning))))))), s) :=
    fun beginning => run_filter_of_register (f := .startingWith name (some beginning)) rfl hname
  refine ⟨fun pattern => ?_, fun beginning hbeginning => ?_⟩
  · rw [← Filter.wildcards_eq_intercalate]
    exact ⟨Filter.star_not_mem_wildcards pattern, hlike pattern⟩
  · have hadded := hlike (beginning ++ "*")
    rw [Filter.wildcards_append_star hbeginning] at hadded
    exact ⟨_, fun q s => ⟨hstarting beginning q s, hadded q s⟩⟩

theorem filter_likeIgnoreCase_expanding :
    Text.isBlankText "n" = false ∧ '*' ∉ "ßa".toList ∧
      ∀ (q : Query) s,
        (q.filter (.likeIgnoreCase "n" (some "*ß*%ŉ**"))).run s =
          (.ok (q.demand (.leaf (.compare "n" .likeIgnoreCase (some (.text "%SS%%ʼN%%"))))), s) ∧
        (q.filter (.likeIgnoreCase "n" (some "ßa*"))).run s =
          (q.filter (.startingWith "n" (some "ßa"))).run s := by
  have hname : Text.isBlankText "n" = false := by decide
  have hstar : '*' ∉ "ßa".toList := by decide
  obtain ⟨hlike, hstarting⟩ := filter_likeIgnoreCase hname
  obtain ⟨condition, hcondition⟩ := hstarting "ßa" hstar
  have hliteral : "%".intercalate ((Filter.pieces "*ß*%ŉ**").map Text.upper) = "%SS%%ʼN%%" := by
    decide +kernel
  refine ⟨hname, hstar, fun q s => ⟨?_, ?_⟩⟩
  · rw [← hliteral]
    exact (hlike "*ß*%ŉ**").2 q s
  · exact (hcondition q s).2.trans (hcondition q s).1.symm

end Query

end Criteria
