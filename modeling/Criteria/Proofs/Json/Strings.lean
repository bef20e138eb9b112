import Mathlib
import Criteria.Json.Kind
import Criteria.Text.Quoted

/-!
# Strings in JSON texts

Every text can be written as a JSON string and is read back from it, character by
character: what is written for one character is one unit of a string, whatever
follows it.
-/

namespace Criteria.Json

open Text.Quoted (json jsonChar)

/-! ## Units -/

namespace Quotation

theorem hexValue?_digitChar {n : Nat} (h : n < 16) : hexValue? (Nat.digitChar n) = some n := by
  have hall : ∀ n < 16, hexValue? (Nat.digitChar n) = some n := by decide
  exact hall n h

/-- Two hexadecimal digits behind two zeros are a control character. -/
theorem numeric_control {n : Nat} (h : n < 0x20) (rest : List Char) :
    numeric ('0' :: '0' :: Nat.digitChar (n / 16) :: Nat.digitChar (n % 16) :: rest) =
      .ok (Char.ofNat n, rest) := by
  have hzero : hexValue? '0' = some 0 := by decide
  have hhigh : hexValue? (Nat.digitChar (n / 16)) = some (n / 16) :=
    hexValue?_digitChar (by omega)
  have hlow : hexValue? (Nat.digitChar (n % 16)) = some (n % 16) := hexValue?_digitChar (by omega)
  have hcode : ((0 * 16 + 0) * 16 + n / 16) * 16 + n % 16 = n := by omega
  have hquad : quad ('0' :: '0' :: Nat.digitChar (n / 16) :: Nat.digitChar (n % 16) :: rest) =
      .ok (n, rest) := by
    simp only [quad, hzero, hhigh, hlow, hcode]
  have hnotLow : ¬(0xDC00 ≤ n ∧ n ≤ 0xDFFF) := by omega
  have hnotHigh : ¬(0xD800 ≤ n ∧ n ≤ 0xDBFF) := by omega
  rw [numeric, hquad]
  simp only [bind, Except.bind, if_neg hnotLow, if_neg hnotHigh]
  rfl

/-- What is written for a character is read as that character. -/
theorem unit_jsonChar (c : Char) (rest : List Char) :
    unit (jsonChar c ++ rest) = .ok (some c, rest) := by
  rw [jsonChar]
  -- seven characters have an escape of one letter
  iterate 7
    split
    · next hc => subst hc; rfl
  split
  · next hcontrol =>
    have hnumeric := numeric_control hcontrol rest
    rw [Char.ofNat_toNat] at hnumeric
    simp only [List.cons_append, List.nil_append, unit, escape, hnumeric]
    rfl
  · next hcontrol => simp [unit, hcontrol]

/-- Characters are read up to the closing quote, if there is fuel for each of them and the quote. -/
theorem units_flatMap_jsonChar (cs rest : List Char) {fuel : Nat} (h : cs.length < fuel) :
    units fuel (cs.flatMap jsonChar ++ '"' :: rest) = .ok (cs, rest) := by
  induction cs generalizing fuel with
  | nil =>
    obtain ⟨fuel, rfl⟩ := Nat.exists_eq_succ_of_ne_zero (Nat.ne_zero_of_lt h)
    rfl
  | cons c cs ih =>
    obtain ⟨fuel, rfl⟩ := Nat.exists_eq_succ_of_ne_zero (Nat.ne_zero_of_lt h)
    rw [List.length_cons] at h
    rw [List.flatMap_cons, List.append_assoc, units, unit_jsonChar]
    simp only [bind, Except.bind, ih (Nat.lt_of_succ_lt_succ h)]
    rfl

theorem jsonChar_ne_nil (c : Char) : jsonChar c ≠ [] := by
  have h := unit_jsonChar c []
  intro hnil
  rw [hnil] at h
  cases h

theorem length_le_length_flatMap_jsonChar (cs : List Char) :
    cs.length ≤ (cs.flatMap jsonChar).length := by
  induction cs with
  | nil => exact Nat.le_refl 0
  | cons c cs ih =>
    have hpos := List.length_pos_iff.2 (jsonChar_ne_nil c)
    rw [List.flatMap_cons, List.length_append, List.length_cons]
    omega

theorem read_flatMap_jsonChar (s : String) (rest : List Char) :
    read (s.toList.flatMap jsonChar ++ '"' :: rest) = .ok (s, rest) := by
  have hfuel : s.toList.length < (s.toList.flatMap jsonChar ++ '"' :: rest).length + 1 := by
    have hle := length_le_length_flatMap_jsonChar s.toList
    rw [List.length_append]
    omega
  rw [read, units_flatMap_jsonChar s.toList rest hfuel]
  simp only [bind, Except.bind, String.ofList_toList]
  rfl

end Quotation

/-! ## Strings -/

theorem toList_json_append (s : String) (rest : List Char) :
    (json s).toList ++ rest = '"' :: (s.toList.flatMap jsonChar ++ '"' :: rest) := by
  rw [json, String.toList_ofList, List.cons_append, List.append_assoc, List.singleton_append]

/-- A text is read back from the string that is written for it. -/
theorem readString_json (s : String) (rest : List Char) :
    readString ((json s).toList ++ rest) = .ok (s, rest) := by
  rw [toList_json_append, ← Quotation.read_flatMap_jsonChar]
  rfl

end Criteria.Json
