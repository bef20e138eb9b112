import Mathlib
import Criteria.Value.Json

/-!
# Integers in JSON texts

An integer is written as its decimal digits, and as long as it fits in 64 bits the
same integer is read from them, if nothing follows that would go on with the
number.
-/

namespace Criteria.Json

variable {n : Nat} {rest : List Char}

namespace Number

/-! ## Digits -/

/-- What follows does not go on with a number. -/
def Ends (rest : List Char) : Prop :=
  ∀ c ∈ rest.head?, c.isDigit = false ∧ c ≠ '.' ∧ c ≠ 'e' ∧ c ≠ 'E'

theorem le_ofDigitChars (digits : List Char) (n : Nat) : n ≤ Nat.ofDigitChars 10 digits n := by
  induction digits generalizing n with
  | nil => exact Nat.le_refl n
  | cons d digits ih =>
    rw [Nat.ofDigitChars_cons]
    exact Nat.le_trans (by omega) (ih _)

/-- All digits are taken if the number they make fits in 64 bits. -/
theorem absorb_eq {digits : List Char} (h : Nat.ofDigitChars 10 digits n < UInt64.size) :
    absorb n digits = (Nat.ofDigitChars 10 digits n, digits.length) := by
  induction digits generalizing n with
  | nil => rfl
  | cons d digits ih =>
    rw [Nat.ofDigitChars_cons, Nat.mul_comm] at h ⊢
    have hfits := Nat.lt_of_le_of_lt (le_ofDigitChars digits _) h
    rw [absorb]
    simp only [if_pos hfits, ih h, List.length_cons]

theorem isDigit_of_mem_toDigits {c : Char} (h : c ∈ Nat.toDigits 10 n) : c.isDigit = true :=
  Nat.isDigit_of_mem_toDigits (by decide) (by decide) h

/-- Only zero begins with a zero. -/
theorem head?_toDigits_ne (h : n ≠ 0) : (Nat.toDigits 10 n).head? ≠ some '0' := by
  induction n using Nat.strong_induction_on with
  | _ n ih =>
    rw [Nat.toDigits_eq_if (by decide)]
    split
    · next hlt =>
      have hall : ∀ n < 10, n ≠ 0 → Nat.digitChar n ≠ '0' := by decide
      simpa using hall n hlt h
    · next hge =>
      rw [List.head?_append_of_ne_nil _ Nat.toDigits_ne_nil]
      exact ih (n / 10) (by omega) (by omega)

theorem span_toDigits_append (hend : Ends rest) :
    (Nat.toDigits 10 n ++ rest).span Char.isDigit = (Nat.toDigits 10 n, rest) := by
  have hrest : rest.takeWhile Char.isDigit = [] ∧ rest.dropWhile Char.isDigit = rest := by
    cases rest with
    | nil => exact ⟨rfl, rfl⟩
    | cons c rest =>
      have hc : c.isDigit = false := (hend c rfl).1
      simp [hc]
  rw [List.span_eq_takeWhile_dropWhile,
    List.takeWhile_append_of_pos fun c hc => isDigit_of_mem_toDigits hc,
    List.dropWhile_append_of_pos fun c hc => isDigit_of_mem_toDigits hc, hrest.1, hrest.2,
    List.append_nil]

/-- The digits of a number that fits in 64 bits are read as an integer. -/
theorem readMagnitude_toDigits (negative : Bool) (h : n < UInt64.size) (hend : Ends rest) :
    readMagnitude negative (Nat.toDigits 10 n ++ rest) = .ok (ofInteger negative n, rest) := by
  have hvalue : Nat.ofDigitChars 10 (Nat.toDigits 10 n) 0 = n :=
    Nat.ofDigitChars_toDigits (by decide) (by decide)
  have habsorb : absorb 0 (Nat.toDigits 10 n) = (n, (Nat.toDigits 10 n).length) := by
    rw [absorb_eq (by rw [hvalue]; exact h), hvalue]
  have hne : (Nat.toDigits 10 n).isEmpty = false := by
    simp [Nat.toDigits_ne_nil]
  have hhead : ¬((Nat.toDigits 10 n).head? = some '0' ∧ 1 < (Nat.toDigits 10 n).length) := by
    rintro ⟨hzero, hlong⟩
    by_cases hn : n = 0
    · rw [hn] at hlong
      simp at hlong
    · exact head?_toDigits_ne hn hzero
  rw [readMagnitude, span_toDigits_append hend]
  simp only [hne, hhead, habsorb, Nat.sub_self, Bool.false_eq_true, if_false]
  split
  · exact absurd rfl (hend '.' rfl).2.1
  · exact absurd rfl (hend 'e' rfl).2.2.1
  · exact absurd rfl (hend 'E' rfl).2.2.2
  · rfl

end Number

/-! ## Wanted numbers -/

theorem skipSpace_cons {c : Char} (h : isSpace c = false) (cs : List Char) :
    skipSpace (c :: cs) = c :: cs :=
  List.dropWhile_cons_of_neg (by simp [h])

section

variable {α : Type} {convert : Number → Option α} {a : α}

open Number (Ends ofInteger)

/-- A number that is read and accepted is read as the kind that is wanted. -/
theorem readNumber_of_read {c : Char} {cs : List Char} {number : Number}
    (hbegins : Number.begins c = true) (hread : Number.read (c :: cs) = .ok (number, rest))
    (hconvert : convert number = some a) : readNumber convert (c :: cs) = .ok (a, rest) := by
  have hspace : isSpace c = false := by
    cases hc : isSpace c with
    | false => rfl
    | true =>
      simp only [isSpace, Bool.or_eq_true, beq_iff_eq] at hc
      rcases hc with ((rfl | rfl) | rfl) | rfl <;> cases hbegins
  rw [readNumber, skipSpace_cons hspace]
  simp only [hbegins, if_true, hread, bind, Except.bind, hconvert]
  rfl

/-- A natural number is read from its digits. -/
theorem readNumber_toDigits (h : n < UInt64.size) (hend : Ends rest)
    (hconvert : convert (ofInteger false n) = some a) :
    readNumber convert (Nat.toDigits 10 n ++ rest) = .ok (a, rest) := by
  have hmagnitude := Number.readMagnitude_toDigits false h hend
  obtain ⟨d, digits, hdigits⟩ := List.exists_cons_of_ne_nil (Nat.toDigits_ne_nil (b := 10) (n := n))
  have hdigit : d.isDigit = true := Number.isDigit_of_mem_toDigits (n := n) (by simp [hdigits])
  rw [hdigits, List.cons_append] at hmagnitude ⊢
  refine readNumber_of_read (by simp [Number.begins, hdigit]) ?_ hconvert
  rw [Number.read]
  · exact hmagnitude
  · rintro tail heq
    rw [List.cons.injEq] at heq
    rw [heq.1] at hdigit
    cases hdigit

/-- A negative integer is read from its digits behind a minus. -/
theorem readNumber_minus_toDigits (h : n < UInt64.size) (hend : Ends rest)
    (hconvert : convert (ofInteger true n) = some a) :
    readNumber convert ('-' :: (Nat.toDigits 10 n ++ rest)) = .ok (a, rest) :=
  readNumber_of_read rfl (Number.readMagnitude_toDigits true h hend) hconvert

end

end Criteria.Json

namespace Criteria.Value

open Json (readNumber)
open Json.Number (Ends ofInteger)

variable {rest : List Char}

theorem uintOf?_ofInteger (u : UInt64) : uintOf? (ofInteger false u.toNat) = some (uint u) := by
  simp [ofInteger, uintOf?]

theorem intOf?_ofInteger {i : Int64} {n : Nat} (h : i.toInt = n) :
    intOf? (ofInteger false n) = some (int i) := by
  have hlt := i.toInt_lt
  have hsize : UInt64.size = 2 ^ 64 := rfl
  have hn : (UInt64.ofNat n).toNat = n := UInt64.toNat_ofNat_of_lt' (by omega)
  have hsmall : n < 0x8000000000000000 := by omega
  rw [ofInteger]
  simp only [Bool.not_false, if_true, intOf?, hn, if_pos hsmall, ← h, Int64.ofInt_toInt]

/-- The least integer is one whose digits alone would be too large. -/
theorem intOf?_ofInteger_minus {i : Int64} {n : Nat} (h : i.toInt = -n) (hn : n ≠ 0) :
    intOf? (ofInteger true n) = some (int i) := by
  have hle := i.le_toInt
  have hinteger : ¬(n = 0 ∨ 0x8000000000000000 < n) := by omega
  rw [ofInteger]
  simp only [Bool.not_true, Bool.false_eq_true, if_false, if_neg hinteger, intOf?, ← h,
    Int64.ofInt_toInt]

/-- An unsigned integer is read back from its digits. -/
theorem readNumber_uint (u : UInt64) (hend : Ends rest) :
    readNumber uintOf? ((toString u.toNat).toList ++ rest) = .ok (uint u, rest) := by
  have hdigits : (toString u.toNat).toList = Nat.toDigits 10 u.toNat := Nat.toList_repr
  rw [hdigits]
  exact Json.readNumber_toDigits u.toNat_lt_size hend (uintOf?_ofInteger u)

/-- A signed integer is read back from its sign and digits. -/
theorem readNumber_int (i : Int64) (hend : Ends rest) :
    readNumber intOf? ((toString i.toInt).toList ++ rest) = .ok (int i, rest) := by
  have hlt := i.toInt_lt
  have hle := i.le_toInt
  have hsize : UInt64.size = 2 ^ 64 := rfl
  cases hi : i.toInt with
  | ofNat n =>
    have hdigits : (toString (Int.ofNat n)).toList = Nat.toDigits 10 n := Nat.toList_repr
    have hn : i.toInt = n := hi
    rw [hdigits]
    exact Json.readNumber_toDigits (by omega) hend (intOf?_ofInteger hn)
  | negSucc n =>
    have hdigits : (toString (Int.negSucc n)).toList = '-' :: Nat.toDigits 10 (n + 1) := by
      rw [Int.toString_eq_repr, Int.repr, String.toList_append, Nat.toList_repr]
      rfl
    have hn : i.toInt = -(n + 1 : Nat) := hi
    rw [hdigits]
    exact Json.readNumber_minus_toDigits (by omega) hend
      (intOf?_ofInteger_minus hn (Nat.succ_ne_zero n))

end Criteria.Value
