import Mathlib
import Criteria.Text.Blank

/-!
# Laws of trimming

A text is what trimming leaves of it between two blank texts, and blank texts
added at its ends are trimmed away again.
-/

namespace Criteria.Text

variable {c : Char} {cs ws : List Char}

/-- The text holds nothing but white space. -/
def Blank (cs : List Char) : Prop := ∀ c ∈ cs, isBlank c = true

instance (cs : List Char) : Decidable (Blank cs) :=
  decidable_of_iff (cs.all isBlank = true) List.all_eq_true

theorem blank_nil : Blank [] := by simp [Blank]

theorem Blank.not_mem (h : Blank cs) (hc : isBlank c = false) : c ∉ cs := by
  intro hm
  rw [h c hm] at hc
  exact Bool.noConfusion hc

theorem Blank.count_eq_zero (h : Blank cs) (hc : isBlank c = false) : cs.count c = 0 :=
  List.count_eq_zero.2 (h.not_mem hc)

theorem Blank.filter_eq_nil {p : Char → Bool} (h : Blank cs)
    (hp : ∀ c, isBlank c = true → p c = false) : cs.filter p = [] :=
  List.filter_eq_nil_iff.2 fun c hc => Bool.eq_false_iff.1 (hp c (h c hc))

theorem trim_eq_nil (h : Blank cs) : trim cs = [] := trim_eq_nil_iff.2 h

/-! ## White space at the end -/

theorem trimEnd_append_blank (h : Blank ws) (cs : List Char) : trimEnd (cs ++ ws) = trimEnd cs := by
  have hr : ∀ c ∈ ws.reverse, isBlank c = true := fun c hc => h c (List.mem_reverse.1 hc)
  rw [trimEnd, List.reverse_append, List.dropWhile_append_of_pos hr, trimEnd]

theorem trimEnd_append_cons (h : isBlank c = false) (cs ws : List Char) :
    trimEnd (cs ++ c :: ws) = cs ++ c :: trimEnd ws := by
  rw [trimEnd, List.reverse_append, List.reverse_cons, List.append_assoc, List.dropWhile_append]
  split
  · next hw =>
    rw [List.isEmpty_iff] at hw
    simp [trimEnd, hw, h]
  · simp [trimEnd]

/-- What `trimEnd` takes off is blank. -/
theorem exists_trimEnd_append (cs : List Char) : ∃ ws, Blank ws ∧ cs = trimEnd cs ++ ws := by
  refine ⟨(cs.reverse.takeWhile isBlank).reverse, ?_, ?_⟩
  · intro c hc
    exact List.mem_takeWhile_imp (List.mem_reverse.1 hc)
  · rw [trimEnd, ← List.reverse_append, List.takeWhile_append_dropWhile, List.reverse_reverse]

theorem length_trimEnd_le (cs : List Char) : (trimEnd cs).length ≤ cs.length := by
  obtain ⟨ws, -, h⟩ := exists_trimEnd_append cs
  conv_rhs => rw [h, List.length_append]
  exact Nat.le_add_right _ _

/-! ## White space on both sides -/

theorem trim_blank_append (h : Blank ws) (cs : List Char) : trim (ws ++ cs) = trim cs := by
  rw [trim, List.dropWhile_append_of_pos h, trim]

theorem trim_append_blank (h : Blank ws) (cs : List Char) : trim (cs ++ ws) = trim cs := by
  rw [trim, List.dropWhile_append]
  split
  · next hc =>
    rw [List.isEmpty_iff] at hc
    rw [dropWhile_isBlank_eq_nil_iff.2 h, trim, hc]
  · rw [trimEnd_append_blank h, trim]

/-- A text is what trimming leaves of it, between white space. -/
theorem exists_blank_append_trim (cs : List Char) :
    ∃ before after, Blank before ∧ Blank after ∧ cs = before ++ (trim cs ++ after) := by
  obtain ⟨after, ha, h⟩ := exists_trimEnd_append (cs.dropWhile isBlank)
  refine ⟨cs.takeWhile isBlank, after, fun c hc => List.mem_takeWhile_imp hc, ha, ?_⟩
  rw [trim, ← h, List.takeWhile_append_dropWhile]

/-- Nothing is left to trim. -/
theorem trim_trim (cs : List Char) : trim (trim cs) = trim cs := by
  obtain ⟨before, after, hb, ha, h⟩ := exists_blank_append_trim cs
  conv_rhs => rw [h, trim_blank_append hb, trim_append_blank ha]

theorem mem_of_mem_trim (h : c ∈ trim cs) : c ∈ cs := by
  obtain ⟨before, after, -, -, heq⟩ := exists_blank_append_trim cs
  rw [heq]
  exact List.mem_append_right before (List.mem_append_left after h)

/-- White space is dropped only up to the first character that is none. -/
theorem dropWhile_append_cons (h : isBlank c = false) (cs ws : List Char) :
    (cs ++ c :: ws).dropWhile isBlank = cs.dropWhile isBlank ++ c :: ws := by
  rw [List.dropWhile_append]
  split
  · next hc =>
    rw [List.isEmpty_iff] at hc
    simp [hc, h]
  · rfl

end Criteria.Text
