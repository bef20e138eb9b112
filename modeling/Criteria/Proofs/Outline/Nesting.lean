import Mathlib
import Criteria.Outline.Parse

/-!
# Nesting and the parts of a text

The depth of a text is the number of its opening brackets less that of its
closing ones. A text is whole at a depth if none of its commas stands at depth
zero when it begins there; splitting passes over whole texts and cuts at the
commas between them.
-/

namespace Criteria.Outline

variable {c : Char} {cs ds : List Char} {d : Int}

/-- Opening brackets less closing brackets. -/
def depth (cs : List Char) : Int := (cs.map nesting).sum

@[simp] theorem depth_nil : depth [] = 0 := rfl

@[simp] theorem depth_cons (c : Char) (cs : List Char) :
    depth (c :: cs) = nesting c + depth cs := by
  simp [depth]

@[simp] theorem depth_append (cs ds : List Char) : depth (cs ++ ds) = depth cs + depth ds := by
  simp [depth]

@[simp] theorem nesting_comma : nesting ',' = 0 := by decide

@[simp] theorem nesting_opening : nesting '[' = 1 := by decide

@[simp] theorem nesting_closing : nesting ']' = -1 := by decide

/-! ## Whole texts -/

/-- No comma of the text stands at depth zero, where the text begins at depth `d`. -/
def Whole (d : Int) (cs : List Char) : Prop :=
  ∀ before after, cs = before ++ ',' :: after → d + depth before ≠ 0

theorem whole_nil (d : Int) : Whole d [] := by
  intro before after h
  simp at h

theorem whole_cons_iff :
    Whole d (c :: cs) ↔ (c = ',' → d ≠ 0) ∧ Whole (d + nesting c) cs := by
  constructor
  · intro h
    refine ⟨?_, ?_⟩
    · rintro rfl
      simpa using h [] cs rfl
    · intro before after hcs
      rw [add_assoc, ← depth_cons]
      exact h (c :: before) after (by rw [hcs, List.cons_append])
  · rintro ⟨hc, h⟩ before after hcs
    cases before with
    | nil =>
      rw [List.nil_append, List.cons.injEq] at hcs
      simpa using hc hcs.1
    | cons x before =>
      rw [List.cons_append, List.cons.injEq] at hcs
      obtain ⟨rfl, rfl⟩ := hcs
      rw [depth_cons, ← add_assoc]
      exact h before after rfl

theorem whole_append_iff : Whole d (cs ++ ds) ↔ Whole d cs ∧ Whole (d + depth cs) ds := by
  induction cs generalizing d with
  | nil => simp [whole_nil]
  | cons c cs ih => rw [List.cons_append, whole_cons_iff, whole_cons_iff, ih, depth_cons, and_assoc,
      add_assoc]

theorem whole_of_not_mem (h : ',' ∉ cs) : Whole d cs := by
  rintro before after rfl
  simp at h

/-- Whole texts between commas are whole if the depth is zero again at the end of each but the last,
and if the commas, where there are any, do not stand at depth zero. -/
theorem whole_intercalate_of {parts : List (List Char)} (hw : ∀ part ∈ parts, Whole d part)
    (hz : ∀ part ∈ parts.dropLast, depth part = 0) (hd : d = 0 → parts.length ≤ 1) :
    Whole d ([','].intercalate parts) := by
  induction parts with
  | nil => exact whole_nil d
  | cons part parts ih =>
    rw [List.forall_mem_cons] at hw
    cases parts with
    | nil => simpa using hw.1
    | cons next parts =>
      rw [List.dropLast_cons_cons, List.forall_mem_cons] at hz
      have hne : d ≠ 0 := fun h => by simpa using hd h
      have hrest := ih hw.2 hz.2 fun h => absurd h hne
      rw [List.intercalate_cons_cons, List.append_assoc, List.singleton_append, whole_append_iff,
        whole_cons_iff, hz.1, add_zero, nesting_comma, add_zero]
      exact ⟨hw.1, fun _ => hne, hrest⟩

theorem depth_intercalate {parts : List (List Char)} (h : ∀ part ∈ parts, depth part = 0) :
    depth ([','].intercalate parts) = 0 := by
  induction parts with
  | nil => rfl
  | cons part parts ih =>
    rw [List.forall_mem_cons] at h
    cases parts with
    | nil => simpa using h.1
    | cons next parts =>
      rw [List.intercalate_cons_cons, depth_append, depth_append, h.1, ih h.2]
      simp

/-- Whole texts between commas are whole away from depth zero. -/
theorem whole_intercalate {parts : List (List Char)} (hd : d ≠ 0)
    (h : ∀ part ∈ parts, depth part = 0 ∧ Whole d part) :
    depth ([','].intercalate parts) = 0 ∧ Whole d ([','].intercalate parts) :=
  ⟨depth_intercalate fun part hp => (h part hp).1,
    whole_intercalate_of (fun part hp => (h part hp).2)
      (fun part hp => (h part (List.dropLast_subset parts hp)).1) fun hz => absurd hz hd⟩

/-! ## Closed texts -/

/-- The text closes the brackets it opens, and begun at depth zero or deeper it is whole. -/
structure Closed (cs : List Char) : Prop where
  depth_eq : depth cs = 0
  whole : ∀ d, 0 ≤ d → Whole d cs

/-- A text without commas and brackets is closed. -/
theorem closed_of_not_mem (h : ∀ c ∈ [',', '[', ']'], c ∉ cs) : Closed cs := by
  have hcomma : ',' ∉ cs := h ',' (by simp)
  constructor
  · have hz : ∀ c ∈ cs, nesting c = 0 := by
      intro c hc
      have ho : c ≠ '[' := fun heq => h '[' (by simp) (heq ▸ hc)
      have hcl : c ≠ ']' := fun heq => h ']' (by simp) (heq ▸ hc)
      simp [nesting, ho, hcl]
    rw [depth, List.map_congr_left hz]
    simp
  · exact fun d _ => whole_of_not_mem hcomma

theorem Closed.append (hc : Closed cs) (hd : Closed ds) : Closed (cs ++ ds) := by
  constructor
  · rw [depth_append, hc.depth_eq, hd.depth_eq, add_zero]
  · intro d h
    rw [whole_append_iff, hc.depth_eq, add_zero]
    exact ⟨hc.whole d h, hd.whole d h⟩

/-- Brackets close around closed texts between commas. -/
theorem closed_brackets {parts : List (List Char)} (h : ∀ part ∈ parts, Closed part) :
    Closed ('[' :: ([','].intercalate parts ++ [']'])) := by
  have hin {d : Int} (hd : 0 ≤ d) := whole_intercalate (show d + 1 ≠ 0 by omega)
    fun part hp => ⟨(h part hp).depth_eq, (h part hp).whole (d + 1) (by omega)⟩
  constructor
  · rw [depth_cons, depth_append, (hin (le_refl 0)).1]
    simp
  · intro d hd
    rw [whole_cons_iff, whole_append_iff, nesting_opening]
    refine ⟨by simp, (hin hd).2, ?_⟩
    simp [whole_cons_iff, whole_nil]

/-! ## Splitting -/

/-- A whole text stays in one part with what follows it. -/
theorem splitLevel_append (h : Whole d cs) (ds : List Char) :
    splitLevel d (cs ++ ds) = (splitLevel (d + depth cs) ds).modifyHead (cs ++ ·) := by
  induction cs generalizing d with
  | nil => cases hs : splitLevel d ds <;> simp [hs]
  | cons c cs ih =>
    obtain ⟨hc, hcs⟩ := whole_cons_iff.1 h
    have hcut : ¬(c = ',' ∧ d = 0) := fun hcd => hc hcd.1 hcd.2
    rw [List.cons_append, splitLevel, if_neg hcut, ih hcs, depth_cons, add_assoc]
    cases splitLevel (d + (nesting c + depth cs)) ds <;> simp

theorem splitLevel_of_whole (h : Whole d cs) : splitLevel d cs = [cs] := by
  simpa [splitLevel] using splitLevel_append h []

/-- A comma at depth zero cuts, and what follows is split as if it stood alone. -/
theorem splitLevel_append_comma (hz : d + depth cs = 0) (ds : List Char) :
    splitLevel d (cs ++ ',' :: ds) = splitLevel d cs ++ splitLevel 0 ds := by
  induction cs generalizing d with
  | nil =>
    have hd : d = 0 := by simpa using hz
    simp [splitLevel, hd]
  | cons c cs ih =>
    rw [depth_cons, ← add_assoc] at hz
    by_cases hcut : c = ',' ∧ d = 0
    · obtain ⟨rfl, rfl⟩ := hcut
      have hrest : (0 : Int) + depth cs = 0 := by simpa using hz
      simp [splitLevel, ih hrest]
    · have hne := splitLevel_ne_nil (d + nesting c) cs
      rw [List.cons_append, splitLevel, if_neg hcut, splitLevel, if_neg hcut, ih hz]
      cases hs : splitLevel (d + nesting c) cs with
      | nil => exact absurd hs hne
      | cons part parts => rfl

/-- Whole texts between commas are the parts, if the depth is zero again at the end of each but the
last. -/
theorem splitLevel_intercalate {parts : List (List Char)} (hne : parts ≠ [])
    (hw : ∀ part ∈ parts, Whole 0 part) (hz : ∀ part ∈ parts.dropLast, depth part = 0) :
    splitLevel 0 ([','].intercalate parts) = parts := by
  induction parts with
  | nil => exact absurd rfl hne
  | cons part parts ih =>
    have hp := hw part List.mem_cons_self
    cases parts with
    | nil => simpa using splitLevel_of_whole hp
    | cons next parts =>
      rw [List.dropLast_cons_cons] at hz
      rw [List.intercalate_cons_cons, List.append_assoc, List.singleton_append,
        splitLevel_append_comma (by rw [hz part List.mem_cons_self, add_zero]),
        splitLevel_of_whole hp, List.singleton_append,
        ih (List.cons_ne_nil next parts) (fun p h => hw p (List.mem_cons_of_mem part h))
          fun p h => hz p (List.mem_cons_of_mem part h)]

end Criteria.Outline
