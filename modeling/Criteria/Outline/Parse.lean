import Criteria.Outline
import Criteria.Text.Blank

/-!
# Reading outlines

A text is cut at the commas that stand outside all brackets, and each part that
is not blank is a route: the names between points, up to the first opening
bracket, from where on the rest of the part is a group, without the bracket that
closes it. Every text is read; brackets that do not match give some outline.
-/

namespace Criteria.Outline

/-- What a character adds to the depth of nesting. -/
def nesting (c : Char) : Int := if c = '[' then 1 else if c = ']' then -1 else 0

/-- The parts of a text between the commas at depth zero, where the text begins at `depth`. -/
def splitLevel (depth : Int) : List Char → List (List Char)
  | [] => [[]]
  | c :: cs =>
    if c = ',' ∧ depth = 0 then [] :: splitLevel depth cs
    else (splitLevel (depth + nesting c) cs).modifyHead (c :: ·)

theorem splitLevel_ne_nil (depth : Int) (cs : List Char) : splitLevel depth cs ≠ [] := by
  induction cs generalizing depth with
  | nil => simp [splitLevel]
  | cons c cs ih => rw [splitLevel]; split <;> simp [ih]

theorem length_le_of_mem_splitLevel {depth : Int} {cs part : List Char}
    (h : part ∈ splitLevel depth cs) : part.length ≤ cs.length := by
  induction cs generalizing depth part with
  | nil => simp_all [splitLevel]
  | cons c cs ih =>
    rw [splitLevel] at h
    split at h
    · rcases List.mem_cons.1 h with rfl | h
      · simp
      · exact Nat.le_succ_of_le (ih h)
    · obtain ⟨first, rest, hs⟩ :=
        List.exists_cons_of_ne_nil (splitLevel_ne_nil (depth + nesting c) cs)
      rw [hs, List.modifyHead_cons] at h
      rcases List.mem_cons.1 h with rfl | h
      · exact Nat.succ_le_succ (ih (by rw [hs]; exact List.mem_cons_self))
      · exact Nat.le_succ_of_le (ih (by rw [hs]; exact List.mem_cons_of_mem _ h))

/-- The names of a chain: what stands between points, trimmed, where anything is left. -/
def names (cs : List Char) : List String :=
  (((cs.splitOn '.').map Text.trim).filter (!·.isEmpty)).map String.ofList

/-- The text without a closing bracket at its end. -/
def dropClosing (cs : List Char) : List Char :=
  if cs.getLast? = some ']' then cs.dropLast else cs

/-- A part cut at its first opening bracket: the chain in front, and the text of the group, if there
is a bracket. A blank part is nothing. -/
def cutPart (part : List Char) : Option (List String × Option (List Char)) :=
  let part := Text.trim part
  if part.isEmpty then none
  else
    let chain := names (part.takeWhile (· != '['))
    match part.dropWhile (· != '[') with
    | [] => some (chain, none)
    | _ :: inside => some (chain, some (dropClosing inside))

theorem length_dropClosing_le (cs : List Char) : (dropClosing cs).length ≤ cs.length := by
  unfold dropClosing
  split <;> simp

theorem length_trim_le (cs : List Char) : (Text.trim cs).length ≤ cs.length := by
  rw [Text.trim, Text.trimEnd, List.length_reverse]
  refine Nat.le_trans (List.dropWhile_sublist _).length_le ?_
  rw [List.length_reverse]
  exact (List.dropWhile_sublist _).length_le

theorem length_lt_of_cutPart {part inside : List Char} {chain : List String}
    (h : cutPart part = some (chain, some inside)) : inside.length < part.length := by
  unfold cutPart at h
  simp only at h
  split at h
  · simp at h
  · split at h
    · simp at h
    · rename_i c rest hd
      simp only [Option.some.injEq, Prod.mk.injEq] at h
      have h1 := (List.dropWhile_sublist (· != '[') (l := Text.trim part)).length_le
      have h2 := length_dropClosing_le rest
      have h3 := length_trim_le part
      rw [hd, List.length_cons] at h1
      rw [← h.2]
      omega

/-- The outline of a text. The text of a group is shorter than the part it stands in. -/
def parseChars (cs : List Char) : Outline :=
  (splitLevel 0 cs).attach.filterMap fun ⟨part, _⟩ =>
    match _h : cutPart part with
    | none => none
    | some (chain, none) => some (Route.chain chain)
    | some (chain, some inside) => some (Route.chain chain ++ [.group (parseChars inside)])
termination_by cs.length
decreasing_by
  have := length_lt_of_cutPart _h
  have := length_le_of_mem_splitLevel ‹part ∈ splitLevel 0 cs›
  omega

/-- The outline of a text. -/
def parse (s : String) : Outline := parseChars s.toList

end Criteria.Outline
