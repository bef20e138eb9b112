import Mathlib
import Criteria.Proofs.Json.Integers
import Criteria.Proofs.Json.Strings

/-!
# Values that survive their JSON form

What is written for a value is read as that value, whatever stands behind it. This
goes kind by kind: the tag says which reader comes next, and the reader of a list
needs no more than that its items are read one by one. Only floating-point numbers
are left out, and lists that are nested deeper than reading allows.
-/

namespace Criteria

namespace Json

variable {α : Type} {item : Reader α} {a : α} {cs rest : List Char}

/-! ## Items -/

/-- The last item of a list is the one before the closing bracket. -/
theorem readItems_closing (h : item cs = .ok (a, ']' :: rest)) (fuel : Nat) :
    readItems item (fuel + 1) cs = .ok ([a], rest) := by
  rw [readItems, h]
  rfl

/-- Behind a comma the items go on. -/
theorem readItems_comma {c : Char} (h : item cs = .ok (a, ',' :: c :: rest))
    (hspace : isSpace c = false) (hclosing : c ≠ ']') (fuel : Nat) :
    readItems item (fuel + 1) cs =
      readItems item fuel (c :: rest) >>= fun (more, rest) => .ok (a :: more, rest) := by
  rw [readItems, h]
  simp only [bind, Except.bind]
  rw [skipSpace_cons (by decide)]
  simp only [skipSpace_cons hspace]
  split
  · contradiction
  · next heq => exact absurd (List.cons.inj heq).1 hclosing
  · rfl

end Json

namespace Value

open Json (Reader readItems readList)
open Text.Quoted (json)

variable {item : Reader Value} {rest : List Char}

/-- Values without floating-point numbers, whose lists are nested at most so many deep. -/
inductive Plain : Nat → Value → Prop
  | bool {n : Nat} (b : Bool) : Plain n (bool b)
  | int {n : Nat} (i : Int64) : Plain n (int i)
  | uint {n : Nat} (u : UInt64) : Plain n (uint u)
  | text {n : Nat} (s : String) : Plain n (text s)
  | list {n : Nat} {items : List Value} (h : ∀ v ∈ items, Plain n v) : Plain (n + 1) (list items)

/-! ## Texts of values -/

theorem toList_tagged_append (name content : String) (rest : List Char) :
    (tagged name content).toList ++ rest =
      '\x7b' :: ((json name).toList ++ ':' :: (content.toList ++ '\x7d' :: rest)) := by
  simp [tagged]

/-- Every value is written as an object. -/
theorem exists_toList_toJson_append (v : Value) (rest : List Char) :
    ∃ text, v.toJson.toList ++ rest = '\x7b' :: text := by
  cases v <;> rw [toJson, toList_tagged_append] <;> exact ⟨_, rfl⟩

/-- The text of the items of a list. -/
def itemsText (items : List Value) : List Char := [','].intercalate (items.map (·.toJson.toList))

theorem itemsText_singleton (v : Value) : itemsText [v] = v.toJson.toList := by
  rw [itemsText, List.map_singleton, List.intercalate_singleton]

theorem itemsText_cons_cons (v w : Value) (items : List Value) :
    itemsText (v :: w :: items) = v.toJson.toList ++ ',' :: itemsText (w :: items) := by
  rw [itemsText, List.map_cons, List.map_cons, List.intercalate_cons_cons, List.append_assoc,
    List.singleton_append, itemsText, List.map_cons]

theorem exists_itemsText_append (v : Value) (items : List Value) (rest : List Char) :
    ∃ text, itemsText (v :: items) ++ rest = '\x7b' :: text := by
  cases items with
  | nil =>
    rw [itemsText_singleton]
    exact exists_toList_toJson_append v rest
  | cons w items =>
    rw [itemsText_cons_cons, List.append_assoc]
    exact exists_toList_toJson_append v _

/-- There are no more items than characters. -/
theorem length_le_length_itemsText (v : Value) (items : List Value) :
    items.length ≤ (itemsText (v :: items)).length := by
  induction items generalizing v with
  | nil => exact Nat.zero_le _
  | cons w items ih =>
    have hle := ih w
    rw [itemsText_cons_cons, List.length_append, List.length_cons, List.length_cons]
    omega

/-! ## Reading lists -/

/-- Items that are read one by one are read up to the closing bracket, if there is fuel for each of
them. -/
theorem readItems_itemsText {first : Value} {more : List Value}
    (h : ∀ v ∈ first :: more, ∀ rest, item (v.toJson.toList ++ rest) = .ok (v, rest)) {fuel : Nat}
    (hfuel : more.length < fuel) (rest : List Char) :
    readItems item fuel (itemsText (first :: more) ++ ']' :: rest) = .ok (first :: more, rest) := by
  obtain ⟨fuel, rfl⟩ := Nat.exists_eq_succ_of_ne_zero (Nat.ne_zero_of_lt hfuel)
  induction more generalizing first fuel with
  | nil =>
    rw [itemsText_singleton]
    exact Json.readItems_closing (h first List.mem_cons_self _) fuel
  | cons next more ih =>
    obtain ⟨fuel, rfl⟩ := Nat.exists_eq_succ_of_ne_zero
      (Nat.ne_zero_of_lt (Nat.lt_of_succ_lt_succ hfuel))
    rw [List.forall_mem_cons] at h
    obtain ⟨text, htext⟩ := exists_itemsText_append next more (']' :: rest)
    have hfirst := h.1 (',' :: (itemsText (next :: more) ++ ']' :: rest))
    have hmore := ih h.2 fuel (Nat.lt_of_succ_lt_succ hfuel)
    rw [htext] at hfirst hmore
    rw [itemsText_cons_cons, List.append_assoc, List.cons_append, htext,
      Json.readItems_comma hfirst (by decide) (by decide), hmore]
    rfl

theorem readList_itemsText {items : List Value}
    (h : ∀ v ∈ items, ∀ rest, item (v.toJson.toList ++ rest) = .ok (v, rest)) (rest : List Char) :
    readList item (itemsText items ++ ']' :: rest) = .ok (items, rest) := by
  cases items with
  | nil => rfl
  | cons v items =>
    obtain ⟨text, htext⟩ := exists_itemsText_append v items (']' :: rest)
    have hfuel : items.length < (itemsText (v :: items) ++ ']' :: rest).length := by
      have hle := length_le_length_itemsText v items
      rw [List.length_append, List.length_cons]
      omega
    have hitems := readItems_itemsText h hfuel rest
    rw [htext] at hitems ⊢
    rw [readList, Json.skipSpace_cons (by decide)]
    exact hitems

/-! ## Reading values -/

/-- An object whose tag names a kind is read as the content that its kind is read from. -/
theorem readTagged_tagged {content : Tag → Reader Value} {name body : String} {v : Value}
    (tag : Tag) (hname : Tag.ofName? name = some tag)
    (hcontent : ∀ rest, content tag (body.toList ++ '\x7d' :: rest) = .ok (v, '\x7d' :: rest))
    (rest : List Char) :
    readTagged (some content) ((tagged name body).toList ++ rest) = .ok (v, rest) := by
  have hquote := Json.toList_json_append name (':' :: (body.toList ++ '\x7d' :: rest))
  have hread := Json.Quotation.read_flatMap_jsonChar name (':' :: (body.toList ++ '\x7d' :: rest))
  rw [toList_tagged_append, hquote, readTagged, Json.skipSpace_cons (by decide)]
  simp only [Json.takeMark, Json.skipSpace_cons (show Json.isSpace '"' = false by decide),
    Json.skipSpace_cons (show Json.isSpace ':' = false by decide),
    Json.skipSpace_cons (show Json.isSpace '\x7d' = false by decide), if_true, bind, Except.bind,
    hread, hname, hcontent]
  rfl

/-- The end of an object ends a number. -/
theorem ends_closing (rest : List Char) : Json.Number.Ends ('\x7d' :: rest) := by
  simp [Json.Number.Ends]

theorem readBool_toJson (b : Bool) (rest : List Char) :
    Json.readBool ((if b then "true" else "false").toList ++ rest) = .ok (b, rest) := by
  cases b <;> rfl

/-- The content of a list is read if its items are and there is a level of nesting for it. -/
theorem readListOf_itemsText {items : List Value} {depth : Nat} (hdepth : depth ≠ 0)
    (h : ∀ v ∈ items, ∀ rest, item (v.toJson.toList ++ rest) = .ok (v, rest)) (rest : List Char) :
    readListOf depth item ('[' :: (itemsText items ++ ']' :: rest)) = .ok (list items, rest) := by
  rw [readListOf, Json.skipSpace_cons (by decide)]
  simp only [if_neg hdepth, readList_itemsText h, bind, Except.bind]

/-- A value is read where two levels of nesting are left for each list around the innermost one, and
two more. -/
theorem read_toJson {n : Nat} {v : Value} (h : v.Plain n) (depth : Nat) (hdepth : 2 * n ≤ depth)
    (rest : List Char) : read (depth + 2) (v.toJson.toList ++ rest) = .ok (v, rest) := by
  induction h generalizing depth rest with
  | bool b =>
    rw [toJson, read]
    refine readTagged_tagged .bool rfl (fun rest => ?_) rest
    simp only [readContent, readBool_toJson, bind, Except.bind]
  | int i =>
    rw [toJson, read]
    exact readTagged_tagged .int rfl (fun rest => readNumber_int i (ends_closing rest)) rest
  | uint u =>
    rw [toJson, read]
    exact readTagged_tagged .uint rfl (fun rest => readNumber_uint u (ends_closing rest)) rest
  | text s =>
    rw [toJson, read]
    refine readTagged_tagged .text rfl (fun rest => ?_) rest
    simp only [readContent, Json.readString_json, bind, Except.bind]
  | @list n items h ih =>
    obtain ⟨depth, rfl⟩ : ∃ d, depth = d + 2 := ⟨depth - 2, by omega⟩
    have hitems : ∀ v ∈ items, ∀ rest,
        read (depth + 2) (v.toJson.toList ++ rest) = .ok (v, rest) :=
      fun v hv => ih v hv depth (by omega)
    have hbody : ∀ rest, ("[" ++ ",".intercalate (toJsonItems items) ++ "]").toList ++ rest =
        '[' :: (itemsText items ++ ']' :: rest) := by
      intro rest
      simp [itemsText, String.toList_intercalate, Function.comp_def]
    rw [toJson, read]
    refine readTagged_tagged .list rfl (fun rest => ?_) rest
    rw [hbody, readContent]
    exact readListOf_itemsText (by omega) hitems _

/-- **Values survive their JSON form**, if no floating-point number is in them and no list is nested
deeper than 63 levels: what is written is read, and as the same value, of the same kind. -/
theorem ofJson_toJson {n : Nat} {v : Value} (h : v.Plain n) (hn : n ≤ 63) :
    ofJson v.toJson = .ok v := by
  have hread := read_toJson h 126 (by omega) []
  rw [List.append_nil] at hread
  rw [ofJson, nestingLimit, hread]
  rfl

/-- A value inside lists of one item. -/
def nested (v : Value) : Nat → Value
  | 0 => v
  | depth + 1 => list [nested v depth]

theorem Plain.nested {n : Nat} {v : Value} (h : v.Plain n) (depth : Nat) :
    (v.nested depth).Plain (n + depth) := by
  induction depth with
  | zero => exact h
  | succ depth ih =>
    refine .list ?_
    rw [List.forall_mem_singleton]
    exact ih

/-- The same magnitude signed and unsigned, the limits of both, and characters with and without
escapes. -/
def varied : Value :=
  list [int 5, uint 5, int Int64.minValue, uint 18446744073709551615, bool true,
    text "\"\\\n\x01/é😀", list []]

theorem ofJson_toJson_varied :
    (varied.nested 61).Plain 63 ∧ ofJson (varied.nested 61).toJson = .ok (varied.nested 61) := by
  have hvaried : varied.Plain 2 := by
    refine .list ?_
    simp only [List.forall_mem_cons]
    exact ⟨.int 5, .uint 5, .int _, .uint _, .bool true, .text _, .list (by simp), by simp⟩
  have hplain : (varied.nested 61).Plain 63 := hvaried.nested 61
  exact ⟨hplain, ofJson_toJson hplain (Nat.le_refl 63)⟩

end Value

end Criteria
