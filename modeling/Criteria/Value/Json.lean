import Criteria.Json.Kind
import Criteria.Text.Quoted
import Criteria.Value

/-!
# Values as JSON

A value is written as an object with one member: the name of its kind, and its
content. Reading accepts no other form. Floating-point numbers that are not
finite have no JSON form and are written as `null`.

Objects and brackets may be nested `nestingLimit` deep less one, counted
together, so that a list within lists takes two levels each.
-/

namespace Criteria.Value

/-! ## Writing -/

/-- Numbers in JSON: whole numbers keep a zero behind the point, positions end at sixteen digits
before the point and four zeros after it, exponents have a sign, and a decimal half way goes to the
even digit. -/
def jsonLayout : Decimal.Layout where
  tie := .toEven
  above := some (-5)
  upTo := some 16
  wholeMark := ".0"
  plus := "+"
  notANumber := "null"
  infinity := "null"
  minusInfinity := "null"

/-- An object with one member. -/
def tagged (name content : String) : String :=
  "\x7b" ++ Text.Quoted.json name ++ ":" ++ content ++ "\x7d"

mutual

/-- The JSON form of a value. -/
def toJson : Value → String
  | bool b => tagged "Bool" (if b then "true" else "false")
  | int i => tagged "Int" (toString i.toInt)
  | uint n => tagged "UInt" (toString n.toNat)
  | float x => tagged "Float" (x.textIn jsonLayout)
  | text s => tagged "String" (Text.Quoted.json s)
  | list items => tagged "List" ("[" ++ ",".intercalate (toJsonItems items) ++ "]")

/-- The JSON forms of the items of a list. -/
def toJsonItems : List Value → List String
  | [] => []
  | v :: vs => v.toJson :: toJsonItems vs

end

@[simp] theorem toJsonItems_eq_map (items : List Value) :
    toJsonItems items = items.map toJson := by
  induction items with
  | nil => rfl
  | cons v vs ih => simp [toJsonItems, ih]

/-! ## Reading -/

/-- The kinds of value by their names. -/
inductive Tag where
  | bool
  | int
  | uint
  | float
  | text
  | list

/-- The kind of a name. -/
def Tag.ofName? : String → Option Tag
  | "Bool" => some .bool
  | "Int" => some .int
  | "UInt" => some .uint
  | "Float" => some .float
  | "String" => some .text
  | "List" => some .list
  | _ => none

/-- A signed integer, of an integer in its range. -/
def intOf? : Json.Number → Option Value
  | .unsigned n => if n.toNat < 0x8000000000000000 then some (int (Int64.ofInt n.toNat)) else none
  | .signed i => some (int i)
  | .float _ => none

/-- An unsigned integer, of an integer that is not negative. -/
def uintOf? : Json.Number → Option Value
  | .unsigned n => some (uint n)
  | .signed i => if 0 ≤ i.toInt then some (uint (UInt64.ofNat i.toInt.toNat)) else none
  | .float _ => none

/-- A floating-point number, of any number. -/
def floatOf? : Json.Number → Option Value
  | .unsigned n => some (float (Binary64.ofNat n.toNat))
  | .signed i =>
    let x := Binary64.ofNat i.toInt.natAbs
    some (float (if i.toInt < 0 then x.neg else x))
  | .float x => some (float x)

/-- A list whose items `item` reads, where `depth` levels of nesting are left inside it. -/
def readListOf (depth : Nat) (item : Json.Reader Value) : Json.Reader Value := fun cs =>
  match Json.skipSpace cs with
  | '[' :: rest =>
    if depth = 0 then .error .malformed
    else Json.readList item rest >>= fun (items, rest) => .ok (list items, rest)
  | rest => Json.refuse rest

/-- The content of a member by the kind it names. -/
def readContent (depth : Nat) (item : Json.Reader Value) : Tag → Json.Reader Value
  | .bool => fun cs => Json.readBool cs >>= fun (b, rest) => .ok (bool b, rest)
  | .int => Json.readNumber intOf?
  | .uint => Json.readNumber uintOf?
  | .float => Json.readNumber floatOf?
  | .text => fun cs => Json.readString cs >>= fun (s, rest) => .ok (text s, rest)
  | .list => readListOf depth item

/-- An object with one member, if nesting still allows one. -/
def readTagged (content : Option (Tag → Json.Reader Value)) : Json.Reader Value := fun cs =>
  match Json.skipSpace cs with
  | [] => .error .truncated
  | '\x7b' :: rest => do
    match content with
    | none => .error .malformed
    | some content =>
      let rest ← Json.takeMark '"' rest
      let (name, rest) ← Json.Quotation.read rest
      match Tag.ofName? name with
      | none => .error .mismatched
      | some tag =>
        let rest ← Json.takeMark ':' rest
        let (v, rest) ← content tag rest
        let rest ← Json.takeMark '\x7d' rest
        return (v, rest)
  | '"' :: rest => Json.Quotation.read rest >>= fun _ => .error .mismatched
  | _ => .error .malformed

/-- A value where `depth` levels of nesting are left; the last one is never entered. -/
def read : Nat → Json.Reader Value
  | 0 | 1 => readTagged none
  | depth + 2 => readTagged (some (readContent depth (read depth)))

/-- The levels of nesting in a text. -/
def nestingLimit : Nat := 128

/-- The value of a JSON text. -/
def ofJson (s : String) : Except Json.Fault Value := read nestingLimit s.toList >>= Json.finish

end Criteria.Value
