import Criteria.Binary64
import Criteria.Text.Upper

/-!
# Values

The literal values that properties are compared with. An absent value is not one
of them: whoever has none says so with an `Option`.
-/

namespace Criteria

/-- A literal value. Signed and unsigned integers are kept apart. -/
inductive Value where
  | bool (b : Bool)
  | int (i : Int64)
  | uint (n : UInt64)
  | float (x : Binary64)
  | text (s : String)
  | list (items : List Value)

namespace Value

/-- The name of the kind of value. -/
def kind : Value → String
  | bool _ => "bool"
  | int _ => "int"
  | uint _ => "uint"
  | float _ => "float"
  | text _ => "string"
  | list _ => "list"

/-- The text, of a text. -/
def text? : Value → Option String
  | text s => some s
  | _ => none

/-- The empty text, and no other value. -/
def isBlankText : Value → Bool
  | text s => s.isEmpty
  | _ => false

/-- The empty list, and no other value. -/
def isEmptyList : Value → Bool
  | list items => items.isEmpty
  | _ => false

/-- A text in upper case; other values stay as they are, lists of texts too. -/
def upper : Value → Value
  | text s => text (Text.upper s)
  | v => v

/-! ## Equality -/

mutual

/-- Equality of values: of one kind, and equal as numbers where they are floating-point numbers, so
that a value with a NaN in it is not equal to itself. -/
def same : Value → Value → Bool
  | bool a, bool b => a == b
  | int a, int b => a == b
  | uint a, uint b => a == b
  | float a, float b => a.same b
  | text a, text b => a == b
  | list a, list b => sameItems a b
  | _, _ => false

/-- Equality of lists of values, item by item. -/
def sameItems : List Value → List Value → Bool
  | [], [] => true
  | v :: vs, w :: ws => v.same w && sameItems vs ws
  | _, _ => false

end

instance : BEq Value := ⟨same⟩

/-! ## Text -/

/-- Numbers in conditions: never an exponent, nothing after the digits of a whole number, and a
decimal half way up goes up. -/
def layout : Decimal.Layout where
  tie := .up
  above := none
  upTo := none
  wholeMark := ""
  plus := ""
  notANumber := "NaN"
  infinity := "inf"
  minusInfinity := "-inf"

mutual

/-- The value as it appears in a written condition; a list is its items between commas. -/
def render : Value → String
  | bool b => if b then "true" else "false"
  | int i => toString i.toInt
  | uint n => toString n.toNat
  | float x => x.textIn layout
  | text s => s
  | list items => ",".intercalate (renderItems items)

/-- The items of a list, one by one. -/
def renderItems : List Value → List String
  | [] => []
  | v :: vs => v.render :: renderItems vs

end

@[simp] theorem renderItems_eq_map (items : List Value) : renderItems items = items.map render := by
  induction items with
  | nil => rfl
  | cons v vs ih => simp [renderItems, ih]

end Value

end Criteria
