/-!
# Comparison operators

What a leaf condition does with a property and, for most operators, a value.
-/

namespace Criteria

/-- How a property is compared. The operators that ignore case compare the upper case of the
property; `equalsGreatest` compares it with its own greatest value over all records. -/
inductive Operator where
  | equal
  | notEqual
  | equalIgnoreCase
  | notEqualIgnoreCase
  | isIn
  | notIn
  | isNull
  | isNotNull
  | likeIgnoreCase
  | greaterThan
  | greaterThanOrEqual
  | lessThan
  | lessThanOrEqual
  | equalsGreatest
deriving DecidableEq

namespace Operator

/-- The operator is applied to a value. -/
def takesValue : Operator → Bool
  | isNull | isNotNull | equalsGreatest => false
  | _ => true

/-- The property is compared in upper case. -/
def ignoresCase : Operator → Bool
  | equalIgnoreCase | notEqualIgnoreCase | likeIgnoreCase => true
  | _ => false

/-- The operator in a written condition. -/
def text : Operator → String
  | equal | equalIgnoreCase => "equal"
  | notEqual | notEqualIgnoreCase => "not equal"
  | isIn => "in"
  | notIn => "not in"
  | isNull => "is null"
  | isNotNull => "is not null"
  | likeIgnoreCase => "like"
  | greaterThan => ">"
  | greaterThanOrEqual => ">="
  | lessThan => "<"
  | lessThanOrEqual => "<="
  | equalsGreatest => "equal max"

/-- The name that stands for the operator in stored data. -/
def name : Operator → String
  | equal => "Equal"
  | notEqual => "NotEqual"
  | equalIgnoreCase => "EqualIgnoreCase"
  | notEqualIgnoreCase => "NotEqualIgnoreCase"
  | isIn => "In"
  | notIn => "NotIn"
  | isNull => "IsNull"
  | isNotNull => "IsNotNull"
  | likeIgnoreCase => "LikeIgnoreCase"
  | greaterThan => "GreaterThan"
  | greaterThanOrEqual => "GreaterThanOrEqual"
  | lessThan => "LessThan"
  | lessThanOrEqual => "LessThanOrEqual"
  | equalsGreatest => "EqualsGreatest"

/-- All operators. -/
def all : List Operator :=
  [equal, notEqual, equalIgnoreCase, notEqualIgnoreCase, isIn, notIn, isNull, isNotNull,
    likeIgnoreCase, greaterThan, greaterThanOrEqual, lessThan, lessThanOrEqual, equalsGreatest]

/-- The operator of a name. -/
def ofName? (s : String) : Option Operator := all.find? (·.name == s)

/-- An operator can be told by its name. -/
theorem ofName?_name (op : Operator) : ofName? op.name = some op := by cases op <;> decide

end Operator

end Criteria
