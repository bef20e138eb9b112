import Criteria.Operator
import Criteria.Text.Upper
import Criteria.Value

/-!
# Filters

Conditions on one property, as a query is usually given them. A filter whose
value is absent does not constrain the query, unless the value is required: then
the query has no results.
-/

namespace Criteria.Query

/-- A condition on one property. -/
inductive Filter where
  /-- The property that identifies a record. -/
  | identity (value : Option Value)
  | equal (name : String) (value : Option Value)
  | notEqual (name : String) (value : Option Value)
  | after (name : String) (value : Option Value)
  | afterInclusive (name : String) (value : Option Value)
  | before (name : String) (value : Option Value)
  | beforeInclusive (name : String) (value : Option Value)
  /-- The value has to be there, and not as an empty text. -/
  | required (name : String) (value : Option Value)
  | equalIgnoreCase (name : String) (text : Option String)
  | notEqualIgnoreCase (name : String) (text : Option String)
  /-- A pattern, in which a star stands for any characters. -/
  | likeIgnoreCase (name : String) (pattern : Option String)
  /-- A beginning; without one, the property only has to have a value. -/
  | startingWith (name : String) (beginning : Option String)
  | isIn (name : String) (values : Option (List Value))
  | notIn (name : String) (values : Option (List Value))
  /-- The values have to be there, and be some. -/
  | requiredIn (name : String) (values : Option (List Value))
  | null (name : String)
  | notNull (name : String)
  /-- The greatest value the property has on any record. -/
  | greatest (name : String)

/-- What a filter does to a query. -/
inductive Verdict where
  | skip
  | register (op : Operator) (value : Option Value)
  | contradict

/-- Registers a comparison if there is a value. -/
def Verdict.ofValue (op : Operator) : Option Value → Verdict
  | none => skip
  | some v => register op (some v)

namespace Filter

/-- The property of a filter. -/
def name : Filter → String
  | identity _ => "id"
  | equal name _ | notEqual name _ | after name _ | afterInclusive name _ | before name _
  | beforeInclusive name _ | required name _ | equalIgnoreCase name _ | notEqualIgnoreCase name _
  | likeIgnoreCase name _ | startingWith name _ | isIn name _ | notIn name _ | requiredIn name _
  | null name | notNull name | greatest name => name

/-- A pattern with the mark that conditions use for any characters, in upper case. -/
def wildcards (pattern : String) : String :=
  Text.upper (String.ofList (pattern.toList.map fun c => if c = '*' then '%' else c))

/-- The pattern of a beginning. -/
def beginningPattern (beginning : Option String) : String :=
  (beginning.map Text.upper).getD "" ++ "%"

/-- What the filter does. -/
def verdict : Filter → Verdict
  | identity value | equal _ value => .ofValue .equal value
  | notEqual _ value => .ofValue .notEqual value
  | after _ value => .ofValue .greaterThan value
  | afterInclusive _ value => .ofValue .greaterThanOrEqual value
  | before _ value => .ofValue .lessThan value
  | beforeInclusive _ value => .ofValue .lessThanOrEqual value
  | required _ value =>
    if value.all Value.isBlankText then .contradict else .register .equal value
  | equalIgnoreCase _ text => .ofValue .equalIgnoreCase (text.map (.text <| Text.upper ·))
  | notEqualIgnoreCase _ text => .ofValue .notEqualIgnoreCase (text.map (.text <| Text.upper ·))
  | likeIgnoreCase _ pattern => .ofValue .likeIgnoreCase (pattern.map (.text <| wildcards ·))
  | startingWith _ beginning =>
    .register .likeIgnoreCase (some (.text (beginningPattern beginning)))
  | isIn _ values => .ofValue .isIn (values.map .list)
  | notIn _ values => .ofValue .notIn (values.map .list)
  | requiredIn _ values =>
    if values.all List.isEmpty then .contradict else .register .isIn (values.map .list)
  | null _ => .register .isNull none
  | notNull _ => .register .isNotNull none
  | greatest _ => .register .equalsGreatest none

end Filter

end Criteria.Query
