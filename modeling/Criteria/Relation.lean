/-!
# Relations

A relation leads from the root of a query, or from another relation, to the
records that an attribute refers to. Joins serve conditions on the attributes of
those records, fetches load the records along with the query.
-/

namespace Criteria

/-- What a relation is for. -/
inductive RelationKind where
  | join
  | fetch
deriving DecidableEq

/-- The kind in words. -/
def RelationKind.text : RelationKind → String
  | join => "join"
  | fetch => "fetch"

/-- The kind in descriptions of the library's own structures. -/
def RelationKind.title : RelationKind → String
  | join => "Join"
  | fetch => "Fetch"

/-- A relation as it is kept: the attributes that lead to it from the root, between points, the
number of the relation it starts from, and what the query engine handed out for it. -/
structure Relation (H : Type) where
  path : String
  /-- None for a relation that starts from the root. -/
  parent : Option Nat
  handle : H

namespace Relation

variable {H : Type}

/-- The path one attribute further; `none` is the root. -/
def extend (path : Option String) (name : String) : String :=
  match path with
  | none => name
  | some path => path ++ "." ++ name

/-- The name behind the last point of the path. -/
def name (r : Relation H) : String :=
  String.ofList (r.path.toList.reverse.takeWhile (· != '.')).reverse

end Relation

end Criteria
