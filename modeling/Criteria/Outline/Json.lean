import Criteria.Outline
import Criteria.Text.Quoted

/-!
# Outlines as JSON

An outline is an object with its items, an item an object with its segments, and
a segment an object whose one member says whether it is an attribute or a group.
-/

namespace Criteria

open Text.Quoted (json)

mutual

/-- The JSON form of a step. -/
def Step.toJson : Step → String
  | .attribute name => "\x7b\"Attribute\":" ++ json name ++ "\x7d"
  | .group routes =>
    "\x7b\"Group\":\x7b\"items\":[" ++ ",".intercalate (Outline.toJsonRoutes routes) ++ "]\x7d\x7d"

/-- The JSON forms of the steps of a route. -/
def Route.toJsonSteps : List Step → List String
  | [] => []
  | step :: rest => step.toJson :: Route.toJsonSteps rest

/-- The JSON forms of the routes of an outline. -/
def Outline.toJsonRoutes : List (List Step) → List String
  | [] => []
  | route :: rest =>
    ("\x7b\"segments\":[" ++ ",".intercalate (Route.toJsonSteps route) ++ "]\x7d") ::
      Outline.toJsonRoutes rest

end

/-- The JSON form of an outline. -/
def Outline.toJson (outline : Outline) : String :=
  "\x7b\"items\":[" ++ ",".intercalate (Outline.toJsonRoutes outline) ++ "]\x7d"

end Criteria
