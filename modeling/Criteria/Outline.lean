/-!
# Outlines

An outline names attributes to be fetched: routes between commas, each a chain
of attributes between points, and where several routes share a beginning a group
in brackets in place of their common end. `a.[b,c.d]` stands for `a.b` and
`a.c.d`, which are its leaves.
-/

namespace Criteria

/-- One step of a route: an attribute, or a group of routes that go on from here. -/
inductive Step where
  | attribute (name : String)
  | group (routes : List (List Step))

/-- The steps of a route, in order. -/
abbrev Route := List Step

/-- The routes of an outline, in order. -/
abbrev Outline := List Route

/-! ## Equality -/

mutual

/-- Equality of steps. -/
def Step.same : Step → Step → Bool
  | .attribute a, .attribute b => a == b
  | .group rs, .group ss => Outline.same rs ss
  | _, _ => false

/-- Equality of routes, step by step. -/
def Route.same : List Step → List Step → Bool
  | [], [] => true
  | a :: r, b :: s => a.same b && Route.same r s
  | _, _ => false

/-- Equality of outlines, route by route. -/
def Outline.same : List (List Step) → List (List Step) → Bool
  | [], [] => true
  | r :: rs, s :: ss => Route.same r s && Outline.same rs ss
  | _, _ => false

end

mutual

theorem Step.same_iff : (a b : Step) → (a.same b = true ↔ a = b)
  | .attribute a, .attribute b => by simp [Step.same]
  | .group rs, .group ss => by simp [Step.same, Outline.same_iff rs ss]
  | .attribute _, .group _ => by simp [Step.same]
  | .group _, .attribute _ => by simp [Step.same]

theorem Route.same_iff : (r s : List Step) → (Route.same r s = true ↔ r = s)
  | [], [] => by simp [Route.same]
  | a :: r, b :: s => by simp [Route.same, Step.same_iff a b, Route.same_iff r s]
  | [], _ :: _ => by simp [Route.same]
  | _ :: _, [] => by simp [Route.same]

theorem Outline.same_iff : (rs ss : List (List Step)) → (Outline.same rs ss = true ↔ rs = ss)
  | [], [] => by simp [Outline.same]
  | r :: rs, s :: ss => by simp [Outline.same, Route.same_iff r s, Outline.same_iff rs ss]
  | [], _ :: _ => by simp [Outline.same]
  | _ :: _, [] => by simp [Outline.same]

end

instance : DecidableEq Step := fun a b => decidable_of_iff _ (Step.same_iff a b)

/-! ## Parts of a route -/

namespace Route

/-- A chain of attributes as a route. -/
def chain (names : List String) : Route := names.map .attribute

/-- The attributes among the steps, in order. -/
def attributes : Route → List String
  | [] => []
  | .attribute name :: rest => name :: attributes rest
  | .group _ :: rest => attributes rest

/-- The group at the end, if the route ends with one. -/
def group? : Route → Option Outline
  | [] => none
  | [.group routes] => some routes
  | _ :: rest => group? rest

end Route

/-! ## Text -/

mutual

/-- A step as text. -/
def Step.render : Step → String
  | .attribute name => name
  | .group routes => "[" ++ ",".intercalate (Outline.renderRoutes routes) ++ "]"

/-- The steps of a route as texts. -/
def Route.renderSteps : List Step → List String
  | [] => []
  | step :: rest => step.render :: Route.renderSteps rest

/-- The routes of an outline as texts. -/
def Outline.renderRoutes : List (List Step) → List String
  | [] => []
  | route :: rest => ".".intercalate (Route.renderSteps route) :: Outline.renderRoutes rest

end

/-- A route as text: its steps between points. -/
def Route.render (route : Route) : String := ".".intercalate (Route.renderSteps route)

/-- An outline as text: its routes between commas. -/
def Outline.render (outline : Outline) : String := ",".intercalate (Outline.renderRoutes outline)

@[simp] theorem Route.renderSteps_eq_map (route : Route) :
    Route.renderSteps route = route.map Step.render := by
  induction route with
  | nil => rfl
  | cons step rest ih => simp [Route.renderSteps, ih]

@[simp] theorem Outline.renderRoutes_eq_map (outline : Outline) :
    Outline.renderRoutes outline = outline.map Route.render := by
  induction outline with
  | nil => rfl
  | cons route rest ih => simp [Outline.renderRoutes, Route.render, ih]

/-! ## Leaves -/

mutual

/-- The leaves of a route whose beginning is `before`. A route without a group, or with an empty
one, is its own leaf, unless it has no attribute at all. -/
def Route.leavesFrom (before : List String) : List Step → List (List String)
  | [] => if before.isEmpty then [] else [before]
  | [.group (route :: routes)] =>
    Route.leavesFrom before route ++ Outline.leavesFrom before routes
  | .attribute name :: rest => Route.leavesFrom (before ++ [name]) rest
  | .group _ :: rest => Route.leavesFrom before rest

/-- The leaves of routes that share their beginning. -/
def Outline.leavesFrom (before : List String) : List (List Step) → List (List String)
  | [] => []
  | route :: routes => Route.leavesFrom before route ++ Outline.leavesFrom before routes

end

/-- The chains of attributes from the root to each end of the outline, in order. -/
def Outline.leaves (outline : Outline) : List (List String) := Outline.leavesFrom [] outline

end Criteria
