import Criteria.Plan

/-!
# Trees of fetches

The fetches of a plan as trees, in the order in which they were asked for. A
fetch whose parents do not lead to the root belongs to no tree.
-/

namespace Criteria

/-- A fetch with the fetches that start from it. -/
inductive FetchTree where
  | node (name : String) (children : List FetchTree)

namespace FetchTree

/-- The links of a pool that start from a parent. -/
def children (pool : List Link) (parent : Option Nat) : List Link :=
  pool.filter (·.parent == parent)

/-- The links of a pool that do not. -/
def others (pool : List Link) (parent : Option Nat) : List Link :=
  pool.filter (·.parent != parent)

theorem mem_children {pool : List Link} {parent : Option Nat} {link : Link} :
    link ∈ children pool parent ↔ link ∈ pool ∧ link.parent = parent := by
  simp [children]

theorem length_others_lt {pool : List Link} {parent : Option Nat} {link : Link}
    (h : link ∈ children pool parent) : (others pool parent).length < pool.length := by
  obtain ⟨hmem, hp⟩ := mem_children.1 h
  exact List.length_filter_lt_length_iff_exists.2 ⟨link, hmem, by simp [hp]⟩

/-- The trees on a parent, of a pool of links. Links that have been placed are taken from the pool,
for every link starts from one parent only. -/
def forest (pool : List Link) (parent : Option Nat) : List FetchTree :=
  (children pool parent).attach.map fun ⟨link, _⟩ =>
    .node link.name (forest (others pool parent) (some link.id))
termination_by pool.length
decreasing_by exact length_others_lt ‹_›

theorem forest_eq (pool : List Link) (parent : Option Nat) :
    forest pool parent =
      (children pool parent).map fun link =>
        .node link.name (forest (others pool parent) (some link.id)) := by
  rw [forest]
  exact List.attach_map_val
    (f := fun link : Link => node link.name (forest (others pool parent) (some link.id)))

mutual

/-- A tree as text, its children in parentheses. -/
def text : FetchTree → String
  | node name [] => "fetch " ++ name
  | node name (child :: children) =>
    "fetch " ++ name ++ "(" ++ ",".intercalate (child.text :: texts children) ++ ")"

/-- Trees as texts. -/
def texts : List FetchTree → List String
  | [] => []
  | tree :: trees => tree.text :: texts trees

end

@[simp] theorem texts_eq_map (trees : List FetchTree) : texts trees = trees.map text := by
  induction trees with
  | nil => rfl
  | cons tree trees ih => simp [texts, ih]

end FetchTree

namespace Plan

/-- The fetches that lead to the root. -/
def fetchForest (p : Plan) : List FetchTree := FetchTree.forest p.fetches none

/-- The fetches as text. -/
def fetchText (p : Plan) : String := ", ".intercalate (p.fetchForest.map FetchTree.text)

end Plan

end Criteria
