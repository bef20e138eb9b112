import Criteria.Relation
import Criteria.Text.Quoted
import Criteria.Workspace

/-!
# Tables of relations

A table keeps the relations of one kind in the order of their creation. If it
memoizes, a path that was reached once leads to the same relation ever after;
if not, every walk creates relations of its own.
-/

namespace Criteria

/-- The relations created so far, numbered from zero, and the numbers of the memoized paths. -/
structure RelationTable (H : Type) where
  kind : RelationKind
  memoize : Bool
  nodes : List (Relation H)
  memo : List (String × Nat)

namespace RelationTable

variable {H W ε : Type}

/-- A table without relations. -/
def empty (kind : RelationKind) (memoize : Bool) : RelationTable H := ⟨kind, memoize, [], []⟩

/-- The relation of a number. -/
def get? (t : RelationTable H) (id : Nat) : Option (Relation H) := t.nodes[id]?

/-- The handle of a relation. -/
def handle? (t : RelationTable H) (id : Nat) : Option H := (t.get? id).map (·.handle)

/-- The number of a memoized path. -/
def lookup (t : RelationTable H) (path : String) : Option Nat := t.memo.lookup path

/-- The memoized paths, in order. -/
def paths (t : RelationTable H) : List String := t.memo.map Prod.fst

/-- Adds a relation at the end. -/
def add (t : RelationTable H) (node : Relation H) : RelationTable H :=
  { t with
    nodes := t.nodes ++ [node]
    memo := if t.memoize then t.memo ++ [(node.path, t.nodes.length)] else t.memo }

/-- Gives a relation another handle, on which later relations are based. -/
def replaceHandle (t : RelationTable H) (id : Nat) (handle : H) : RelationTable H :=
  { t with nodes := t.nodes.modify id fun node => { node with handle } }

/-! ## Walking -/

/-- The relation at a path, whose last attribute and parent are given: the memoized one, or a new
one with a handle made by `create` from the parent's. -/
def reach (create : Option H → String → Attempt ε W H) (path : String) (parent : Option Nat)
    (name : String) : Attempt ε (Workspace (RelationTable H) W) Nat := do
  let table := (← Attempt.current).store
  match table.lookup path with
  | some id =>
    Workspace.record (·.recordHit table.kind)
    pure id
  | none =>
    let handle ← Workspace.onHost (create (parent.bind table.handle?) name)
    Workspace.changeStore (·.add ⟨path, parent, handle⟩)
    Workspace.record (·.recordCreated table.kind)
    pure table.nodes.length

theorem run_reach (create : Option H → String → Attempt ε W H) (path : String)
    (parent : Option Nat) (name : String) (w : Workspace (RelationTable H) W) :
    (reach create path parent name).run w =
      match w.store.lookup path with
      | some id => (.ok id, { w with tally := w.tally.recordHit w.store.kind })
      | none =>
        match (create (parent.bind w.store.handle?) name).run w.host with
        | (.error e, host) => (.error e, { w with host })
        | (.ok handle, host) =>
          (.ok w.store.nodes.length,
            { store := w.store.add ⟨path, parent, handle⟩
              host
              tally := w.tally.recordCreated w.store.kind }) := by
  rw [reach, Attempt.run_bind, Attempt.run_current]
  dsimp only
  cases w.store.lookup path with
  | some id => rfl
  | none =>
    simp only [Attempt.run_bind, Workspace.run_onHost]
    rcases (create (parent.bind w.store.handle?) name).run w.host with ⟨_ | _, _⟩ <;> rfl

/-- Walks on from a relation, given with its path, along a chain of attributes. -/
def walk (create : Option H → String → Attempt ε W H) :
    Option (String × Nat) → List String →
      Attempt ε (Workspace (RelationTable H) W) (Option Nat)
  | start, [] => pure (start.map Prod.snd)
  | start, name :: chain => do
    let path := Relation.extend (start.map Prod.fst) name
    let id ← reach create path (start.map Prod.snd) name
    walk create (some (path, id)) chain

@[simp] theorem walk_nil (create : Option H → String → Attempt ε W H)
    (start : Option (String × Nat)) :
    walk create start [] = pure (start.map Prod.snd) := rfl

theorem walk_cons (create : Option H → String → Attempt ε W H) (start : Option (String × Nat))
    (name : String) (chain : List String) :
    walk create start (name :: chain) =
      reach create (Relation.extend (start.map Prod.fst) name) (start.map Prod.snd) name >>=
        fun id => walk create (some (Relation.extend (start.map Prod.fst) name, id)) chain := rfl

/-- The relation at the end of a chain of attributes from the root; the empty chain ends at the
root itself, which is no relation. -/
def resolve (create : Option H → String → Attempt ε W H) (chain : List String) :
    Attempt ε (Workspace (RelationTable H) W) (Option Nat) :=
  walk create none chain

/-! ## Description -/

/-- The table as it describes itself, every memoized path with a point in front. -/
def describe (t : RelationTable H) : String :=
  "TraversalCache \x7b kind: " ++ t.kind.title ++ ", memoize: " ++
    (if t.memoize then "true" else "false") ++ ", paths: " ++
    Text.Quoted.shownList (t.paths.map ("." ++ ·)) ++ " \x7d"

end RelationTable

end Criteria
