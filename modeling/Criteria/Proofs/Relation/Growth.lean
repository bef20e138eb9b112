import Mathlib
import Criteria.Proofs.Relation.Chains
import Criteria.Proofs.Relation.Coherence

/-!
# Growing tables

Whether a table memoizes or not, a walk leaves the relations that are there and
adds others at the end. Where it comes to an end it has reached a relation with
the path of its chain, as long as what is memoized is found under its own path.
-/

namespace Criteria.RelationTable

open Criteria.Relation (along along_none extend extend_along)

variable {ε H V : Type} {t : RelationTable H}

/-! ## Walks one name further -/

theorem run_resolve_concat (create : Option H → String → Attempt ε V H) (chain : List String)
    (name : String) (w : Workspace (RelationTable H) V) :
    (resolve create (chain ++ [name])).run w =
      match (resolve create chain).run w with
      | (.error e, w') => (.error e, w')
      | (.ok id, w') =>
        (((reach create (".".intercalate (chain ++ [name])) id name).run w').1.map some,
          ((reach create (".".intercalate (chain ++ [name])) id name).run w').2) := by
  rw [resolve_concat, Attempt.run_bind, ← extend_along]
  rcases (resolve create chain).run w with ⟨e | id, w'⟩
  · rfl
  · simp only [Attempt.run_bind]
    rcases (reach create (extend (along none chain) name) id name).run w' with ⟨_ | _, _⟩ <;> rfl

/-! ## Relations of longer tables -/

theorem getElem?_of_isPrefix {t' : RelationTable H} (h : t.nodes <+: t'.nodes) {number : Nat}
    {node : Relation H} (hn : t.nodes[number]? = some node) : t'.nodes[number]? = some node := by
  obtain ⟨more, hmore⟩ := h
  rw [← hmore, List.getElem?_append_left (List.getElem?_eq_some_iff.1 hn).1, hn]

theorem getElem?_replaceHandle_of_ne {number number' : Nat} (h : number ≠ number') (handle : H) :
    (t.replaceHandle number handle).nodes[number']? = t.nodes[number']? :=
  List.getElem?_modify_ne _ _ h

theorem getElem?_replaceHandle_self {number : Nat} {node : Relation H}
    (hn : t.nodes[number]? = some node) (handle : H) :
    (t.replaceHandle number handle).nodes[number]? = some { node with handle } := by
  rw [RelationTable.replaceHandle, List.getElem?_modify_eq, hn]
  rfl

/-! ## Tables whose memo is right -/

/-- What is memoized is found under its own path. -/
def Findable (t : RelationTable H) : Prop :=
  ∀ path number, t.lookup path = some number → t.pathOf (some number) = some path

theorem findable_empty (kind : RelationKind) (memoize : Bool) :
    Findable (empty kind memoize : RelationTable H) := by
  intro path number h
  cases h

theorem pathOf_add_length (t : RelationTable H) (node : Relation H) :
    (t.add node).pathOf (some t.nodes.length) = some node.path := by
  rw [pathOf_some, getElem?_add.2 (.inr ⟨rfl, rfl⟩), Option.map_some]

theorem Findable.add (h : t.Findable) (node : Relation H) : (t.add node).Findable := by
  intro path number hlookup
  rcases lookup_of_add hlookup with hold | ⟨rfl, rfl⟩
  · obtain ⟨old, ho, hpath⟩ := Option.map_eq_some_iff.1 (h path number hold)
    rw [pathOf_some, getElem?_add.2 (.inl ho), Option.map_some, hpath]
  · exact t.pathOf_add_length node

theorem Findable.replaceHandle (h : t.Findable) (number : Nat) (handle : H) :
    (t.replaceHandle number handle).Findable := by
  intro path number' hlookup
  rw [pathOf_replaceHandle]
  exact h path number' hlookup

/-! ## Walks -/

/-- The second table has further relations at the end, and the result, if there is one, is the
relation at a path. -/
structure Lengthens (t : RelationTable H) (path : Option String) (r : Except ε (Option Nat))
    (t' : RelationTable H) : Prop where
  findable : t'.Findable
  isPrefix : t.nodes <+: t'.nodes
  pathOf_eq : ∀ id, r = .ok id → t'.pathOf id = path

theorem lengthens_reach (create : Option H → String → Attempt ε V H) (path : String)
    (parent : Option Nat) (name : String) {w : Workspace (RelationTable H) V}
    (h : w.store.Findable) :
    Lengthens w.store (some path) (((reach create path parent name).run w).1.map some)
      ((reach create path parent name).run w).2.store := by
  rcases hrun : (reach create path parent name).run w with ⟨r, w'⟩
  rcases reach_cases hrun with ⟨number, hl, rfl, hst, -⟩ | ⟨-, e, rfl, hst, -⟩ |
    ⟨-, handle, rfl, hst, -⟩ <;> dsimp only <;> rw [hst]
  · refine ⟨h, List.prefix_refl _, ?_⟩
    rintro id ⟨⟩
    exact h path number hl
  · exact ⟨h, List.prefix_refl _, nofun⟩
  · refine ⟨h.add _, List.prefix_append _ _, ?_⟩
    rintro id ⟨⟩
    exact w.store.pathOf_add_length _

/-- A walk leaves the relations that were there, and ends at one with its path. -/
theorem lengthens_resolve (create : Option H → String → Attempt ε V H) (chain : List String)
    {w : Workspace (RelationTable H) V} (h : w.store.Findable) :
    Lengthens w.store (along none chain) ((resolve create chain).run w).1
      ((resolve create chain).run w).2.store := by
  induction chain using List.reverseRecOn with
  | nil =>
    refine ⟨h, List.prefix_refl _, ?_⟩
    rintro id ⟨⟩
    rfl
  | append_singleton chain name ih =>
    rw [run_resolve_concat, along_none (by simp)]
    rcases hwalk : (resolve create chain).run w with ⟨e | id, w'⟩ <;> rw [hwalk] at ih
    · exact ⟨ih.findable, ih.isPrefix, nofun⟩
    · obtain ⟨hfindable, hkept, hpath⟩ :=
        lengthens_reach create (".".intercalate (chain ++ [name])) id name ih.findable
      exact ⟨hfindable, ih.isPrefix.trans hkept, hpath⟩

end Criteria.RelationTable
