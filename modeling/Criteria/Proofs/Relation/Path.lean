import Mathlib
import Criteria.Relation

/-!
# Paths of relations

Extending a path along a chain joins its names with points, and names without a
point can be told from the path again.
-/

namespace Criteria.Relation

variable {name : String} {names chain chain' : List String}

/-- The path at the end of a chain; `none` is the root. -/
def along (start : Option String) (chain : List String) : Option String :=
  chain.foldl (fun path name => some (extend path name)) start

@[simp] theorem along_nil (start : Option String) : along start [] = start := rfl

@[simp] theorem along_cons (start : Option String) (name : String) (chain : List String) :
    along start (name :: chain) = along (some (extend start name)) chain := rfl

theorem along_some (path : String) (chain : List String) :
    along (some path) chain = some (".".intercalate (path :: chain)) := by
  induction chain generalizing path with
  | nil => simp
  | cons name chain ih =>
    rw [along_cons, ih, extend, String.intercalate_cons_append, String.intercalate_cons_cons]

/-- From the root, the path is the names between points. -/
theorem along_none (h : chain ≠ []) : along none chain = some (".".intercalate chain) := by
  cases chain with
  | nil => exact absurd rfl h
  | cons name chain => rw [along_cons, extend, along_some]

/-! ## Names without points -/

/-- Chains of names without points are told apart by their paths. -/
theorem intercalate_inj (hne : chain ≠ []) (hne' : chain' ≠ [])
    (h : ∀ name ∈ chain, '.' ∉ name.toList) (h' : ∀ name ∈ chain', '.' ∉ name.toList) :
    ".".intercalate chain = ".".intercalate chain' ↔ chain = chain' := by
  constructor
  · intro heq
    have hsplit {names : List String} (hne : names ≠ []) (hn : ∀ name ∈ names, '.' ∉ name.toList) :
        (".".intercalate names).toList.splitOn '.' = names.map String.toList := by
      rw [String.toList_intercalate]
      exact List.splitOn_intercalate '.' (by simpa using hn) (by simpa using hne)
    have hmap : chain.map String.toList = chain'.map String.toList := by
      rw [← hsplit hne h, heq, hsplit hne' h']
    exact List.map_injective_iff.2 (fun _ _ => String.toList_inj.1) hmap
  · rintro rfl
    rfl

/-- The name of a relation is the one its path was extended with. -/
theorem name_extend {H : Type} {node : Relation H} {path : Option String}
    (hp : node.path = extend path name) (hn : '.' ∉ name.toList) : node.name = name := by
  have htake : ∀ c ∈ name.toList.reverse, (c != '.') = true := by
    intro c hc
    rw [bne_iff_ne]
    rintro rfl
    exact hn (List.mem_reverse.1 hc)
  rw [Relation.name, hp]
  cases path with
  | none =>
    rw [extend, List.takeWhile_eq_self_iff.2 htake, List.reverse_reverse, String.ofList_toList]
  | some path =>
    have hlist : (extend (some path) name).toList.reverse =
        name.toList.reverse ++ '.' :: path.toList.reverse := by
      simp [extend]
    rw [hlist, List.takeWhile_append_of_pos htake]
    simp

end Criteria.Relation
