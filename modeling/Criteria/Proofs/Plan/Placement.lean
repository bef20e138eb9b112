import Mathlib
import Criteria.Plan.FetchTree

/-!
# Placing links in trees

A link is rooted if its parents lead to a link without parent. Where links have
different numbers, every rooted link has one place in the trees that grow from
the links without parent, and no other link has one.
-/

namespace Criteria

open FetchTree (children mem_children)

/-- The parents of a link lead to one that has none. -/
inductive Link.Rooted (pool : List Link) : Link → Prop
  | root {link : Link} (hmem : link ∈ pool) (hparent : link.parent = none) : Rooted pool link
  | child {link parent : Link} (hmem : link ∈ pool) (hparent : link.parent = some parent.id)
      (h : Rooted pool parent) : Rooted pool link

/-- A link with the links that start from it. -/
inductive LinkTree where
  | node (link : Link) (subtrees : List LinkTree)

namespace LinkTree

/-- The link at the root of a tree. -/
def link : LinkTree → Link
  | node link _ => link

/-- The trees on the root of a tree. -/
def subtrees : LinkTree → List LinkTree
  | node _ subtrees => subtrees

@[simp] theorem link_node (link : Link) (subtrees : List LinkTree) :
    (node link subtrees).link = link := rfl

@[simp] theorem subtrees_node (link : Link) (subtrees : List LinkTree) :
    (node link subtrees).subtrees = subtrees := rfl

mutual

/-- The links of a tree, each before those that start from it. -/
def links : LinkTree → List Link
  | node link subtrees => link :: linksAll subtrees

/-- The links of trees. -/
def linksAll : List LinkTree → List Link
  | [] => []
  | tree :: trees => tree.links ++ linksAll trees

end

mutual

/-- A tree of names, without the numbers. -/
def named : LinkTree → FetchTree
  | node link subtrees => .node link.name (namedAll subtrees)

/-- Trees of names. -/
def namedAll : List LinkTree → List FetchTree
  | [] => []
  | tree :: trees => tree.named :: namedAll trees

end

theorem ext {tree tree' : LinkTree} (hlink : tree.link = tree'.link)
    (hsubtrees : tree.subtrees = tree'.subtrees) : tree = tree' := by
  cases tree
  cases tree'
  exact congrArg₂ node hlink hsubtrees

theorem links_eq (tree : LinkTree) : tree.links = tree.link :: linksAll tree.subtrees := by
  cases tree
  rfl

theorem linksAll_eq_flatMap (trees : List LinkTree) : linksAll trees = trees.flatMap links := by
  induction trees with
  | nil => rfl
  | cons tree trees ih => simp [linksAll, ih]

theorem mem_linksAll {trees : List LinkTree} {x : Link} :
    x ∈ linksAll trees ↔ ∃ tree ∈ trees, x = tree.link ∨ x ∈ linksAll tree.subtrees := by
  simp [linksAll_eq_flatMap trees, links_eq]

@[simp] theorem namedAll_eq_map (trees : List LinkTree) : namedAll trees = trees.map named := by
  induction trees with
  | nil => rfl
  | cons tree trees ih => simp [namedAll, ih]

/-- The trees are the links on a parent, in their order, and on each of them are the links that
start from it. -/
inductive Placed (pool : List Link) : Option Nat → List LinkTree → Prop
  | intro {parent : Option Nat} {trees : List LinkTree}
      (hlinks : trees.map link = children pool parent)
      (hbelow : ∀ tree ∈ trees, Placed pool (some tree.link.id) tree.subtrees) :
      Placed pool parent trees

/-! ## The places of a link -/

variable {pool : List Link} {parent : Option Nat} {trees : List LinkTree} {x : Link}

theorem count_children (pool : List Link) (parent : Option Nat) (x : Link) :
    (children pool parent).count x = if x.parent = parent then pool.count x else 0 := by
  split_ifs with h
  · exact List.count_filter (by simpa using h)
  · exact List.count_eq_zero.2 fun hmem => h (mem_children.1 hmem).2

/-- A link is placed once on the parent, if it starts there, and once on every place of a link that
it starts from. -/
theorem Placed.count_linksAll (h : Placed pool parent trees) (x : Link) :
    (linksAll trees).count x =
      (children pool parent).count x +
        (linksAll trees).countP (x.parent = some ·.id) * pool.count x := by
  induction h with
  | @intro parent trees hlinks hbelow ih =>
    rw [← hlinks]
    clear hlinks hbelow
    induction trees with
    | nil => simp [linksAll]
    | cons tree trees iht =>
      have htree := ih tree List.mem_cons_self
      have htrees := iht fun t ht => ih t (List.mem_cons_of_mem tree ht)
      rw [count_children] at htree
      simp only [linksAll, links_eq, List.count_append, List.count_cons, List.countP_append,
        List.countP_cons, List.map_cons, List.cons_append, htree, htrees, Nat.add_mul,
        decide_eq_true_eq]
      split_ifs <;> omega

theorem Placed.mem_of_mem (h : Placed pool parent trees) (hx : x ∈ linksAll trees) : x ∈ pool := by
  induction h with
  | @intro parent trees hlinks hbelow ih =>
    obtain ⟨tree, htree, rfl | hx⟩ := mem_linksAll.1 hx
    · have hmem : tree.link ∈ children pool parent := hlinks ▸ List.mem_map_of_mem htree
      exact (mem_children.1 hmem).1
    · exact ih tree htree hx

/-- Links are placed in one way only. -/
theorem Placed.unique {trees' : List LinkTree}
    (h : Placed pool parent trees) (h' : Placed pool parent trees') : trees = trees' := by
  induction h generalizing trees' with
  | @intro parent trees hlinks hbelow ih =>
    obtain ⟨hlinks', hbelow'⟩ := h'
    rw [← hlinks] at hlinks'
    clear hlinks hbelow
    induction trees generalizing trees' with
    | nil => exact (List.map_eq_nil_iff.1 hlinks').symm
    | cons tree trees iht =>
      cases trees' with
      | nil => simp at hlinks'
      | cons tree' trees' =>
        obtain ⟨hlink, hmore⟩ := List.cons.inj hlinks'
        rw [List.forall_mem_cons] at hbelow' ih
        have htree : tree = tree' := ext hlink.symm (ih.1 (hlink ▸ hbelow'.1))
        rw [htree, iht ih.2 hbelow'.2 hmore]

/-- Below rooted links, all links are rooted. -/
theorem Placed.rooted_of_mem (h : Placed pool parent trees)
    (hparent : ∀ link ∈ children pool parent, link.Rooted pool) (hx : x ∈ linksAll trees) :
    x.Rooted pool := by
  induction h with
  | @intro parent trees hlinks hbelow ih =>
    obtain ⟨tree, htree, hx⟩ := mem_linksAll.1 hx
    have hroot : tree.link.Rooted pool := hparent tree.link (hlinks ▸ List.mem_map_of_mem htree)
    rcases hx with rfl | hx
    · exact hroot
    · refine ih tree htree (fun child hchild => ?_) hx
      obtain ⟨hmem, hp⟩ := mem_children.1 hchild
      exact .child hmem hp hroot

/-- No link is placed that is not rooted. -/
theorem Placed.rooted (h : Placed pool none trees) (hx : x ∈ linksAll trees) : x.Rooted pool := by
  refine h.rooted_of_mem (fun root hroot => ?_) hx
  obtain ⟨hmem, hp⟩ := mem_children.1 hroot
  exact .root hmem hp

section

variable (hids : (pool.map (·.id)).Nodup)

include hids

/-- Every rooted link is placed once: a link without parent by itself, and any other once for the
one place of its parent. -/
theorem Placed.count_eq_one (h : Placed pool none trees) (hx : x.Rooted pool) :
    (linksAll trees).count x = 1 := by
  have honce {link : Link} (hmem : link ∈ pool) : pool.count link = 1 :=
    List.count_eq_one_of_mem hids.of_map hmem
  induction hx with
  | @root link hmem hparent =>
    rw [h.count_linksAll, count_children, if_pos hparent, honce hmem, hparent]
    simp
  | @child link parent hmem hparent hrooted ih =>
    have hpool : parent ∈ pool := by cases hrooted <;> assumption
    -- whatever is placed with the number of the parent is the parent
    have hnumber : (linksAll trees).countP (link.parent = some ·.id) = 1 := by
      rw [← ih, List.count]
      refine List.countP_congr fun x hx => ?_
      have hinj := List.inj_on_of_nodup_map hids (h.mem_of_mem hx) hpool
      simp only [hparent, Option.some.injEq, decide_eq_true_eq, beq_iff_eq]
      exact ⟨fun heq => hinj heq.symm, fun heq => heq ▸ rfl⟩
    rw [h.count_linksAll, count_children, if_neg (by simp [hparent]), hnumber, honce hmem]

theorem Placed.length_linksAll_le (h : Placed pool none trees) :
    (linksAll trees).length ≤ pool.length := by
  have hnodup : (linksAll trees).Nodup :=
    List.nodup_iff_count_eq_one.2 fun link hlink => h.count_eq_one hids (h.rooted hlink)
  exact (hnodup.subperm fun link hlink => h.mem_of_mem hlink).length_le

end

end LinkTree

end Criteria
