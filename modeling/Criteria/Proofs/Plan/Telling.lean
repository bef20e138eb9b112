import Mathlib
import Criteria.Proofs.Plan.Fetches

/-!
# Telling fetches apart by their text

A name ends at the first comma or parenthesis, so fetches can be read off their
text as long as no name has one: what stands in parentheses behind a name starts
from it, and a comma or a closing parenthesis stands behind every tree but the
last. Spaces tell nothing; a name may have them, and even look like a fetch.
-/

namespace Criteria

/-- Nothing is left, or what is left starts with one of the characters. -/
def Ended (ends rest : List Char) : Prop := ∀ c ∈ rest.head?, c ∈ ends

section

variable {ends ends' name name' rest rest' : List Char}

theorem Ended.nil (ends : List Char) : Ended ends [] := by
  intro c hc
  simp at hc

theorem ended_cons {c : Char} : Ended ends (c :: rest) ↔ c ∈ ends := by
  simp [Ended]

theorem Ended.mono (h : Ended ends rest) (hsub : ends ⊆ ends') : Ended ends' rest :=
  fun c hc => hsub (h c hc)

theorem span_append (hname : ∀ c ∈ ends, c ∉ name) (hrest : Ended ends rest) :
    (name ++ rest).takeWhile (· ∉ ends) = name ∧ (name ++ rest).dropWhile (· ∉ ends) = rest := by
  have hinside : ∀ c ∈ name, decide (c ∉ ends) = true :=
    fun c hc => decide_eq_true fun hmem => hname c hmem hc
  rw [List.takeWhile_append_of_pos hinside, List.dropWhile_append_of_pos hinside]
  cases rest with
  | nil => simp
  | cons c rest => simp [ended_cons.1 hrest]

/-- A name that ends at the first of some characters can be told from what follows it. -/
theorem append_inj_of_ended (hname : ∀ c ∈ ends, c ∉ name) (hname' : ∀ c ∈ ends, c ∉ name')
    (hrest : Ended ends rest) (hrest' : Ended ends rest') (h : name ++ rest = name' ++ rest') :
    name = name' ∧ rest = rest' := by
  obtain ⟨htake, hdrop⟩ := span_append hname hrest
  obtain ⟨htake', hdrop'⟩ := span_append hname' hrest'
  rw [h] at htake hdrop
  exact ⟨htake.symm.trans htake', hdrop.symm.trans hdrop'⟩

end

namespace FetchTree

variable {tree : FetchTree} {trees trees' : List FetchTree} {separator rest rest' : List Char}

/-- The characters that end a name. -/
def nameEnds : List Char := ['(', ')', ',']

/-- The characters that end a tree. -/
def treeEnds : List Char := [')', ',']

/-- A name without a character that ends names. -/
def PlainName (name : String) : Prop := ∀ c ∈ nameEnds, c ∉ name.toList

instance (name : String) : Decidable (PlainName name) :=
  List.decidableBAll (· ∉ name.toList) nameEnds

/-- All names of a tree are plain. -/
inductive Plain : FetchTree → Prop
  | node {name : String} {children : List FetchTree} (hname : PlainName name)
      (hchildren : ∀ child ∈ children, Plain child) : Plain (.node name children)

theorem plain_forest {pool : List Link} (h : ∀ link ∈ pool, PlainName link.name)
    (parent : Option Nat) : ∀ tree ∈ forest pool parent, tree.Plain := by
  induction pool, parent using forest.induct with
  | case1 pool parent ih =>
    intro tree htree
    rw [forest_eq, List.mem_map] at htree
    obtain ⟨link, hlink, rfl⟩ := htree
    refine .node (h link (mem_children.1 hlink).1) ?_
    exact ih link hlink fun other hother => h other (List.mem_of_mem_filter hother)

/-! ## What is written behind a tree and behind a name -/

/-- What is written behind a tree, if others follow it and then an ending. -/
def listed (separator ending : List Char) : List FetchTree → List Char
  | [] => ending
  | tree :: trees => separator ++ (tree.text.toList ++ listed separator ending trees)

/-- What is written behind a name, if trees start from it. -/
def opened (rest : List Char) : List FetchTree → List Char
  | [] => rest
  | tree :: trees => '(' :: (tree.text.toList ++ listed [','] (')' :: rest) trees)

theorem toList_intercalate_append (separator : String) (ending : List Char) (tree : FetchTree)
    (trees : List FetchTree) :
    (separator.intercalate (tree.text :: trees.map text)).toList ++ ending =
      tree.text.toList ++ listed separator.toList ending trees := by
  induction trees generalizing tree with
  | nil => simp [listed]
  | cons tree' trees ih =>
    rw [List.map_cons, String.intercalate_cons_cons, listed, ← ih tree']
    simp

theorem toList_text_append (name : String) (trees : List FetchTree) (rest : List Char) :
    (node name trees).text.toList ++ rest =
      "fetch ".toList ++ (name.toList ++ opened rest trees) := by
  cases trees with
  | nil => simp [text_node, written, opened]
  | cons tree trees =>
    have hlist := toList_intercalate_append "," (')' :: rest) tree trees
    simpa [text_node, written, opened] using hlist

theorem ended_listed (hsep : separator.head? = some ',') (hrest : Ended [')'] rest)
    (trees : List FetchTree) : Ended treeEnds (listed separator rest trees) := by
  cases trees with
  | nil => exact hrest.mono (by simp [treeEnds])
  | cons tree trees =>
    intro c hc
    have hcomma : ',' = c := by simpa [listed, hsep] using hc
    simp [treeEnds, ← hcomma]

theorem ended_opened (hrest : Ended treeEnds rest) (trees : List FetchTree) :
    Ended nameEnds (opened rest trees) := by
  cases trees with
  | nil => exact hrest.mono (by simp [treeEnds, nameEnds])
  | cons tree trees => exact ended_cons.2 (by simp [nameEnds])

/-! ## Reading trees off -/

/-- What starts with the text of the tree starts with no other, and what follows the tree can be
told. -/
def Told (tree : FetchTree) : Prop :=
  ∀ ⦃tree' : FetchTree⦄, tree'.Plain → ∀ ⦃rest rest' : List Char⦄,
    Ended treeEnds rest → Ended treeEnds rest' →
      tree.text.toList ++ rest = tree'.text.toList ++ rest' → tree = tree' ∧ rest = rest'

/-- Trees that follow each other can be told if each of them can. -/
theorem listed_inj (hsep : separator.head? = some ',') (htold : ∀ tree ∈ trees, tree.Told)
    (hplain : ∀ tree ∈ trees', tree.Plain) (hrest : Ended [')'] rest) (hrest' : Ended [')'] rest')
    (h : listed separator rest trees = listed separator rest' trees') :
    trees = trees' ∧ rest = rest' := by
  -- an ending starts with no separator
  have hne {ending : List Char} (hending : Ended [')'] ending) (more : List Char) :
      ending ≠ separator ++ more := by
    rintro rfl
    have hcomma := hending ',' (by simp [hsep])
    simp at hcomma
  induction trees generalizing trees' with
  | nil =>
    cases trees' with
    | nil => exact ⟨rfl, h⟩
    | cons tree' trees' => exact absurd h (hne hrest _)
  | cons tree trees ih =>
    cases trees' with
    | nil => exact absurd h.symm (hne hrest' _)
    | cons tree' trees' =>
      rw [List.forall_mem_cons] at htold hplain
      obtain ⟨rfl, hmore⟩ := htold.1 hplain.1 (ended_listed hsep hrest trees)
        (ended_listed hsep hrest' trees') (List.append_cancel_left h)
      obtain ⟨rfl, heq⟩ := ih htold.2 hplain.2 hmore
      exact ⟨rfl, heq⟩

/-- Behind a name, the trees that start from it can be told if each of them can. -/
theorem opened_inj (htold : ∀ tree ∈ trees, tree.Told) (hplain : ∀ tree ∈ trees', tree.Plain)
    (hrest : Ended treeEnds rest) (hrest' : Ended treeEnds rest')
    (h : opened rest trees = opened rest' trees') : trees = trees' ∧ rest = rest' := by
  have hne {rest : List Char} (hrest : Ended treeEnds rest) (more : List Char) :
      rest ≠ '(' :: more := by
    rintro rfl
    simpa [treeEnds] using ended_cons.1 hrest
  cases trees with
  | nil =>
    cases trees' with
    | nil => exact ⟨rfl, h⟩
    | cons tree' trees' => exact absurd h (hne hrest _)
  | cons tree trees =>
    cases trees' with
    | nil => exact absurd h.symm (hne hrest' _)
    | cons tree' trees' =>
      rw [List.forall_mem_cons] at htold hplain
      have hclosed (rest : List Char) : Ended [')'] (')' :: rest) := ended_cons.2 (by simp)
      obtain ⟨rfl, hmore⟩ := htold.1 hplain.1 (ended_listed rfl (hclosed rest) trees)
        (ended_listed rfl (hclosed rest') trees') (List.cons.inj h).2
      obtain ⟨rfl, heq⟩ := listed_inj rfl htold.2 hplain.2 (hclosed rest) (hclosed rest') hmore
      exact ⟨rfl, (List.cons.inj heq).2⟩

/-- Trees of plain names can be told. -/
theorem Plain.told (h : tree.Plain) : tree.Told := by
  induction h with
  | @node name children hname hchildren ih =>
    rintro _ ⟨hname', hchildren'⟩ rest rest' hrest hrest' heq
    rw [toList_text_append, toList_text_append] at heq
    obtain ⟨hnames, hopened⟩ := append_inj_of_ended hname hname' (ended_opened hrest children)
      (ended_opened hrest' _) (List.append_cancel_left heq)
    obtain ⟨rfl, hrests⟩ := opened_inj ih hchildren' hrest hrest' hopened
    rw [String.toList_inj.1 hnames]
    exact ⟨rfl, hrests⟩

theorem toList_text_ne_nil (tree : FetchTree) : tree.text.toList ≠ [] := by
  obtain ⟨name, trees⟩ := tree
  cases trees <;> simp [text_node, written]

/-- Forests of plain names are told apart by their text. -/
theorem intercalate_text_inj (h : ∀ tree ∈ trees, tree.Plain) (h' : ∀ tree ∈ trees', tree.Plain) :
    ", ".intercalate (trees.map text) = ", ".intercalate (trees'.map text) ↔ trees = trees' := by
  have hlist (tree : FetchTree) (trees : List FetchTree) :
      (", ".intercalate ((tree :: trees).map text)).toList =
        tree.text.toList ++ listed ", ".toList [] trees := by
    simpa using toList_intercalate_append ", " [] tree trees
  constructor
  · intro heq
    replace heq := congrArg String.toList heq
    cases trees with
    | nil =>
      cases trees' with
      | nil => rfl
      | cons tree' trees' =>
        rw [hlist] at heq
        exact absurd (List.append_eq_nil_iff.1 heq.symm).1 (toList_text_ne_nil tree')
    | cons tree trees =>
      cases trees' with
      | nil =>
        rw [hlist] at heq
        exact absurd (List.append_eq_nil_iff.1 heq).1 (toList_text_ne_nil tree)
      | cons tree' trees' =>
        rw [hlist, hlist] at heq
        rw [List.forall_mem_cons] at h h'
        have hsep : ", ".toList.head? = some ',' := by simp
        obtain ⟨rfl, hmore⟩ := h.1.told h'.1 (ended_listed hsep (.nil _) trees)
          (ended_listed hsep (.nil _) trees') heq
        have htold : ∀ tree ∈ trees, tree.Told := fun tree htree => (h.2 tree htree).told
        rw [(listed_inj hsep htold h'.2 (.nil _) (.nil _) hmore).1]
  · rintro rfl
    rfl

end FetchTree

namespace Plan

variable {p q : Plan} {requests requests' : List (Option Nat × String)}

theorem plain_fetchForest_fetchAll (hp : p.fetches = [])
    (h : ∀ request ∈ requests, FetchTree.PlainName request.2) :
    ∀ tree ∈ (p.fetchAll requests).fetchForest, tree.Plain := by
  refine FetchTree.plain_forest (fun link hlink => ?_) none
  rw [fetches_fetchAll hp] at hlink
  exact h _ (List.mem_of_mem_filter (mem_of_mem_numbered hlink))

/-- **The text of the fetches tells their forest.** If no attribute that was asked for has a comma
or a parenthesis in its name, two plans have the same text of fetches just if they have the same
forest of names, which is what placing the fetches of the one and of the other shows. -/
theorem fetchText_fetchAll_eq_iff (hp : p.fetches = []) (hq : q.fetches = [])
    (h : ∀ request ∈ requests, FetchTree.PlainName request.2)
    (h' : ∀ request ∈ requests', FetchTree.PlainName request.2) :
    let p' := p.fetchAll requests
    let q' := q.fetchAll requests'
    (p'.fetchText = q'.fetchText ↔ p'.fetchForest = q'.fetchForest) ∧
      ∀ trees trees' : List LinkTree,
        LinkTree.Placed p'.fetches none trees → LinkTree.Placed q'.fetches none trees' →
          (p'.fetchText = q'.fetchText ↔
            trees.map LinkTree.named = trees'.map LinkTree.named) := by
  intro p' q'
  have hiff : p'.fetchText = q'.fetchText ↔ p'.fetchForest = q'.fetchForest :=
    FetchTree.intercalate_text_inj (plain_fetchForest_fetchAll hp h)
      (plain_fetchForest_fetchAll hq h')
  refine ⟨hiff, fun trees trees' htrees htrees' => ?_⟩
  rw [hiff, fetchForest_fetchAll hp requests htrees, fetchForest_fetchAll hq requests' htrees']

/-- The same forest, asked for in another order, with a fetch that starts from itself. Some names
are empty, and some look like fetches. -/
theorem fetchText_fetchAll_eq_iff_reordered :
    let requests := [(none, "a"), (some 0, "fetch b"), (some 0, ""), (none, "c d"), (some 3, "a")]
    let requests' := [(none, "a"), (some 1, "e"), (none, "c d"), (some 2, "a"), (some 0, "fetch b"),
      (some 0, "")]
    let p' := ({} : Plan).fetchAll requests
    let q' := ({} : Plan).fetchAll requests'
    ({} : Plan).fetches = [] ∧
      (∀ request ∈ requests, FetchTree.PlainName request.2) ∧
      (∀ request ∈ requests', FetchTree.PlainName request.2) ∧
      p'.fetchText = "fetch a(fetch fetch b,fetch ), fetch c d(fetch a)" ∧
      p'.fetchText = q'.fetchText ∧ p'.fetchForest = q'.fetchForest ∧
      ∀ trees trees' : List LinkTree,
        LinkTree.Placed p'.fetches none trees → LinkTree.Placed q'.fetches none trees' →
          (p'.fetchText = q'.fetchText ↔
            trees.map LinkTree.named = trees'.map LinkTree.named) := by
  intro requests requests' p' q'
  have h : ∀ request ∈ requests, FetchTree.PlainName request.2 := by decide
  have h' : ∀ request ∈ requests', FetchTree.PlainName request.2 := by decide
  obtain ⟨hforest, hplaced⟩ := fetchText_fetchAll_eq_iff (p := {}) (q := {}) rfl rfl h h'
  have htext := fetchTextWithin_fetchAll (p := {}) rfl requests (Nat.le_refl _)
  have htext' := fetchTextWithin_fetchAll (p := {}) rfl requests' (Nat.le_refl _)
  have hp : p'.fetchTextWithin p'.fetches.length =
      some "fetch a(fetch fetch b,fetch ), fetch c d(fetch a)" := by decide +kernel
  have hq : q'.fetchTextWithin q'.fetches.length =
      some "fetch a(fetch fetch b,fetch ), fetch c d(fetch a)" := by decide +kernel
  have hpt := Option.some.inj (htext.symm.trans hp)
  have hqt := Option.some.inj (htext'.symm.trans hq)
  exact ⟨rfl, h, h', hpt, hpt.trans hqt.symm, hforest.1 (hpt.trans hqt.symm), hplaced⟩

/-- With a comma in its name, one fetch passes for two. -/
example :
    (({} : Plan).fetchAll [(none, "a, fetch b")]).fetchTextWithin 2 =
      (({} : Plan).fetchAll [(none, "a"), (none, "b")]).fetchTextWithin 2 := by
  decide +kernel

end Plan

end Criteria
