import Mathlib
import Criteria.Relation.Table
import Criteria.Proofs.Relation.Path

/-!
# Coherence of memoizing tables

In a memoizing table the memo numbers the paths of the relations in the order of
their creation, and each path extends that of an earlier relation. Every walk
keeps this, wherever it ends, and so does every replacement of a handle.
-/

namespace Criteria.RelationTable

open Criteria.Relation (extend along along_nil along_cons)

variable {ε H W V : Type} {t : RelationTable H} {made : List String} {path name : String}
  {id : Nat} {parent : Option Nat}

/-! ## Looking paths up -/

/-- With distinct keys, looking up finds all entries. -/
theorem lookup_eq_some_iff_mem {memo : List (String × Nat)} (h : (memo.map Prod.fst).Nodup) :
    memo.lookup path = some id ↔ (path, id) ∈ memo := by
  induction memo with
  | nil => simp
  | cons entry memo ih =>
    obtain ⟨key, number⟩ := entry
    rw [List.map_cons, List.nodup_cons] at h
    rw [List.lookup_cons]
    by_cases hk : path = key
    · subst hk
      have hnot : (path, id) ∉ memo := fun hm => h.1 (List.mem_map.2 ⟨(path, id), hm, rfl⟩)
      simp [hnot, eq_comm]
    · have hb : (path == key) = false := beq_eq_false_iff_ne.2 hk
      simp [hb, hk, ih h.2]

theorem handle?_of_getElem? {node : Relation H} (h : t.nodes[id]? = some node) :
    t.handle? id = some node.handle := by
  rw [handle?, get?, h, Option.map_some]

/-- The path of a relation; the root has none. -/
def pathOf (t : RelationTable H) (id : Option Nat) : Option String :=
  id.bind fun id => (t.get? id).map (·.path)

@[simp] theorem pathOf_none : t.pathOf none = none := rfl

@[simp] theorem pathOf_some (id : Nat) : t.pathOf (some id) = t.nodes[id]?.map (·.path) := rfl

/-- The relation at a path is the one of that number; at the root there is none. -/
def At (t : RelationTable H) : Option String → Option Nat → Prop
  | none, none => True
  | some path, some id => t.lookup path = some id
  | _, _ => False

/-- What is found in the first table is found in the second one. -/
def Keeps (t t' : RelationTable H) : Prop :=
  ∀ path id, t.lookup path = some id → t'.lookup path = some id

theorem Keeps.refl (t : RelationTable H) : t.Keeps t := fun _ _ h => h

theorem Keeps.trans {t₁ t₂ t₃ : RelationTable H} (h : t₁.Keeps t₂) (h' : t₂.Keeps t₃) :
    t₁.Keeps t₃ :=
  fun path id hl => h' path id (h path id hl)

theorem At.keep {t' : RelationTable H} {path : Option String} {id : Option Nat} (h : t.Keeps t')
    (ha : t.At path id) : t'.At path id := by
  cases path with
  | none => cases id <;> exact ha
  | some path =>
    cases id with
    | none => exact ha
    | some id => exact h path id ha

/-! ## The invariant -/

/-- The memo numbers the paths in order, and relation after relation has been made for a name, with
which its path extends that of its parent. -/
structure Coherent (t : RelationTable H) (made : List String) : Prop where
  memoizes : t.memoize = true
  memo_eq : t.memo = (t.nodes.map (·.path)).zipIdx
  nodup : (t.nodes.map (·.path)).Nodup
  length_made : made.length = t.nodes.length
  parent_lt : ∀ (id : Nat) (node : Relation H) (parent : Nat), t.nodes[id]? = some node →
    node.parent = some parent → parent < id
  path_eq : ∀ (id : Nat) (node : Relation H) (name : String), t.nodes[id]? = some node →
    made[id]? = some name → node.path = extend (t.pathOf node.parent) name

theorem coherent_empty (kind : RelationKind) : Coherent (empty kind true : RelationTable H) [] := by
  constructor <;> simp [empty]

namespace Coherent

theorem paths_eq (h : Coherent t made) : t.paths = t.nodes.map (·.path) := by
  rw [paths, h.memo_eq, List.zipIdx_map_fst]

/-- Looking a path up finds the relation that has it. -/
theorem lookup_iff (h : Coherent t made) :
    t.lookup path = some id ↔ ∃ node, t.nodes[id]? = some node ∧ node.path = path := by
  have hnodup : (t.memo.map Prod.fst).Nodup := by
    rw [h.memo_eq, List.zipIdx_map_fst]
    exact h.nodup
  rw [lookup, lookup_eq_some_iff_mem hnodup, h.memo_eq, List.mk_mem_zipIdx_iff_getElem?,
    List.getElem?_map, Option.map_eq_some_iff]

theorem lookup_eq_none_iff (h : Coherent t made) :
    t.lookup path = none ↔ path ∉ t.nodes.map (·.path) := by
  rw [← h.paths_eq, paths, lookup, List.lookup_eq_none_iff]
  constructor
  · intro hne hm
    obtain ⟨entry, he, rfl⟩ := List.mem_map.1 hm
    simpa using hne entry he
  · intro hm entry he
    rw [bne_iff_ne]
    rintro rfl
    exact hm (List.mem_map_of_mem he)

theorem pathOf_of_at (h : Coherent t made) {path : Option String} {id : Option Nat}
    (ha : t.At path id) : t.pathOf id = path := by
  cases path with
  | none =>
    cases id with
    | none => rfl
    | some id => exact ha.elim
  | some path =>
    cases id with
    | none => exact ha.elim
    | some id =>
      obtain ⟨node, hn, hp⟩ := h.lookup_iff.1 ha
      rw [pathOf_some, hn, Option.map_some, hp]

theorem lt_of_at (h : Coherent t made) {path : Option String} (ha : t.At path (some id)) :
    id < t.nodes.length := by
  cases path with
  | none => exact ha.elim
  | some path =>
    obtain ⟨node, hn, -⟩ := h.lookup_iff.1 ha
    exact (List.getElem?_eq_some_iff.1 hn).1

end Coherent

/-! ## Changes of a table -/

@[simp] theorem nodes_add (node : Relation H) : (t.add node).nodes = t.nodes ++ [node] := rfl

theorem map_path_replaceHandle (t : RelationTable H) (id : Nat) (handle : H) :
    (t.replaceHandle id handle).nodes.map (·.path) = t.nodes.map (·.path) := by
  apply List.ext_getElem?
  intro i
  rw [List.getElem?_map, List.getElem?_map, replaceHandle, List.getElem?_modify]
  split <;> cases t.nodes[i]? <;> rfl

/-- A relation of the table with the new handle is one of the table but for its handle. -/
theorem exists_of_replaceHandle {i : Nat} {handle : H} {node : Relation H}
    (h : (t.replaceHandle id handle).nodes[i]? = some node) :
    ∃ old, t.nodes[i]? = some old ∧ node.path = old.path ∧ node.parent = old.parent ∧
      node.handle = if id = i then handle else old.handle := by
  rw [replaceHandle, List.getElem?_modify] at h
  obtain ⟨old, ho, rfl⟩ := Option.map_eq_some_iff.1 h
  refine ⟨old, ho, ?_, ?_, ?_⟩ <;> split <;> rfl

/-- A relation of the longer table is one of the table or the new one. -/
theorem getElem?_add {i : Nat} {node new : Relation H} :
    (t.add new).nodes[i]? = some node ↔
      t.nodes[i]? = some node ∨ i = t.nodes.length ∧ node = new := by
  rw [nodes_add, List.getElem?_append]
  split
  · next hlt =>
    have hne : i ≠ t.nodes.length := Nat.ne_of_lt hlt
    simp [hne]
  · next hlt =>
    have hnone : t.nodes[i]? = none := List.getElem?_eq_none (Nat.le_of_not_lt hlt)
    rw [hnone, List.getElem?_singleton]
    have hi : i - t.nodes.length = 0 ↔ i = t.nodes.length := by omega
    simp [hi, eq_comm]

/-- The path of an earlier relation is not changed by adding one. -/
theorem pathOf_add (h : ∀ id, parent = some id → id < t.nodes.length) (node : Relation H) :
    (t.add node).pathOf parent = t.pathOf parent := by
  cases parent with
  | none => rfl
  | some id => rw [pathOf_some, pathOf_some, nodes_add, List.getElem?_append_left (h id rfl)]

theorem pathOf_eq_getElem? (t : RelationTable H) (id : Option Nat) :
    t.pathOf id = id.bind fun id => (t.nodes.map (·.path))[id]? := by
  cases id with
  | none => rfl
  | some id => simp

/-- Replacing a handle leaves all paths where they are. -/
theorem keeps_replaceHandle (t : RelationTable H) (id : Nat) (handle : H) :
    t.Keeps (t.replaceHandle id handle) := fun _ _ h => h

/-- Adding a relation leaves the paths of the others where they are. -/
theorem keeps_add (t : RelationTable H) (node : Relation H) : t.Keeps (t.add node) := by
  intro path id h
  rw [lookup] at h ⊢
  rw [RelationTable.add]
  split
  · rw [List.lookup_append, h]
    rfl
  · exact h

/-- What is found in a longer table was found before, or is the new relation. -/
theorem lookup_of_add {node : Relation H} (h : (t.add node).lookup path = some id) :
    t.lookup path = some id ∨ path = node.path ∧ id = t.nodes.length := by
  rw [RelationTable.lookup, RelationTable.add] at h
  split at h
  · rw [List.lookup_append, Option.or_eq_some_iff] at h
    rcases h with h | ⟨-, h⟩
    · exact .inl h
    · rw [List.lookup_cons] at h
      split at h
      · next heq =>
        exact .inr ⟨beq_iff_eq.1 heq, (Option.some.inj h).symm⟩
      · cases h
  · exact .inl h

theorem pathOf_replaceHandle (t : RelationTable H) (id : Nat) (handle : H) (id' : Option Nat) :
    (t.replaceHandle id handle).pathOf id' = t.pathOf id' := by
  rw [pathOf_eq_getElem?, map_path_replaceHandle, ← pathOf_eq_getElem?]

/-! ### Handles -/

section Handles

variable {number : Nat} {handle : H}

theorem handle?_add (node : Relation H) (h : t.handle? number = some handle) :
    (t.add node).handle? number = some handle := by
  obtain ⟨old, ho, rfl⟩ := Option.map_eq_some_iff.1 h
  have hlt : number < t.nodes.length := (List.getElem?_eq_some_iff.1 ho).1
  rw [handle?, get?, nodes_add, List.getElem?_append_left hlt]
  exact h

theorem handle?_replaceHandle (h : t.handle? number = some handle) (new : H) :
    (t.replaceHandle id new).handle? number = some (if id = number then new else handle) := by
  obtain ⟨old, ho, rfl⟩ := Option.map_eq_some_iff.1 h
  have ho' : t.nodes[number]? = some old := ho
  rw [handle?, get?, RelationTable.replaceHandle, List.getElem?_modify, ho']
  split <;> rfl

theorem handle?_replaceHandle_self (h : t.handle? number = some handle) (new : H) :
    (t.replaceHandle number new).handle? number = some new := by
  rw [handle?_replaceHandle h new, if_pos rfl]

end Handles

namespace Coherent

/-- A relation at a path that no other has is added for the name that extends the path of its
parent. -/
theorem add (h : Coherent t made) (hnew : t.lookup path = none)
    (hparent : ∀ id, parent = some id → id < t.nodes.length)
    (hpath : path = extend (t.pathOf parent) name) (handle : H) :
    Coherent (t.add ⟨path, parent, handle⟩) (made ++ [name]) where
  memoizes := h.memoizes
  memo_eq := by
    rw [nodes_add, List.map_append, List.zipIdx_append, ← h.memo_eq]
    simp [RelationTable.add, h.memoizes]
  nodup := by
    rw [nodes_add, List.map_append, List.map_singleton, ← List.concat_eq_append]
    exact h.nodup.concat (h.lookup_eq_none_iff.1 hnew)
  length_made := by simp [h.length_made]
  parent_lt := by
    intro id node parent' hn hp
    rcases getElem?_add.1 hn with hn | ⟨rfl, rfl⟩
    · exact h.parent_lt id node parent' hn hp
    · exact hparent parent' hp
  path_eq := by
    intro id node name' hn hm
    rcases getElem?_add.1 hn with hn | ⟨rfl, rfl⟩
    · have hlt : id < t.nodes.length := (List.getElem?_eq_some_iff.1 hn).1
      rw [List.getElem?_append_left (h.length_made.symm ▸ hlt)] at hm
      rw [pathOf_add fun parent' hp => Nat.lt_trans (h.parent_lt id node parent' hn hp) hlt]
      exact h.path_eq id node name' hn hm
    · rw [← h.length_made, List.getElem?_concat_length, Option.some.injEq] at hm
      rw [pathOf_add hparent, ← hm]
      exact hpath

/-- Handles have no part in coherence. -/
theorem replaceHandle (h : Coherent t made) (id : Nat) (handle : H) :
    Coherent (t.replaceHandle id handle) made where
  memoizes := h.memoizes
  memo_eq := by
    rw [map_path_replaceHandle]
    exact h.memo_eq
  nodup := by
    rw [map_path_replaceHandle]
    exact h.nodup
  length_made := by
    rw [h.length_made, RelationTable.replaceHandle, List.length_modify]
  parent_lt := by
    intro i node parent hn hp
    obtain ⟨old, ho, -, hparent, -⟩ := exists_of_replaceHandle hn
    exact h.parent_lt i old parent ho (hparent ▸ hp)
  path_eq := by
    intro i node name hn hm
    obtain ⟨old, ho, hpath, hparent, -⟩ := exists_of_replaceHandle hn
    rw [pathOf_replaceHandle, hpath, hparent]
    exact h.path_eq i old name ho hm

theorem lookup_add (h : Coherent t made) (hnew : t.lookup path = none) (handle : H) :
    (t.add ⟨path, parent, handle⟩).lookup path = some t.nodes.length := by
  rw [lookup] at hnew
  simp [lookup, RelationTable.add, h.memoizes, List.lookup_append, hnew]

end Coherent

/-! ## Steps and walks -/

/-- What one step of a walk can do: find a relation, fail to make a handle, or add a relation. -/
theorem reach_cases {create : Option H → String → Attempt ε W H}
    {w w' : Workspace (RelationTable H) W} {r : Except ε Nat}
    (h : (reach create path parent name).run w = (r, w')) :
    (∃ id, w.store.lookup path = some id ∧ r = .ok id ∧ w'.store = w.store ∧ w'.host = w.host) ∨
    (w.store.lookup path = none ∧ ∃ e, r = .error e ∧ w'.store = w.store ∧
      (create (parent.bind w.store.handle?) name).run w.host = (.error e, w'.host)) ∨
    (w.store.lookup path = none ∧ ∃ handle, r = .ok w.store.nodes.length ∧
      w'.store = w.store.add ⟨path, parent, handle⟩ ∧
      (create (parent.bind w.store.handle?) name).run w.host = (.ok handle, w'.host)) := by
  rw [run_reach] at h
  cases hl : w.store.lookup path with
  | some id =>
    simp only [hl, Prod.mk.injEq] at h
    obtain ⟨rfl, rfl⟩ := h
    exact .inl ⟨id, rfl, rfl, rfl, rfl⟩
  | none =>
    rcases hc : (create (parent.bind w.store.handle?) name).run w.host with ⟨e | handle, host⟩
    · simp only [hl, hc, Prod.mk.injEq] at h
      obtain ⟨rfl, rfl⟩ := h
      exact .inr (.inl ⟨rfl, e, rfl, rfl, rfl⟩)
    · simp only [hl, hc, Prod.mk.injEq] at h
      obtain ⟨rfl, rfl⟩ := h
      exact .inr (.inr ⟨rfl, handle, rfl, rfl, rfl⟩)

theorem run_walk_cons (create : Option H → String → Attempt ε W H) (start : Option (String × Nat))
    (name : String) (chain : List String) (w : Workspace (RelationTable H) W) :
    (walk create start (name :: chain)).run w =
      match (reach create (extend (start.map Prod.fst) name) (start.map Prod.snd) name).run w with
      | (.ok id, w') => (walk create (some (extend (start.map Prod.fst) name, id)) chain).run w'
      | (.error e, w') => (.error e, w') := by
  rw [walk_cons, Attempt.run_bind]
  rcases (reach create (extend (start.map Prod.fst) name) (start.map Prod.snd) name).run w
    with ⟨_ | _, _⟩ <;> rfl

/-- A walk one name further goes one step on from where the walk has ended. -/
theorem walk_concat (create : Option H → String → Attempt ε W H) (start : Option (String × Nat))
    (chain : List String) (name : String) :
    walk create start (chain ++ [name]) =
      walk create start chain >>= fun id =>
        reach create (extend (along (start.map Prod.fst) chain) name) id name >>= fun id' =>
          pure (some id') := by
  induction chain generalizing start with
  | nil => rfl
  | cons next chain ih =>
    rw [List.cons_append, walk_cons, walk_cons, bind_assoc]
    simp only [ih, Option.map_some, along_cons]

theorem resolve_concat (create : Option H → String → Attempt ε W H) (chain : List String)
    (name : String) :
    resolve create (chain ++ [name]) =
      resolve create chain >>= fun id =>
        reach create (extend (along none chain) name) id name >>= fun id' => pure (some id') :=
  walk_concat create none chain name

/-- The host keeps track of the names for which handles were made. -/
def Tracks (create : Option H → String → Attempt ε W H) (I : W → List String → Prop) : Prop :=
  ∀ parent name host made, I host made →
    (∀ handle host', (create parent name).run host = (.ok handle, host') →
      I host' (made ++ [name])) ∧
    ∀ e host', (create parent name).run host = (.error e, host') → I host' made

/-- One need not keep track of anything. -/
theorem tracks_true (create : Option H → String → Attempt ε W H) :
    Tracks create fun _ _ => True :=
  fun _ _ _ _ _ => ⟨fun _ _ _ => trivial, fun _ _ _ => trivial⟩

variable {create : Option H → String → Attempt ε W H} {I : W → List String → Prop}

/-- A step keeps the table coherent, and ends at the relation of its path. -/
theorem coherent_reach (htrack : Tracks create I) {w w' : Workspace (RelationTable H) W}
    {start : Option String} {r : Except ε Nat} (hc : Coherent w.store made) (hi : I w.host made)
    (hs : w.store.At start parent)
    (h : (reach create (extend start name) parent name).run w = (r, w')) :
    (∃ made', Coherent w'.store made' ∧ I w'.host made') ∧ w.store.Keeps w'.store ∧
      ∀ id, r = .ok id → w'.store.lookup (extend start name) = some id := by
  rcases reach_cases h with ⟨id, hl, hr, hst, hh⟩ | ⟨hl, e, hr, hst, hcreate⟩ |
    ⟨hl, handle, hr, hst, hcreate⟩
  · rw [hst, hh]
    refine ⟨⟨made, hc, hi⟩, Keeps.refl _, ?_⟩
    intro id' hid
    rw [hr, Except.ok.injEq] at hid
    rw [hl, hid]
  · rw [hst]
    refine ⟨⟨made, hc, (htrack _ _ _ _ hi).2 e _ hcreate⟩, Keeps.refl _, ?_⟩
    intro id hid
    rw [hr] at hid
    cases hid
  · have hpath : extend start name = extend (w.store.pathOf parent) name := by
      rw [hc.pathOf_of_at hs]
    have hparent : ∀ id, parent = some id → id < w.store.nodes.length := by
      intro id hid
      subst hid
      exact hc.lt_of_at hs
    rw [hst]
    refine ⟨⟨made ++ [name], hc.add hl hparent hpath handle,
      (htrack _ _ _ _ hi).1 handle _ hcreate⟩, keeps_add _ _, ?_⟩
    intro id hid
    rw [hr, Except.ok.injEq] at hid
    rw [hc.lookup_add hl handle, hid]

/-- A walk keeps the table coherent, also when it fails, and ends at the relation of its path. -/
theorem coherent_walk (htrack : Tracks create I) {start : Option (String × Nat)}
    {chain : List String} {w w' : Workspace (RelationTable H) W} {r : Except ε (Option Nat)}
    (hc : Coherent w.store made) (hi : I w.host made)
    (hs : w.store.At (start.map Prod.fst) (start.map Prod.snd))
    (h : (walk create start chain).run w = (r, w')) :
    (∃ made', Coherent w'.store made' ∧ I w'.host made') ∧ w.store.Keeps w'.store ∧
      ∀ id, r = .ok id → w'.store.At (along (start.map Prod.fst) chain) id := by
  induction chain generalizing start made w with
  | nil =>
    rw [walk_nil, Attempt.run_pure, Prod.mk.injEq] at h
    obtain ⟨rfl, rfl⟩ := h
    refine ⟨⟨made, hc, hi⟩, Keeps.refl _, ?_⟩
    intro id hid
    rw [Except.ok.injEq] at hid
    rw [along_nil, ← hid]
    exact hs
  | cons name chain ih =>
    rw [run_walk_cons] at h
    rcases hreach : (reach create (extend (start.map Prod.fst) name) (start.map Prod.snd)
      name).run w with ⟨e | id, w₁⟩
    · obtain ⟨hcoherent, hkeeps, -⟩ := coherent_reach htrack hc hi hs hreach
      rw [hreach, Prod.mk.injEq] at h
      obtain ⟨rfl, rfl⟩ := h
      exact ⟨hcoherent, hkeeps, fun id hid => nomatch hid⟩
    · obtain ⟨⟨made₁, hc₁, hi₁⟩, hkeeps, hat⟩ := coherent_reach htrack hc hi hs hreach
      have hnext : w₁.store.At (Option.map Prod.fst (some (extend (start.map Prod.fst) name, id)))
          (Option.map Prod.snd (some (extend (start.map Prod.fst) name, id))) := hat id rfl
      rw [hreach] at h
      obtain ⟨hcoherent, hkeeps', hend⟩ := ih hc₁ hi₁ hnext h
      exact ⟨hcoherent, hkeeps.trans hkeeps', hend⟩

theorem coherent_resolve (htrack : Tracks create I) {chain : List String}
    {w w' : Workspace (RelationTable H) W} {r : Except ε (Option Nat)} (hc : Coherent w.store made)
    (hi : I w.host made) (h : (resolve create chain).run w = (r, w')) :
    (∃ made', Coherent w'.store made' ∧ I w'.host made') ∧ w.store.Keeps w'.store ∧
      ∀ id, r = .ok id → w'.store.At (along none chain) id := by
  have hroot : w.store.At (Option.map Prod.fst (none : Option (String × Nat)))
      (Option.map Prod.snd (none : Option (String × Nat))) := trivial
  exact coherent_walk htrack hc hi hroot h

end Criteria.RelationTable
