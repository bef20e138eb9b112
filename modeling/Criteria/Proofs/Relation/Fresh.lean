import Mathlib
import Criteria.Proofs.Relation.Counting
import Criteria.Proofs.Relation.Resumption

/-!
# Walks in tables that do not memoize

In a table that does not memoize a walk finds nothing. It creates a relation for
each name of its chain, one on top of the other, and no two walks end at the same
relation. Where handles are computed from the parent's handle and the name, this
makes no difference to what is found: along names without points a memoizing
table shows the same handle at the same path, or the same error.
-/

namespace Criteria.RelationTable

open Criteria.Relation (beginnings beginnings_concat intercalate_inj lastName
  lastName_concat length_beginnings)

variable {ε H V W : Type} {t t' : RelationTable H} {chain front : List String} {name : String}
  {made : List (List String × H)}

/-! ## Fresh relations -/

theorem Forgets.lookup_eq_none (h : t.Forgets) (path : String) : t.lookup path = none := by
  rw [lookup, h.memo_eq, List.lookup_nil]

theorem forgets_empty (kind : RelationKind) : (empty kind false : RelationTable H).Forgets :=
  ⟨rfl, rfl⟩

/-- The number of the newest relation when `k` have been added to `n`; without any, the root. -/
def newest (n : Nat) : Nat → Option Nat
  | 0 => none
  | k + 1 => some (n + k)

/-- The relations that are created one on top of the other, the first with the number `n`. -/
def stack (n : Nat) (made : List (List String × H)) : List (Relation H) :=
  made.mapIdx fun i entry => ⟨".".intercalate entry.1, newest n i, entry.2⟩

/-- The calls for them, each from the handle of the relation below. -/
def stackCalls (t : RelationTable H) (n : Nat) (made : List (List String × H)) : List (Call ε H) :=
  made.mapIdx fun i entry => ⟨(newest n i).bind t.handle?, lastName entry.1, .ok entry.2⟩

/-- The second table is the first one with new relations for all beginnings of a chain. -/
structure Fresh (t : RelationTable H) (chain : List String) (made : List (List String × H))
    (t' : RelationTable H) : Prop where
  chains_eq : made.map Prod.fst = beginnings chain
  nodes_eq : t'.nodes = t.nodes ++ stack t.nodes.length made
  forgets : t'.Forgets

namespace Fresh

theorem refl (h : t.Forgets) : Fresh t [] [] t := ⟨rfl, (List.append_nil _).symm, h⟩

theorem length_made (h : Fresh t chain made t') : made.length = chain.length := by
  rw [← List.length_map (f := Prod.fst), h.chains_eq, length_beginnings]

theorem length_nodes (h : Fresh t chain made t') :
    t'.nodes.length = t.nodes.length + chain.length := by
  rw [h.nodes_eq, List.length_append, stack, List.length_mapIdx, h.length_made]

/-- One name further, a relation is created on top. -/
theorem create (h : Fresh t chain made t') (name : String) (handle : H) :
    Fresh t (chain ++ [name]) (made ++ [(chain ++ [name], handle)])
      (t'.add ⟨".".intercalate (chain ++ [name]), newest t.nodes.length chain.length, handle⟩) where
  chains_eq := by rw [List.map_append, h.chains_eq, beginnings_concat, List.map_singleton]
  nodes_eq := by
    rw [nodes_add, h.nodes_eq, stack, stack, List.mapIdx_concat, h.length_made, List.append_assoc]
  forgets := h.forgets.add _

/-- Relations that are added leave the handles of the earlier ones. -/
theorem bind_handle?_add (h : Fresh t chain made t') {i : Nat} (hi : i ≤ chain.length)
    (node : Relation H) :
    (newest t.nodes.length i).bind (t'.add node).handle? =
      (newest t.nodes.length i).bind t'.handle? := by
  cases i with
  | zero => rfl
  | succ i =>
    have hlt : t.nodes.length + i < t'.nodes.length := by
      rw [h.length_nodes]
      omega
    simp only [newest, Option.bind_some, handle?, get?, nodes_add, List.getElem?_append_left hlt]

theorem stackCalls_create (h : Fresh t chain made t') (handle : H) (node : Relation H) :
    ((t'.add node).stackCalls t.nodes.length (made ++ [(chain ++ [name], handle)]) :
        List (Call ε H)) =
      t'.stackCalls t.nodes.length made ++
        [⟨(newest t.nodes.length chain.length).bind t'.handle?, name, .ok handle⟩] := by
  have hold : ((t'.add node).stackCalls t.nodes.length made : List (Call ε H)) =
      t'.stackCalls t.nodes.length made := by
    refine List.mapIdx_eq_mapIdx_iff.2 fun i hi => ?_
    rw [h.bind_handle?_add (h.length_made ▸ Nat.le_of_lt hi)]
  rw [stackCalls, List.mapIdx_concat, ← stackCalls, hold, h.length_made,
    h.bind_handle?_add (Nat.le_refl _), lastName_concat]

end Fresh

/-- How a walk can go where nothing is memoized. It creates a relation for each name of its chain
and ends at the last, or it ends with the first handle that cannot be made. -/
inductive FreshCourse (t : RelationTable H) (chain : List String) :
    List (Call ε H) → Except ε (Option Nat) → RelationTable H → Prop
  | came {made : List (List String × H)} {t' : RelationTable H} (h : Fresh t chain made t') :
      FreshCourse t chain (t'.stackCalls t.nodes.length made)
        (.ok (newest t.nodes.length chain.length)) t'
  | stuck {front rest : List String} {name : String} {made : List (List String × H)}
      {t' : RelationTable H} (e : ε) (hsplit : chain = front ++ name :: rest)
      (h : Fresh t front made t') :
      FreshCourse t chain
        (t'.stackCalls t.nodes.length made ++
          [⟨(newest t.nodes.length front.length).bind t'.handle?, name, .error e⟩])
        (.error e) t'

/-- A walk in a table that does not memoize goes one of these ways. -/
theorem freshCourse_resolve (create : Option H → String → Attempt ε V H) (chain : List String)
    {w : Workspace (RelationTable H) (V × List (Call ε H))} (h : w.store.Forgets)
    (hnone : w.host.2 = []) :
    FreshCourse w.store chain ((resolve (noted create) chain).run w).2.host.2
      ((resolve (noted create) chain).run w).1 ((resolve (noted create) chain).run w).2.store := by
  induction chain using List.reverseRecOn with
  | nil =>
    have hcame : FreshCourse w.store [] ([] : List (Call ε H)) _ _ := .came (.refl h)
    rwa [← hnone] at hcame
  | append_singleton chain name ih =>
    rw [run_resolve_concat]
    generalize (resolve (noted create) chain).run w = walked at ih ⊢
    obtain ⟨r, t', ⟨v, notes⟩, tally⟩ := walked
    dsimp only at ih
    cases ih with
    | stuck e hsplit h =>
      exact .stuck e (by rw [hsplit, List.append_assoc, List.cons_append]) h
    | @came made _ h =>
      simp only [run_reach, h.forgets.lookup_eq_none, run_noted]
      rcases (create ((newest w.store.nodes.length chain.length).bind t'.handle?) name).run v with
        ⟨e | handle, v'⟩
      · exact .stuck e rfl h
      · have hcame : FreshCourse w.store (chain ++ [name]) (_ : List (Call ε H)) _ _ :=
          .came (h.create name handle)
        rw [h.stackCalls_create, List.length_append, List.length_singleton, newest,
          ← h.length_nodes] at hcame
        exact hcame

theorem freshCourse_calls (create : Option H → String → Attempt ε V H) (chain : List String)
    {w : Workspace (RelationTable H) V} (h : w.store.Forgets) :
    FreshCourse w.store chain (calls create chain w) ((resolve create chain).run w).1
      ((resolve create chain).run w).2.store := by
  rw [run_resolve_noted]
  exact freshCourse_resolve create chain (w := ⟨w.store, (w.host, []), w.tally⟩) h rfl

namespace FreshCourse

variable {notes : List (Call ε H)} {r : Except ε (Option Nat)}

theorem forgets (h : FreshCourse t chain notes r t') : t'.Forgets := by
  cases h with
  | came h => exact h.forgets
  | stuck e hsplit h => exact h.forgets

theorem length_le (h : FreshCourse t chain notes r t') : t.nodes.length ≤ t'.nodes.length := by
  cases h with
  | came h => exact h.length_nodes ▸ Nat.le_add_right ..
  | stuck e hsplit h => exact h.length_nodes ▸ Nat.le_add_right ..

/-- With a result, there is a call and a relation for each name. -/
theorem length_of_ok {id : Option Nat} (h : FreshCourse t chain notes (.ok id) t') :
    notes.length = chain.length ∧ t'.nodes.length = t.nodes.length + chain.length ∧
      id = newest t.nodes.length chain.length := by
  cases h with
  | came h => exact ⟨by rw [stackCalls, List.length_mapIdx, h.length_made], h.length_nodes, rfl⟩

/-- A walk ends at a relation that was not there before. -/
theorem number_of_ok {id : Option Nat} (h : FreshCourse t chain notes (.ok id) t')
    (hne : chain ≠ []) :
    ∃ number, id = some number ∧ t.nodes.length ≤ number ∧ number < t'.nodes.length := by
  obtain ⟨-, hlength, rfl⟩ := h.length_of_ok
  obtain ⟨k, hk⟩ := Nat.exists_eq_succ_of_ne_zero (mt List.length_eq_zero_iff.1 hne)
  rw [hk] at hlength ⊢
  exact ⟨t.nodes.length + k, rfl, by omega, by omega⟩

end FreshCourse

/-! ## Histories of fresh relations -/

variable {uses : List (Use ε W H)} {w : Workspace (RelationTable H) W}

/-- Two walks, other than along the empty chain, do not end at the same relation. -/
def Apart (first later : List String × Except ε (Option Nat)) : Prop :=
  first.1 ≠ [] → later.1 ≠ [] → ∀ id id', first.2 = .ok id → later.2 = .ok id' → id ≠ id'

theorem Forgets.replaceHandle (h : t.Forgets) (id : Nat) (handle : H) :
    (t.replaceHandle id handle).Forgets := ⟨h.memoize_eq, h.memo_eq⟩

theorem forgets_history (h : w.store.Forgets) : (history uses w).2.store.Forgets := by
  induction uses generalizing w with
  | nil => exact h
  | cons use uses ih =>
    cases use with
    | resolve create chain => exact ih (freshCourse_calls create chain h).forgets
    | replaceHandle id handle => exact ih (h.replaceHandle id handle)

/-- The walks of a history end at relations that were not there before it. -/
theorem number_of_history (h : w.store.Forgets) {result : List String × Except ε (Option Nat)}
    (hm : result ∈ (history uses w).1) (hne : result.1 ≠ []) {id : Option Nat}
    (hok : result.2 = .ok id) : ∃ number, id = some number ∧ w.store.nodes.length ≤ number := by
  induction uses generalizing w with
  | nil => cases hm
  | cons use uses ih =>
    cases use with
    | resolve create chain =>
      have hcourse := freshCourse_calls create chain h
      rcases List.mem_cons.1 hm with rfl | hm
      · dsimp only at hok hne
        rw [hok] at hcourse
        obtain ⟨number, hid, hle, -⟩ := hcourse.number_of_ok hne
        exact ⟨number, hid, hle⟩
      · obtain ⟨number, hid, hle⟩ := ih hcourse.forgets hm
        exact ⟨number, hid, hcourse.length_le.trans hle⟩
    | replaceHandle id' handle =>
      obtain ⟨number, hid, hle⟩ := ih (h.replaceHandle id' handle) hm
      refine ⟨number, hid, ?_⟩
      rwa [RelationTable.replaceHandle, List.length_modify] at hle

theorem apart_history (h : w.store.Forgets) : (history uses w).1.Pairwise Apart := by
  induction uses generalizing w with
  | nil => exact .nil
  | cons use uses ih =>
    cases use with
    | resolve create chain =>
      have hcourse := freshCourse_calls create chain h
      refine .cons (fun later hm hne hne' id id' hok hok' => ?_) (ih hcourse.forgets)
      dsimp only at hok hne
      rw [hok] at hcourse
      obtain ⟨number, rfl, -, hlt⟩ := hcourse.number_of_ok hne
      obtain ⟨number', rfl, hle⟩ := number_of_history hcourse.forgets hm hne' hok'
      rw [Ne, Option.some.injEq]
      exact Nat.ne_of_lt (Nat.lt_of_lt_of_le hlt hle)
    | replaceHandle id handle => exact ih (h.replaceHandle id handle)

/-! ## What is found -/

variable {f : Option H → String → Except ε H} {create : Option H → String → Attempt ε V H}

/-- What a walk has found: a path with its handle, nothing at the root, or an error. -/
def found (t : RelationTable H) (r : Except ε (Option Nat)) :
    Except ε (Option (Option (String × H))) :=
  r.map (Option.map fun id => (t.get? id).map fun node => (node.path, node.handle))

/-- The handle at the end of a chain, computed from the root; the root has none. -/
def handleAlong (f : Option H → String → Except ε H) (chain : List String) : Except ε (Option H) :=
  chain.foldlM (fun parent name => some <$> f parent name) none

theorem handleAlong_concat (f : Option H → String → Except ε H) (chain : List String)
    (name : String) :
    handleAlong f (chain ++ [name]) =
      handleAlong f chain >>= fun parent => some <$> f parent name := by
  simp [handleAlong, List.foldlM_append]

/-- What there is to find at the end of a chain. -/
def foundAlong (f : Option H → String → Except ε H) (chain : List String) :
    Except ε (Option (Option (String × H))) :=
  (handleAlong f chain).map (Option.map fun handle => some (".".intercalate chain, handle))

/-- What is memoized has been computed along a chain of names without points. -/
def Computed (f : Option H → String → Except ε H) (t : RelationTable H) : Prop :=
  ∀ path number, t.lookup path = some number → ∃ chain node, chain ≠ [] ∧
    (∀ name ∈ chain, '.' ∉ name.toList) ∧ t.nodes[number]? = some node ∧ node.path = path ∧
    path = ".".intercalate chain ∧ handleAlong f chain = .ok (some node.handle)

theorem computed_empty (f : Option H → String → Except ε H) (kind : RelationKind)
    (memoize : Bool) : Computed f (empty kind memoize) := by
  rintro path number h
  cases h

/-- A relation that is added has been computed, if its handle has. -/
theorem Computed.add (h : Computed f t) {handle : H} {parent : Option Nat}
    (hpoint : ∀ a ∈ chain ++ [name], '.' ∉ a.toList)
    (hhandle : handleAlong f (chain ++ [name]) = .ok (some handle)) :
    Computed f (t.add ⟨".".intercalate (chain ++ [name]), parent, handle⟩) := by
  intro path number hlookup
  rcases lookup_of_add hlookup with hold | ⟨rfl, rfl⟩
  · obtain ⟨c, node, hne, hc, hn, hrest⟩ := h path number hold
    exact ⟨c, node, hne, hc, getElem?_add.2 (.inl hn), hrest⟩
  · exact ⟨_, _, by simp, hpoint, getElem?_add.2 (.inr ⟨rfl, rfl⟩), rfl, rfl, hhandle⟩

theorem found_ok_of_getElem? {number : Nat} {node : Relation H}
    (h : t.nodes[number]? = some node) :
    (found t (.ok (some number)) : Except ε (Option (Option (String × H)))) =
      .ok (some (some (node.path, node.handle))) := by
  rw [found, Except.map, Option.map_some, get?, h, Option.map_some]

/-- From where a walk has ended, it goes on with the handle that was found. -/
theorem exists_of_found {r : Except ε (Option Nat)} {value : Option H}
    (h : found t r = .ok (value.map fun handle => some (".".intercalate chain, handle))) :
    ∃ id, r = .ok id ∧ id.bind t.handle? = value := by
  rcases r with e | id
  · cases h
  · refine ⟨id, rfl, ?_⟩
    rw [found, Except.map, Except.ok.injEq] at h
    rcases id with _ | id <;> rcases value with _ | handle
    · rfl
    · cases h
    · cases h
    · rw [Option.map_some, Option.map_some, Option.some.injEq, Option.map_eq_some_iff] at h
      obtain ⟨node, hn, hnode⟩ := h
      rw [Option.bind_some, handle?, hn, Option.map_some, (Prod.mk.inj hnode).2]

/-- One step finds what has been computed, or computes it now. -/
theorem found_reach (hcomputes : Computes f create) {w : Workspace (RelationTable H) V}
    (h : Computed f w.store) (hpoint : ∀ a ∈ chain ++ [name], '.' ∉ a.toList) {parent : Option Nat}
    (hparent : handleAlong f chain = .ok (parent.bind w.store.handle?)) :
    let reached := (reach create (".".intercalate (chain ++ [name])) parent name).run w
    Computed f reached.2.store ∧
      found reached.2.store (reached.1.map some) = foundAlong f (chain ++ [name]) := by
  intro reached
  have hnext : handleAlong f (chain ++ [name]) = some <$> f (parent.bind w.store.handle?) name := by
    rw [handleAlong_concat, hparent]
    rfl
  rcases hrun : reached with ⟨r, w'⟩
  rcases reach_cases hrun with ⟨number, hl, rfl, hst, -⟩ | ⟨-, e, rfl, hst, hmade⟩ |
    ⟨hl, handle, rfl, hst, hmade⟩
  · obtain ⟨c, node, hne, hc, hn, hpath, heq, hhandle⟩ := h _ number hl
    -- Without points the path tells the chain, so the memoized handle is the one asked for.
    obtain rfl := (intercalate_inj (by simp) hne hpoint hc).1 heq
    dsimp only
    rw [hst, foundAlong, hhandle]
    refine ⟨h, ?_⟩
    rw [Except.map, found_ok_of_getElem? hn, hpath]
    rfl
  · have hfails : f (parent.bind w.store.handle?) name = .error e := by
      rw [← hcomputes _ _ w.host, hmade]
    dsimp only
    rw [hst, foundAlong, hnext, hfails]
    exact ⟨h, rfl⟩
  · have hcomputed : f (parent.bind w.store.handle?) name = .ok handle := by
      rw [← hcomputes _ _ w.host, hmade]
    rw [hcomputed] at hnext
    have hn : (w.store.add ⟨".".intercalate (chain ++ [name]), parent, handle⟩).nodes[
        w.store.nodes.length]? = some ⟨".".intercalate (chain ++ [name]), parent, handle⟩ :=
      getElem?_add.2 (.inr ⟨rfl, rfl⟩)
    dsimp only
    rw [hst, foundAlong, hnext, Except.map, found_ok_of_getElem? hn]
    exact ⟨h.add hpoint hnext, rfl⟩

/-- Where all that is memoized has been computed, a walk along names without points finds what there
is to find, and leaves it so. Whether the table memoizes has no part in it. -/
theorem found_resolve (hcomputes : Computes f create) {w : Workspace (RelationTable H) V}
    (h : Computed f w.store) (hpoint : ∀ name ∈ chain, '.' ∉ name.toList) :
    Computed f ((resolve create chain).run w).2.store ∧
      found ((resolve create chain).run w).2.store ((resolve create chain).run w).1 =
        foundAlong f chain := by
  induction chain using List.reverseRecOn with
  | nil => exact ⟨h, rfl⟩
  | append_singleton chain name ih =>
    obtain ⟨hcomputed, hfound⟩ := ih fun a ha => hpoint a (List.mem_append_left _ ha)
    rw [run_resolve_concat]
    generalize (resolve create chain).run w = walked at hcomputed hfound ⊢
    obtain ⟨r, w'⟩ := walked
    dsimp only at hcomputed hfound
    rcases hvalue : handleAlong f chain with e | value
    · rw [foundAlong, hvalue] at hfound
      rcases r with e' | id
      · cases hfound
        refine ⟨hcomputed, ?_⟩
        rw [foundAlong, handleAlong_concat, hvalue]
        rfl
      · cases hfound
    · rw [foundAlong, hvalue] at hfound
      obtain ⟨id, rfl, rfl⟩ := exists_of_found hfound
      exact found_reach hcomputes hcomputed hpoint hvalue

theorem computed_history (hcomputes : Computes f create) {chains : List (List String)}
    (hpoint : ∀ chain ∈ chains, ∀ name ∈ chain, '.' ∉ name.toList)
    {w : Workspace (RelationTable H) V} (h : Computed f w.store) :
    Computed f (history (chains.map (Use.resolve create)) w).2.store := by
  induction chains generalizing w with
  | nil => exact h
  | cons chain chains ih =>
    rw [List.forall_mem_cons] at hpoint
    exact ih hpoint.2 (found_resolve hcomputes h hpoint.1).1

/-- In a table that does not memoize nothing is looked up, and each walk creates relations of its
own. Yet after the same walks along names without points, with handles that are computed, it finds
the same as a memoizing table. -/
theorem resolve_fresh (kind : RelationKind) (uses : List (Use ε W H)) (host : W) (tally : Tally) :
    let past := history uses ⟨empty kind false, host, tally⟩
    let t := past.2.store
    (t.paths = [] ∧ ∀ path, t.lookup path = none) ∧
      past.1.Pairwise Apart ∧
      (∀ {δ V : Type} (create : Option H → String → Attempt δ V H) (chain : List String) (v : V)
        (tally : Tally),
        let notes := calls create chain ⟨t, v, tally⟩
        let walked := (resolve create chain).run ⟨t, v, tally⟩
        FreshCourse t chain notes walked.1 walked.2.store ∧
          ∀ id, walked.1 = .ok id → notes.length = chain.length ∧
            walked.2.store.nodes.length = t.nodes.length + chain.length ∧
            id = newest t.nodes.length chain.length) ∧
      ∀ {δ V : Type} {f : Option H → String → Except δ H}
        {create : Option H → String → Attempt δ V H}, Computes f create →
        ∀ (chains : List (List String)) (chain : List String),
          (∀ c ∈ chain :: chains, ∀ name ∈ c, '.' ∉ name.toList) →
          ∀ (kind kind' : RelationKind) (v v' : V) (tally tally' : Tally),
            let plain := (resolve create chain).run
              (history (chains.map (Use.resolve create)) ⟨empty kind false, v, tally⟩).2
            let memoized := (resolve create chain).run
              (history (chains.map (Use.resolve create)) ⟨empty kind' true, v', tally'⟩).2
            found plain.2.store plain.1 = foundAlong f chain ∧
              found memoized.2.store memoized.1 = foundAlong f chain := by
  intro past t
  have hforgets : t.Forgets :=
    forgets_history (w := ⟨empty kind false, host, tally⟩) (forgets_empty kind)
  refine ⟨⟨?_, hforgets.lookup_eq_none⟩, apart_history (forgets_empty kind), ?_, ?_⟩
  · rw [paths, hforgets.memo_eq, List.map_nil]
  · intro δ V create chain v tally notes walked
    have hcourse : FreshCourse t chain notes walked.1 walked.2.store :=
      freshCourse_calls create chain (w := ⟨t, v, tally⟩) hforgets
    refine ⟨hcourse, fun id hid => ?_⟩
    rw [hid] at hcourse
    exact hcourse.length_of_ok
  · intro δ V f create hcomputes chains chain hpoint kind kind' v v' tally tally' plain memoized
    rw [List.forall_mem_cons] at hpoint
    have hfound (memoize : Bool) (kind : RelationKind) (v : V) (tally : Tally) :=
      (found_resolve hcomputes
        (computed_history hcomputes hpoint.2 (w := ⟨empty kind memoize, v, tally⟩)
          (computed_empty f kind memoize)) hpoint.1).2
    exact ⟨hfound false kind v tally, hfound true kind' v' tally'⟩

/-- The length of the names up to here, of all but one name. -/
def lengthBut (parent : Option Nat) (name : String) : Except String Nat :=
  if name = "x" then .error name else lengthTo parent name

/-- One of the walks before has failed. -/
theorem resolve_fresh_beside_memoizing :
    let create : Option Nat → String → Attempt String Unit Nat :=
      fun parent name => .ofExcept (lengthBut parent name)
    let past (memoize : Bool) :=
      (history ([["a", "b"], ["a", "x"], ["a"]].map (Use.resolve create))
        ⟨empty .join memoize, (), {}⟩).2
    let again (memoize : Bool) := (resolve create ["a", "b", "cd"]).run (past memoize)
    ((past false).store.nodes.length = 4 ∧ (past true).store.nodes.length = 2) ∧
      found (again false).2.store (again false).1 = .ok (some (some ("a.b.cd", 4))) ∧
      found (again true).2.store (again true).1 = .ok (some (some ("a.b.cd", 4))) := by
  intro create past again
  have hcomputes : Computes lengthBut create := fun _ _ _ => rfl
  obtain ⟨hplain, hmemoized⟩ :=
    (resolve_fresh .join ([] : List (Use String Unit Nat)) () {}).2.2.2 hcomputes
      [["a", "b"], ["a", "x"], ["a"]] ["a", "b", "cd"] (by decide) .join .join () () {} {}
  have hfound : foundAlong lengthBut ["a", "b", "cd"] = .ok (some (some ("a.b.cd", 4))) := rfl
  rw [hfound] at hplain hmemoized
  refine ⟨by decide +kernel, ?_, ?_⟩
  -- The walks are the same as they stand; none of them need be run.
  · with_reducible exact hplain
  · with_reducible exact hmemoized

end Criteria.RelationTable
