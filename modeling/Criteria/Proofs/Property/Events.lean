import Mathlib
import Criteria.Proofs.Property.Carrying
import Criteria.Proofs.Property.Inquiry
import Criteria.Proofs.Property.Survey
import Criteria.Proofs.Relation.Growth

/-!
# Events in a scope

Table and plan change together, and only in a few ways: a join is created in
both, a condition is put on a join, a condition that is asked for makes joins of
which the table does not know, results are presented in another way. Whatever is
done in a scope is such events one after the other, also where it fails, and
whether joins are memoized or not.

Every event keeps table and plan in step: the joins of the table are among those
of the plan, in the same order and with the same parents.
-/

namespace Criteria.Property

open Criteria.Relation (extend along along_concat name_extend)
open Criteria.RelationTable (getElem?_add handle?_add handle?_of_getElem? exists_of_replaceHandle)

variable {w w' w₁ : Scope} {chain : List String} {name : String} {parent : Option Nat}
  {joining : Bool}

/-! ## The events -/

/-- The scope with one join more, in the table and in the plan. -/
def created (w : Scope) (parent : Option Nat) (name : String) (tally : Tally) : Scope where
  store := w.store.add ⟨extend (w.store.pathOf parent) name, parent,
    ⟨w.host.joins.length, Plan.pathFrom (parent.bind w.store.handle?) name⟩⟩
  host := { w.host with
    joins := w.host.joins ++
      [⟨w.host.joins.length, (parent.bind w.store.handle?).map (·.id), name⟩] }
  tally

/-- The scope with a condition on a join of the table. -/
def restricted (w : Scope) (number : Nat) (join : Join) (condition : String) : Scope :=
  { w with
    store := w.store.replaceHandle number { join with path := join.path ++ onText condition }
    host := { w.host with restrictions := w.host.restrictions ++ [(join.id, condition)] } }

/-- An event that leaves the joins of the table as many as they are. Whether conditions may make
joins of their own is told by `joining`. -/
inductive Turn (joining : Bool) (w : Scope) : Scope → Prop
  | restrict {number : Nat} {join : Join} (condition : String)
      (h : w.store.handle? number = some join) : Turn joining w (restricted w number join condition)
  | consult {links : List Link} (hjoining : joining = true) (h : Grown w.host.joins links) :
      Turn joining w { w with host := { w.host with joins := links } }
  | present (presentation : Presentation) :
      Turn joining w { w with host := presentation.apply w.host }
  | record (tally : Tally) : Turn joining w { w with tally }

/-- An event. -/
inductive Event (joining : Bool) (w : Scope) : Scope → Prop
  | create {parent : Option Nat} {name : String} (tally : Tally)
      (hparent : ∀ number, parent = some number → number < w.store.nodes.length)
      (hname : '.' ∉ name.toList) : Event joining w (created w parent name tally)
  | turn {w' : Scope} (h : Turn joining w w') : Event joining w w'

/-- Any number of turns. -/
abbrev Turns (joining : Bool) : Scope → Scope → Prop := Relation.ReflTransGen (Turn joining)

/-- Any number of events. -/
abbrev Events (joining : Bool) : Scope → Scope → Prop := Relation.ReflTransGen (Event joining)

theorem Turns.events (h : Turns joining w w') : Events joining w w' :=
  Relation.ReflTransGen.mono (fun _ _ => Event.turn) _ _ h

/-! ## Table and plan -/

/-- The number that the plan gave to a join of the table; the root has none. -/
def linkOf (w : Scope) (number : Option Nat) : Option Nat :=
  (number.bind w.store.handle?).map (·.id)

/-- Joins are numbered in the order of their creation, in the plan and in the table, and each join
of the table is one of the plan, made for the same name and from the same parent. -/
structure InStep (w : Scope) : Prop where
  numbered : Numbered w.host.joins
  linked : ∀ (number : Nat) (node : Relation Join), w.store.nodes[number]? = some node →
    w.host.joins[node.handle.id]? = some ⟨node.handle.id, linkOf w node.parent, node.name⟩
  parent_lt : ∀ (number : Nat) (node : Relation Join), w.store.nodes[number]? = some node →
    ∀ parent, node.parent = some parent → parent < number
  increasing : (w.store.nodes.map (·.handle.id)).Pairwise (· < ·)
  /-- What is memoized is found under its own path. -/
  found : ∀ (path : String) (number : Nat), w.store.lookup path = some number →
    w.store.pathOf (some number) = some path

theorem inStep_empty (memoize : Bool) {plan : Plan} (hfresh : plan.joins = []) (tally : Tally) :
    InStep ⟨.empty .join memoize, plan, tally⟩ := by
  refine ⟨?_, ?_, ?_, ?_, ?_⟩
  · rw [hfresh]
    exact numbered_nil
  · intro number node hn
    cases hn
  · intro number node hn
    cases hn
  · exact List.Pairwise.nil
  · intro path number h
    cases h

namespace InStep

variable {number : Nat} {node : Relation Join}

theorem id_lt (h : InStep w) (hn : w.store.nodes[number]? = some node) :
    node.handle.id < w.host.joins.length :=
  (List.getElem?_eq_some_iff.1 (h.linked number node hn)).1

theorem linkOf_lt (h : InStep w) {id : Nat} (hid : linkOf w parent = some id) :
    id < w.host.joins.length := by
  obtain ⟨join, hjoin, rfl⟩ := Option.map_eq_some_iff.1 hid
  obtain ⟨number, -, hnumber⟩ := Option.bind_eq_some_iff.1 hjoin
  obtain ⟨node, hn, rfl⟩ := Option.map_eq_some_iff.1 hnumber
  exact h.id_lt hn

/-- Joins of the table that have one number in the plan are one. -/
theorem eq_of_id_eq (h : InStep w) {number' : Nat} {node' : Relation Join}
    (hn : w.store.nodes[number]? = some node) (hn' : w.store.nodes[number']? = some node')
    (hid : node.handle.id = node'.handle.id) : number = number' := by
  have hnodup : (w.store.nodes.map (·.handle.id)).Nodup :=
    h.increasing.imp fun hlt => Nat.ne_of_lt hlt
  have hlt : number < (w.store.nodes.map (·.handle.id)).length := by
    rw [List.length_map]
    exact (List.getElem?_eq_some_iff.1 hn).1
  refine (List.getElem?_inj hlt hnodup).1 ?_
  rw [List.getElem?_map, List.getElem?_map, hn, hn', Option.map_some, Option.map_some, hid]

end InStep

/-! ### What a creation keeps -/

theorem linkOf_created (hparent : ∀ number, parent = some number → number < w.store.nodes.length)
    (parent' : Option Nat) (name : String) (tally : Tally) :
    linkOf (created w parent' name tally) parent = linkOf w parent := by
  cases parent with
  | none => rfl
  | some number =>
    have hlt := hparent number rfl
    have hn : w.store.handle? number = some w.store.nodes[number].handle :=
      handle?_of_getElem? (List.getElem?_eq_getElem hlt)
    rw [linkOf, linkOf, Option.bind_some, Option.bind_some, created, hn, handle?_add _ hn]

theorem InStep.create (h : InStep w)
    (hparent : ∀ number, parent = some number → number < w.store.nodes.length)
    (hname : '.' ∉ name.toList) (tally : Tally) : InStep (created w parent name tally) := by
  have hlt : ∀ {number node}, w.store.nodes[number]? = some node → number < w.store.nodes.length :=
    fun hn => (List.getElem?_eq_some_iff.1 hn).1
  refine ⟨?_, ?_, ?_, ?_, ?_⟩
  · exact h.numbered.concat name fun id hid => h.linkOf_lt hid
  · intro number node hn
    rcases getElem?_add.1 hn with hn | ⟨rfl, rfl⟩
    · have hbefore : ∀ p, node.parent = some p → p < w.store.nodes.length := fun p hp =>
        Nat.lt_trans (h.parent_lt number node hn p hp) (hlt hn)
      rw [linkOf_created hbefore, created, List.getElem?_append_left (h.id_lt hn)]
      exact h.linked number node hn
    · rw [linkOf_created hparent]
      have hnode : Relation.name (⟨extend (w.store.pathOf parent) name, parent,
          ⟨w.host.joins.length, Plan.pathFrom (parent.bind w.store.handle?) name⟩⟩ :
          Relation Join) = name := name_extend rfl hname
      rw [hnode]
      exact List.getElem?_concat_length
  · intro number node hn p hp
    rcases getElem?_add.1 hn with hn | ⟨rfl, rfl⟩
    · exact h.parent_lt number node hn p hp
    · exact hparent p hp
  · rw [created, RelationTable.nodes_add, List.map_append, List.pairwise_append]
    refine ⟨h.increasing, List.pairwise_singleton _ _, ?_⟩
    intro id hid last hlast
    rw [List.map_singleton, List.mem_singleton] at hlast
    obtain ⟨node, hm, rfl⟩ := List.mem_map.1 hid
    obtain ⟨number, hn⟩ := List.mem_iff_getElem?.1 hm
    rw [hlast]
    exact h.id_lt hn
  · exact RelationTable.Findable.add h.found _

/-! ### What a condition keeps -/

/-- A condition on a join leaves its number as it is. -/
theorem exists_of_restricted {number i : Nat} {join : Join} {node : Relation Join}
    (hj : w.store.handle? number = some join) {condition : String}
    (hn : (restricted w number join condition).store.nodes[i]? = some node) :
    ∃ old, w.store.nodes[i]? = some old ∧ node.path = old.path ∧ node.parent = old.parent ∧
      node.handle.id = old.handle.id ∧
      node.handle.path = old.handle.path ++ if number = i then onText condition else "" := by
  obtain ⟨old, ho, hpath, hparent, hhandle⟩ := exists_of_replaceHandle hn
  refine ⟨old, ho, hpath, hparent, ?_⟩
  rw [hhandle]
  split
  · next heq =>
    subst heq
    rw [handle?_of_getElem? ho, Option.some.injEq] at hj
    subst hj
    exact ⟨rfl, rfl⟩
  · exact ⟨rfl, by simp⟩

theorem map_id_restricted {number : Nat} {join : Join} (hj : w.store.handle? number = some join)
    (condition : String) :
    (restricted w number join condition).store.nodes.map (·.handle.id) =
      w.store.nodes.map (·.handle.id) := by
  refine List.ext_getElem? fun i => ?_
  rw [List.getElem?_map, List.getElem?_map]
  cases hn : (restricted w number join condition).store.nodes[i]? with
  | some node =>
    obtain ⟨old, ho, -, -, hid, -⟩ := exists_of_restricted hj hn
    rw [ho, Option.map_some, Option.map_some, hid]
  | none =>
    have hlength : (restricted w number join condition).store.nodes.length =
        w.store.nodes.length := List.length_modify _ _ _
    rw [List.getElem?_eq_none_iff, hlength] at hn
    rw [List.getElem?_eq_none hn, Option.map_none]

theorem linkOf_eq_getElem? (w : Scope) (number : Option Nat) :
    linkOf w number = number.bind fun number => (w.store.nodes.map (·.handle.id))[number]? := by
  cases number with
  | none => rfl
  | some number =>
    simp [linkOf, RelationTable.handle?, RelationTable.get?, Function.comp_def]

theorem linkOf_restricted {number : Nat} {join : Join} (hj : w.store.handle? number = some join)
    (condition : String) (number' : Option Nat) :
    linkOf (restricted w number join condition) number' = linkOf w number' := by
  rw [linkOf_eq_getElem?, map_id_restricted hj, ← linkOf_eq_getElem?]

theorem InStep.restrict (h : InStep w) {number : Nat} {join : Join}
    (hj : w.store.handle? number = some join) (condition : String) :
    InStep (restricted w number join condition) := by
  refine ⟨h.numbered, ?_, ?_, ?_, ?_⟩
  · intro i node hn
    obtain ⟨old, ho, hpath, hparent, hid, -⟩ := exists_of_restricted hj hn
    have hname : node.name = old.name := by rw [Relation.name, hpath, ← Relation.name]
    rw [linkOf_restricted hj, hparent, hid, hname]
    exact h.linked i old ho
  · intro i node hn p hp
    obtain ⟨old, ho, -, hparent, -⟩ := exists_of_restricted hj hn
    exact h.parent_lt i old ho p (hparent ▸ hp)
  · rw [map_id_restricted hj]
    exact h.increasing
  · exact RelationTable.Findable.replaceHandle h.found number _

/-! ### What events keep -/

/-- More joins in the plan do not concern the table. -/
theorem InStep.consult (h : InStep w) {links : List Link} (hg : Grown w.host.joins links) :
    InStep { w with host := { w.host with joins := links } } := by
  refine ⟨h.numbered.grown hg, ?_, h.parent_lt, h.increasing, h.found⟩
  intro number node hn
  obtain ⟨more, rfl⟩ := hg.isPrefix
  rw [List.getElem?_append_left (h.id_lt hn)]
  exact h.linked number node hn

theorem InStep.turn (h : InStep w) (ht : Turn joining w w') : InStep w' := by
  cases ht with
  | restrict condition hj => exact h.restrict hj condition
  | consult _ hg => exact h.consult hg
  | present presentation =>
    obtain ⟨hnumbered, hlinked, hparent, hincreasing, hfound⟩ := h
    refine ⟨?_, ?_, hparent, hincreasing, hfound⟩
    · rwa [Presentation.joins_apply]
    · rwa [Presentation.joins_apply]
  | record tally => exact ⟨h.numbered, h.linked, h.parent_lt, h.increasing, h.found⟩

theorem InStep.event (h : InStep w) (he : Event joining w w') : InStep w' := by
  cases he with
  | create tally hparent hname => exact h.create hparent hname tally
  | turn ht => exact h.turn ht

theorem InStep.events (h : InStep w) (he : Events joining w w') : InStep w' := by
  induction he with
  | refl => exact h
  | tail _ hstep ih => exact ih.event hstep

/-- Joins of the plan are never changed and never taken back. -/
theorem Event.isPrefix (he : Event joining w w') : w.host.joins <+: w'.host.joins := by
  cases he with
  | create _ _ _ => exact List.prefix_append _ _
  | turn ht =>
    cases ht with
    | restrict _ _ => exact List.prefix_refl _
    | consult _ hg => exact hg.isPrefix
    | present presentation => rw [Presentation.joins_apply]
    | record _ => exact List.prefix_refl _

theorem isPrefix_of_events (he : Events joining w w') : w.host.joins <+: w'.host.joins := by
  induction he with
  | refl => exact List.prefix_refl _
  | tail _ hstep ih => exact ih.trans hstep.isPrefix

/-- The joins of the table are those of the plan. -/
def Matched (w : Scope) : Prop :=
  w.store.nodes.map (·.handle.id) = List.range w.host.joins.length

theorem Matched.event (h : Matched w) (he : Event false w w') : Matched w' := by
  cases he with
  | create tally hparent hname =>
    rw [Matched, created, RelationTable.nodes_add, List.map_append, show _ = _ from h,
      List.length_append, List.length_singleton, List.range_succ]
    rfl
  | turn ht =>
    cases ht with
    | restrict condition hj => exact (map_id_restricted hj condition).trans h
    | consult hjoining _ => cases hjoining
    | present presentation => rwa [Matched, Presentation.joins_apply]
    | record tally => exact h

theorem Matched.events (h : Matched w) (he : Events false w w') : Matched w' := by
  induction he with
  | refl => exact h
  | tail _ hstep ih => exact ih.event hstep

theorem Matched.id_eq (h : Matched w) {number : Nat} {node : Relation Join}
    (hn : w.store.nodes[number]? = some node) : node.handle.id = number := by
  have hid : (w.store.nodes.map (·.handle.id))[number]? = some node.handle.id := by
    rw [List.getElem?_map, hn, Option.map_some]
  rw [show _ = _ from h] at hid
  obtain ⟨hlt, hget⟩ := List.getElem?_eq_some_iff.1 hid
  rw [← hget, List.getElem_range]

end Criteria.Property
