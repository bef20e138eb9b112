import Mathlib
import Criteria.Proofs.Property.Attributes
import Criteria.Proofs.Relation.Coherence

/-!
# Changes of the table of joins

Whatever is asked of properties, the table of joins changes in two ways only: a
join is added behind another one, or a condition is put on a join. Nothing but
the paths of the handles tells which conditions a join carries.
-/

namespace Criteria.Property

open Criteria.Relation (extend along)
open Criteria.RelationTable (reach walk run_walk_cons run_reach reach_cases coherent_reach At)

/-- The join tables of a scope. -/
abbrev Joins := RelationTable Join

variable {t t' : Joins} {w w' : Scope} {chain : List String} {number : Nat}

/-! ## Conditions in paths -/

/-- A condition as it stands in the path of a join. -/
def onText (condition : String) : String := "[on " ++ condition ++ "]"

/-- Conditions put on a join one after the other. -/
def onTexts : List String → String
  | [] => ""
  | condition :: conditions => onText condition ++ onTexts conditions

@[simp] theorem onTexts_nil : onTexts [] = "" := rfl

@[simp] theorem onTexts_cons (condition : String) (conditions : List String) :
    onTexts (condition :: conditions) = onText condition ++ onTexts conditions := rfl

theorem onTexts_append (first second : List String) :
    onTexts (first ++ second) = onTexts first ++ onTexts second := by
  induction first with
  | nil => simp
  | cons condition first ih => simp [ih, String.append_assoc]

theorem onTexts_concat (conditions : List String) (condition : String) :
    onTexts (conditions ++ [condition]) = onTexts conditions ++ onText condition := by
  simp [onTexts_append]

/-! ## The changes -/

/-- One change of the table of joins. -/
inductive Change : Joins → Joins → Prop
  | add {t : Joins} {path name : String} {parent : Option Nat} (id : Nat)
      (hnew : t.lookup path = none) (hname : '.' ∉ name.toList)
      (hparent : ∀ id, parent = some id → id < t.nodes.length)
      (hpath : path = extend (t.pathOf parent) name) :
      Change t (t.add ⟨path, parent, ⟨id, Plan.pathFrom (parent.bind t.handle?) name⟩⟩)
  | restrict {t : Joins} {number : Nat} {join : Join} (condition : String)
      (h : t.handle? number = some join) :
      Change t (t.replaceHandle number { join with path := join.path ++ onText condition })

/-- Any number of changes. -/
abbrev Changes : Joins → Joins → Prop := Relation.ReflTransGen Change

/-- The table is coherent, and all attributes along which it was extended are without points. -/
def Sound (t : Joins) : Prop :=
  ∃ made, t.Coherent made ∧ ∀ name ∈ made, '.' ∉ name.toList

theorem sound_empty : Sound (.empty .join true) :=
  ⟨[], RelationTable.coherent_empty .join, by simp⟩

/-- A change keeps the table sound. -/
theorem Sound.change (h : Sound t) (hc : Change t t') : Sound t' := by
  obtain ⟨made, hcoherent, hmade⟩ := h
  cases hc with
  | @add path name parent id hnew hname hparent hpath =>
    refine ⟨made ++ [name], hcoherent.add hnew hparent hpath _, ?_⟩
    intro name' hm
    rcases List.mem_append.1 hm with hm | hm
    · exact hmade name' hm
    · rw [List.mem_singleton.1 hm]
      exact hname
  | @restrict number join condition hj => exact ⟨made, hcoherent.replaceHandle number _, hmade⟩

theorem Sound.changes (h : Sound t) (hc : Changes t t') : Sound t' := by
  induction hc with
  | refl => exact h
  | tail _ hstep ih => exact ih.change hstep

namespace Sound

/-- A join stands one attribute behind its parent, which is an earlier join or the root. -/
theorem extends_parent (h : Sound t) {node : Relation Join} (hn : t.nodes[number]? = some node) :
    (∃ name, '.' ∉ name.toList ∧ node.path = extend (t.pathOf node.parent) name) ∧
      ∀ parent, node.parent = some parent → parent < number := by
  obtain ⟨made, hcoherent, hmade⟩ := h
  have hlt : number < made.length := by
    rw [hcoherent.length_made]
    exact (List.getElem?_eq_some_iff.1 hn).1
  refine ⟨⟨made[number], hmade _ (List.getElem_mem hlt), ?_⟩, ?_⟩
  · exact hcoherent.path_eq number node _ hn (List.getElem?_eq_getElem hlt)
  · intro parent hp
    exact hcoherent.parent_lt number node parent hn hp

theorem lookup_iff (h : Sound t) {path : String} :
    t.lookup path = some number ↔ ∃ node, t.nodes[number]? = some node ∧ node.path = path := by
  obtain ⟨made, hcoherent, -⟩ := h
  exact hcoherent.lookup_iff

end Sound

/-- What is found in the table is found there after a change. -/
theorem Change.keeps (hc : Change t t') : t.Keeps t' := by
  cases hc with
  | add id hnew hname hparent hpath => exact RelationTable.keeps_add t _
  | restrict condition h => exact RelationTable.keeps_replaceHandle t _ _

theorem Changes.keeps (hc : Changes t t') : t.Keeps t' := by
  induction hc with
  | refl => exact RelationTable.Keeps.refl t
  | tail _ hstep ih => exact ih.trans hstep.keeps

/-! ## Changes along a walk -/

/-- A step of a walk along joins adds at most one join. -/
theorem changes_reach {start : Option String} {parent : Option Nat} {name : String}
    {r : Except Failure Nat} (h : Sound w.store) (hs : w.store.At start parent)
    (hname : '.' ∉ name.toList)
    (hrun : (reach Plan.join (extend start name) parent name).run w = (r, w')) :
    Changes w.store w'.store ∧
      ∀ id, r = .ok id → w'.store.lookup (extend start name) = some id := by
  obtain ⟨made, hcoherent, -⟩ := h
  obtain ⟨-, -, hend⟩ :=
    coherent_reach (RelationTable.tracks_true Plan.join) hcoherent trivial hs hrun
  refine ⟨?_, hend⟩
  rcases reach_cases hrun with ⟨id, -, -, hst, -⟩ | ⟨-, e, -, hst, -⟩ |
    ⟨hnew, handle, -, hst, hjoin⟩
  · rw [hst]
  · rw [hst]
  · rw [Plan.run_join] at hjoin
    split at hjoin
    · cases hjoin
    · rw [Prod.mk.injEq, Except.ok.injEq] at hjoin
      obtain ⟨rfl, -⟩ := hjoin
      have hparent : ∀ id, parent = some id → id < w.store.nodes.length := by
        intro id hid
        subst hid
        exact hcoherent.lt_of_at hs
      have hpath : extend start name = extend (w.store.pathOf parent) name := by
        rw [hcoherent.pathOf_of_at hs]
      rw [hst]
      exact .single (.add _ hnew hname hparent hpath)

/-- A walk along joins does nothing but change the table, and ends at the join of its path. -/
theorem changes_walk {start : Option (String × Nat)} {r : Except Failure (Option Nat)}
    (h : Sound w.store) (hs : w.store.At (start.map Prod.fst) (start.map Prod.snd))
    (hnames : ∀ name ∈ chain, '.' ∉ name.toList)
    (hrun : (walk Plan.join start chain).run w = (r, w')) :
    Changes w.store w'.store ∧
      ∀ id, r = .ok id → w'.store.At (along (start.map Prod.fst) chain) id := by
  induction chain generalizing start w with
  | nil =>
    rw [RelationTable.walk_nil, Attempt.run_pure, Prod.mk.injEq] at hrun
    obtain ⟨rfl, rfl⟩ := hrun
    refine ⟨.refl, ?_⟩
    intro id hid
    rw [Except.ok.injEq] at hid
    rw [Relation.along_nil, ← hid]
    exact hs
  | cons name chain ih =>
    rw [List.forall_mem_cons] at hnames
    rw [run_walk_cons] at hrun
    rcases hreach : (reach Plan.join (extend (start.map Prod.fst) name) (start.map Prod.snd)
        name).run w with ⟨e | id, w₁⟩
    · obtain ⟨hchanges, -⟩ := changes_reach h hs hnames.1 hreach
      rw [hreach, Prod.mk.injEq] at hrun
      obtain ⟨rfl, rfl⟩ := hrun
      exact ⟨hchanges, fun id hid => nomatch hid⟩
    · obtain ⟨hchanges, hat⟩ := changes_reach h hs hnames.1 hreach
      have hnext : w₁.store.At (Option.map Prod.fst (some (extend (start.map Prod.fst) name, id)))
          (Option.map Prod.snd (some (extend (start.map Prod.fst) name, id))) := hat id rfl
      rw [hreach] at hrun
      obtain ⟨hchanges', hend⟩ := ih (h.changes hchanges) hnext hnames.2 hrun
      exact ⟨hchanges.trans hchanges', hend⟩

theorem changes_joins {r : Except Failure (Option Nat)} (h : Sound w.store)
    (hnames : ∀ name ∈ chain, '.' ∉ name.toList)
    (hrun : (RelationTable.resolve Plan.join chain).run w = (r, w')) :
    Changes w.store w'.store ∧ ∀ id, r = .ok id → w'.store.At (along none chain) id := by
  have hroot : w.store.At (Option.map Prod.fst (none : Option (String × Nat)))
      (Option.map Prod.snd (none : Option (String × Nat))) := trivial
  exact changes_walk h hroot hnames hrun

end Criteria.Property
