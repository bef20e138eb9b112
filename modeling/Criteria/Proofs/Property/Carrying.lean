import Mathlib
import Criteria.Proofs.Property.Requests

/-!
# Which paths carry a condition

The handle of a join keeps a copy of the path that its parent had when the join
was made. So a condition that is put on a join stands in all later paths through
joins that are made after it, and in none through joins that were there before.
-/

namespace Criteria.Property

open Criteria.Relation (extend)
open Criteria.RelationTable (handle?_add handle?_replaceHandle handle?_replaceHandle_self)

variable {t t' : Joins} {w : Scope} {chain rest : List String} {id number : Nat} {join join' : Join}
  {next condition : String}

/-! ## Handles -/

/-- A handle does nothing but gain conditions. -/
theorem Change.gains (hc : Change t t') (h : t.handle? number = some join) :
    ∃ join' conditions, t'.handle? number = some join' ∧
      join'.path = join.path ++ onTexts conditions := by
  cases hc with
  | add id hnew hname hparent hpath => exact ⟨join, [], handle?_add _ h, by simp⟩
  | @restrict id old condition hold =>
    refine ⟨_, if id = number then [condition] else [], handle?_replaceHandle h _, ?_⟩
    split
    · next heq =>
      subst heq
      rw [h, Option.some.injEq] at hold
      simp [hold]
    · simp

theorem Changes.gains (hc : Changes t t') (h : t.handle? number = some join) :
    ∃ join' conditions, t'.handle? number = some join' ∧
      join'.path = join.path ++ onTexts conditions := by
  induction hc with
  | refl => exact ⟨join, [], h, by simp⟩
  | tail _ hstep ih =>
    obtain ⟨join₁, conditions, h₁, hpath₁⟩ := ih
    obtain ⟨join₂, conditions', h₂, hpath₂⟩ := hstep.gains h₁
    refine ⟨join₂, conditions ++ conditions', h₂, ?_⟩
    rw [hpath₂, hpath₁, onTexts_append, String.append_assoc]

/-! ## Joins at or behind a chain -/

/-- A join at a path that is found in front of another join is its ancestor in the table. -/
theorem Sound.exists_of_prefix (h : Sound t) (hne : chain ≠ []) {node : Relation Join}
    (hn : t.nodes[number]? = some node) (hpre : chain <+: attributes node.path) :
    ∃ id, t.lookup (".".intercalate chain) = some id := by
  induction number using Nat.strong_induction_on generalizing node with
  | _ number ih =>
    obtain ⟨⟨name, hname, hpath⟩, hlt⟩ := h.extends_parent hn
    rw [hpath, prefix_extend_iff hname] at hpre
    rcases hpre with rfl | hpre
    · rw [← attributes_extend _ hname, ← hpath, intercalate_attributes]
      exact ⟨number, h.lookup_iff.2 ⟨node, hn, rfl⟩⟩
    · cases hp : node.parent with
      | none =>
        rw [hp, RelationTable.pathOf_none, names_none] at hpre
        exact absurd (List.prefix_nil.1 hpre) hne
      | some parent =>
        rw [hp, RelationTable.pathOf_some] at hpre
        cases hm : t.nodes[parent]? with
        | none =>
          rw [hm] at hpre
          exact absurd (List.prefix_nil.1 hpre) hne
        | some node' =>
          rw [hm] at hpre
          exact ih parent (hlt parent hp) hm hpre

/-- The parent whose path is that of a chain is the join found there. -/
theorem Sound.parent_eq (h : Sound t) (hne : chain ≠ []) (hpoint : ∀ a ∈ chain, '.' ∉ a.toList)
    (hfound : t.lookup (".".intercalate chain) = some id) {parent : Option Nat}
    (hp : names (t.pathOf parent) = chain) : parent = some id := by
  rw [names_eq_iff hne hpoint] at hp
  cases parent with
  | none => cases hp
  | some parent =>
    rw [RelationTable.pathOf_some, Option.map_eq_some_iff] at hp
    have hparent : t.lookup (".".intercalate chain) = some parent := h.lookup_iff.2 hp
    rw [← hparent, hfound]

/-- The paths of all handles at or behind the end of a chain have a property. -/
def AllBehind (t : Joins) (chain : List String) (P : String → Prop) : Prop :=
  ∀ (number : Nat) (node : Relation Join), t.nodes[number]? = some node →
    chain <+: attributes node.path → P node.handle.path

/-- A property of beginnings spreads to joins that are added behind; so only the first join of the
chain has to be looked at. -/
theorem AllBehind.change {P : String → Prop} (hP : ∀ s s', P s → P (s ++ s'))
    (h : AllBehind t chain P) (hne : chain ≠ []) (hc : Change t t')
    (hfirst : ∀ parent name, t.lookup (".".intercalate chain) = none →
      chain = names (t.pathOf parent) ++ [name] →
      P (Plan.pathFrom (parent.bind t.handle?) name)) :
    AllBehind t' chain P := by
  intro number node hn hpre
  cases hc with
  | @add path name parent id hnew hname hparent hpath =>
    rcases RelationTable.getElem?_add.1 hn with hn | ⟨-, rfl⟩
    · exact h number node hn hpre
    · rw [show path = _ from hpath, prefix_extend_iff hname] at hpre
      rcases hpre with rfl | hpre
      · rw [← attributes_extend _ hname, ← hpath] at hfirst
        rw [← intercalate_attributes path] at hnew
        exact hfirst parent name hnew (by rw [hpath, attributes_extend _ hname])
      · cases parent with
        | none => exact absurd (List.prefix_nil.1 hpre) hne
        | some parent =>
          have hlt := hparent parent rfl
          have hm : t.nodes[parent]? = some t.nodes[parent] := List.getElem?_eq_getElem hlt
          rw [RelationTable.pathOf_some, hm] at hpre
          have hbefore := h parent _ hm hpre
          have hhandle := RelationTable.handle?_of_getElem? hm
          simp only [Option.bind_some, hhandle, Plan.pathFrom]
          rw [String.append_assoc]
          exact hP _ _ hbefore
  | @restrict number' join condition hj =>
    obtain ⟨old, ho, hpath, -, hhandle⟩ := RelationTable.exists_of_replaceHandle hn
    rw [hpath] at hpre
    have hbefore := h number old ho hpre
    rw [hhandle]
    split
    · next heq =>
      subst heq
      rw [RelationTable.handle?_of_getElem? ho, Option.some.injEq] at hj
      rw [← hj]
      exact hP _ _ hbefore
    · exact hbefore

/-- Once the first join is there, nothing has to be looked at any more. -/
theorem AllBehind.changes {P : String → Prop} (hP : ∀ s s', P s → P (s ++ s'))
    (h : AllBehind t chain P) (hne : chain ≠ [])
    (hfound : t.lookup (".".intercalate chain) = some id) (hc : Changes t t') : AllBehind t' chain P := by
  induction hc with
  | refl => exact h
  | @tail t₁ t₂ hsteps hstep ih =>
    refine ih.change hP hne hstep ?_
    intro parent name hnone
    have hkept : t₁.lookup (".".intercalate chain) = some id :=
      Changes.keeps hsteps _ _ hfound
    rw [hkept] at hnone
    cases hnone

/-! ## Copies of the parent's path -/

/-- The text begins with another one. -/
def Starts (beginning text : String) : Prop := ∃ rest, text = beginning ++ rest

theorem Starts.append {beginning : String} (s s' : String) (h : Starts beginning s) :
    Starts beginning (s ++ s') := by
  obtain ⟨rest, rfl⟩ := h
  exact ⟨rest ++ s', by rw [String.append_assoc]⟩

/-- All handles at or behind a join begin with a copy of the parent's path, which since then may
have gained conditions. -/
def Layered (t : Joins) : Prop :=
  ∀ (number id : Nat) (node parent : Relation Join), t.nodes[number]? = some node →
    node.parent = some id → t.nodes[id]? = some parent →
    ∃ copy conditions, parent.handle.path = copy ++ onTexts conditions ∧
      AllBehind t (attributes node.path) (Starts (copy ++ "."))

theorem layered_empty : Layered (.empty .join true) := by
  intro number id node parent hn
  simp [RelationTable.empty] at hn

theorem Layered.change (h : Layered t) (hs : Sound t) (hc : Change t t') : Layered t' := by
  intro number id node parent hn hp hparent
  have hfound {number : Nat} {node : Relation Join} (hn : t.nodes[number]? = some node) :
      t.lookup (".".intercalate (attributes node.path)) = some number := by
    rw [intercalate_attributes]
    exact hs.lookup_iff.2 ⟨node, hn, rfl⟩
  cases hc with
  | @add path name parent' new hnew hname hlt hpath =>
    have hchange := Change.add new hnew hname hlt hpath
    rcases RelationTable.getElem?_add.1 hn with hn | ⟨rfl, rfl⟩
    · have hid : id < t.nodes.length :=
        Nat.lt_trans ((hs.extends_parent hn).2 id hp) (List.getElem?_eq_some_iff.1 hn).1
      rw [RelationTable.nodes_add, List.getElem?_append_left hid] at hparent
      obtain ⟨copy, conditions, hcopy, hbehind⟩ := h number id node parent hn hp hparent
      exact ⟨copy, conditions, hcopy,
        hbehind.changes Starts.append (attributes_ne_nil _) (hfound hn) (.single hchange)⟩
    · have hid : id < t.nodes.length := hlt id hp
      rw [RelationTable.nodes_add, List.getElem?_append_left hid] at hparent
      refine ⟨parent.handle.path, [], by simp, ?_⟩
      intro number' node' hn' hpre
      rcases RelationTable.getElem?_add.1 hn' with hn' | ⟨-, rfl⟩
      · -- nothing stands behind a join that was not there
        obtain ⟨_, hthere⟩ := hs.exists_of_prefix (attributes_ne_nil _) hn' hpre
        rw [intercalate_attributes, hnew] at hthere
        cases hthere
      · have hp' : parent' = some id := hp
        have hhandle := RelationTable.handle?_of_getElem? hparent
        refine ⟨name, ?_⟩
        simp only [hp', Option.bind_some, hhandle, Plan.pathFrom]
  | @restrict number' join condition hj =>
    have hchange := Change.restrict condition hj
    obtain ⟨old, ho, hpath, hpold, -⟩ := RelationTable.exists_of_replaceHandle hn
    obtain ⟨oldParent, hop, -, -, hhandle⟩ := RelationTable.exists_of_replaceHandle hparent
    obtain ⟨copy, conditions, hcopy, hbehind⟩ := h number id old oldParent ho (hpold ▸ hp) hop
    have hbehind' :=
      hbehind.changes Starts.append (attributes_ne_nil _) (hfound ho) (.single hchange)
    rw [← hpath] at hbehind'
    by_cases heq : number' = id
    · subst heq
      rw [RelationTable.handle?_of_getElem? hop, Option.some.injEq] at hj
      refine ⟨copy, conditions ++ [condition], ?_, hbehind'⟩
      rw [hhandle, if_pos rfl, onTexts_concat, ← String.append_assoc, ← hcopy, hj]
    · refine ⟨copy, conditions, ?_, hbehind'⟩
      rw [hhandle, if_neg heq, hcopy]

theorem Layered.changes (h : Layered t) (hs : Sound t) (hc : Changes t t') : Layered t' := by
  induction hc with
  | refl => exact h
  | tail hsteps hstep ih => exact ih.change (hs.changes hsteps) hstep

/-! ## Carrying a condition -/

/-- The text goes on behind a path, after further conditions if there are any. -/
def Carries (path text : String) : Prop :=
  ∃ conditions rest, text = path ++ onTexts conditions ++ "." ++ rest

theorem Carries.append {path : String} (s s' : String) (h : Carries path s) :
    Carries path (s ++ s') := by
  obtain ⟨conditions, rest, rfl⟩ := h
  exact ⟨conditions, rest ++ s', by simp only [String.append_assoc]⟩

/-- A point does not begin a condition, so what goes on behind the bare path does not carry it. -/
theorem Starts.not_carries {copy text : String} {conditions : List String}
    (h : Starts (copy ++ ".") text) :
    ¬ Carries (copy ++ onTexts conditions ++ onText condition) text := by
  obtain ⟨rest, rfl⟩ := h
  intro hcarries
  obtain ⟨further, rest', heq⟩ := hcarries
  rw [← String.toList_inj] at heq
  cases conditions with
  | nil => simp [onText, String.append_assoc] at heq
  | cons first conditions => simp [onText, String.append_assoc] at heq

/-- A condition is carried by what stands behind a join that is made later. -/
theorem carries_of_later (hs : Sound t) (hne : chain ≠ []) (hpoint : ∀ a ∈ chain, '.' ∉ a.toList)
    (hfound : t.lookup (".".intercalate chain) = some id) (hjoin : t.handle? id = some join)
    (hnone : t.lookup (".".intercalate (chain ++ [next])) = none) (hc : Changes t t') :
    AllBehind t' (chain ++ [next]) (Carries join.path) := by
  have hne' : chain ++ [next] ≠ [] := by simp
  induction hc with
  | refl =>
    intro number node hn hpre
    obtain ⟨id', hthere⟩ := hs.exists_of_prefix hne' hn hpre
    rw [hnone] at hthere
    cases hthere
  | @tail t₁ t₂ hsteps hstep ih =>
    refine ih.change Carries.append hne' hstep ?_
    intro parent name _ heq
    have hparts := List.append_inj' heq rfl
    have hparent : parent = some id :=
      (hs.changes hsteps).parent_eq hne hpoint (Changes.keeps hsteps _ _ hfound) hparts.1.symm
    obtain ⟨join', conditions, hjoin', hpath⟩ := Changes.gains hsteps hjoin
    refine ⟨conditions, name, ?_⟩
    rw [hparent, Option.bind_some, hjoin', Plan.pathFrom, hpath]

/-- A condition is not carried by what stands behind a join that was made earlier. -/
theorem starts_of_earlier (hs : Sound t) (hl : Layered t) (hne : chain ≠ [])
    (hpoint : ∀ a ∈ chain, '.' ∉ a.toList) (hfound : t.lookup (".".intercalate chain) = some id)
    (hjoin : t.handle? id = some join) (hnext : '.' ∉ next.toList)
    (hthere : t.lookup (".".intercalate (chain ++ [next])) = some number) (hc : Changes t t') :
    ∃ copy conditions, join.path = copy ++ onTexts conditions ∧
      AllBehind t' (chain ++ [next]) (Starts (copy ++ ".")) := by
  obtain ⟨node, hn, hpath⟩ := hs.lookup_iff.1 hthere
  have hattributes : attributes node.path = chain ++ [next] := by
    rw [hpath]
    refine attributes_intercalate (by simp) ?_
    intro a ha
    rcases List.mem_append.1 ha with ha | ha
    · exact hpoint a ha
    · rw [List.mem_singleton.1 ha]
      exact hnext
  obtain ⟨⟨name, hname, hextend⟩, -⟩ := hs.extends_parent hn
  have hparts : names (t.pathOf node.parent) = chain := by
    rw [hextend, attributes_extend _ hname] at hattributes
    exact (List.append_inj' hattributes rfl).1
  have hparent : node.parent = some id := hs.parent_eq hne hpoint hfound hparts
  obtain ⟨parent, hp, rfl⟩ := Option.map_eq_some_iff.1 hjoin
  obtain ⟨copy, conditions, hcopy, hbehind⟩ := hl number id node parent hn hparent hp
  rw [hattributes] at hbehind
  exact ⟨copy, conditions, hcopy, hbehind.changes Starts.append (by simp) hthere hc⟩

/-- A property read behind a chain of joins carries a condition put on a join of the chain just when
the next join of the chain was not there yet, or there is no next one. -/
theorem carries_iff_of_changes (hs : Sound t) (hl : Layered t) (hne : chain ≠ [])
    (hpoint : ∀ a ∈ chain ++ rest, '.' ∉ a.toList)
    (hfound : t.lookup (".".intercalate chain) = some id) (hjoin : t.handle? id = some join)
    (hc : Changes (t.replaceHandle id { join with path := join.path ++ onText condition }) t')
    (hlast : t'.lookup (".".intercalate (chain ++ rest)) = some number)
    (hjoin' : t'.handle? number = some join') (last : String) :
    Carries (join.path ++ onText condition) (join'.path ++ "." ++ last) ↔
      ∀ next, rest.head? = some next → t.lookup (".".intercalate (chain ++ [next])) = none := by
  have hchange := Change.restrict condition hjoin
  have hjoin₁ := handle?_replaceHandle_self hjoin
    { join with path := join.path ++ onText condition }
  have hs₁ := hs.change hchange
  have hpoint₁ : ∀ a ∈ chain, '.' ∉ a.toList := fun a ha =>
    hpoint a (List.mem_append_left rest ha)
  cases rest with
  | nil =>
    rw [List.append_nil, Changes.keeps hc _ _ hfound, Option.some.injEq] at hlast
    subst hlast
    obtain ⟨join₂, conditions, hjoin₂, hpath⟩ := hc.gains hjoin₁
    rw [hjoin', Option.some.injEq] at hjoin₂
    subst hjoin₂
    simp only [List.head?_nil, reduceCtorEq, false_implies, implies_true, iff_true]
    exact ⟨conditions, last, by rw [hpath]⟩
  | cons next rest =>
    obtain ⟨node, hn, hpath⟩ := ((hs₁.changes hc).lookup_iff).1 hlast
    have hpre : chain ++ [next] <+: attributes node.path := by
      rw [hpath, attributes_intercalate (by simp) hpoint]
      exact ⟨rest, by simp⟩
    have hhandle : node.handle = join' := by
      rw [RelationTable.handle?_of_getElem? hn] at hjoin'
      exact Option.some.inj hjoin'
    cases hnext : t.lookup (".".intercalate (chain ++ [next])) with
    | none =>
      have hcarries := carries_of_later hs₁ hne hpoint₁ hfound hjoin₁ hnext hc number node hn hpre
      rw [hhandle] at hcarries
      simp only [List.head?_cons, Option.some.injEq, forall_eq', hnext, iff_true]
      rw [String.append_assoc]
      exact hcarries.append _ _
    | some number' =>
      obtain ⟨copy, conditions, hcopy, hbehind⟩ := starts_of_earlier hs hl hne hpoint₁ hfound hjoin
        (hpoint next (by simp)) hnext (Relation.ReflTransGen.head hchange hc)
      have hstarts := hbehind number node hn hpre
      rw [hhandle] at hstarts
      simp only [List.head?_cons, Option.some.injEq, forall_eq', hnext, reduceCtorEq, iff_false]
      have htext : join'.path ++ "." ++ last = join'.path ++ ("." ++ last) := String.append_assoc
      rw [hcopy, htext]
      exact (hstarts.append _ _).not_carries

/-! ## Requests in a scope -/

/-- A property that was asked for with a condition ends the path of its last join with it. -/
theorem pathOn_ok {name last text : String} {restriction : Join → Attempt Failure Plan Expr}
    {w' : Scope} (h : Sound w.store) (hcut : cut? name = some (chain, last)) (hne : chain ≠ [])
    (hrun : (pathOn name restriction).run w = (.ok text, w')) :
    ∃ id t join condition, Changes w.store t ∧ t.lookup (".".intercalate chain) = some id ∧
      t.handle? id = some join ∧
      w'.store = t.replaceHandle id { join with path := join.path ++ onText condition } ∧
      w'.host.restrictions.getLast? = some (join.id, condition) ∧
      text = join.path ++ onText condition ++ "." ++ last := by
  obtain ⟨id, w₁, hchanges, hfound, hvisit, htext⟩ := resolve_ok h hcut hne hrun
  obtain ⟨node, hn, -⟩ := (h.changes hchanges).lookup_iff.1 hfound
  have hjoin := RelationTable.handle?_of_getElem? hn
  rw [run_restrictAt, hjoin] at hvisit
  rcases hr : (restriction node.handle).run w₁.host with ⟨e | condition, host⟩
  · simp only [hr] at hvisit
    cases hvisit
  · simp only [hr, Prod.mk.injEq, true_and] at hvisit
    subst hvisit
    refine ⟨id, w₁.store, node.handle, condition.text, hchanges, hfound, hjoin, rfl, ?_, ?_⟩
    · simp
    · rw [htext, handle?_replaceHandle_self hjoin, Plan.pathFrom]

/-- Once a property was asked for with a condition on its last join, a later request through that
join carries the condition just when the next join on its way had not been made before. -/
theorem carries_iff_next_not_made (plan : Plan) (tally : Tally) (earlier later : List Request)
    {name leaf text : String} {restriction : Join → Attempt Failure Plan Expr}
    (hcut : cut? name = some (chain, leaf)) (hne : chain ≠ [])
    (hrun : (pathOn name restriction).run (after earlier ⟨.empty .join true, plan, tally⟩) =
      (.ok text, w))
    {last : Request} {leaf' text' : String} (hlast : cut? last.name = some (chain ++ rest, leaf'))
    (hok : (last.attempt.run (after later w)).1 = .ok text') :
    ∃ id join before condition, w.store.lookup (".".intercalate chain) = some id ∧
      w.store.handle? id = some join ∧ join.path = before ++ onText condition ∧
      w.host.restrictions.getLast? = some (join.id, condition) ∧
      text = join.path ++ "." ++ leaf ∧
      (Carries join.path text' ↔
        ∀ next, rest.head? = some next →
          w.store.lookup (".".intercalate (chain ++ [next])) = none) := by
  have hempty : Sound (⟨.empty .join true, plan, tally⟩ : Scope).store := sound_empty
  have hbegun := changes_after earlier hempty
  have hs := hempty.changes hbegun
  obtain ⟨id, t, join, condition, hchanges, hfound, hjoin, hstore, hcondition, htext⟩ :=
    pathOn_ok hs hcut hne hrun
  have hst : Sound t := hs.changes hchanges
  have hl : Layered t := layered_empty.changes hempty (hbegun.trans hchanges)
  have hjoin₁ := handle?_replaceHandle_self hjoin
    { join with path := join.path ++ onText condition }
  have hsw : Sound w.store := hstore ▸ hst.change (.restrict condition hjoin)
  have hlater := changes_after later hsw
  have hsl := hsw.changes hlater
  -- the last request, up to where its join is read
  rcases hattempt : last.attempt.run (after later w) with ⟨r, w₃⟩
  rw [hattempt] at hok
  subst hok
  rw [Request.attempt_eq_resolve] at hattempt
  obtain ⟨number, w₂, hwalked, hfound', hvisit, htext'⟩ :=
    resolve_ok hsl hlast (by simp [hne]) hattempt
  have hvisited : Changes w₂.store w₃.store := by
    have hv := last.changesOnly_visit number w₂
    rwa [hvisit] at hv
  have hc : Changes w.store w₃.store := (hlater.trans hwalked).trans hvisited
  have hfound₃ := Changes.keeps hvisited _ _ hfound'
  obtain ⟨node, hn, -⟩ := (hsw.changes hc).lookup_iff.1 hfound₃
  have hjoin₃ := RelationTable.handle?_of_getElem? hn
  rw [hjoin₃, Plan.pathFrom] at htext'
  rw [hstore] at hc
  refine ⟨id, { join with path := join.path ++ onText condition }, join.path, condition, ?_, ?_,
    rfl, hcondition, htext, ?_⟩
  · rw [hstore]
    exact hfound
  · rw [hstore]
    exact hjoin₁
  · rw [htext', hstore]
    exact carries_iff_of_changes hst hl hne (point_not_mem_of_cut? hlast) hfound hjoin hc hfound₃
      hjoin₃ leaf'

/-- A condition that always holds. -/
def unconditional : Join → Attempt Failure Plan Expr := fun _ => pure .always

/-- A scope in which `a` has got its condition after `a.b` was made. -/
def lateCondition : Scope :=
  ((pathOn "a.y" unconditional).run (after [.path "a.b.x"] ⟨.empty .join true, {}, {}⟩)).2

theorem carries_iff_next_not_made_beside :
    ∃ id join before condition, lateCondition.store.lookup (".".intercalate ["a"]) = some id ∧
      lateCondition.store.handle? id = some join ∧ join.path = before ++ onText condition ∧
      lateCondition.host.restrictions.getLast? = some (join.id, condition) ∧
      "a[on 1=1].y" = join.path ++ "." ++ "y" ∧
      (Carries join.path "a[on 1=1].c.x" ↔
        ∀ next, ["c"].head? = some next →
          lateCondition.store.lookup (".".intercalate (["a"] ++ [next])) = none) := by
  have hcut : cut? "a.y" = some (["a"], "y") := by decide
  have hrun : (pathOn "a.y" unconditional).run
      (after [.path "a.b.x"] ⟨.empty .join true, {}, {}⟩) = (.ok "a[on 1=1].y", lateCondition) :=
    Prod.ext (by decide) rfl
  have hlast : cut? (Request.path "a.c.x").name = some (["a"] ++ ["c"], "x") := by decide
  have hok : ((Request.path "a.c.x").attempt.run (after [.path "a.c.z"] lateCondition)).1 =
      .ok "a[on 1=1].c.x" := by decide
  have hne : ["a"] ≠ [] := List.cons_ne_nil "a" []
  exact carries_iff_next_not_made {} {} [.path "a.b.x"] [.path "a.c.z"] hcut hne hrun hlast hok

/-- The join `a.b`, which was made before, does not lead to the condition on `a`. -/
theorem not_carries_of_late_condition :
    (pathOn "a.y" unconditional).run (after [.path "a.b.x"] ⟨.empty .join true, {}, {}⟩) =
        (.ok "a[on 1=1].y", lateCondition) ∧
      lateCondition.store.lookup "a" = some 0 ∧
      lateCondition.store.handle? 0 = some ⟨0, "a" ++ onText "1=1"⟩ ∧
      ((path "a.b.x").run lateCondition).1 = .ok "a.b.x" ∧
      ¬ Carries ("a" ++ onText "1=1") "a.b.x" := by
  refine ⟨Prod.ext (by decide) rfl, by decide, by decide, by decide, ?_⟩
  have hstarts : Starts ("a" ++ ".") "a.b.x" := ⟨"b.x", by decide⟩
  have hnot : ¬ Carries ("a" ++ onTexts [] ++ onText "1=1") "a.b.x" := hstarts.not_carries
  simpa using hnot

end Criteria.Property
