import Mathlib
import Criteria.Proofs.Relation.Growth
import Criteria.Proofs.Relation.History
import Criteria.Proofs.Tally

/-!
# What walks create

A walk in a memoizing table passes the beginnings of its chain, from short to
long. A beginning that has a relation is found. For any other one a handle is
asked for, from the handle that the relation one name before has at that time,
and the relation is added at the end. Nothing else is asked for and nothing else
changes, and a handle that cannot be made ends the walk.
-/

namespace Criteria

namespace Relation

variable {c chain : List String}

/-! ## Beginnings of longer chains -/

theorem beginnings_append (front rest : List String) :
    beginnings (front ++ rest) = beginnings front ++ stretch front rest := by
  have hne : front.inits ≠ [] := List.ne_nil_of_mem ((List.mem_inits [] front).2 front.nil_prefix)
  rw [beginnings, List.inits_append, List.tail_append_of_ne_nil hne]
  rfl

theorem beginnings_concat (chain : List String) (name : String) :
    beginnings (chain ++ [name]) = beginnings chain ++ [chain ++ [name]] :=
  beginnings_append chain [name]

theorem eq_nil_or_mem_beginnings (chain : List String) : chain = [] ∨ chain ∈ beginnings chain := by
  cases chain using List.reverseRecOn with
  | nil => exact .inl rfl
  | append_singleton chain name =>
    rw [beginnings_concat]
    exact .inr (List.mem_append_right _ List.mem_cons_self)

/-- One name before a beginning stands the root or another beginning. -/
theorem dropLast_mem_beginnings (h : c ∈ beginnings chain) :
    c.dropLast = [] ∨ c.dropLast ∈ beginnings chain := by
  induction chain using List.reverseRecOn with
  | nil => cases h
  | append_singleton chain name ih =>
    rw [beginnings_concat, List.mem_append, List.mem_singleton] at h ⊢
    rcases h with h | rfl
    · exact (ih h).imp_right .inl
    · rw [List.dropLast_concat]
      exact (eq_nil_or_mem_beginnings chain).imp_right .inl

theorem length_beginnings (chain : List String) : (beginnings chain).length = chain.length := by
  simp [beginnings]

/-- Behind a chain, paths are longer than those of its beginnings. -/
theorem length_intercalate_lt {rest : List String} (h : c ∈ beginnings chain) (hne : rest ≠ []) :
    (".".intercalate c).length < (".".intercalate (chain ++ rest)).length := by
  obtain ⟨more, rfl⟩ := (List.mem_inits c chain).1 (List.mem_of_mem_tail h)
  have hmore : more ++ rest ≠ [] := by simp [hne]
  have hpoint : ".".length = 1 := rfl
  rw [List.append_assoc, String.intercalate_append_of_ne_nil (ne_nil_of_mem_beginnings h) hmore,
    String.length_append, String.length_append]
  omega

end Relation

namespace RelationTable

open Criteria.Relation (along extend extend_along along_none beginnings beginnings_concat
  length_beginnings eq_nil_or_mem_beginnings dropLast_mem_beginnings ne_nil_of_mem_beginnings
  length_intercalate_lt lastName lastName_concat)

variable {ε H V W : Type} {t t' : RelationTable H} {names front chain c : List String}
  {name : String} {made : List (List String × H)}

/-! ## Relations along a chain -/

/-- The number of the relation at a chain; the root has none. -/
def numberAt (t : RelationTable H) (chain : List String) : Option Nat :=
  (along none chain).bind t.lookup

/-- The handle of the relation at a chain; the root has none. -/
def handleAt (t : RelationTable H) (chain : List String) : Option H :=
  (t.numberAt chain).bind t.handle?

/-- The beginnings of a chain that have no relation, from short to long. -/
def missing (t : RelationTable H) (chain : List String) : List (List String) :=
  (beginnings chain).filter fun c => ".".intercalate c ∉ t.nodes.map (·.path)

theorem numberAt_concat (t : RelationTable H) (chain : List String) (name : String) :
    t.numberAt (chain ++ [name]) = t.lookup (".".intercalate (chain ++ [name])) := by
  rw [numberAt, along_none (by simp), Option.bind_some]

theorem missing_concat (t : RelationTable H) (chain : List String) (name : String) :
    t.missing (chain ++ [name]) = t.missing chain ++
      if ".".intercalate (chain ++ [name]) ∈ t.nodes.map (·.path) then []
      else [chain ++ [name]] := by
  rw [missing, beginnings_concat, List.filter_append, ← missing, List.filter_singleton]
  split <;> simp_all

theorem mem_beginnings_of_missing (h : c ∈ t.missing chain) : c ∈ beginnings chain :=
  List.mem_of_mem_filter h

/-- A relation that is there stays where it is when others are added. -/
theorem numberAt_add {number : Nat} (h : t.numberAt c = some number) (node : Relation H) :
    (t.add node).numberAt c = some number := by
  obtain ⟨path, hpath, hnumber⟩ := Option.bind_eq_some_iff.1 h
  rw [numberAt, hpath]
  exact keeps_add t node path number hnumber

/-! ## Walks that come to an end of a chain -/

/-- The call for the relation at a chain, with what came of it. -/
def callFor (t : RelationTable H) (chain : List String) (outcome : Except ε H) : Call ε H :=
  ⟨t.handleAt chain.dropLast, lastName chain, outcome⟩

/-- The calls for relations whose handles were made. -/
def callsFor (t : RelationTable H) (made : List (List String × H)) : List (Call ε H) :=
  made.map fun entry => t.callFor entry.1 (.ok entry.2)

/-- The relation at a chain, with its handle. -/
def relationFor (t : RelationTable H) (chain : List String) (handle : H) : Relation H :=
  ⟨".".intercalate chain, t.numberAt chain.dropLast, handle⟩

/-- The second table is the first one with a relation at each beginning of a chain. Those that were
missing have been added in order, each with a handle that is given. -/
structure Filled (t : RelationTable H) (chain : List String) (made : List (List String × H))
    (t' : RelationTable H) : Prop where
  missing_eq : made.map Prod.fst = t.missing chain
  nodes_eq : t'.nodes = t.nodes ++ made.map fun entry => t'.relationFor entry.1 entry.2
  found : ∀ c ∈ beginnings chain, ∃ number, t'.numberAt c = some number
  coherent : ∀ names, Coherent t names →
    Coherent t' (names ++ made.map fun entry => lastName entry.1)
  kind_eq : t'.kind = t.kind

namespace Filled

theorem refl (t : RelationTable H) : Filled t [] [] t where
  missing_eq := rfl
  nodes_eq := (List.append_nil _).symm
  found := by simp
  coherent names h := by simpa using h
  kind_eq := rfl

/-- The chain itself is the root or has a relation. -/
theorem at_numberAt (h : Filled t chain made t') :
    t'.At (along none chain) (t'.numberAt chain) := by
  cases chain using List.reverseRecOn with
  | nil => trivial
  | append_singleton chain name =>
    obtain ⟨number, hnumber⟩ := h.found (chain ++ [name]) (by simp [beginnings_concat])
    have hlookup := hnumber
    rw [numberAt_concat] at hlookup
    rw [hnumber, along_none (by simp)]
    exact hlookup

/-- Behind the chain there are no other relations than before. -/
theorem path_mem_iff (h : Filled t chain made t') {rest : List String} (hne : rest ≠ []) :
    ".".intercalate (chain ++ rest) ∈ t'.nodes.map (·.path) ↔
      ".".intercalate (chain ++ rest) ∈ t.nodes.map (·.path) := by
  have hnew : ".".intercalate (chain ++ rest) ∉
      (made.map fun entry => t'.relationFor entry.1 entry.2).map (·.path) := by
    rw [List.map_map, List.mem_map]
    rintro ⟨⟨c, handle⟩, hm, heq⟩
    -- Names may have points, so other chains can have this path; a beginning is too short for it.
    have hmissing : c ∈ t.missing chain := h.missing_eq ▸ List.mem_map_of_mem hm
    have hlt := length_intercalate_lt (mem_beginnings_of_missing hmissing) hne
    have hlength := congrArg String.length heq
    exact Nat.ne_of_lt hlt hlength
  rw [h.nodes_eq, List.map_append, List.mem_append]
  tauto

theorem lookup_eq_none_iff (h : Filled t chain made t') (hc : Coherent t names) (name : String) :
    t'.lookup (".".intercalate (chain ++ [name])) = none ↔
      ".".intercalate (chain ++ [name]) ∉ t.nodes.map (·.path) := by
  rw [(h.coherent names hc).lookup_eq_none_iff, h.path_mem_iff (List.cons_ne_nil name [])]

/-- No more relations are created than the chain has names. -/
theorem length_le (h : Filled t chain made t') : made.length ≤ chain.length := by
  rw [← List.length_map (f := Prod.fst), h.missing_eq, ← length_beginnings chain]
  exact List.length_filter_le _ _

/-- Where the walk has been, numbers and handles stay when a relation is added. -/
theorem numberAt_add (h : Filled t chain made t') (hm : c = [] ∨ c ∈ beginnings chain)
    (node : Relation H) : (t'.add node).numberAt c = t'.numberAt c := by
  rcases hm with rfl | hm
  · rfl
  · obtain ⟨number, hnumber⟩ := h.found c hm
    rw [hnumber, RelationTable.numberAt_add hnumber]

/-- The beginnings have relations with their paths. -/
theorem exists_node (h : Filled t chain made t') (hc : Coherent t names)
    (hm : c ∈ beginnings chain) :
    ∃ number node, t'.numberAt c = some number ∧ t'.nodes[number]? = some node ∧
      node.path = ".".intercalate c := by
  obtain ⟨number, hnumber⟩ := h.found c hm
  obtain ⟨path, hpath, hlookup⟩ := Option.bind_eq_some_iff.1 hnumber
  obtain ⟨node, hn, rfl⟩ := (h.coherent names hc).lookup_iff.1 hlookup
  rw [along_none (ne_nil_of_mem_beginnings hm), Option.some.injEq] at hpath
  exact ⟨number, node, hnumber, hn, hpath.symm⟩

theorem handleAt_add (h : Filled t chain made t') (hc : Coherent t names)
    (hm : c = [] ∨ c ∈ beginnings chain) (node : Relation H) :
    (t'.add node).handleAt c = t'.handleAt c := by
  rw [handleAt, handleAt, h.numberAt_add hm]
  rcases hm with rfl | hm
  · rfl
  · obtain ⟨number, node', hnumber, hn, -⟩ := h.exists_node hc hm
    have hhandle := handle?_of_getElem? hn
    rw [hnumber, Option.bind_some, Option.bind_some, handle?_add node hhandle, hhandle]

theorem before_mem (h : Filled t chain made t') {entry : List String × H} (hm : entry ∈ made) :
    entry.1.dropLast = [] ∨ entry.1.dropLast ∈ beginnings chain := by
  have hmissing : entry.1 ∈ t.missing chain := h.missing_eq ▸ List.mem_map_of_mem hm
  exact dropLast_mem_beginnings (mem_beginnings_of_missing hmissing)

/-- The calls ask for the relations that were missing, each from the handle one name before. -/
theorem map_callsFor (h : Filled t chain made t') :
    ((t'.callsFor made : List (Call ε H)).map fun call => (call.parent, call.name)) =
      (t.missing chain).map fun c => (t'.handleAt c.dropLast, lastName c) := by
  rw [← h.missing_eq, callsFor, List.map_map, List.map_map]
  rfl

theorem callsFor_add (h : Filled t chain made t') (hc : Coherent t names) (node : Relation H) :
    ((t'.add node).callsFor made : List (Call ε H)) = t'.callsFor made := by
  refine List.map_congr_left fun entry hm => ?_
  rw [callFor, callFor, h.handleAt_add hc (h.before_mem hm)]

/-- One name further, where a relation is found. -/
theorem find (h : Filled t chain made t') (hc : Coherent t names) {number : Nat}
    (hfound : t'.lookup (".".intercalate (chain ++ [name])) = some number) :
    Filled t (chain ++ [name]) made t' where
  missing_eq := by
    have hthere : ".".intercalate (chain ++ [name]) ∈ t.nodes.map (·.path) := by
      by_contra hnot
      rw [(h.lookup_eq_none_iff hc name).2 hnot] at hfound
      cases hfound
    rw [missing_concat, if_pos hthere, List.append_nil, h.missing_eq]
  nodes_eq := h.nodes_eq
  found := by
    intro c hm
    rw [beginnings_concat, List.mem_append, List.mem_singleton] at hm
    rcases hm with hm | rfl
    · exact h.found c hm
    · exact ⟨number, by rw [numberAt_concat, hfound]⟩
  coherent := h.coherent
  kind_eq := h.kind_eq

/-- One name further, where a relation is created. -/
theorem create (h : Filled t chain made t') (hc : Coherent t names)
    (hnew : t'.lookup (".".intercalate (chain ++ [name])) = none) (handle : H) :
    Filled t (chain ++ [name]) (made ++ [(chain ++ [name], handle)])
      (t'.add ⟨".".intercalate (chain ++ [name]), t'.numberAt chain, handle⟩) where
  missing_eq := by
    rw [List.map_append, missing_concat, if_neg ((h.lookup_eq_none_iff hc name).1 hnew),
      h.missing_eq]
    rfl
  nodes_eq := by
    have hold : (made.map fun entry => t'.relationFor entry.1 entry.2) =
        made.map fun entry => (t'.add ⟨".".intercalate (chain ++ [name]), t'.numberAt chain,
          handle⟩).relationFor entry.1 entry.2 := by
      refine List.map_congr_left fun entry hm => ?_
      simp only [relationFor, h.numberAt_add (h.before_mem hm)]
    rw [nodes_add, List.map_append, ← hold, ← List.append_assoc, ← h.nodes_eq, List.map_singleton,
      relationFor, List.dropLast_concat, h.numberAt_add (eq_nil_or_mem_beginnings chain)]
  found := by
    intro c hm
    rw [beginnings_concat, List.mem_append, List.mem_singleton] at hm
    rcases hm with hm | rfl
    · obtain ⟨number, hnumber⟩ := h.found c hm
      exact ⟨number, RelationTable.numberAt_add hnumber _⟩
    · refine ⟨t'.nodes.length, ?_⟩
      rw [numberAt_concat, (h.coherent names hc).lookup_add hnew]
  coherent := by
    intro names' hc'
    have hcoherent := h.coherent names' hc'
    have hpath : ".".intercalate (chain ++ [name]) =
        extend (t'.pathOf (t'.numberAt chain)) name := by
      rw [hcoherent.pathOf_of_at h.at_numberAt, extend_along]
    have hparent : ∀ id, t'.numberAt chain = some id → id < t'.nodes.length := by
      intro id hid
      exact hcoherent.lt_of_at (hid ▸ h.at_numberAt)
    rw [List.map_append, List.map_singleton, lastName_concat, ← List.append_assoc]
    exact hcoherent.add hnew hparent hpath handle
  kind_eq := h.kind_eq

theorem callsFor_create (h : Filled t chain made t') (hc : Coherent t names) (name : String)
    (handle : H) (node : Relation H) :
    ((t'.add node).callsFor (made ++ [(chain ++ [name], handle)]) : List (Call ε H)) =
      t'.callsFor made ++ [⟨t'.handleAt chain, name, .ok handle⟩] := by
  have hnew : (t'.add node).callFor (chain ++ [name]) (.ok handle : Except ε H) =
      ⟨t'.handleAt chain, name, .ok handle⟩ := by
    rw [callFor, List.dropLast_concat, lastName_concat,
      h.handleAt_add hc (eq_nil_or_mem_beginnings chain)]
  rw [callsFor, List.map_append, List.map_singleton, hnew, ← callsFor, h.callsFor_add hc]

end Filled

/-! ## Courses of walks -/

/-- The relations that a walk has found along a chain, and those that it has created. -/
def usageOf (chain : List String) (made : List (List String × H)) : Usage :=
  ⟨chain.length - made.length, made.length⟩

/-- How a walk from a table can go. It comes to the end of its chain, with all missing relations
created, or gets stuck at the first relation whose handle could not be made. -/
inductive Course (t : RelationTable H) (tally : Tally) (chain : List String) :
    List (Call ε H) → Except ε (Option Nat) → RelationTable H → Tally → Prop
  | came {made : List (List String × H)} {t' : RelationTable H} (h : Filled t chain made t') :
      Course t tally chain (t'.callsFor made) (.ok (t'.numberAt chain)) t'
        (tally + .only t.kind (usageOf chain made))
  | stuck {front rest : List String} {name : String} {made : List (List String × H)}
      {t' : RelationTable H} (e : ε) (hsplit : chain = front ++ name :: rest)
      (h : Filled t front made t')
      (hmissing : ".".intercalate (front ++ [name]) ∉ t.nodes.map (·.path)) :
      Course t tally chain (t'.callsFor made ++ [t'.callFor (front ++ [name]) (.error e)])
        (.error e) t' (tally + .only t.kind (usageOf front made))

theorem recordHit_usageOf (tally : Tally) (kind : RelationKind) (h : made.length ≤ chain.length)
    (name : String) :
    (tally + .only kind (usageOf chain made)).recordHit kind =
      tally + .only kind (usageOf (chain ++ [name]) made) := by
  have husage : usageOf chain made + ⟨1, 0⟩ = usageOf (chain ++ [name]) made := by
    ext
    · simp only [usageOf, Usage.hits_add, List.length_append, List.length_singleton]
      omega
    · rfl
  rw [Tally.recordHit_eq_add, Tally.add_assoc, Tally.only_add, husage]

theorem recordCreated_usageOf (tally : Tally) (kind : RelationKind) (name : String)
    (entry : List String × H) :
    (tally + .only kind (usageOf chain made)).recordCreated kind =
      tally + .only kind (usageOf (chain ++ [name]) (made ++ [entry])) := by
  have husage : usageOf chain made + ⟨0, 1⟩ = usageOf (chain ++ [name]) (made ++ [entry]) := by
    ext <;> simp [usageOf]
  rw [Tally.recordCreated_eq_add, Tally.add_assoc, Tally.only_add, husage]

/-- A walk in a coherent table goes one of these ways. -/
theorem course_resolve (create : Option H → String → Attempt ε V H) (chain : List String)
    {w : Workspace (RelationTable H) (V × List (Call ε H))} (hc : Coherent w.store names)
    (hnone : w.host.2 = []) :
    Course w.store w.tally chain ((resolve (noted create) chain).run w).2.host.2
      ((resolve (noted create) chain).run w).1 ((resolve (noted create) chain).run w).2.store
      ((resolve (noted create) chain).run w).2.tally := by
  -- From the end of the chain: the last step starts where the shorter walk has come to.
  induction chain using List.reverseRecOn with
  | nil =>
    have hcame : Course w.store w.tally [] ([] : List (Call ε H)) _ _ _ := .came (.refl w.store)
    have hzero : usageOf [] ([] : List (List String × H)) = {} := rfl
    rw [hzero, Tally.only_zero, Tally.add_zero] at hcame
    rwa [← hnone] at hcame
  | append_singleton chain name ih =>
    rw [run_resolve_concat]
    generalize (resolve (noted create) chain).run w = walked at ih ⊢
    obtain ⟨r, t', ⟨v, notes⟩, tally⟩ := walked
    dsimp only at ih
    cases ih with
    | stuck e hsplit h hmissing =>
      exact .stuck e (by rw [hsplit, List.append_assoc, List.cons_append]) h hmissing
    | @came made _ h =>
      simp only [run_reach, h.kind_eq]
      cases hlookup : t'.lookup (".".intercalate (chain ++ [name])) with
      | some number =>
        have hcame : Course w.store w.tally (chain ++ [name]) (_ : List (Call ε H)) _ _ _ :=
          .came (h.find hc hlookup)
        rw [numberAt_concat, hlookup, ← recordHit_usageOf _ _ h.length_le] at hcame
        exact hcame
      | none =>
        have hmissing := (h.lookup_eq_none_iff hc name).1 hlookup
        simp only [run_noted]
        rcases (create ((t'.numberAt chain).bind t'.handle?) name).run v with ⟨e | handle, v'⟩
        · have hstuck : Course w.store w.tally (chain ++ [name]) _ _ _ _ :=
            .stuck e rfl h hmissing
          rw [callFor, List.dropLast_concat, lastName_concat] at hstuck
          exact hstuck
        · have hcame : Course w.store w.tally (chain ++ [name]) (_ : List (Call ε H)) _ _ _ :=
            .came (h.create hc hlookup handle)
          rw [numberAt_concat, (h.coherent names hc).lookup_add hlookup,
            h.callsFor_create hc, ← recordCreated_usageOf] at hcame
          exact hcame

/-! ## Walks along what is there -/

/-- A walk along relations that are there asks for nothing and changes nothing but the tally. -/
theorem run_resolve_of_found (create : Option H → String → Attempt ε V H)
    (hfound : ∀ c ∈ beginnings chain, ∃ number, t.numberAt c = some number) (v : V)
    (tally : Tally) :
    (resolve create chain).run ⟨t, v, tally⟩ =
      (.ok (t.numberAt chain), ⟨t, v, tally + .only t.kind ⟨chain.length, 0⟩⟩) := by
  induction chain using List.reverseRecOn with
  | nil =>
    rw [List.length_nil, Tally.only_zero, Tally.add_zero]
    rfl
  | append_singleton chain name ih =>
    rw [beginnings_concat, List.forall_mem_append, List.forall_mem_singleton] at hfound
    obtain ⟨number, hnumber⟩ := hfound.2
    have hlookup := hnumber
    rw [numberAt_concat] at hlookup
    rw [run_resolve_concat, ih hfound.1]
    simp only [run_reach, hlookup, hnumber, Tally.recordHit_eq_add, Tally.add_assoc,
      Tally.only_add, List.length_append, List.length_singleton]
    rfl

/-! ## Histories -/

/-- The memoizing table after a history. -/
def tableAfter (kind : RelationKind) (uses : List (Use ε W H)) (host : W) : RelationTable H :=
  (history uses ⟨empty kind true, host, {}⟩).2.store

theorem exists_coherent_tableAfter (kind : RelationKind) (uses : List (Use ε W H)) (host : W) :
    ∃ names, Coherent (tableAfter kind uses host) names := by
  obtain ⟨⟨names, hc, -⟩, -⟩ :=
    coherent_history (w := ⟨empty kind true, host, {}⟩) (fun create _ _ => tracks_true create)
      (coherent_empty kind) trivial
  exact ⟨names, hc⟩

/-- The calls of a walk for handles, with what came of them. -/
def calls (create : Option H → String → Attempt ε V H) (chain : List String)
    (w : Workspace (RelationTable H) V) : List (Call ε H) :=
  ((resolve (noted create) chain).run ⟨w.store, (w.host, []), w.tally⟩).2.host.2

theorem run_resolve_noted (create : Option H → String → Attempt ε V H) (chain : List String)
    (w : Workspace (RelationTable H) V) :
    (resolve create chain).run w =
      (((resolve (noted create) chain).run ⟨w.store, (w.host, []), w.tally⟩).1,
        forget ((resolve (noted create) chain).run ⟨w.store, (w.host, []), w.tally⟩).2) :=
  run_walk_noted create none chain ⟨w.store, (w.host, []), w.tally⟩

/-- The calls of a walk, its result, and the table and the tally at its end belong together. -/
theorem course_calls (create : Option H → String → Attempt ε V H) (chain : List String)
    {w : Workspace (RelationTable H) V} (hc : Coherent w.store names) :
    Course w.store w.tally chain (calls create chain w) ((resolve create chain).run w).1
      ((resolve create chain).run w).2.store ((resolve create chain).run w).2.tally := by
  rw [run_resolve_noted]
  exact course_resolve create chain (w := ⟨w.store, (w.host, []), w.tally⟩) hc rfl

namespace Course

variable {tally tally' : Tally} {notes : List (Call ε H)} {r : Except ε (Option Nat)}

theorem filled_of_ok (h : Course t tally chain notes r t' tally')
    (hok : ∀ call ∈ notes, ∃ handle, call.outcome = .ok handle) :
    ∃ made, Filled t chain made t' ∧ notes = t'.callsFor made ∧ r = .ok (t'.numberAt chain) ∧
      tally' = tally + .only t.kind (usageOf chain made) := by
  cases h with
  | came h => exact ⟨_, h, rfl, rfl, rfl⟩
  | stuck e hsplit h hmissing =>
    obtain ⟨handle, hhandle⟩ := hok _ (List.mem_append_right _ List.mem_cons_self)
    cases hhandle

end Course

/-- One walk in a memoizing table after any history, with any way of making handles, goes its
course: it asks for the relations that were missing along its chain and for nothing else. If each
handle is made, it ends at the relation of its path, all relations that were there have stayed as
they were, and the same walk finds everything the next time. -/
theorem resolve_creates_missing (kind : RelationKind) (uses : List (Use ε W H)) (host : W)
    {δ : Type} (create : Option H → String → Attempt δ V H) (chain : List String) (v : V)
    (tally : Tally) :
    let t := tableAfter kind uses host
    let notes := calls create chain ⟨t, v, tally⟩
    let r := ((resolve create chain).run ⟨t, v, tally⟩).1
    let w := ((resolve create chain).run ⟨t, v, tally⟩).2
    Course t tally chain notes r w.store w.tally ∧
      ((∀ call ∈ notes, ∃ handle, call.outcome = .ok handle) →
        (notes.map fun call => (call.parent, call.name)) =
            (t.missing chain).map (fun c => (w.store.handleAt c.dropLast, lastName c)) ∧
          (∃ new, w.store.nodes = t.nodes ++ new ∧
            new.map (fun node => (node.path, node.parent)) =
              (t.missing chain).map (fun c => (".".intercalate c, w.store.numberAt c.dropLast)) ∧
            new.map (fun node => .ok node.handle) = notes.map (·.outcome)) ∧
          (∀ c ∈ beginnings chain, ∃ number node, w.store.numberAt c = some number ∧
            w.store.nodes[number]? = some node ∧ node.path = ".".intercalate c) ∧
          (∃ hits, hits + (t.missing chain).length = chain.length ∧
            w.tally = tally + .only t.kind ⟨hits, (t.missing chain).length⟩) ∧
          r = .ok (w.store.numberAt chain) ∧
          ∀ {δ' V' : Type} (again : Option H → String → Attempt δ' V' H) (v' : V')
            (tally' : Tally),
            (resolve again chain).run ⟨w.store, v', tally'⟩ =
              (.ok (w.store.numberAt chain),
                ⟨w.store, v', tally' + .only t.kind ⟨chain.length, 0⟩⟩)) ∧
      (resolve create []).run ⟨t, v, tally⟩ = (.ok none, ⟨t, v, tally⟩) := by
  intro t notes r w
  obtain ⟨names, hc⟩ := exists_coherent_tableAfter kind uses host
  have hcourse : Course t tally chain notes r w.store w.tally :=
    course_calls create chain (w := ⟨t, v, tally⟩) hc
  refine ⟨hcourse, fun hok => ?_, rfl⟩
  obtain ⟨made, hfilled, hnotes, hr, htally⟩ := hcourse.filled_of_ok hok
  have hlength : made.length = (t.missing chain).length := by
    rw [← hfilled.missing_eq, List.length_map]
  rw [usageOf, hlength] at htally
  refine ⟨?_, ⟨_, hfilled.nodes_eq, ?_, ?_⟩, fun c hm => hfilled.exists_node hc hm,
    ⟨_, ?_, htally⟩, hr, ?_⟩
  · rw [hnotes]
    exact hfilled.map_callsFor
  · rw [← hfilled.missing_eq, List.map_map, List.map_map]
    rfl
  · rw [hnotes, callsFor, List.map_map, List.map_map]
    rfl
  · rw [← hlength]
    exact Nat.sub_add_cancel hfilled.length_le
  · intro δ' V' again v' tally'
    rw [run_resolve_of_found again hfilled.found, hfilled.kind_eq]

/-- The length of the names up to here. -/
def lengthTo (parent : Option Nat) (name : String) : Except String Nat :=
  .ok (parent.getD 0 + name.length)

/-- A name with a point has led to the relation in the middle, whose handle has been replaced. -/
theorem resolve_creates_missing_around :
    let lengths : Option Nat → String → Attempt String Unit Nat :=
      fun parent name => .ofExcept (lengthTo parent name)
    let t := tableAfter .join [.resolve lengths ["a.b"], .replaceHandle 0 7] ()
    let chain := ["a", "b", "c"]
    let walked := (resolve lengths chain).run ⟨t, (), {}⟩
    t.missing chain = [["a"], ["a", "b", "c"]] ∧
      calls lengths chain ⟨t, (), {}⟩ = [⟨none, "a", .ok 1⟩, ⟨some 7, "c", .ok 8⟩] ∧
      walked.1 = .ok (walked.2.store.numberAt chain) ∧
      ∃ new, walked.2.store.nodes = t.nodes ++ new ∧
        new.map (fun node => .ok node.handle) = [.ok 1, (.ok 8 : Except String Nat)] := by
  intro lengths t chain walked
  have hcalls : calls lengths chain ⟨t, (), {}⟩ = [⟨none, "a", .ok 1⟩, ⟨some 7, "c", .ok 8⟩] := rfl
  have hok : ∀ call ∈ calls lengths chain ⟨t, (), {}⟩, ∃ handle, call.outcome = .ok handle := by
    rw [hcalls]
    simp
  obtain ⟨-, ⟨new, hnodes, -, hhandles⟩, -, -, hresult, -⟩ :=
    (resolve_creates_missing .join [.resolve lengths ["a.b"], .replaceHandle 0 7] () lengths chain
      () {}).2.1 hok
  refine ⟨by decide +kernel, hcalls, ?_, new, ?_, ?_⟩
  · with_reducible exact hresult
  · with_reducible exact hnodes
  · exact hhandles

end RelationTable

end Criteria
