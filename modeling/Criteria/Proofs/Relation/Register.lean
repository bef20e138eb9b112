import Mathlib
import Criteria.Proofs.Relation.Chains
import Criteria.Proofs.Relation.Coherence

/-!
# Links of a plan and tables of relations

Joins and fetches get into a plan in the same way: a name that is rejected is
refused, and any other one becomes a link at the end. A memoizing table over such
links keeps step with them. Walking along a chain adds those of its beginnings
that were not there, in order, up to the first whose name is rejected.
-/

namespace Criteria

open Criteria.Relation (Leads Traces along along_concat extend extend_along eraseDups_concat
  intercalate_inj leads_some stretch stretch_cons stretch_root beginnings lastName lastName_concat)
open Criteria.RelationTable (walk walk_nil reach run_walk_cons lookup_eq_some_iff_mem)

/-- Links of one kind in a plan, and how they are asked for. -/
structure Register (H : Type) where
  create : Option H → String → Attempt Failure Plan H
  /-- The number of the link that a handle stands for. -/
  number : H → Nat
  links : Plan → List Link
  /-- The plan but for these links. -/
  others : Plan → Plan
  rejected_others : ∀ p, (others p).rejected = p.rejected
  run_rejected : ∀ parent name p, name ∈ p.rejected →
    (create parent name).run p = (.error (.unknownAttribute name), p)
  run_admitted : ∀ parent name p, name ∉ p.rejected → ∃ handle p',
    (create parent name).run p = (.ok handle, p') ∧ number handle = (links p).length ∧
      links p' = links p ++ [⟨(links p).length, parent.map number, name⟩] ∧ others p' = others p

namespace Register

/-- The joins of a plan. -/
def joins : Register Join where
  create := Plan.join
  number := Join.id
  links := Plan.joins
  others p := { p with joins := [] }
  rejected_others _ := rfl
  run_rejected parent name p h := by rw [Plan.run_join, if_pos h]
  run_admitted parent name p h := by
    rw [Plan.run_join, if_neg h]
    exact ⟨_, _, rfl, rfl, rfl, rfl⟩

/-- The fetches of a plan. -/
def fetches : Register Nat where
  create := Plan.fetch
  number := id
  links := Plan.fetches
  others p := { p with fetches := [] }
  rejected_others _ := rfl
  run_rejected parent name p h := by rw [Plan.run_fetch, if_pos h]
  run_admitted parent name p h := by
    rw [Plan.run_fetch, if_neg h]
    exact ⟨_, _, rfl, rfl, by simp, rfl⟩

variable {H : Type} {g : Register H}

theorem rejected_eq {p p' : Plan} (h : g.others p' = g.others p) : p'.rejected = p.rejected := by
  rw [← g.rejected_others p', h, g.rejected_others]

/-- What one step of a walk can do: find a relation, be refused, or add a relation with its link. -/
theorem reach_cases {w w' : Workspace (RelationTable H) Plan} {path name : String}
    {parent : Option Nat} {r : Except Failure Nat}
    (h : (reach g.create path parent name).run w = (r, w')) :
    (∃ id, w.store.lookup path = some id ∧ r = .ok id ∧ w'.store = w.store ∧ w'.host = w.host) ∨
    (w.store.lookup path = none ∧ name ∈ w.host.rejected ∧ r = .error (.unknownAttribute name) ∧
      w'.store = w.store ∧ w'.host = w.host) ∨
    (w.store.lookup path = none ∧ name ∉ w.host.rejected ∧ ∃ handle,
      r = .ok w.store.nodes.length ∧ w'.store = w.store.add ⟨path, parent, handle⟩ ∧
      g.number handle = (g.links w.host).length ∧
      g.links w'.host = g.links w.host ++
        [⟨(g.links w.host).length, (parent.bind w.store.handle?).map g.number, name⟩] ∧
      g.others w'.host = g.others w.host) := by
  rcases RelationTable.reach_cases h with ⟨id, hl, hr, hst, hh⟩ | ⟨hl, e, hr, hst, hcreate⟩ |
    ⟨hl, handle, hr, hst, hcreate⟩
  · exact .inl ⟨id, hl, hr, hst, hh⟩
  · by_cases hname : name ∈ w.host.rejected
    · rw [g.run_rejected _ _ _ hname, Prod.mk.injEq] at hcreate
      obtain ⟨he, hhost⟩ := hcreate
      cases he
      exact .inr (.inl ⟨hl, hname, hr, hst, hhost.symm⟩)
    · obtain ⟨handle, p', hrun, -⟩ := g.run_admitted _ _ _ hname
      rw [hrun] at hcreate
      cases hcreate
  · by_cases hname : name ∈ w.host.rejected
    · rw [g.run_rejected _ _ _ hname] at hcreate
      cases hcreate
    · obtain ⟨handle', p', hrun, hnumber, hlinks, hothers⟩ := g.run_admitted _ _ _ hname
      rw [hrun, Prod.mk.injEq, Except.ok.injEq] at hcreate
      obtain ⟨rfl, rfl⟩ := hcreate
      exact .inr (.inr ⟨hl, hname, handle', hr, hst, hnumber, hlinks, hothers⟩)

/-! ## Tables that keep step -/

/-- The table has one relation for each of the chains, with the link of the same number. -/
structure Charted (g : Register H) (t : RelationTable H) (links : List Link)
    (chains : List (List String)) : Prop where
  memoizes : t.memoize = true
  memo_eq : t.memo = (chains.map ".".intercalate).zipIdx
  numbers_eq : t.nodes.map (fun node => g.number node.handle) = List.range chains.length
  paths_eq : t.nodes.map (·.path) = chains.map ".".intercalate
  parents_eq : t.nodes.map (·.parent) = links.map (·.parent)
  traces : Traces links chains
  nodup : chains.Nodup
  point_not_mem : ∀ chain ∈ chains, ∀ name ∈ chain, '.' ∉ name.toList

theorem charted_empty (g : Register H) (kind : RelationKind) :
    Charted g (.empty kind true) [] [] := by
  constructor <;> simp [RelationTable.empty, Traces.nil]

namespace Charted

variable {t : RelationTable H} {links : List Link} {chains : List (List String)}
  {before chain : List String} {name : String} {parent : Option Nat} {i : Nat}

theorem length_nodes (h : Charted g t links chains) : t.nodes.length = chains.length := by
  simpa using congrArg List.length h.paths_eq

/-- Looking up the path of a chain finds the number of the chain. -/
theorem lookup_iff (h : Charted g t links chains) (hne : chain ≠ [])
    (hpoint : ∀ name ∈ chain, '.' ∉ name.toList) :
    t.lookup (".".intercalate chain) = some i ↔ chains[i]? = some chain := by
  have hinj : ∀ c ∈ chains, ".".intercalate c = ".".intercalate chain → c = chain := by
    intro c hc heq
    exact (intercalate_inj (h.traces.ne_nil hc) hne (h.point_not_mem c hc) hpoint).1 heq
  have hkeys : (t.memo.map Prod.fst).Nodup := by
    rw [h.memo_eq, List.zipIdx_map_fst]
    refine h.nodup.map_on ?_
    intro c hc d hd heq
    exact (intercalate_inj (h.traces.ne_nil hc) (h.traces.ne_nil hd) (h.point_not_mem c hc)
      (h.point_not_mem d hd)).1 heq
  rw [RelationTable.lookup, lookup_eq_some_iff_mem hkeys, h.memo_eq,
    List.mk_mem_zipIdx_iff_getElem?, List.getElem?_map, Option.map_eq_some_iff]
  constructor
  · rintro ⟨c, hc, heq⟩
    rw [hc, hinj c (List.mem_of_getElem? hc) heq]
  · intro hc
    exact ⟨chain, hc, rfl⟩

/-- A chain without a number is not among the chains. -/
theorem not_mem_of_lookup (h : Charted g t links chains) (hne : chain ≠ [])
    (hpoint : ∀ name ∈ chain, '.' ∉ name.toList)
    (hnone : t.lookup (".".intercalate chain) = none) : chain ∉ chains := by
  intro hc
  obtain ⟨i, hi⟩ := List.mem_iff_getElem?.1 hc
  rw [(h.lookup_iff hne hpoint).2 hi] at hnone
  cases hnone

/-- The handle of the relation at a chain stands for the link of its number. -/
theorem number_handle? (h : Charted g t links chains) (hb : Leads chains parent before) :
    (parent.bind t.handle?).map g.number = parent := by
  cases parent with
  | none => rfl
  | some i =>
    have hlt : i < chains.length := (List.getElem?_eq_some_iff.1 hb).1
    have hnumbers := congrArg (·[i]?) h.numbers_eq
    simp only [List.getElem?_map, List.getElem?_range hlt] at hnumbers
    simpa [RelationTable.handle?, RelationTable.get?, Function.comp_def] using hnumbers

/-- A new chain behind one of the chains, or behind the root, gets a relation and a link. -/
theorem add (h : Charted g t links chains) (hb : Leads chains parent before)
    (hnew : before ++ [name] ∉ chains) (hpoint : ∀ a ∈ before ++ [name], '.' ∉ a.toList)
    {handle : H} (hnumber : g.number handle = links.length) :
    Charted g (t.add ⟨".".intercalate (before ++ [name]), parent, handle⟩)
      (links ++ [⟨links.length, parent, name⟩]) (chains ++ [before ++ [name]]) where
  memoizes := h.memoizes
  memo_eq := by
    simp [RelationTable.add, h.memoizes, h.memo_eq, List.zipIdx_append, h.length_nodes]
  numbers_eq := by
    simp [h.numbers_eq, hnumber, h.traces.length_eq, List.range_succ]
  paths_eq := by simp [h.paths_eq]
  parents_eq := by simp [h.parents_eq]
  traces := h.traces.concat hb name
  nodup := by
    rw [← List.concat_eq_append]
    exact h.nodup.concat hnew
  point_not_mem := by
    intro chain hc
    rcases List.mem_append.1 hc with hc | hc
    · exact h.point_not_mem chain hc
    · rw [List.mem_singleton.1 hc]
      exact hpoint

/-- A handle that stands for the same link may take the place of another one. -/
theorem replaceHandle (h : Charted g t links chains) {handle handle' : H}
    (hhandle : t.handle? i = some handle) (hnumber : g.number handle' = g.number handle) :
    Charted g (t.replaceHandle i handle') links chains where
  memoizes := h.memoizes
  memo_eq := h.memo_eq
  numbers_eq := by
    rw [← h.numbers_eq]
    apply List.ext_getElem?
    intro k
    simp only [RelationTable.replaceHandle, List.getElem?_map, List.getElem?_modify]
    split
    · next hik =>
      subst hik
      obtain ⟨node, hn, rfl⟩ := Option.map_eq_some_iff.1 hhandle
      have hn' : t.nodes[i]? = some node := hn
      simp [hn', hnumber]
    · simp
  paths_eq := by
    rw [RelationTable.map_path_replaceHandle]
    exact h.paths_eq
  parents_eq := by
    rw [← h.parents_eq]
    apply List.ext_getElem?
    intro k
    simp only [RelationTable.replaceHandle, List.getElem?_map, List.getElem?_modify]
    split <;> cases t.nodes[k]? <;> rfl
  traces := h.traces
  nodup := h.nodup
  point_not_mem := h.point_not_mem

end Charted

/-! ## Walks -/

variable {w w₁ w' : Workspace (RelationTable H) Plan} {reached chains more : List (List String)}
  {before rest : List String} {name : String} {parent : Option Nat} {α β : Type}

/-- From one workspace to the next the chains are reached, in order. What was reached before need
not be asked for again. -/
structure Reaches (g : Register H) (w w' : Workspace (RelationTable H) Plan)
    (reached chains : List (List String)) : Prop where
  others_eq : g.others w'.host = g.others w.host
  kind_eq : w'.store.kind = w.store.kind
  charted : Charted g w'.store (g.links w'.host) (reached ++ chains).eraseDups
  admitted : ∀ chain ∈ chains, chain ∈ reached ∨ lastName chain ∉ w.host.rejected

theorem Reaches.rejected_eq (h : Reaches g w w' reached chains) :
    w'.host.rejected = w.host.rejected :=
  Register.rejected_eq h.others_eq

theorem Reaches.refl (h : Charted g w.store (g.links w.host) reached.eraseDups) :
    Reaches g w w reached [] :=
  ⟨rfl, rfl, by simpa using h, by simp⟩

theorem Reaches.trans (h : Reaches g w w₁ reached chains)
    (h' : Reaches g w₁ w' (reached ++ chains) more) : Reaches g w w' reached (chains ++ more) where
  others_eq := h'.others_eq.trans h.others_eq
  kind_eq := h'.kind_eq.trans h.kind_eq
  charted := by simpa using h'.charted
  admitted := by
    intro chain hm
    rcases List.mem_append.1 hm with hm | hm
    · exact h.admitted chain hm
    · rcases h'.admitted chain hm with hseen | hlast
      · rcases List.mem_append.1 hseen with hseen | hseen
        · exact .inl hseen
        · exact h.admitted chain hseen
      · rw [h.rejected_eq] at hlast
        exact .inr hlast

/-- All chains are reached, or those before the first one whose name is refused. -/
def Outcome (g : Register H) (w w' : Workspace (RelationTable H) Plan)
    (reached chains : List (List String)) (r : Except Failure α) : Prop :=
  (∃ a, r = .ok a ∧ Reaches g w w' reached chains) ∨
    ∃ done chain behind, chains = done ++ chain :: behind ∧
      r = .error (.unknownAttribute (lastName chain)) ∧ lastName chain ∈ w.host.rejected ∧
      Reaches g w w' reached done

theorem Outcome.reaches {a : α} (h : Outcome g w w' reached chains (.ok a)) :
    Reaches g w w' reached chains := by
  rcases h with ⟨-, -, hreaches⟩ | ⟨_, _, _, _, hr, _⟩
  · exact hreaches
  · cases hr

theorem Outcome.map {r : Except Failure α} (h : Outcome g w w' reached chains r) (f : α → β) :
    Outcome g w w' reached chains (r.map f) := by
  rcases h with ⟨a, rfl, hreaches⟩ | ⟨done, chain, behind, hsplit, rfl, hlast, hreaches⟩
  · exact .inl ⟨f a, rfl, hreaches⟩
  · exact .inr ⟨done, chain, behind, hsplit, rfl, hlast, hreaches⟩

/-- What was refused is refused also where more would have followed. -/
theorem Outcome.append {e : Failure}
    (h : Outcome g w w' reached chains (.error e : Except Failure α))
    (more : List (List String)) :
    Outcome g w w' reached (chains ++ more) (.error e : Except Failure β) := by
  rcases h with ⟨_, hr, _⟩ | ⟨done, chain, behind, rfl, hr, hlast, hreaches⟩
  · cases hr
  · cases hr
    exact .inr ⟨done, chain, behind ++ more, by simp, rfl, hlast, hreaches⟩

theorem Reaches.outcome {r : Except Failure α} (h : Reaches g w w₁ reached chains)
    (h' : Outcome g w₁ w' (reached ++ chains) more r) :
    Outcome g w w' reached (chains ++ more) r := by
  rcases h' with ⟨a, hr, hreaches⟩ | ⟨done, chain, behind, rfl, hr, hlast, hreaches⟩
  · exact .inl ⟨a, hr, h.trans hreaches⟩
  · rw [h.rejected_eq] at hlast
    exact .inr ⟨chains ++ done, chain, behind, by simp, hr, hlast, h.trans hreaches⟩

/-- One step reaches the next chain, or its name is refused. -/
theorem outcome_reach {r : Except Failure Nat}
    (h : Charted g w.store (g.links w.host) reached.eraseDups)
    (hb : Leads reached.eraseDups parent before)
    (hpoint : ∀ a ∈ before ++ [name], '.' ∉ a.toList)
    (hrun : (reach g.create (extend (along none before) name) parent name).run w = (r, w')) :
    Outcome g w w' reached [before ++ [name]] r ∧
      ∀ id, r = .ok id →
        Leads (reached ++ [before ++ [name]]).eraseDups (some id) (before ++ [name]) := by
  have hne : before ++ [name] ≠ [] := by simp
  rw [extend_along] at hrun
  rw [eraseDups_concat]
  rcases reach_cases hrun with ⟨id, hl, hr, hst, hh⟩ | ⟨hl, hname, hr, hst, hh⟩ |
    ⟨hl, hname, handle, hr, hst, hnumber, hlinks, hothers⟩
  · have hid := (h.lookup_iff hne hpoint).1 hl
    have hmem : before ++ [name] ∈ reached := List.mem_eraseDups.1 (List.mem_of_getElem? hid)
    rw [if_pos hmem]
    refine ⟨.inl ⟨id, hr, by rw [hh], by rw [hst], ?_, ?_⟩, ?_⟩
    · rw [eraseDups_concat, if_pos hmem, hst, hh]
      exact h
    · simp [hmem]
    · rintro id' hid'
      rw [hr, Except.ok.injEq] at hid'
      rw [← hid']
      exact hid
  · refine ⟨.inr ⟨[], _, [], rfl, by simpa using hr, by simpa using hname, ?_, ?_, ?_, by simp⟩, ?_⟩
    · rw [hh]
    · rw [hst]
    · rw [hst, hh]
      simpa using h
    · intro id hid
      rw [hr] at hid
      cases hid
  · have hnew : before ++ [name] ∉ reached.eraseDups := h.not_mem_of_lookup hne hpoint hl
    have hnew' : before ++ [name] ∉ reached := by simpa using hnew
    rw [if_neg hnew']
    refine ⟨.inl ⟨_, hr, hothers, by rw [hst]; rfl, ?_, by simp [hname]⟩, ?_⟩
    · rw [eraseDups_concat, if_neg hnew', hst, hlinks, h.number_handle? hb]
      exact h.add hb hnew hpoint hnumber
    · intro id hid
      rw [hr, Except.ok.injEq] at hid
      rw [← hid, leads_some, h.length_nodes, List.getElem?_concat_length]

/-- A walk reaches all beginnings of its chain, or those before the first one that is refused. -/
theorem outcome_walk {start : Option (String × Nat)} {r : Except Failure (Option Nat)}
    (h : Charted g w.store (g.links w.host) reached.eraseDups)
    (hpath : start.map Prod.fst = along none before)
    (hb : Leads reached.eraseDups (start.map Prod.snd) before)
    (hpoint : ∀ a ∈ before ++ rest, '.' ∉ a.toList)
    (hrun : (walk g.create start rest).run w = (r, w')) :
    Outcome g w w' reached (stretch before rest) r := by
  induction rest generalizing start before reached w with
  | nil =>
    rw [walk_nil, Attempt.run_pure, Prod.mk.injEq] at hrun
    obtain ⟨rfl, rfl⟩ := hrun
    exact .inl ⟨_, rfl, Reaches.refl h⟩
  | cons name rest ih =>
    have hbehind : ∀ a ∈ (before ++ [name]) ++ rest, '.' ∉ a.toList := by simpa using hpoint
    have hhead : ∀ a ∈ before ++ [name], '.' ∉ a.toList := fun a ha =>
      hbehind a (List.mem_append_left rest ha)
    rw [run_walk_cons, hpath] at hrun
    rw [stretch_cons]
    rw [← List.singleton_append]
    rcases hreach : (reach g.create (extend (along none before) name) (start.map Prod.snd)
        name).run w with ⟨e | id, w₁⟩
    · obtain ⟨hrefused, -⟩ := outcome_reach h hb hhead hreach
      rw [hreach, Prod.mk.injEq] at hrun
      obtain ⟨rfl, rfl⟩ := hrun
      exact hrefused.append _
    · obtain ⟨hreached, hleads⟩ := outcome_reach h hb hhead hreach
      rw [hreach] at hrun
      have hstart : Option.map Prod.fst (some (extend (along none before) name, id)) =
          along none (before ++ [name]) := (along_concat before name).symm
      exact hreached.reaches.outcome
        (ih hreached.reaches.charted hstart (hleads id rfl) hbehind hrun)

/-- Resolving a chain reaches all its beginnings, or those before the first one that is refused. -/
theorem outcome_resolve {chain : List String} {r : Except Failure (Option Nat)}
    (h : Charted g w.store (g.links w.host) reached.eraseDups)
    (hpoint : ∀ a ∈ chain, '.' ∉ a.toList)
    (hrun : (RelationTable.resolve g.create chain).run w = (r, w')) :
    Outcome g w w' reached (beginnings chain) r := by
  have hroot : Leads reached.eraseDups (Option.map Prod.snd (none : Option (String × Nat))) [] :=
    rfl
  rw [← stretch_root]
  exact outcome_walk h rfl hroot hpoint hrun

/-- Attempts one after the other, each of which reaches chains of its own, reach the chains of all,
or those before the first one that is refused. They may rely on the rest of the plan, which stays as
it is. -/
theorem outcome_forEach {f : α → Attempt Failure (Workspace (RelationTable H) Plan) β}
    {chains : α → List (List String)} {rest : Plan} {l : List α} {r : Except Failure (List β)}
    (hf : ∀ a ∈ l, ∀ {w w' reached r}, Charted g w.store (g.links w.host) reached.eraseDups →
      g.others w.host = rest → (f a).run w = (r, w') → Outcome g w w' reached (chains a) r)
    (h : Charted g w.store (g.links w.host) reached.eraseDups) (hrest : g.others w.host = rest)
    (hrun : (Attempt.forEach f l).run w = (r, w')) :
    Outcome g w w' reached (l.flatMap chains) r := by
  induction l generalizing reached w w' r with
  | nil =>
    rw [Attempt.forEach_nil, Attempt.run_pure, Prod.mk.injEq] at hrun
    obtain ⟨rfl, rfl⟩ := hrun
    exact .inl ⟨_, rfl, Reaches.refl h⟩
  | cons a l ih =>
    rw [List.forall_mem_cons] at hf
    rw [Attempt.forEach_cons, Attempt.run_bind] at hrun
    rw [List.flatMap_cons]
    rcases hfirst : (f a).run w with ⟨e | b, w₁⟩
    · have hrefused := hf.1 h hrest hfirst
      rw [hfirst, Prod.mk.injEq] at hrun
      obtain ⟨rfl, rfl⟩ := hrun
      exact hrefused.append _
    · have hreached := (hf.1 h hrest hfirst).reaches
      have hrest₁ : g.others w₁.host = rest := hreached.others_eq.trans hrest
      rw [hfirst] at hrun
      rcases hlater : (Attempt.forEach f l).run w₁ with ⟨e | bs, w₂⟩
      · simp only [Attempt.run_bind, hlater, Prod.mk.injEq] at hrun
        obtain ⟨rfl, rfl⟩ := hrun
        exact hreached.outcome (ih hf.2 hreached.charted hrest₁ hlater)
      · simp only [Attempt.run_bind, hlater, Attempt.run_pure, Prod.mk.injEq] at hrun
        obtain ⟨rfl, rfl⟩ := hrun
        have hbehind := (ih hf.2 hreached.charted hrest₁ hlater).reaches
        exact .inl ⟨_, rfl, hreached.trans hbehind⟩

/-- Resolving one chain after the other reaches the beginnings of all, or those before the first one
that is refused. -/
theorem outcome_resolveAll {leaves : List (List String)} {r : Except Failure (List (Option Nat))}
    (h : Charted g w.store (g.links w.host) reached.eraseDups)
    (hpoint : ∀ chain ∈ leaves, ∀ a ∈ chain, '.' ∉ a.toList)
    (hrun : (Attempt.forEach (RelationTable.resolve g.create) leaves).run w = (r, w')) :
    Outcome g w w' reached (leaves.flatMap beginnings) r :=
  outcome_forEach
    (fun chain hchain => fun hcharted _ => outcome_resolve hcharted (hpoint chain hchain)) h rfl hrun

/-! ## What is refused -/

/-- The chains before the first one whose name is rejected. -/
def upTo (rejected : List String) (chains : List (List String)) : List (List String) :=
  chains.takeWhile fun chain => lastName chain ∉ rejected

/-- The answer to a request for chains: the first name among theirs that is rejected is refused. -/
def answer (rejected : List String) (chains : List (List String)) : Except Failure Unit :=
  match chains.find? fun chain => lastName chain ∈ rejected with
  | none => .ok ()
  | some chain => .error (.unknownAttribute (lastName chain))

/-- If nothing that is rejected was reached before, then it is known what is reached, and what is
answered. -/
theorem Outcome.eq_upTo {r : Except Failure α} (h : Outcome g w w' reached chains r)
    (hreached : ∀ chain ∈ reached, lastName chain ∉ w.host.rejected) :
    Reaches g w w' reached (upTo w.host.rejected chains) ∧
      r.map (fun _ => ()) = answer w.host.rejected chains := by
  have hadmitted {seen : List (List String)} (hs : Reaches g w w' reached seen) :
      ∀ chain ∈ seen, lastName chain ∉ w.host.rejected := fun chain hm =>
    (hs.admitted chain hm).elim (hreached chain) id
  rcases h with ⟨a, rfl, hreaches⟩ | ⟨done, chain, behind, rfl, rfl, hlast, hreaches⟩
  · have hall := hadmitted hreaches
    have htake : upTo w.host.rejected chains = chains := by
      rw [upTo, List.takeWhile_eq_self_iff]
      simpa using hall
    have hfind : chains.find? (fun chain => lastName chain ∈ w.host.rejected) = none := by
      rw [List.find?_eq_none]
      simpa using hall
    rw [htake, answer, hfind]
    exact ⟨hreaches, rfl⟩
  · have hall := hadmitted hreaches
    have htake : upTo w.host.rejected (done ++ chain :: behind) = done := by
      rw [upTo, List.takeWhile_append_of_pos (by simpa using hall),
        List.takeWhile_cons_of_neg (by simpa using hlast), List.append_nil]
    have hfind : (done ++ chain :: behind).find? (fun chain => lastName chain ∈ w.host.rejected) =
        some chain := by
      have hnone : done.find? (fun chain => lastName chain ∈ w.host.rejected) = none := by
        rw [List.find?_eq_none]
        simpa using hall
      rw [List.find?_append, hnone, Option.none_or, List.find?_cons_of_pos (by simpa using hlast)]
    rw [htake, answer, hfind]
    exact ⟨hreaches, rfl⟩

end Register

end Criteria
