import Mathlib
import Criteria.Proofs.Property.Inquiry
import Criteria.Proofs.Relation.Chains
import Criteria.Proofs.Relation.Coherence

/-!
# Answers without conditions

As long as no condition is put on a join, the path of a property is its name, and
which requests fail is told from the rejected names alone. So what an inquiry
comes to can be read off without making any joins; a scope in which joins are
reused differs from one without reuse in how many joins it makes.
-/

namespace Criteria

/-- The plan but for its joins. -/
def Plan.withoutJoins (p : Plan) : Plan := { p with joins := [] }

namespace Property

open Criteria.Relation (extend along extend_along)
open Criteria.RelationTable (reach walk walk_nil run_walk_cons reach_cases getElem?_add)

variable {w w₁ w' : Scope} {p p' : Plan} {n m : Nat} {name : String} {chain rejected : List String}
  {path : Option String} {parent : Option Nat} {α β : Type}

/-! ## Answers -/

/-- The path of a property if no join on its way has a condition. -/
def answer (rejected : List String) (name : String) : Except Failure String :=
  if "" ∈ attributes name then .error (.invalidTraversal name)
  else
    match (attributes name).find? (· ∈ rejected) with
    | none => .ok name
    | some a => .error (.unknownAttribute a)

/-- How many joins lie on the way to a property, up to the first that is rejected. -/
def distance (rejected : List String) (name : String) : Nat :=
  if "" ∈ attributes name then 0
  else ((attributes name).dropLast.takeWhile (· ∉ rejected)).length

/-- On the way to a property that is there, no join is rejected. -/
theorem distance_of_answer {text : String} (h : answer rejected name = .ok text) :
    distance rejected name = (attributes name).length - 1 := by
  rw [answer] at h
  split at h
  · cases h
  · next hempty =>
    split at h
    · next hnone =>
      have hall : ∀ a ∈ (attributes name).dropLast, decide (a ∉ rejected) = true := by
        intro a ha
        simpa using List.find?_eq_none.1 hnone a (List.mem_of_mem_dropLast ha)
      rw [distance, if_neg hempty, List.takeWhile_eq_self_iff.2 hall, List.length_dropLast]
    · cases h

/-! ## Scopes without conditions -/

/-- No join of the table has a condition, and none of them leads along a rejected attribute. -/
structure Unconditioned (w : Scope) : Prop where
  memo_eq_nil : w.store.memoize = false → w.store.memo = []
  path_eq : ∀ node ∈ w.store.nodes, node.handle.path = node.path
  found : ∀ path id, w.store.lookup path = some id → w.store.pathOf (some id) = some path
  admitted : ∀ node ∈ w.store.nodes, ∀ a ∈ attributes node.path, a ∉ w.host.rejected

theorem unconditioned_empty (memoize : Bool) (plan : Plan) (tally : Tally) :
    Unconditioned ⟨.empty .join memoize, plan, tally⟩ := by
  constructor <;> simp [RelationTable.empty, RelationTable.lookup]

/-- What is read behind a join has the path of the join in front. -/
theorem Unconditioned.pathFrom (h : Unconditioned w) (parent : Option Nat) (name : String) :
    Plan.pathFrom (parent.bind w.store.handle?) name = extend (w.store.pathOf parent) name := by
  cases parent with
  | none => rfl
  | some id =>
    rw [Option.bind_some, RelationTable.handle?, RelationTable.get?, RelationTable.pathOf_some]
    cases hn : w.store.nodes[id]? with
    | none => rfl
    | some node =>
      have hpath := h.path_eq node (List.mem_of_getElem? hn)
      simp only [Option.map_some, Plan.pathFrom, extend, hpath]

/-- The attributes on the way to a join are not rejected. -/
theorem Unconditioned.admitted_pathOf (h : Unconditioned w) (parent : Option Nat) :
    ∀ a ∈ names (w.store.pathOf parent), a ∉ w.host.rejected := by
  cases parent with
  | none => simp
  | some id =>
    rw [RelationTable.pathOf_some]
    cases hn : w.store.nodes[id]? with
    | none => simp
    | some node => exact h.admitted node (List.mem_of_getElem? hn)

theorem Unconditioned.of_eq (h : Unconditioned w) (hstore : w'.store = w.store)
    (hrejected : w'.host.rejected = w.host.rejected) : Unconditioned w' := by
  constructor <;> rw [hstore]
  · exact h.memo_eq_nil
  · exact h.path_eq
  · exact h.found
  · rw [hrejected]
    exact h.admitted

/-- The scope is without conditions again, and its plan is given but for the joins, of which there
are at most so many more; just so many if none is found again. -/
structure Passes (w w' : Scope) (p : Plan) (n : Nat) : Prop where
  unconditioned : Unconditioned w'
  host_eq : w'.host.withoutJoins = p
  memoize_eq : w'.store.memoize = w.store.memoize
  length_le : w'.host.joins.length ≤ w.host.joins.length + n
  length_eq : w.store.memoize = false → w'.host.joins.length = w.host.joins.length + n

namespace Passes

/-- Neither table nor joins have changed. -/
theorem of_eq (h : Unconditioned w) (hstore : w'.store = w.store)
    (hrejected : w'.host.rejected = w.host.rejected) (hjoins : w'.host.joins = w.host.joins) :
    Passes w w' w'.host.withoutJoins 0 where
  unconditioned := h.of_eq hstore hrejected
  host_eq := rfl
  memoize_eq := by rw [hstore]
  length_le := by
    rw [hjoins]
    omega
  length_eq _ := by
    rw [hjoins]
    omega

theorem refl (h : Unconditioned w) : Passes w w w.host.withoutJoins 0 := of_eq h rfl rfl rfl

theorem trans (h : Passes w w₁ p n) (h' : Passes w₁ w' p' m) : Passes w w' p' (n + m) where
  unconditioned := h'.unconditioned
  host_eq := h'.host_eq
  memoize_eq := h'.memoize_eq.trans h.memoize_eq
  length_le := by
    have hfirst := h.length_le
    have hsecond := h'.length_le
    omega
  length_eq := by
    intro hmemoize
    have hfirst := h.length_eq hmemoize
    have hsecond := h'.length_eq (h.memoize_eq.trans hmemoize)
    omega

theorem rejected_eq (h : Passes w w' w.host.withoutJoins n) :
    w'.host.rejected = w.host.rejected := by
  have hhost : w'.host.withoutJoins.rejected = w.host.withoutJoins.rejected := by rw [h.host_eq]
  exact hhost

end Passes

/-! ## Walks -/

/-- Adding a join without a condition behind another one. -/
theorem Unconditioned.add (h : Unconditioned w) (hpath : w.store.pathOf parent = path)
    (hpoint : '.' ∉ name.toList) (hname : name ∉ w.host.rejected) {join : Join}
    (hjoin : join.path = extend path name) {host : Plan} (hhost : host.rejected = w.host.rejected)
    (tally : Tally) :
    Unconditioned ⟨w.store.add ⟨extend path name, parent, join⟩, host, tally⟩ where
  memo_eq_nil hmemoize := by
    have hmemo := h.memo_eq_nil hmemoize
    have hoff : w.store.memoize = false := hmemoize
    simp [RelationTable.add, hoff, hmemo]
  path_eq := by
    intro node hn
    rcases List.mem_append.1 hn with hn | hn
    · exact h.path_eq node hn
    · rw [List.mem_singleton.1 hn]
      exact hjoin
  found := by
    intro path' id hlookup
    rw [RelationTable.pathOf_some, Option.map_eq_some_iff]
    rcases RelationTable.lookup_of_add hlookup with hlookup | ⟨rfl, rfl⟩
    · obtain ⟨node, hn, hnode⟩ := Option.map_eq_some_iff.1 (h.found path' id hlookup)
      exact ⟨node, getElem?_add.2 (.inl hn), hnode⟩
    · exact ⟨_, getElem?_add.2 (.inr ⟨rfl, rfl⟩), rfl⟩
  admitted := by
    intro node hn a ha
    rw [hhost]
    rcases List.mem_append.1 hn with hn | hn
    · exact h.admitted node hn a ha
    · rw [List.mem_singleton.1 hn, attributes_extend _ hpoint] at ha
      rcases List.mem_append.1 ha with ha | ha
      · rw [← hpath] at ha
        exact h.admitted_pathOf parent a ha
      · rw [List.mem_singleton.1 ha]
        exact hname

/-- A step of a walk is refused, or ends at the join of its path. -/
theorem passes_reach (h : Unconditioned w) (hpath : w.store.pathOf parent = path)
    (hpoint : '.' ∉ name.toList) {r : Except Failure Nat}
    (hrun : (reach Plan.join (extend path name) parent name).run w = (r, w')) :
    (name ∈ w.host.rejected ∧ r = .error (.unknownAttribute name) ∧
      Passes w w' w.host.withoutJoins 0) ∨
    (name ∉ w.host.rejected ∧ ∃ id, r = .ok id ∧
      w'.store.pathOf (some id) = some (extend path name) ∧
      Passes w w' w.host.withoutJoins 1) := by
  rcases reach_cases hrun with ⟨id, hl, hr, hst, hh⟩ | ⟨hl, e, hr, hst, hcreate⟩ |
    ⟨hl, join, hr, hst, hcreate⟩
  · -- what is found again has been admitted before
    have hfound := h.found _ _ hl
    have hname : name ∉ w.host.rejected := by
      refine h.admitted_pathOf (some id) name ?_
      rw [hfound, names_some, attributes_extend _ hpoint]
      simp
    refine .inr ⟨hname, id, hr, by rw [hst]; exact hfound, h.of_eq hst (by rw [hh]), by rw [hh],
      by rw [hst], by rw [hh]; omega, ?_⟩
    intro hmemoize
    rw [RelationTable.lookup, h.memo_eq_nil hmemoize] at hl
    cases hl
  · rw [Plan.run_join] at hcreate
    split at hcreate
    · next hname =>
      rw [Prod.mk.injEq, Except.error.injEq] at hcreate
      obtain ⟨rfl, hhost⟩ := hcreate
      have hpasses := Passes.of_eq h hst (by rw [← hhost]) (by rw [← hhost])
      rw [← hhost] at hpasses
      exact .inl ⟨hname, hr, hpasses⟩
    · cases hcreate
  · rw [Plan.run_join] at hcreate
    split at hcreate
    · cases hcreate
    · next hname =>
      rw [Prod.mk.injEq, Except.ok.injEq] at hcreate
      obtain ⟨hjoin, hh⟩ := hcreate
      have hpathFrom : join.path = extend path name := by
        rw [← hjoin, ← hpath]
        exact h.pathFrom parent name
      have hadded : Unconditioned
          ⟨w.store.add ⟨extend path name, parent, join⟩, w'.host, w'.tally⟩ :=
        h.add hpath hpoint hname hpathFrom (by rw [← hh]) _
      refine .inr ⟨hname, _, hr, ?_, hadded.of_eq hst rfl, by rw [← hh]; rfl, by rw [hst]; rfl,
        by simp [← hh], by simp [← hh]⟩
      rw [hst, RelationTable.pathOf_some, Option.map_eq_some_iff]
      exact ⟨_, getElem?_add.2 (.inr ⟨rfl, rfl⟩), rfl⟩

/-- A walk is refused at the first rejected name of its chain, or ends at the join of its path. -/
theorem passes_walk (h : Unconditioned w) {start : Option (String × Nat)}
    (hstart : w.store.pathOf (start.map Prod.snd) = start.map Prod.fst)
    (hpoint : ∀ a ∈ chain, '.' ∉ a.toList) {r : Except Failure (Option Nat)}
    (hrun : (walk Plan.join start chain).run w = (r, w')) :
    Passes w w' w.host.withoutJoins (chain.takeWhile (· ∉ w.host.rejected)).length ∧
      match chain.find? (· ∈ w.host.rejected) with
      | some a => r = .error (.unknownAttribute a)
      | none => ∃ id, r = .ok id ∧ w'.store.pathOf id = along (start.map Prod.fst) chain := by
  induction chain generalizing start w with
  | nil =>
    rw [walk_nil, Attempt.run_pure, Prod.mk.injEq] at hrun
    obtain ⟨rfl, rfl⟩ := hrun
    exact ⟨.refl h, _, rfl, hstart⟩
  | cons name chain ih =>
    rw [List.forall_mem_cons] at hpoint
    rw [run_walk_cons] at hrun
    rcases hreach : (reach Plan.join (extend (start.map Prod.fst) name) (start.map Prod.snd)
        name).run w with ⟨r₁, w₁⟩
    rw [hreach] at hrun
    rcases passes_reach h hstart hpoint.1 hreach with ⟨hname, rfl, hpasses⟩ |
      ⟨hname, id, rfl, hid, hpasses⟩
    · rw [Prod.mk.injEq] at hrun
      obtain ⟨rfl, rfl⟩ := hrun
      simpa [hname] using hpasses
    · have hrejected := hpasses.rejected_eq
      have hnext :
          w₁.store.pathOf (Option.map Prod.snd (some (extend (start.map Prod.fst) name, id))) =
            Option.map Prod.fst (some (extend (start.map Prod.fst) name, id)) := hid
      obtain ⟨hrest, hend⟩ := ih hpasses.unconditioned hnext hpoint.2 hrun
      rw [hrejected] at hrest hend
      rw [hpasses.host_eq] at hrest
      rw [List.takeWhile_cons_of_pos (by simpa using hname),
        List.find?_cons_of_neg (by simpa using hname), List.length_cons, Nat.add_comm]
      exact ⟨hpasses.trans hrest, hend⟩

/-- Without conditions the path of a property is as expected, and so is the way to it. -/
theorem run_path (h : Unconditioned w) (name : String) :
    ∃ w', (Property.path name).run w = (answer w.host.rejected name, w') ∧
      Passes w w' w.host.withoutJoins (distance w.host.rejected name) := by
  rw [answer, distance]
  cases hcut : cut? name with
  | none =>
    have hempty := cut?_eq_none_iff.1 hcut
    rw [if_pos hempty, if_pos hempty, Property.path, resolve, hcut]
    exact ⟨w, rfl, .refl h⟩
  | some parts =>
    obtain ⟨chain, last⟩ := parts
    have hempty : "" ∉ attributes name := by
      rw [← cut?_eq_none_iff, hcut]
      simp
    have hname := attributes_of_cut? hcut
    rw [if_neg hempty, if_neg hempty, hname, List.dropLast_concat, List.find?_append, Property.path,
      run_resolve hcut]
    rcases hwalk : (RelationTable.resolve Plan.join chain).run w with ⟨r, w₁⟩
    have hroot : w.store.pathOf (Option.map Prod.snd (none : Option (String × Nat))) =
        Option.map Prod.fst (none : Option (String × Nat)) := rfl
    obtain ⟨hpasses, hend⟩ := passes_walk h hroot (point_not_mem_of_cut? hcut) hwalk
    refine ⟨w₁, ?_, hpasses⟩
    cases hfind : chain.find? (· ∈ w.host.rejected) with
    | some a =>
      rw [hfind] at hend
      rw [hend]
      rfl
    | none =>
      rw [hfind] at hend
      obtain ⟨id, rfl, hid⟩ := hend
      have htext : Plan.pathFrom (id.bind w₁.store.handle?) last = name := by
        rw [hpasses.unconditioned.pathFrom, hid, Option.map_none, extend_along, ← hname,
          intercalate_attributes]
      have hvisit : (id.elim (pure ()) fun _ => (pure () : Attempt Failure Scope Unit)).run w₁ =
          (.ok (), w₁) := by
        cases id <;> rfl
      simp only [hvisit, Plan.run_property, hpasses.rejected_eq, htext]
      by_cases hlast : last ∈ w.host.rejected <;> simp [hlast]

/-! ## Inquiries -/

/-- The request puts no condition on a join. -/
def Request.IsPlain : Request → Prop
  | .path _ => True
  | .pathOn _ _ => False

namespace Inquiry

/-- What an inquiry comes to without any joins: its result, and the plan it leaves. -/
def reading : Inquiry α → Plan → Except Failure α × Plan
  | done result, p => (result, p)
  | ask request next, p => (next (answer p.rejected request.name)).reading p
  | present presentation next, p => next.reading (presentation.apply p)
  | record _ next, p => next.reading p

/-- The names an inquiry asks for, without any joins. -/
def asked : Inquiry α → Plan → List String
  | done _, _ => []
  | ask request next, p => request.name :: (next (answer p.rejected request.name)).asked p
  | present presentation next, p => next.asked (presentation.apply p)
  | record _ next, p => next.asked p

theorem reading_bind (x : Inquiry α) (f : α → Inquiry β) (p : Plan) :
    (x >>= f).reading p =
      match x.reading p with
      | (.ok a, p) => (f a).reading p
      | (.error e, p) => (.error e, p) := by
  induction x generalizing p with
  | done result => cases result <;> rfl
  | ask request next ih => exact ih _ p
  | present presentation next ih => exact ih _
  | record entry next ih => exact ih p

@[simp] theorem asked_pure (a : α) (p : Plan) : (pure a : Inquiry α).asked p = [] := rfl

@[simp] theorem asked_single (request : Request) (p : Plan) :
    (single request).asked p = [request.name] := rfl

/-- What is asked for first, and then what is asked for with the result. -/
theorem asked_bind {x : Inquiry α} {a : α} (h : x.reading p = (.ok a, p')) (f : α → Inquiry β) :
    (x >>= f).asked p = x.asked p ++ (f a).asked p' := by
  induction x generalizing p with
  | done result =>
    cases h
    rfl
  | ask request next ih => exact congrArg (request.name :: ·) (ih _ h)
  | present presentation next ih => exact ih h
  | record entry next ih => exact ih h

/-- Of the names of a strict inquiry that succeeds, all are answered. -/
theorem Strict.answered {x : Inquiry α} (h : x.Strict) {a : α} (hok : (x.reading p).1 = .ok a) :
    ∀ name ∈ x.asked p, ∃ text, answer p.rejected name = .ok text := by
  induction x generalizing p with
  | done result => simp [asked]
  | ask request next ih =>
    rw [asked, List.forall_mem_cons]
    cases hanswer : answer p.rejected request.name with
    | error e =>
      rw [reading, hanswer, h.1 e] at hok
      cases hok
    | ok text =>
      rw [reading, hanswer] at hok
      exact ⟨⟨text, rfl⟩, ih _ (h.2 _) hok⟩
  | present presentation next ih =>
    have hnext := ih h hok
    rwa [Presentation.rejected_apply] at hnext
  | record entry next ih => exact ih h hok

/-- So there is a join for each attribute but the last of each of them. -/
theorem Strict.map_distance {x : Inquiry α} (h : x.Strict) {a : α}
    (hok : (x.reading p).1 = .ok a) :
    (x.asked p).map (distance p.rejected) =
      (x.asked p).map fun name => (attributes name).length - 1 := by
  refine List.map_congr_left ?_
  intro name hname
  obtain ⟨text, htext⟩ := h.answered hok name hname
  exact distance_of_answer htext

end Inquiry

/-- Without conditions an inquiry comes to what it does without any joins, and makes joins on the
way to each name it asks for. -/
theorem run_inquiry (h : Unconditioned w) {x : Inquiry α} (hplain : x.All Request.IsPlain) :
    ∃ w', x.attempt.run w = ((x.reading w.host.withoutJoins).1, w') ∧
      x.names w = x.asked w.host.withoutJoins ∧
      Passes w w' (x.reading w.host.withoutJoins).2
        ((x.asked w.host.withoutJoins).map (distance w.host.rejected)).sum := by
  induction x generalizing w with
  | done result => exact ⟨w, rfl, rfl, .refl h⟩
  | ask request next ih =>
    cases request with
    | pathOn name restriction => exact hplain.1.elim
    | path name =>
      obtain ⟨w₁, hrun, hfirst⟩ := run_path h name
      obtain ⟨w', hrest, hnames, hpasses⟩ :=
        ih (answer w.host.rejected name) hfirst.unconditioned (hplain.2 _)
      rw [hfirst.host_eq] at hrest hnames hpasses
      rw [hfirst.rejected_eq] at hpasses
      refine ⟨w', ?_, ?_, ?_⟩
      · rw [Inquiry.run_ask, Request.attempt, hrun]
        exact hrest
      · rw [Inquiry.names, Request.attempt, hrun, hnames]
        rfl
      · exact hfirst.trans hpasses
  | present presentation next ih =>
    have hshown : Passes w { w with host := presentation.apply w.host }
        (presentation.apply w.host).withoutJoins 0 := Passes.of_eq h rfl (by simp) (by simp)
    have hcomm : (presentation.apply w.host).withoutJoins =
        presentation.apply w.host.withoutJoins := by
      cases presentation <;> rfl
    obtain ⟨w', hrest, hnames, hpasses⟩ := ih hshown.unconditioned hplain
    have hboth := hshown.trans hpasses
    simp only [hcomm, Presentation.rejected_apply, Nat.zero_add] at hrest hnames hboth
    exact ⟨w', hrest, hnames, hboth⟩
  | record entry next ih =>
    have hnoted : Passes w { w with tally := entry w.tally } w.host.withoutJoins 0 :=
      Passes.of_eq h rfl rfl rfl
    obtain ⟨w', hrest, hnames, hpasses⟩ := ih hnoted.unconditioned hplain
    have hboth := hnoted.trans hpasses
    rw [Nat.zero_add] at hboth
    exact ⟨w', hrest, hnames, hboth⟩

end Property

end Criteria
