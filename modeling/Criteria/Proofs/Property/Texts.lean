import Mathlib
import Criteria.Proofs.Property.Lockstep

/-!
# Texts of joins

The path of a handle is the text that stands for its join in conditions. It begins
with the path that the handle of the parent had when the join was created, and
goes on with the conditions that were put on the join itself, in order. So the
plan and the moment of creation tell the text of every handle.
-/

namespace Criteria.Property

open Criteria.RelationTable (getElem?_add handle?_of_getElem?)

variable {w w' : Scope} {chain : List String} {name : String} {parent : Option Nat}
  {joining : Bool} {P P' : Nat → Option Nat → String → String → Prop}

/-! ## Texts and conditions -/

/-- The conditions on a join of the plan, in the order in which they were put on it. -/
def conditionsOn (p : Plan) (id : Nat) : List String :=
  (p.restrictions.filter (·.1 = id)).map (·.2)

/-- The path of each handle is a base text, which has a property together with the number, the
parent and the name of its join, and all conditions on the join; and there are conditions on joins
of the table only. -/
structure Told (P : Nat → Option Nat → String → String → Prop) (w : Scope) : Prop where
  text : ∀ (number : Nat) (node : Relation Join), w.store.nodes[number]? = some node →
    ∃ base, P number node.parent node.name base ∧
      node.handle.path = base ++ onTexts (conditionsOn w.host node.handle.id)
  owned : ∀ entry ∈ w.host.restrictions, entry.1 ∈ w.store.nodes.map (·.handle.id)

namespace Told

theorem mono (h : Told P w) (hP : ∀ number parent name base,
    P number parent name base → P' number parent name base) : Told P' w := by
  refine ⟨?_, h.owned⟩
  intro number node hn
  obtain ⟨base, hbase, hpath⟩ := h.text number node hn
  exact ⟨base, hP _ _ _ _ hbase, hpath⟩

/-- A join that is created has no conditions. -/
theorem conditionsOn_new (h : Told P w) (hstep : InStep w) :
    conditionsOn w.host w.host.joins.length = [] := by
  rw [conditionsOn, List.map_eq_nil_iff, List.filter_eq_nil_iff]
  intro entry he
  obtain ⟨node, hm, hid⟩ := List.mem_map.1 (h.owned entry he)
  obtain ⟨number, hn⟩ := List.mem_iff_getElem?.1 hm
  have hlt := hstep.id_lt hn
  rw [hid] at hlt
  simpa using Nat.ne_of_lt hlt

/-- A join that is created is told if its text is. -/
theorem create (h : Told P w) (hstep : InStep w) (hname : '.' ∉ name.toList) (tally : Tally)
    (hP : P w.store.nodes.length parent name (Plan.pathFrom (parent.bind w.store.handle?) name)) :
    Told P (created w parent name tally) := by
  refine ⟨?_, ?_⟩
  · intro number node hn
    rcases getElem?_add.1 hn with hn | ⟨rfl, rfl⟩
    · exact h.text number node hn
    · refine ⟨Plan.pathFrom (parent.bind w.store.handle?) name, ?_, ?_⟩
      · rwa [Relation.name_extend rfl hname]
      · have hnone : conditionsOn (created w parent name tally).host w.host.joins.length = [] :=
          h.conditionsOn_new hstep
        rw [hnone, onTexts_nil, String.append_empty]
  · intro entry he
    rw [created, RelationTable.nodes_add, List.map_append]
    exact List.mem_append_left _ (h.owned entry he)

/-- A condition stands at the end of the text of its own join, and in no other text. -/
theorem restrict (h : Told P w) (hstep : InStep w) {number : Nat} {join : Join}
    (hj : w.store.handle? number = some join) (condition : String) :
    Told P (restricted w number join condition) := by
  have hconditions (id : Nat) : conditionsOn (restricted w number join condition).host id =
      conditionsOn w.host id ++ if join.id = id then [condition] else [] := by
    rw [conditionsOn, restricted, List.filter_append, List.map_append, ← conditionsOn]
    by_cases hid : join.id = id <;> simp [hid]
  refine ⟨?_, ?_⟩
  · intro i node hn
    obtain ⟨old, ho, hpath, hparent, hid, htext⟩ := exists_of_restricted hj hn
    obtain ⟨base, hbase, hold⟩ := h.text i old ho
    have hname : node.name = old.name := by rw [Relation.name, hpath, ← Relation.name]
    have hsame : number = i ↔ join.id = old.handle.id := by
      obtain ⟨node', hn', rfl⟩ := Option.map_eq_some_iff.1 hj
      rw [RelationTable.get?] at hn'
      constructor
      · rintro rfl
        rw [hn', Option.some.injEq] at ho
        rw [ho]
      · exact hstep.eq_of_id_eq hn' ho
    refine ⟨base, ?_, ?_⟩
    · rwa [hparent, hname]
    · rw [htext, hold, hid, hconditions, onTexts_append, String.append_assoc]
      by_cases hi : number = i <;> simp [hi, ← hsame]
  · intro entry he
    rw [map_id_restricted hj]
    rcases List.mem_append.1 he with he | he
    · exact h.owned entry he
    · obtain ⟨node, hn, rfl⟩ := Option.map_eq_some_iff.1 hj
      rw [List.mem_singleton.1 he]
      exact List.mem_map_of_mem (List.mem_of_getElem? hn)

theorem turn (h : Told P w) (hstep : InStep w) (ht : Turn joining w w') : Told P w' := by
  cases ht with
  | restrict condition hj => exact h.restrict hstep hj condition
  | consult _ _ => exact ⟨h.text, h.owned⟩
  | present presentation =>
    obtain ⟨htext, howned⟩ := h
    refine ⟨?_, ?_⟩
    · simpa only [conditionsOn, Presentation.restrictions_apply] using htext
    · simpa only [Presentation.restrictions_apply] using howned
  | record tally => exact ⟨h.text, h.owned⟩

theorem turns (h : Told P w) (hstep : InStep w) (ht : Turns joining w w') : Told P w' := by
  induction ht with
  | refl => exact h
  | tail hbefore hlast ih => exact ih.turn (hstep.events (Turns.events hbefore)) hlast

end Told

/-! ## Moments of creation -/

/-- The text of a join that is created in a scope: its attribute, behind the text that the handle of
its parent has there. -/
def Based (w : Scope) (parent : Option Nat) (name base : String) : Prop :=
  match parent with
  | none => base = name
  | some number => ∃ join, w.store.handle? number = some join ∧ base = join.path ++ "." ++ name

theorem based_pathFrom (hparent : ∀ number, parent = some number → number < w.store.nodes.length)
    (name : String) :
    Based w parent name (Plan.pathFrom (parent.bind w.store.handle?) name) := by
  cases parent with
  | none => rfl
  | some number =>
    have hhandle := handle?_of_getElem? (List.getElem?_eq_getElem (hparent number rfl))
    refine ⟨_, hhandle, ?_⟩
    rw [Option.bind_some, hhandle, Plan.pathFrom]

/-- A walk tells the texts of the joins that it creates, each as it stands at that moment. -/
theorem Told.moment (h : Told P w) (hstep : InStep w) (hnames : ∀ name ∈ chain, '.' ∉ name.toList)
    (hP : ∀ before name rest, chain = before ++ name :: rest → ∀ parent base,
      (moment (before ++ [name]) w).store.nodes.length =
        (moment before w).store.nodes.length + 1 →
      Based (moment before w) parent name base →
      P (moment before w).store.nodes.length parent name base) :
    Told P (moment chain w) := by
  induction chain using List.reverseRecOn with
  | nil => exact h
  | append_singleton chain name ih =>
    have hfront : ∀ name ∈ chain, '.' ∉ name.toList := fun name' hm =>
      hnames name' (List.mem_append_left _ hm)
    have hname : '.' ∉ name.toList := hnames name (List.mem_append_right _ List.mem_cons_self)
    obtain ⟨hevents, hstands⟩ : Events true w (Property.moment chain w) ∧ _ :=
      events_moment hstep hfront
    have hchain : Told P (Property.moment chain w) := by
      refine ih hfront fun before name' rest heq => hP before name' (rest ++ [name]) ?_
      rw [heq, List.append_assoc, List.cons_append]
    have hmoment := hstep.events hevents
    have hlast := hP chain name [] rfl
    have hadvance := (advance_moment hmoment hstands name).1
    generalize Property.moment (chain ++ [name]) w = w' at hadvance hlast ⊢
    cases hadvance with
    | stay tally =>
      have hturn : Turn true (Property.moment chain w) _ := .record tally
      exact hchain.turn hmoment hturn
    | create tally hparent =>
      exact hchain.create hmoment hname tally
        (hlast _ _ List.length_append (based_pathFrom hparent name))

/-! ## Runs -/

/-- The join was created in a run of requests when it had come to its attribute, and the base text
is the one that it got there. -/
def Born (w : Scope) (requests : List Request) (number : Nat) (parent : Option Nat)
    (name base : String) : Prop :=
  ∃ earlier request later before rest last, requests = earlier ++ request :: later ∧
    cut? request.name = some (before ++ name :: rest, last) ∧
    (moment before (after earlier w)).store.nodes.length = number ∧
    (moment (before ++ [name]) (after earlier w)).store.nodes.length = number + 1 ∧
    Based (moment before (after earlier w)) parent name base

theorem Born.concat {requests : List Request} {number : Nat} {base : String}
    (h : Born w requests number parent name base) (request : Request) :
    Born w (requests ++ [request]) number parent name base := by
  obtain ⟨earlier, here, later, before, rest, last, rfl, hborn⟩ := h
  exact ⟨earlier, here, later ++ [request], before, rest, last, by simp, hborn⟩

theorem after_concat (requests : List Request) (request : Request) (w : Scope) :
    after (requests ++ [request]) w = (request.attempt.run (after requests w)).2 :=
  List.foldl_concat _ _ _ _

theorem told_empty (memoize : Bool) {plan : Plan} (hfresh : plan.restrictions = [])
    (tally : Tally) : Told P ⟨.empty .join memoize, plan, tally⟩ := by
  refine ⟨?_, ?_⟩
  · intro number node hn
    cases hn
  · intro entry he
    rw [hfresh] at he
    cases he

/-- Every request keeps the texts that are told and tells those of the joins that it creates. -/
theorem told_after {requests : List Request} (hsurveys : ∀ request ∈ requests, request.Surveys)
    (hstep : InStep w) (htold : Told (Born w []) w) :
    InStep (after requests w) ∧ Told (Born w requests) (after requests w) := by
  -- From the right, since a request starts from the scope that those before it have left.
  induction requests using List.reverseRecOn with
  | nil => exact ⟨hstep, htold⟩
  | append_singleton requests request ih =>
    rw [List.forall_mem_append, List.forall_mem_singleton] at hsurveys
    obtain ⟨hbefore, htold⟩ := ih hsurveys.1
    have hevents : Events true (after requests w) _ :=
      events_request hsurveys.2 nofun hbefore
    rw [after_concat]
    refine ⟨hbefore.events hevents, ?_⟩
    have hkept : Told (Born w (requests ++ [request])) (after requests w) :=
      htold.mono fun _ _ _ _ hborn => hborn.concat request
    cases hcut : cut? request.name with
    | none => rwa [run_attempt_of_cut?_eq_none hcut]
    | some parts =>
      obtain ⟨chain, last⟩ := parts
      have hnames := point_not_mem_of_cut? hcut
      have hmoment : Told (Born w (requests ++ [request])) (moment chain (after requests w)) := by
        refine hkept.moment hbefore hnames ?_
        rintro before name rest rfl parent base hlength hbased
        exact ⟨requests, request, [], before, rest, last, rfl, hcut, rfl, hlength, hbased⟩
      have hwalked : Events true (after requests w) (moment chain (after requests w)) :=
        (events_moment hbefore hnames).1
      have hturns : Turns true (moment chain (after requests w)) _ :=
        turns_request hsurveys.2 nofun hbefore hcut
      exact hmoment.turns (hbefore.events hwalked) hturns

/-- Whatever is asked for from a plan without joins and conditions, with or without memory and with
all failures on the way, the text of each handle is the text that its join got when it was created,
followed by the conditions that were put on it since, in order; and each condition was put on one
join of the table. -/
theorem texts_after (memoize : Bool) {plan : Plan} (hjoins : plan.joins = [])
    (hrestrictions : plan.restrictions = []) (tally : Tally) {requests : List Request}
    (hsurveys : ∀ request ∈ requests, request.Surveys) :
    let start : Scope := ⟨.empty .join memoize, plan, tally⟩
    let w := after requests start
    (∀ (number : Nat) (node : Relation Join), w.store.nodes[number]? = some node →
      ∃ base, Born start requests number node.parent node.name base ∧
        node.handle.path = base ++ onTexts (conditionsOn w.host node.handle.id)) ∧
      ∀ entry ∈ w.host.restrictions, ∃! number : Nat, ∃ node : Relation Join,
        w.store.nodes[number]? = some node ∧ node.handle.id = entry.1 := by
  intro start w
  obtain ⟨hstep, htold⟩ := told_after hsurveys (inStep_empty memoize hjoins tally)
    (told_empty memoize hrestrictions tally)
  refine ⟨htold.text, ?_⟩
  intro entry he
  obtain ⟨node, hm, hid⟩ := List.mem_map.1 (htold.owned entry he)
  obtain ⟨number, hn⟩ := List.mem_iff_getElem?.1 hm
  refine ⟨number, ⟨node, hn, hid⟩, ?_⟩
  rintro number' ⟨node', hn', hid'⟩
  exact hstep.eq_of_id_eq hn' hn (hid'.trans hid.symm)

/-- A condition on a join behind which another one stands already and a third one is created later;
it is put on the first join twice, the second time by a request that fails in the end. -/
def conditionedRequests : List Request :=
  [.path "a.b.x", .pathOn "a.y" (Restriction.eval .always), .pathOn "a.r" (Restriction.eval .never),
    .pathOn "a.c.x" (Restriction.eval (.join "n" (.compare "k" .isNull none)))]

/-- The scope after these requests. -/
def conditionedScope : Scope :=
  after conditionedRequests ⟨.empty .join true, { rejected := ["r"] }, {}⟩

theorem texts_after_conditioned :
    (∃ base, Born ⟨.empty .join true, { rejected := ["r"] }, {}⟩ conditionedRequests 2 (some 0) "c"
        base ∧
      "a[on 1=1][on 1=0].c[on a[on 1=1][on 1=0].c.n.k is null]" =
        base ++ onTexts ["a[on 1=1][on 1=0].c.n.k is null"]) ∧
      ∃! number : Nat, ∃ node : Relation Join,
        conditionedScope.store.nodes[number]? = some node ∧ node.handle.id = 0 := by
  have hsurveys : ∀ request ∈ conditionedRequests, request.Surveys := by
    simp only [conditionedRequests, List.forall_mem_cons]
    exact ⟨trivial, Restriction.surveys _ _, Restriction.surveys _ _, Restriction.surveys _ _,
      List.forall_mem_nil _⟩
  have hrejecting : ({ rejected := ["r"] } : Plan).joins = [] ∧
      ({ rejected := ["r"] } : Plan).restrictions = [] := ⟨rfl, rfl⟩
  have htold := texts_after true hrejecting.1 hrejecting.2 {} hsurveys
  dsimp only at htold
  rw [← conditionedScope] at htold
  refine ⟨?_, htold.2 (0, "1=0") ?_⟩
  · have hnode : conditionedScope.store.nodes[2]?.map
        (fun node => (node.parent, node.name, node.handle)) =
        some (some 0, "c", ⟨2, "a[on 1=1][on 1=0].c[on a[on 1=1][on 1=0].c.n.k is null]"⟩) := by
      decide +kernel
    obtain ⟨node, hn, heq⟩ := Option.map_eq_some_iff.1 hnode
    rw [Prod.mk.injEq, Prod.mk.injEq] at heq
    obtain ⟨hparent, hname, hhandle⟩ := heq
    have hconditions : conditionsOn conditionedScope.host 2 =
        ["a[on 1=1][on 1=0].c.n.k is null"] := by
      decide +kernel
    obtain ⟨base, hborn, hpath⟩ := htold.1 2 node hn
    rw [hparent, hname] at hborn
    rw [hhandle, hconditions] at hpath
    exact ⟨base, hborn, hpath⟩
  · decide +kernel

end Criteria.Property
