import Mathlib
import Criteria.Proofs.Property.Events
import Criteria.Proofs.Query.Joins

/-!
# Table and plan in lockstep

Walks, conditions on joins and evaluations are followed event by event. Since
every event keeps table and plan in step, so does all that can be done in a scope,
with all ways in which it can fail.
-/

namespace Criteria.Property

open Criteria.Relation (extend along along_concat)
open Criteria.RelationTable (reach resolve_concat)

variable {w w' : Scope} {chain : List String} {path : Option String} {name : String}
  {parent : Option Nat} {joining : Bool} {α : Type}

/-! ## Walks -/

/-- The scope when a chain was walked, as far as the walk has come. -/
def moment (chain : List String) (w : Scope) : Scope :=
  ((RelationTable.resolve Plan.join chain).run w).2

/-- What happens on a walk for one more name. -/
inductive Advance (w : Scope) (name : String) : Scope → Prop
  | stay (tally : Tally) : Advance w name { w with tally }
  | create {parent : Option Nat} (tally : Tally)
      (hparent : ∀ number, parent = some number → number < w.store.nodes.length) :
      Advance w name (created w parent name tally)

theorem Advance.event (h : Advance w name w') (hname : '.' ∉ name.toList) : Event joining w w' := by
  cases h with
  | stay tally => exact .turn (.record tally)
  | create tally hparent => exact .create tally hparent hname

/-- There is a join of that number, and it has that path; at the root there is none. -/
structure Stands (w : Scope) (path : Option String) (number : Option Nat) : Prop where
  path_eq : w.store.pathOf number = path
  lt : ∀ n, number = some n → n < w.store.nodes.length

theorem stands_of_pathOf {number : Nat} {path : String}
    (h : w.store.pathOf (some number) = some path) : Stands w (some path) (some number) := by
  refine ⟨h, ?_⟩
  rintro n ⟨⟩
  obtain ⟨node, hn, -⟩ := Option.map_eq_some_iff.1 h
  exact (List.getElem?_eq_some_iff.1 hn).1

theorem stands_created (hs : Stands w path parent) (name : String) (tally : Tally) :
    Stands (created w parent name tally) (some (extend path name))
      (some w.store.nodes.length) := by
  refine stands_of_pathOf ?_
  rw [created, RelationTable.pathOf_add_length, hs.path_eq]

/-- One step finds a join, is refused, or creates a join in the table and in the plan. -/
theorem advance_reach (h : InStep w) (hs : Stands w path parent) (name : String) :
    Advance w name ((reach Plan.join (extend path name) parent name).run w).2 ∧
      ∀ number, ((reach Plan.join (extend path name) parent name).run w).1 = .ok number →
        Stands ((reach Plan.join (extend path name) parent name).run w).2
          (some (extend path name)) (some number) := by
  rw [RelationTable.run_reach]
  cases hlookup : w.store.lookup (extend path name) with
  | some id =>
    refine ⟨.stay _, ?_⟩
    rintro number ⟨⟩
    exact stands_of_pathOf (h.found _ _ hlookup)
  | none =>
    rw [Plan.run_join]
    by_cases hrejected : name ∈ w.host.rejected
    · simp only [if_pos hrejected]
      refine ⟨.stay w.tally, ?_⟩
      rintro number ⟨⟩
    · simp only [if_neg hrejected]
      have hcreated := stands_created hs name (w.tally.recordCreated w.store.kind)
      have hadvance : Advance w name (created w parent name (w.tally.recordCreated w.store.kind)) :=
        .create _ hs.lt
      simp only [created, hs.path_eq] at hcreated hadvance
      refine ⟨hadvance, ?_⟩
      rintro number ⟨⟩
      exact hcreated

/-- A walk one name further. -/
theorem advance_moment (h : InStep (moment chain w))
    (hs : ∀ number, ((RelationTable.resolve Plan.join chain).run w).1 = .ok number →
      Stands (moment chain w) (along none chain) number) (name : String) :
    Advance (moment chain w) name (moment (chain ++ [name]) w) ∧
      ∀ number, ((RelationTable.resolve Plan.join (chain ++ [name])).run w).1 = .ok number →
        Stands (moment (chain ++ [name]) w) (along none (chain ++ [name])) number := by
  simp only [moment] at h hs ⊢
  rw [resolve_concat, Attempt.run_bind, along_concat]
  rcases hwalk : (RelationTable.resolve Plan.join chain).run w with ⟨e | number, w₁⟩
  · refine ⟨.stay w₁.tally, ?_⟩
    rintro number ⟨⟩
  · rw [hwalk] at h hs
    obtain ⟨hadvance, hend⟩ := advance_reach h (hs number rfl) name
    simp only [Attempt.run_bind]
    rcases hreach : (reach Plan.join (extend (along none chain) name) number name).run w₁ with
      ⟨e | number', w₂⟩
    · rw [hreach] at hadvance
      refine ⟨hadvance, ?_⟩
      rintro number ⟨⟩
    · rw [hreach] at hadvance hend
      refine ⟨hadvance, ?_⟩
      rintro number ⟨⟩
      exact hend number' rfl

/-- All that happens on a walk is events, and a walk that succeeds ends at the join of its path. -/
theorem events_moment (h : InStep w) (hnames : ∀ name ∈ chain, '.' ∉ name.toList) :
    Events joining w (moment chain w) ∧
      ∀ number, ((RelationTable.resolve Plan.join chain).run w).1 = .ok number →
        Stands (moment chain w) (along none chain) number := by
  induction chain using List.reverseRecOn with
  | nil =>
    refine ⟨.refl, ?_⟩
    rintro number ⟨⟩
    exact ⟨rfl, fun n hn => nomatch hn⟩
  | append_singleton chain name ih =>
    have hfront : ∀ name ∈ chain, '.' ∉ name.toList := fun name' hm =>
      hnames name' (List.mem_append_left _ hm)
    have hname : '.' ∉ name.toList := hnames name (List.mem_append_right _ List.mem_cons_self)
    obtain ⟨hevents, hstands⟩ := ih hfront
    obtain ⟨hadvance, hend⟩ := advance_moment (h.events hevents) hstands name
    exact ⟨hevents.tail (hadvance.event hname), hend⟩

/-! ## Conditions on joins -/

/-- A condition that is asked for makes joins at most, and is then put on its join. -/
theorem turns_visit {request : Request} (hsurveys : request.Surveys)
    (hquiet : joining = false → request.KeepsJoins) (h : InStep w) (number : Nat) :
    Turns joining w ((request.visit number).run w).2 := by
  cases request with
  | path name => exact .refl
  | pathOn name restriction =>
    rw [Request.visit, run_restrictAt]
    cases hj : w.store.handle? number with
    | none => exact .refl
    | some join =>
      obtain ⟨node, hn, rfl⟩ := Option.map_eq_some_iff.1 hj
      obtain ⟨survey, hstarts, hsurvey⟩ := hsurveys node.handle
      have hknown : ∀ here ∈ [node.handle], here.id < w.host.joins.length := by
        rintro here hm
        rw [List.mem_singleton.1 hm]
        exact h.id_lt hn
      obtain ⟨links, hlinks, hgrown⟩ := Survey.grown_attempt hstarts hknown
      rw [hsurvey] at hlinks
      have hconsulted : Turns joining w { w with host := { w.host with joins := links } } := by
        cases joining with
        | true => exact .single (.consult rfl hgrown)
        | false =>
          -- A condition that makes no joins leaves the plan as it is.
          have hkept : links = w.host.joins := by
            rw [← hquiet rfl node.handle w.host, hlinks]
          rw [hkept]
      rcases hr : (restriction node.handle).run w.host with ⟨e | condition, host⟩
      · obtain rfl : host = { w.host with joins := links } := by rw [← hlinks, hr]
        simpa only [hr] using hconsulted
      · obtain rfl : host = { w.host with joins := links } := by rw [← hlinks, hr]
        have hrestrict : Turn joining { w with host := { w.host with joins := links } } _ :=
          .restrict condition.text hj
        simp only [hr]
        exact hconsulted.tail hrestrict

/-! ## Requests -/

/-- A request walks first, and then visits the last join, if both its name and the walk allow it. -/
theorem turns_request {request : Request} (hsurveys : request.Surveys)
    (hquiet : joining = false → request.KeepsJoins) (h : InStep w) {last : String}
    (hcut : cut? request.name = some (chain, last)) :
    Turns joining (moment chain w) (request.attempt.run w).2 := by
  have hwalked : Events joining w (moment chain w) :=
    (events_moment h (point_not_mem_of_cut? hcut)).1
  have hmoment : InStep (moment chain w) := h.events hwalked
  rw [moment] at hmoment ⊢
  rw [Request.attempt_eq_resolve, run_resolve hcut]
  rcases hwalk : (RelationTable.resolve Plan.join chain).run w with ⟨e | number, w₁⟩
  · exact .refl
  · rw [hwalk] at hmoment
    have hvisit : Turns joining w₁ ((number.elim (pure ()) request.visit).run w₁).2 := by
      cases number with
      | none => exact .refl
      | some number => exact turns_visit hsurveys hquiet hmoment number
    rcases hv : (number.elim (pure ()) request.visit).run w₁ with ⟨e | u, w₂⟩ <;>
    · rw [hv] at hvisit
      simp only [hv]
      exact hvisit

/-- A request whose name is refused changes nothing. -/
theorem run_attempt_of_cut?_eq_none {request : Request} (hcut : cut? request.name = none)
    (w : Scope) : (request.attempt.run w).2 = w := by
  rw [Request.attempt_eq_resolve, resolve, hcut]
  rfl

theorem events_request {request : Request} (hsurveys : request.Surveys)
    (hquiet : joining = false → request.KeepsJoins) (h : InStep w) :
    Events joining w (request.attempt.run w).2 := by
  cases hcut : cut? request.name with
  | none => rw [run_attempt_of_cut?_eq_none hcut]
  | some parts =>
    obtain ⟨chain, last⟩ := parts
    exact (events_moment h (point_not_mem_of_cut? hcut)).1.trans
      (turns_request hsurveys hquiet h hcut).events

/-! ## Inquiries -/

theorem events_inquiry {x : Inquiry α} (hsurveys : x.All Request.Surveys)
    (hquiet : joining = false → x.All Request.KeepsJoins) (h : InStep w) :
    Events joining w (x.attempt.run w).2 := by
  induction x generalizing w with
  | done result => exact .refl
  | ask request next ih =>
    rw [Inquiry.run_ask]
    have hfirst : Events joining w (request.attempt.run w).2 :=
      events_request hsurveys.1 (fun hj => (hquiet hj).1) h
    exact hfirst.trans
      (ih _ (hsurveys.2 _) (fun hj => (hquiet hj).2 _) (h.events hfirst))
  | present presentation next ih =>
    rw [Inquiry.run_present]
    have hfirst : Event joining w { w with host := presentation.apply w.host } :=
      .turn (.present presentation)
    exact .head hfirst (ih hsurveys hquiet (h.event hfirst))
  | record entry next ih =>
    rw [Inquiry.run_record]
    have hfirst : Event joining w { w with tally := entry w.tally } := .turn (.record _)
    exact .head hfirst (ih hsurveys hquiet (h.event hfirst))

/-! ## Runs -/

/-- What can be done in a scope. -/
inductive Act where
  | ask (request : Request)
  | evaluate (condition : Condition Leaf)

namespace Act

variable {script : Script} {act : Act}

/-- The scope behind an act, which may have failed. -/
def perform : Act → Scope → Scope
  | ask request, w => (request.attempt.run w).2
  | evaluate condition, w => ((condition.eval Leaf.eval).run w).2

/-- Conditions that are asked for are the results of surveys. This is so for the restrictions of
conditions; what callers evaluate by themselves has to be an inquiry. -/
def Surveys (script : Script) : Act → Prop
  | ask request => request.Surveys
  | evaluate condition => ∀ run, .custom run ∈ condition.leaves →
    (script run).attempt = run ∧ (script run).All Request.Surveys

/-- No condition that is asked for makes joins. -/
def KeepsJoins (script : Script) : Act → Prop
  | ask request => request.KeepsJoins
  | evaluate condition => ∀ l ∈ condition.leaves, (l.inquiry script).All Request.KeepsJoins

/-- An act is a sequence of events. -/
theorem events_perform (hsurveys : act.Surveys script)
    (hquiet : joining = false → act.KeepsJoins script) (h : InStep w) :
    Events joining w (act.perform w) := by
  cases act with
  | ask request => exact events_request hsurveys hquiet h
  | evaluate condition =>
    have hattempt : (condition.inquiry (Leaf.inquiry script)).attempt =
        condition.eval Leaf.eval := by
      refine Condition.attempt_inquiry fun l hl => l.attempt_inquiry ?_
      rintro run rfl
      exact (hsurveys run hl).1
    have hall : (condition.inquiry (Leaf.inquiry script)).All Request.Surveys := by
      refine Condition.composed_inquiry (C := fun {_} x => x.All Request.Surveys)
        (Inquiry.closed_all _).composed fun l hl => l.all_inquiry (fun _ => trivial) ?_ ?_
      · rintro name restriction op value -
        exact restriction.surveys name
      · rintro run rfl
        exact (hsurveys run hl).2
    rw [perform, ← hattempt]
    exact events_inquiry hall (fun hj => Condition.composed_inquiry
      (C := fun {_} x => x.All Request.KeepsJoins) (Inquiry.closed_all _).composed (hquiet hj)) h

end Act

/-- The scope behind acts, any of which may have failed. -/
def performed (acts : List Act) (w : Scope) : Scope := acts.foldl (fun w act => act.perform w) w

theorem performed_append (earlier later : List Act) (w : Scope) :
    performed (earlier ++ later) w = performed later (performed earlier w) :=
  List.foldl_append

theorem events_performed {script : Script} {acts : List Act}
    (hsurveys : ∀ act ∈ acts, act.Surveys script)
    (hquiet : joining = false → ∀ act ∈ acts, act.KeepsJoins script) (h : InStep w) :
    Events joining w (performed acts w) := by
  induction acts generalizing w with
  | nil => exact .refl
  | cons act acts ih =>
    rw [List.forall_mem_cons] at hsurveys
    have hquiet' : joining = false → act.KeepsJoins script ∧ ∀ act ∈ acts, act.KeepsJoins script :=
      fun hj => List.forall_mem_cons.1 (hquiet hj)
    have hfirst : Events joining w (act.perform w) :=
      act.events_perform hsurveys.1 (fun hj => (hquiet' hj).1) h
    exact hfirst.trans (ih hsurveys.2 (fun hj => (hquiet' hj).2) (h.events hfirst))

/-- Whatever is done from a plan without joins, with or without memory and with all failures on the
way, table and plan are in step, and no join of the plan is changed or taken back. If conditions
make no joins, then the joins of the table are those of the plan. -/
theorem inStep_performed (memoize : Bool) {plan : Plan} (hfresh : plan.joins = []) (tally : Tally)
    {script : Script} {acts : List Act} (hsurveys : ∀ act ∈ acts, act.Surveys script) :
    let w := performed acts ⟨.empty .join memoize, plan, tally⟩
    InStep w ∧
      (∀ earlier later, acts = earlier ++ later →
        (performed earlier ⟨.empty .join memoize, plan, tally⟩).host.joins <+: w.host.joins) ∧
      ((∀ act ∈ acts, act.KeepsJoins script) →
        w.store.nodes.length = w.host.joins.length ∧
        ∀ (number : Nat) (node : Relation Join), w.store.nodes[number]? = some node →
          node.handle.id = number) := by
  intro w
  have hempty := inStep_empty memoize hfresh tally
  have hevents {w : Scope} (h : InStep w) {acts : List Act}
      (hsurveys : ∀ act ∈ acts, act.Surveys script) : Events true w (performed acts w) :=
    events_performed hsurveys nofun h
  refine ⟨hempty.events (hevents hempty hsurveys), ?_, ?_⟩
  · rintro earlier later rfl
    rw [List.forall_mem_append] at hsurveys
    have hlater := hevents (hempty.events (hevents hempty hsurveys.1)) hsurveys.2
    rw [← performed_append] at hlater
    exact isPrefix_of_events hlater
  · intro hkeeps
    have hmatched : Matched ⟨.empty .join memoize, plan, tally⟩ := by
      simp [Matched, hfresh, RelationTable.empty]
    have hw : Matched w :=
      hmatched.events (events_performed hsurveys (fun _ => hkeeps) hempty)
    refine ⟨?_, fun number node hn => hw.id_eq hn⟩
    have hlength := congrArg List.length (show _ = _ from hw)
    rwa [List.length_map, List.length_range] at hlength

/-- Paths, a condition that is put on two joins and once asked for in vain, a name that does not
exist, and an evaluation in which a caller asks for a property. -/
def branchingActs (restriction : Restriction) : List Act :=
  [.ask (.path "a.b.x"),
    .ask (.pathOn "a.y" restriction.eval),
    .ask (.pathOn "a.z" (Restriction.and restriction (.compare "r" .isNull none)).eval),
    .ask (.path "b.r.x"),
    .evaluate (.or (.leaf (.compareOn "b.y" restriction .isNull none))
      (.leaf (.custom Query.ownInquiry.attempt)))]

theorem surveys_branchingActs (restriction : Restriction) :
    ∀ act ∈ branchingActs restriction, act.Surveys fun _ => Query.ownInquiry := by
  have hown : Query.ownInquiry.All Request.Surveys :=
    Inquiry.All.bind (Inquiry.all_single.2 trivial) fun _ => trivial
  intro act hact
  simp only [branchingActs, List.mem_cons, List.not_mem_nil, or_false] at hact
  rcases hact with rfl | rfl | rfl | rfl | rfl
  · trivial
  · exact restriction.surveys "a.y"
  · exact Restriction.surveys "a.z" _
  · trivial
  · intro run hrun
    have heq : Query.ownInquiry.attempt = run := by
      simpa [Condition.or, Condition.leaves, eq_comm] using hrun
    exact ⟨heq, hown⟩

theorem keepsJoins_branchingActs {restriction : Restriction} (h : restriction.Joinless) :
    ∀ act ∈ branchingActs restriction, act.KeepsJoins fun _ => Query.ownInquiry := by
  have hown : Query.ownInquiry.All Request.KeepsJoins :=
    Inquiry.All.bind (Inquiry.all_single.2 trivial) fun _ => trivial
  intro act hact
  simp only [branchingActs, List.mem_cons, List.not_mem_nil, or_false] at hact
  rcases hact with rfl | rfl | rfl | rfl | rfl
  · trivial
  · exact h.keeps_eval
  · exact Restriction.Joinless.keeps_eval ⟨h, trivial⟩
  · trivial
  · intro l hl
    refine l.keepsJoins_inquiry ?_ fun _ _ => hown
    rintro name restriction' op value rfl
    simp only [Condition.or, Condition.leaves, List.cons_append, List.nil_append, List.mem_cons,
      Leaf.compareOn.injEq, reduceCtorEq, List.not_mem_nil, or_false] at hl
    rwa [hl.2.1]

theorem inStep_performed_branching :
    let joining := performed (branchingActs (.join "n" (.compare "k" .isNull none)))
      ⟨.empty .join true, { rejected := ["r"] }, {}⟩
    let plain := performed (branchingActs (.compare "k" .isNull none))
      ⟨.empty .join false, { rejected := ["r"] }, {}⟩
    (InStep joining ∧ joining.store.nodes.map (·.handle.id) = [0, 1, 4, 6, 7] ∧
      joining.host.joins.length = 8) ∧
      InStep plain ∧ plain.store.nodes.length = plain.host.joins.length := by
  have hfresh : ({ rejected := ["r"] } : Plan).joins = [] := rfl
  have hjoining := inStep_performed true hfresh {}
    (surveys_branchingActs (.join "n" (.compare "k" .isNull none)))
  have hplain := inStep_performed false hfresh {}
    (surveys_branchingActs (.compare "k" .isNull none))
  refine ⟨⟨hjoining.1, ?_, ?_⟩, hplain.1, ?_⟩
  · decide +kernel
  · decide +kernel
  · exact (hplain.2.2 (keepsJoins_branchingActs trivial)).1

end Criteria.Property
