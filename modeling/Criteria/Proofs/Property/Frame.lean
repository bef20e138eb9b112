import Mathlib
import Criteria.Proofs.Property.Lockstep
import Criteria.Proofs.Relation.Growth

/-!
# What a request may touch

A request for a property walks along joins and may put a condition on the last of
them. All other joins of the table stay as they were, and of the plan nothing but
joins and restrictions is touched, wherever the request fails. A name that is
refused touches nothing, and a property of the root asks for no condition.
-/

namespace Criteria.Property

open Criteria.Relation (along_none)
open RelationTable (findable_empty getElem?_of_isPrefix getElem?_replaceHandle_of_ne
  getElem?_replaceHandle_self handle?_of_getElem? lengthens_resolve reach_cases run_resolve_concat)

variable {w w' w₁ : Scope} {p p' p'' : Plan} {chain : List String} {last : String}

/-! ## Plans with further joins -/

/-- The second plan has further joins at the end and is the first one otherwise. -/
def Joined (p p' : Plan) : Prop := ∃ links, p' = { p with joins := p.joins ++ links }

namespace Joined

theorem refl (p : Plan) : Joined p p := ⟨[], by rw [List.append_nil]⟩

theorem trans (h : Joined p p') (h' : Joined p' p'') : Joined p p'' := by
  obtain ⟨links, rfl⟩ := h
  obtain ⟨links', rfl⟩ := h'
  exact ⟨links ++ links', by rw [List.append_assoc]⟩

theorem isPrefix (h : Joined p p') : p.joins <+: p'.joins := by
  obtain ⟨links, rfl⟩ := h
  exact List.prefix_append _ _

end Joined

theorem joined_join (from? : Option Join) (name : String) (p : Plan) :
    Joined p ((Plan.join from? name).run p).2 := by
  rw [Plan.run_join]
  split
  · exact .refl p
  · exact ⟨_, rfl⟩

/-- A survey joins further, from whatever it knows. -/
theorem Survey.joined_attempt (survey : Survey) (p : Plan) : Joined p (survey.attempt.run p).2 := by
  induction survey generalizing p with
  | done result => exact .refl p
  | property from? name next ih =>
    rw [attempt, Attempt.run_bind, Attempt.run_outcome, Plan.run_property]
    exact ih _ p
  | join from? name next ih =>
    rw [attempt, Attempt.run_bind, Attempt.run_outcome]
    exact (joined_join from? name p).trans (ih _ _)

theorem joined_reach (path : String) (parent : Option Nat) (name : String) (w : Scope) :
    Joined w.host ((RelationTable.reach Plan.join path parent name).run w).2.host := by
  rcases hreach : (RelationTable.reach Plan.join path parent name).run w with ⟨r, w'⟩
  have hjoin := joined_join (parent.bind w.store.handle?) name w.host
  rcases reach_cases hreach with ⟨_, -, -, -, hh⟩ | ⟨-, _, -, -, hrun⟩ | ⟨-, _, -, -, hrun⟩
  · rw [hh]
    exact .refl _
  · rwa [hrun] at hjoin
  · rwa [hrun] at hjoin

theorem joined_moment (chain : List String) (w : Scope) : Joined w.host (moment chain w).host := by
  induction chain using List.reverseRecOn with
  | nil => exact .refl _
  | append_singleton chain name ih =>
    rw [moment] at ih ⊢
    rw [run_resolve_concat]
    rcases hwalk : (RelationTable.resolve Plan.join chain).run w with ⟨e | id, w₁⟩ <;>
      rw [hwalk] at ih
    · exact ih
    · exact ih.trans (joined_reach _ _ _ _)

/-! ## What a request can do -/

/-- The last join of a chain, if the walk comes to its end. -/
def lastJoin (chain : List String) (w : Scope) : Option Nat :=
  match ((RelationTable.resolve Plan.join chain).run w).1 with
  | .ok number => number
  | .error _ => none

namespace Request

/-- The condition of the request, if it has one, is the result of a survey, from whatever joins. -/
def AsksPlan : Request → Prop
  | path _ => True
  | pathOn _ restriction => ∀ here, ∃ survey : Survey, survey.attempt = restriction here

/-- What comes of the condition of the request, if it is asked for. -/
def consulted (request : Request) (chain : List String) (w : Scope) :
    Option (Except Failure Expr) :=
  match request with
  | path _ => none
  | pathOn _ restriction =>
    ((lastJoin chain w).bind (moment chain w).store.handle?).map fun join =>
      ((restriction join).run (moment chain w).host).1

end Request

/-- What a request with joins can do from where its walk has ended: stop there, read the property,
ask for a condition in vain, or put a condition on the last join. -/
inductive Effect (w₁ : Scope) (path : String) :
    Option Nat → Option (Except Failure Expr) → Except Failure String → Scope → Prop
  | stop (e : Failure) : Effect w₁ path none none (.error e) w₁
  | read {number : Nat} {node : Relation Join} (hn : w₁.store.nodes[number]? = some node)
      (hpath : node.path = path) (r : Except Failure String) :
      Effect w₁ path (some number) none r w₁
  | fail {number : Nat} {node : Relation Join} (hn : w₁.store.nodes[number]? = some node)
      (hpath : node.path = path) (e : Failure) {host : Plan} (hjoined : Joined w₁.host host) :
      Effect w₁ path (some number) (some (.error e)) (.error e) { w₁ with host }
  | restrict {number : Nat} {node : Relation Join} (hn : w₁.store.nodes[number]? = some node)
      (hpath : node.path = path) (condition : Expr) {host : Plan} (hjoined : Joined w₁.host host)
      (r : Except Failure String) :
      Effect w₁ path (some number) (some (.ok condition)) r
        (restricted { w₁ with host } number node.handle condition.text)

theorem effect_attempt (h : w.store.Findable) {request : Request} (hasks : request.AsksPlan)
    (hcut : cut? request.name = some (chain, last)) (hne : chain ≠ []) :
    Effect (moment chain w) (".".intercalate chain) (lastJoin chain w) (request.consulted chain w)
      (request.attempt.run w).1 (request.attempt.run w).2 := by
  -- A walk that comes to the end has reached a join, so that a condition is asked for.
  have hpath := (lengthens_resolve Plan.join chain h).pathOf_eq
  rw [Request.attempt_eq_resolve, run_resolve hcut]
  rcases hwalk : (RelationTable.resolve Plan.join chain).run w with ⟨e | id, w₁⟩
  · have hconsulted : request.consulted chain w = none := by
      cases request with
      | path name => rfl
      | pathOn name restriction => simp only [Request.consulted, lastJoin, hwalk]; rfl
    rw [hconsulted]
    simp only [moment, lastJoin, hwalk]
    exact .stop e
  · rw [hwalk, along_none hne] at hpath
    replace hpath : w₁.store.pathOf id = some (".".intercalate chain) := hpath id rfl
    cases id with
    | none => cases hpath
    | some number =>
      obtain ⟨node, hn, hpath⟩ := Option.map_eq_some_iff.1 hpath
      replace hn : w₁.store.nodes[number]? = some node := hn
      cases request with
      | path name =>
        simp only [moment, lastJoin, hwalk]
        exact .read hn hpath _
      | pathOn name restriction =>
        obtain ⟨survey, hsurvey⟩ := hasks node.handle
        have hjoined := survey.joined_attempt w₁.host
        rw [hsurvey] at hjoined
        simp only [Request.consulted, moment, lastJoin, hwalk, Option.bind_some, Option.elim_some,
          Request.visit, run_restrictAt, handle?_of_getElem? hn, Option.map_some]
        rcases hrun : (restriction node.handle).run w₁.host with ⟨e | condition, host⟩ <;>
          rw [hrun] at hjoined
        · exact .fail hn hpath e hjoined
        · exact .restrict hn hpath condition hjoined _

/-! ## What it spares -/

/-- The plan but for its joins and restrictions. -/
def others (p : Plan) : Plan := { p with joins := [], restrictions := [] }

theorem Joined.others_eq (h : Joined p p') : others p' = others p := by
  obtain ⟨links, rfl⟩ := h
  rfl

theorem Joined.restrictions_eq (h : Joined p p') : p'.restrictions = p.restrictions := by
  obtain ⟨links, rfl⟩ := h
  rfl

/-- What a request with joins leaves alone, and what it does to the last of them. The walk goes from
`w` to `w₁`, and the whole request to `w'`. -/
structure Spares (w w₁ w' : Scope) (path : String) (number : Option Nat)
    (condition : Option (Except Failure Expr)) (r : Except Failure String) : Prop where
  isPrefix : w.store.nodes <+: w₁.store.nodes
  /-- A join that was there, other than the last one, is the same. -/
  node_eq : ∀ (n : Nat) (node : Relation Join), w.store.nodes[n]? = some node → number ≠ some n →
    w'.store.nodes[n]? = some node
  /-- The last join stays where it is, and has another handle just if a condition was put on it. -/
  last : ∀ n, number = some n → ∃ node node', w₁.store.nodes[n]? = some node ∧
    w'.store.nodes[n]? = some node' ∧ node.path = path ∧ node'.path = path ∧
    node'.parent = node.parent ∧ node'.handle.id = node.handle.id ∧
    (node'.handle ≠ node.handle ↔ ∃ e, condition = some (.ok e))
  restricted : ∀ e, condition = some (.ok e) → ∃ n node, number = some n ∧
    w'.store.nodes[n]? = some node ∧
    w'.host.restrictions = w.host.restrictions ++ [(node.handle.id, e.text)]
  unrestricted : (¬ ∃ e, condition = some (.ok e)) →
    w'.store = w₁.store ∧ w'.host.restrictions = w.host.restrictions
  /-- A failure of the condition is that of the request, and the joins of the chain are kept. -/
  failed : ∀ e, condition = some (.error e) → r = .error e ∧ w₁.host.joins <+: w'.host.joins

/-- A request that puts no condition on a join leaves the table as the walk has left it. -/
theorem Spares.of_store_eq {path : String} {number : Option Nat}
    {condition : Option (Except Failure Expr)} {r : Except Failure String}
    (hkept : w.store.nodes <+: w₁.store.nodes) (hstore : w'.store = w₁.store)
    (hrestrictions : w'.host.restrictions = w.host.restrictions)
    (hlast : ∀ n, number = some n → ∃ node, w₁.store.nodes[n]? = some node ∧ node.path = path)
    (hnot : ¬ ∃ e, condition = some (.ok e))
    (hfailed : ∀ e, condition = some (.error e) → r = .error e ∧ w₁.host.joins <+: w'.host.joins) :
    Spares w w₁ w' path number condition r where
  isPrefix := hkept
  node_eq n node hn _ := by
    rw [hstore]
    exact getElem?_of_isPrefix hkept hn
  last n hnumber := by
    obtain ⟨node, hn, hpath⟩ := hlast n hnumber
    exact ⟨node, node, hn, hstore ▸ hn, hpath, hpath, rfl, rfl, fun hne => absurd rfl hne,
      fun hmade => absurd hmade hnot⟩
  restricted e he := absurd ⟨e, he⟩ hnot
  unrestricted _ := ⟨hstore, hrestrictions⟩
  failed := hfailed

/-- A condition in a path can be seen. -/
theorem onText_ne (join : Join) (condition : String) :
    ({ join with path := join.path ++ onText condition } : Join) ≠ join := by
  intro heq
  have hlength := congrArg (fun join : Join => join.path.length) heq
  have hon : "[on ".length = 4 := rfl
  simp only [onText, String.length_append, hon] at hlength
  omega

namespace Effect

variable {path : String} {number : Option Nat} {condition : Option (Except Failure Expr)}
  {r : Except Failure String}

theorem others_eq (h : Effect w₁ path number condition r w') :
    others w'.host = others w₁.host := by
  cases h with
  | stop e => rfl
  | read hn hpath r => rfl
  | fail hn hpath e hjoined => exact hjoined.others_eq
  | restrict hn hpath condition hjoined r => exact hjoined.others_eq

theorem spares (h : Effect w₁ path number condition r w')
    (hkept : w.store.nodes <+: w₁.store.nodes) (hwalked : Joined w.host w₁.host) :
    Spares w w₁ w' path number condition r := by
  cases h with
  | stop e => exact .of_store_eq hkept rfl hwalked.restrictions_eq nofun nofun nofun
  | @read number node hn hpath =>
    refine .of_store_eq hkept rfl hwalked.restrictions_eq ?_ nofun nofun
    rintro _ ⟨⟩
    exact ⟨node, hn, hpath⟩
  | @fail number node hn hpath e host hjoined =>
    refine .of_store_eq hkept rfl (hwalked.trans hjoined).restrictions_eq ?_ nofun ?_
    · rintro _ ⟨⟩
      exact ⟨node, hn, hpath⟩
    · rintro _ ⟨⟩
      exact ⟨rfl, hjoined.isPrefix⟩
  | @restrict number node hn hpath e host hjoined =>
    have hself := getElem?_replaceHandle_self hn
      { node.handle with path := node.handle.path ++ onText e.text }
    refine ⟨hkept, ?_, ?_, ?_, fun hnot => absurd ⟨e, rfl⟩ hnot, nofun⟩
    · intro n old ho hne
      rw [Property.restricted, getElem?_replaceHandle_of_ne fun heq => hne (congrArg some heq)]
      exact getElem?_of_isPrefix hkept ho
    · rintro _ ⟨⟩
      exact ⟨node, _, hn, hself, hpath, hpath, rfl, rfl, fun _ => ⟨e, rfl⟩,
        fun _ => onText_ne node.handle e.text⟩
    · rintro _ ⟨⟩
      refine ⟨number, _, rfl, hself, ?_⟩
      rw [Property.restricted, (hwalked.trans hjoined).restrictions_eq]

end Effect

/-! ## Scopes that can be reached -/

/-- A scope that can be reached: from an empty table of any kind, by requests, by walks in the table
and new handles, and by whatever else happens to the plan and the tally. -/
inductive Reachable : Scope → Prop
  | empty (kind : RelationKind) (memoize : Bool) (plan : Plan) (tally : Tally) :
      Reachable ⟨.empty kind memoize, plan, tally⟩
  | request {w : Scope} (h : Reachable w) (request : Request) : Reachable (request.attempt.run w).2
  | walk {w : Scope} (h : Reachable w) {ε V : Type}
      (create : Option Join → String → Attempt ε V Join) (chain : List String) (v : V) :
      Reachable
        { w with store := ((RelationTable.resolve create chain).run ⟨w.store, v, w.tally⟩).2.store }
  | replaceHandle {w : Scope} (h : Reachable w) (number : Nat) (join : Join) :
      Reachable { w with store := w.store.replaceHandle number join }
  | elsewhere {w : Scope} (h : Reachable w) (plan : Plan) (tally : Tally) :
      Reachable { w with host := plan, tally }

theorem findable_visit (request : Request) (number : Nat) (h : w.store.Findable) :
    ((request.visit number).run w).2.store.Findable := by
  cases request with
  | path name => exact h
  | pathOn name restriction =>
    rw [Request.visit, run_restrictAt]
    cases w.store.handle? number with
    | none => exact h
    | some join =>
      rcases hrun : (restriction join).run w.host with ⟨e | condition, host⟩
      · simpa only [hrun] using h
      · simpa only [hrun] using h.replaceHandle number _

theorem findable_attempt (request : Request) (h : w.store.Findable) :
    (request.attempt.run w).2.store.Findable := by
  cases hcut : cut? request.name with
  | none => rwa [run_attempt_of_cut?_eq_none hcut]
  | some parts =>
    obtain ⟨chain, last⟩ := parts
    have hwalked := (lengthens_resolve Plan.join chain h).findable
    rw [Request.attempt_eq_resolve, run_resolve hcut]
    rcases hwalk : (RelationTable.resolve Plan.join chain).run w with ⟨e | id, w₁⟩ <;>
      rw [hwalk] at hwalked
    · exact hwalked
    · have hvisited : ((id.elim (pure ()) request.visit).run w₁).2.store.Findable := by
        cases id with
        | none => exact hwalked
        | some number => exact findable_visit request number hwalked
      rcases hv : (id.elim (pure ()) request.visit).run w₁ with ⟨e | u, w₂⟩ <;>
      · rw [hv] at hvisited
        simpa only [hv] using hvisited

theorem Reachable.findable (h : Reachable w) : w.store.Findable := by
  induction h with
  | empty kind memoize plan tally => exact findable_empty kind memoize
  | request h request ih => exact findable_attempt request ih
  | walk h create chain v ih => exact (lengthens_resolve create chain (w := ⟨_, v, _⟩) ih).findable
  | replaceHandle h number join ih => exact ih.replaceHandle number join
  | elsewhere h plan tally ih => exact ih

/-! ## Requests -/

theorem cut?_eq_some_iff {name : String} :
    cut? name = some (chain, last) ↔ attributes name = chain ++ [last] ∧ "" ∉ attributes name := by
  constructor
  · intro hcut
    refine ⟨attributes_of_cut? hcut, fun hempty => ?_⟩
    rw [cut?_eq_none_iff.2 hempty] at hcut
    cases hcut
  · rintro ⟨hattributes, hempty⟩
    cases hcut : cut? name with
    | none => exact absurd (cut?_eq_none_iff.1 hcut) hempty
    | some parts =>
      have heq := attributes_of_cut? hcut
      rw [hattributes] at heq
      obtain ⟨hchain, hlast⟩ := List.append_inj' heq rfl
      rw [hchain, List.singleton_inj.1 hlast]

/-- A request from a scope that can be reached, with a condition that is the result of a survey,
touches what it has to and nothing else. -/
theorem attempt_spares (h : Reachable w) {request : Request} (hasks : request.AsksPlan) :
    let w' := (request.attempt.run w).2
    ("" ∈ attributes request.name → ∀ other : Request, other.name = request.name →
      other.attempt.run w = (.error (.invalidTraversal request.name), w)) ∧
    (∀ last, attributes request.name = [last] → last ≠ "" →
      ∀ other : Request, other.name = request.name →
        other.attempt.run w = (((Plan.property none last).run w.host).1, w)) ∧
    (∀ chain last, attributes request.name = chain ++ [last] → "" ∉ attributes request.name →
      chain ≠ [] →
      Spares w (moment chain w) w' (".".intercalate chain) (lastJoin chain w)
        (request.consulted chain w) (request.attempt.run w).1) ∧
    others w'.host = others w.host := by
  have hrefused : "" ∈ attributes request.name → ∀ other : Request, other.name = request.name →
      other.attempt.run w = (.error (.invalidTraversal request.name), w) := by
    intro hempty other hname
    rw [Request.attempt_eq_resolve, resolve, hname, cut?_eq_none_iff.2 hempty]
    rfl
  have hroot : ∀ last, cut? request.name = some ([], last) →
      ∀ other : Request, other.name = request.name →
        other.attempt.run w = (((Plan.property none last).run w.host).1, w) := by
    intro last hcut other hname
    rw [Request.attempt_eq_resolve, hname, run_resolve hcut]
    rfl
  have heffect : ∀ chain last, cut? request.name = some (chain, last) → chain ≠ [] →
      Effect (moment chain w) (".".intercalate chain) (lastJoin chain w)
        (request.consulted chain w) (request.attempt.run w).1 (request.attempt.run w).2 :=
    fun chain last hcut hne => effect_attempt h.findable hasks hcut hne
  refine ⟨hrefused, ?_, ?_, ?_⟩
  · intro last hattributes hlast
    refine hroot last (cut?_eq_some_iff.2 ⟨hattributes, ?_⟩)
    rw [hattributes, List.mem_singleton]
    exact Ne.symm hlast
  · intro chain last hattributes hempty hne
    exact (heffect chain last (cut?_eq_some_iff.2 ⟨hattributes, hempty⟩) hne).spares
      (lengthens_resolve Plan.join chain h.findable).isPrefix (joined_moment chain w)
  · cases hcut : cut? request.name with
    | none => rw [run_attempt_of_cut?_eq_none hcut]
    | some parts =>
      obtain ⟨chain, last⟩ := parts
      by_cases hne : chain = []
      · subst hne
        rw [hroot last hcut request rfl]
      · exact (heffect chain last hcut hne).others_eq.trans (joined_moment chain w).others_eq

/-- What a restriction asks for is a survey. -/
theorem asksPlan_pathOn (name : String) (restriction : Restriction) :
    (Request.pathOn name restriction.eval).AsksPlan := fun here =>
  ⟨restriction.survey here, restriction.attempt_survey here⟩

/-- A condition that joins further is put on one of two joins; the other one has one already. -/
theorem attempt_spares_joining :
    let w := after [.path "a.b.x", .pathOn "a.y" (Restriction.compare "k" .isNull none).eval]
      ⟨.empty .join true, { rejected := ["r"] }, {}⟩
    let request : Request := .pathOn "a.b.z" (Restriction.join "n" (.compare "m" .isNull none)).eval
    let answered := request.attempt.run w
    Reachable w ∧ request.AsksPlan ∧
      Spares w (moment ["a", "b"] w) answered.2 "a.b" (some 1)
        (some (.ok (.compare .isNull "a.b.n.m" none))) answered.1 ∧
      others answered.2.host = others w.host ∧
      answered.2.host.restrictions = [(0, "a.k is null"), (1, "a.b.n.m is null")] := by
  intro w request answered
  have hreachable : Reachable w := .request (.request (.empty .join true _ {}) _) _
  have hasks : request.AsksPlan := asksPlan_pathOn _ _
  obtain ⟨-, -, hspares, hothers⟩ := attempt_spares hreachable hasks
  exact ⟨hreachable, hasks,
    hspares ["a", "b"] "z" (by decide +kernel) (by decide +kernel) (List.cons_ne_nil _ _), hothers,
    by decide +kernel⟩

end Criteria.Property
