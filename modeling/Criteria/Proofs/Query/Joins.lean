import Mathlib
import Criteria.Proofs.Query.Inquiries
import Criteria.Proofs.Relation.Register

/-!
# Joins of a build

If joins are reused, a build makes the joins on which the properties it asks for
depend, in the order in which they are first needed, each of them once. Conditions
on joins replace handles and so have no part in this, as long as they make no
joins themselves.
-/

namespace Criteria

open Criteria.Relation (beginnings chainsOf linksOf filter_beginnings filter_eraseDups
  map_eraseDups)
open Criteria.Register (Charted outcome_resolve charted_empty)

/-! ## Names and their joins -/

namespace Property

variable {name last : String} {chain : List String}

/-- The chains of the joins on which a property depends: the beginnings of its name but for the
attribute that is read. -/
def joined (name : String) : List (List String) := beginnings (attributes name).dropLast

/-- The first attribute of a name. -/
def first (name : String) : String := (attributes name).headD ""

theorem joined_of_cut? (h : cut? name = some (chain, last)) : joined name = beginnings chain := by
  rw [joined, attributes_of_cut? h, List.dropLast_concat]

/-- Only a name with a point has an attribute that is joined. -/
theorem dropLast_attributes_eq_nil_iff : (attributes name).dropLast = [] ↔ '.' ∉ name.toList := by
  constructor
  · intro h hpoint
    obtain ⟨a, ha⟩ : ∃ a, attributes name = [a] := by
      have hsingle := List.dropLast_append_getLast (attributes_ne_nil name)
      rw [h, List.nil_append] at hsingle
      exact ⟨_, hsingle.symm⟩
    have hname : a = name := by
      rw [← intercalate_attributes name, ha, String.intercalate_singleton]
    refine point_not_mem name a ?_ ?_
    · rw [ha]
      exact List.mem_singleton_self a
    · rw [hname]
      exact hpoint
  · intro h
    rw [attributes, List.splitOn_eq_singleton h]
    rfl

/-- Of the joins of a property only the one to the first attribute starts from the root. -/
theorem filter_joined (name : String) :
    (joined name).filter (·.length = 1) = if '.' ∈ name.toList then [[first name]] else [] := by
  rw [joined, filter_beginnings]
  by_cases h : '.' ∈ name.toList
  · have hne : (attributes name).dropLast ≠ [] := fun heq =>
      dropLast_attributes_eq_nil_iff.1 heq h
    rw [if_pos h, first]
    cases ha : attributes name with
    | nil => exact absurd ha (attributes_ne_nil name)
    | cons a rest =>
      rw [ha] at hne
      cases rest with
      | nil => exact absurd rfl hne
      | cons b rest => rfl
  · rw [if_neg h, dropLast_attributes_eq_nil_iff.2 h]
    rfl

/-- The joins from the root lead to the first attributes of the names with points. -/
theorem filter_flatMap_joined (names : List String) :
    (names.flatMap joined).eraseDups.filter (·.length = 1) =
      ((names.filter ('.' ∈ ·.toList)).map first).eraseDups.map ([·]) := by
  have hroots : (names.flatMap joined).filter (·.length = 1) =
      ((names.filter ('.' ∈ ·.toList)).map first).map ([·]) := by
    induction names with
    | nil => rfl
    | cons name names ih =>
      rw [List.flatMap_cons, List.filter_append, filter_joined, ih]
      by_cases h : '.' ∈ name.toList <;> simp [h]
  rw [filter_eraseDups, hroots, map_eraseDups]
  intro a b heq
  exact List.singleton_inj.1 heq

/-! ## Single requests -/

variable {w w' : Scope} {reached chains : List (List String)} {text : String} {α : Type}

/-- The condition of the request, if it has one, makes no joins. -/
def Request.KeepsJoins : Request → Prop
  | .path _ => True
  | .pathOn _ restriction => ∀ join, (restriction join).Keeps Plan.joins

/-- A condition on the last join leaves the table in step. -/
theorem charted_visit {request : Request} (hkeeps : request.KeepsJoins) {id : Nat}
    (h : Charted .joins w.store w.host.joins chains)
    (hrun : (request.visit id).run w = (.ok (), w')) :
    Charted .joins w'.store w'.host.joins chains := by
  cases request with
  | path name =>
    cases hrun
    exact h
  | pathOn name restriction =>
    rw [Request.visit, run_restrictAt] at hrun
    cases hj : w.store.handle? id with
    | none =>
      simp only [hj] at hrun
      cases hrun
      exact h
    | some join =>
      rcases hr : (restriction join).run w.host with ⟨e | condition, host⟩
      · simp only [hj, hr] at hrun
        cases hrun
      · have hjoins : host.joins = w.host.joins := by
          have hk := hkeeps join w.host
          rwa [hr] at hk
        simp only [hj, hr] at hrun
        cases hrun
        simp only [hjoins]
        exact h.replaceHandle hj rfl

/-- A request that is answered makes those of its joins that were not there. -/
theorem charted_request {request : Request} (hkeeps : request.KeepsJoins)
    (h : Charted .joins w.store w.host.joins reached.eraseDups)
    (hrun : request.attempt.run w = (.ok text, w')) :
    Charted .joins w'.store w'.host.joins (reached ++ joined request.name).eraseDups := by
  rw [Request.attempt_eq_resolve] at hrun
  cases hcut : cut? request.name with
  | none =>
    rw [resolve, hcut] at hrun
    cases hrun
  | some parts =>
    obtain ⟨chain, last⟩ := parts
    rw [run_resolve hcut] at hrun
    rw [joined_of_cut? hcut]
    rcases hwalk : (RelationTable.resolve Plan.join chain).run w with ⟨e | id, w₁⟩
    · rw [hwalk] at hrun
      cases hrun
    · have hcharted : Charted .joins w₁.store w₁.host.joins
          (reached ++ beginnings chain).eraseDups :=
        (outcome_resolve h (point_not_mem_of_cut? hcut) hwalk).reaches.charted
      rw [hwalk] at hrun
      simp only at hrun
      rcases hvisit : (id.elim (pure ()) request.visit).run w₁ with ⟨e | u, w₂⟩
      · rw [hvisit] at hrun
        cases hrun
      · have hvisited : Charted .joins w₂.store w₂.host.joins
            (reached ++ beginnings chain).eraseDups := by
          cases id with
          | none =>
            cases hvisit
            exact hcharted
          | some id => exact charted_visit hkeeps hcharted hvisit
        rw [hvisit] at hrun
        simp only [Prod.mk.injEq] at hrun
        rw [← hrun.2]
        exact hvisited

/-! ## Inquiries -/

/-- An inquiry that succeeds makes the joins of all names it asked for that were not there. -/
theorem charted_inquiry {x : Inquiry α} (hkeeps : x.All Request.KeepsJoins) (hstrict : x.Strict)
    (h : Charted .joins w.store w.host.joins reached.eraseDups) {a : α}
    (hrun : x.attempt.run w = (.ok a, w')) :
    Charted .joins w'.store w'.host.joins
      (reached ++ (x.names w).flatMap joined).eraseDups := by
  induction x generalizing w reached with
  | done result =>
    cases hrun
    simpa [Inquiry.names] using h
  | ask request next ih =>
    rw [Inquiry.run_ask] at hrun
    rw [Inquiry.names, List.flatMap_cons, ← List.append_assoc]
    rcases hrequest : request.attempt.run w with ⟨e | text, w₁⟩
    · rw [hrequest, hstrict.1 e] at hrun
      cases hrun
    · have hfirst := charted_request hkeeps.1 h hrequest
      rw [hrequest] at hrun
      exact ih _ (hkeeps.2 _) (hstrict.2 _) hfirst hrun
  | present presentation next ih =>
    rw [Inquiry.run_present] at hrun
    exact ih hkeeps hstrict (by simpa using h) hrun
  | record entry next ih =>
    rw [Inquiry.run_record] at hrun
    exact ih hkeeps hstrict h hrun

end Property

/-- The restriction joins nothing itself. -/
def Restriction.Joinless : Restriction → Prop
  | join _ _ => False
  | and l r | or l r => l.Joinless ∧ r.Joinless
  | _ => True

theorem Restriction.Joinless.keeps_eval {restriction : Restriction} (h : restriction.Joinless)
    (here : Join) : (restriction.eval here).Keeps Plan.joins := by
  have hcompare : ∀ join name op value, (compareAt join name op value).Keeps Plan.joins := by
    intro join name op value
    refine Attempt.Keeps.bind ?_ fun path p => rfl
    intro p
    rw [Plan.run_property]
  induction restriction with
  | compare name op value => exact hcompare (some here) name op value
  | compareRoot name op value => exact hcompare none name op value
  | join name inner => exact h.elim
  | and l r ihl ihr => exact (ihl h.1).bind fun el => (ihr h.2).bind fun er => Attempt.keeps_pure _
  | or l r ihl ihr => exact (ihl h.1).bind fun el => (ihr h.2).bind fun er => Attempt.keeps_pure _
  | _ => exact fun p => rfl

/-- No leaf makes joins but for the properties it asks for if its restriction joins nothing. -/
theorem Leaf.keepsJoins_inquiry {script : Script} (l : Leaf)
    (hrestriction : ∀ name restriction op value, l = compareOn name restriction op value →
      restriction.Joinless)
    (hcustom : ∀ run, l = custom run → (script run).All Property.Request.KeepsJoins) :
    (l.inquiry script).All Property.Request.KeepsJoins := by
  refine l.all_inquiry (fun _ => trivial) ?_ hcustom
  intro name restriction op value hl
  exact (hrestriction name restriction op value hl).keeps_eval

/-! ## Builds -/

namespace Query

open Criteria.Property (Request joined first charted_inquiry filter_flatMap_joined)

variable {E : Type} {meet : Prefetcher E} {q : Query} {script : Script} {w w' : Workspace E Plan}
  {e : Expr} {joins : RelationTable Join}

/-- With reuse of joins, a reduction that succeeds over a plan without joins makes those of the
names that it asks for. -/
theorem charted_reduce {w₁ : Workspace E Plan} {scope : Scope}
    (hreuse : q.options.reuseJoins = true) (hscript : q.Scripted script)
    (hstrict : ∀ run, Leaf.custom run ∈ q.leaves → (script run).Strict)
    (hkeeps : ∀ l ∈ q.leaves, (l.inquiry script).All Request.KeepsJoins)
    (hjoins : w₁.host.joins = []) (hreduce : q.reduce.run (q.opening w₁) = (.ok e, scope)) :
    Charted .joins scope.store scope.host.joins
      (((q.inquiry script).names (q.opening w₁)).flatMap joined).eraseDups := by
  have hopening : Charted .joins (q.opening w₁).store (q.opening w₁).host.joins
      ([] : List (List String)).eraseDups := by
    rw [opening, hreuse]
    simp only [hjoins]
    exact charted_empty .joins .join
  rw [← attempt_inquiry hscript] at hreduce
  have hcharted := charted_inquiry (all_inquiry hkeeps) (strict_inquiry hstrict) hopening hreduce
  rwa [List.nil_append] at hcharted

/-- With reuse of joins, the joins of a plan without joins are, after a build, those of the names
that were asked for, in the order in which they were first needed, each created once; the table that
is handed out lists the same. What callers evaluate has to pass failures on, and restrictions must
not join. -/
theorem joins_of_build (hreuse : q.options.reuseJoins = true) (hscript : q.Scripted script)
    (hstrict : ∀ run, Leaf.custom run ∈ q.leaves → (script run).Strict)
    (hkeeps : ∀ l ∈ q.leaves, (l.inquiry script).All Request.KeepsJoins)
    (hmeet : Prefetch.KeepsJoins meet) (hfresh : w.host.joins = [])
    (hbuild : (q.build meet).run w = (.ok (e, joins), w')) :
    let names := q.referenced script meet w
    let chains := (names.flatMap joined).eraseDups
    chainsOf w'.host.joins = chains ∧ w'.host.joins = linksOf chains ∧
      (w'.host.joins.map fun link => (link.parent, link.name)).Nodup ∧
      w'.host.rootJoins.map (·.name) =
        ((names.filter ('.' ∈ ·.toList)).map first).eraseDups ∧
      joins.paths = chains.map ".".intercalate := by
  intro names chains
  obtain ⟨w₁, scope, hprepare, hreduce, rfl, rfl⟩ := build_ok hbuild
  have hjoins : w₁.host.joins = [] := (joins_of_prepare hmeet hprepare).trans hfresh
  have hopening : Charted .joins (q.opening w₁).store (q.opening w₁).host.joins
      ([] : List (List String)).eraseDups := by
    rw [opening, hreuse]
    simp only [hjoins]
    exact charted_empty .joins .join
  have hcharted : Charted .joins scope.store scope.host.joins chains := by
    rw [← attempt_inquiry hscript] at hreduce
    have hnames : (q.inquiry script).names (q.opening w₁) = names := by
      simp only [names, referenced, hprepare]
    have hc := charted_inquiry (all_inquiry hkeeps) (strict_inquiry hstrict) hopening hreduce
    rw [List.nil_append, hnames] at hc
    exact hc
  refine ⟨hcharted.traces.chainsOf_eq, hcharted.traces.eq_linksOf hcharted.nodup,
    hcharted.traces.nodup_of_nodup hcharted.nodup, ?_, ?_⟩
  · have hroots := hcharted.traces.filter_root
    have hsingle : Function.Injective fun name : String => [name] := fun _ _ => List.singleton_inj.1
    rw [filter_flatMap_joined] at hroots
    refine List.map_injective_iff.2 hsingle ?_
    rw [← hroots, List.map_map]
    rfl
  · rw [RelationTable.paths, hcharted.memo_eq, List.zipIdx_map_fst]

/-- A caller's own condition on a property behind two joins. -/
def ownInquiry : Property.Inquiry (Option Expr) := do
  let path ← Property.Inquiry.single (.path "c.d.x")
  pure (some (.compare .isNull path none))

/-- Names with common beginnings, in comparisons, in a grouping and in a caller's own condition. -/
def overlappingQuery : Query where
  conjuncts := .gathering
    [.leaf (.compare "a.b.x" .isNull none),
      .or (.leaf (.compareOn "a.y" (.compareRoot "k" .isNotNull none) .isNull none))
        (.leaf (.custom ownInquiry.attempt)),
      .leaf (.shape (.groupBy ["a.b.z", "k"]))]
  prefetches := ["c.p"]

theorem joins_of_build_overlapping :
    let w := ((overlappingQuery.build Prefetch.outlined).run ⟨Prefetch.noFetches, {}, {}⟩).2
    chainsOf w.host.joins = [["a"], ["a", "b"], ["c"], ["c", "d"]] ∧
      w.host.rootJoins.map (·.name) = ["a", "c"] := by
  have hleaves : overlappingQuery.leaves =
      [.compare "a.b.x" .isNull none,
        .compareOn "a.y" (.compareRoot "k" .isNotNull none) .isNull none,
        .custom ownInquiry.attempt, .shape (.groupBy ["a.b.z", "k"])] := rfl
  have hown : ownInquiry.Strict ∧ ownInquiry.All Request.KeepsJoins := by
    refine ⟨(Property.Inquiry.strict_single _).bind fun _ => trivial, ?_⟩
    exact (Property.Inquiry.all_single.2 trivial).bind fun _ => trivial
  have hscript : overlappingQuery.Scripted fun _ => ownInquiry := by
    intro run hrun
    rw [hleaves] at hrun
    simpa [eq_comm] using hrun
  have hkeeps : ∀ l ∈ overlappingQuery.leaves,
      (l.inquiry fun _ => ownInquiry).All Request.KeepsJoins := by
    intro l hl
    refine l.keepsJoins_inquiry ?_ fun _ _ => hown.2
    rintro name restriction op value rfl
    rw [hleaves] at hl
    simp only [List.mem_cons, List.not_mem_nil, reduceCtorEq, Leaf.compareOn.injEq, or_false,
      false_or] at hl
    rw [hl.2.1]
    trivial
  have hok : ((overlappingQuery.build Prefetch.outlined).run
      ⟨Prefetch.noFetches, {}, {}⟩).1.isOk = true := by decide +kernel
  rcases hbuild : (overlappingQuery.build Prefetch.outlined).run ⟨Prefetch.noFetches, {}, {}⟩ with
    ⟨e | ⟨e, joins⟩, w⟩
  · rw [hbuild] at hok
    cases hok
  · obtain ⟨hchains, -, -, hroots, -⟩ := joins_of_build rfl hscript (fun _ _ => hown.1) hkeeps
      Prefetch.keepsJoins_outlined rfl hbuild
    refine ⟨hchains.trans ?_, hroots.trans ?_⟩
    · decide +kernel
    · decide +kernel

end Query

end Criteria
