import Mathlib
import Criteria.Proofs.Relation.Coherence

/-!
# Histories of memoizing tables

A history is any sequence of walks, each with its own way of making handles, and
of replacements of handles. After every history of a memoizing table, paths and
relations determine each other: what was reached twice has one path, and each
relation stands where its name was asked for.
-/

namespace Criteria.RelationTable

open Criteria.Relation (extend along along_none intercalate_inj name_extend)

variable {ε H W : Type}

/-- What is done to a table. -/
inductive Use (ε W H : Type) where
  | resolve (create : Option H → String → Attempt ε W H) (chain : List String)
  | replaceHandle (id : Nat) (handle : H)

/-- The outcomes of the walks of a history, each with its chain, and the workspace at the end. A
walk that fails does not end the history. -/
def history : List (Use ε W H) → Workspace (RelationTable H) W →
    List (List String × Except ε (Option Nat)) × Workspace (RelationTable H) W
  | [], w => ([], w)
  | .resolve create chain :: uses, w =>
    let walked := (resolve create chain).run w
    let later := history uses walked.2
    ((chain, walked.1) :: later.1, later.2)
  | .replaceHandle id handle :: uses, w =>
    history uses { w with store := w.store.replaceHandle id handle }

/-! ## Notes of the calls -/

/-- A call for a handle, and what came of it. -/
structure Call (ε H : Type) where
  parent : Option H
  name : String
  outcome : Except ε H

/-- The names for which handles were made, in order. -/
def madeNames (calls : List (Call ε H)) : List String :=
  calls.filterMap fun call =>
    match call.outcome with
    | .ok _ => some call.name
    | .error _ => none

/-- Makes the same handles and takes a note of each call. -/
def noted (create : Option H → String → Attempt ε W H) :
    Option H → String → Attempt ε (W × List (Call ε H)) H :=
  fun parent name =>
    ⟨fun (host, calls) =>
      let (r, host) := (create parent name).run host
      (r, (host, calls ++ [⟨parent, name, r⟩]))⟩

@[simp] theorem run_noted (create : Option H → String → Attempt ε W H) (parent : Option H)
    (name : String) (host : W) (calls : List (Call ε H)) :
    (noted create parent name).run (host, calls) =
      (((create parent name).run host).1,
        (((create parent name).run host).2,
          calls ++ [⟨parent, name, ((create parent name).run host).1⟩])) := rfl

/-- The same use, with a note of each call. -/
def Use.noted : Use ε W H → Use ε (W × List (Call ε H)) H
  | .resolve create chain => .resolve (RelationTable.noted create) chain
  | .replaceHandle id handle => .replaceHandle id handle

/-- The workspace without the notes. -/
def forget (w : Workspace (RelationTable H) (W × List (Call ε H))) :
    Workspace (RelationTable H) W :=
  ⟨w.store, w.host.1, w.tally⟩

theorem tracks_noted (create : Option H → String → Attempt ε W H) :
    Tracks (noted create) fun host made => made = madeNames host.2 := by
  rintro parent name ⟨host, calls⟩ made rfl
  refine ⟨?_, ?_⟩
  · rintro handle ⟨host', calls'⟩ h
    simp only [noted, Prod.mk.injEq] at h
    obtain ⟨hr, rfl, rfl⟩ := h
    simp [madeNames, hr]
  · rintro e ⟨host', calls'⟩ h
    simp only [noted, Prod.mk.injEq] at h
    obtain ⟨hr, rfl, rfl⟩ := h
    simp [madeNames, hr]

/-- Notes change nothing. -/
theorem run_reach_noted (create : Option H → String → Attempt ε W H) (path : String)
    (parent : Option Nat) (name : String)
    (w : Workspace (RelationTable H) (W × List (Call ε H))) :
    (reach create path parent name).run (forget w) =
      (((reach (noted create) path parent name).run w).1,
        forget ((reach (noted create) path parent name).run w).2) := by
  obtain ⟨store, ⟨host, calls⟩, tally⟩ := w
  rw [run_reach, run_reach]
  simp only [forget, run_noted]
  cases store.lookup path with
  | some id => rfl
  | none =>
    rcases (create (parent.bind store.handle?) name).run host with ⟨e | handle, host'⟩ <;> rfl

theorem run_walk_noted (create : Option H → String → Attempt ε W H) (start : Option (String × Nat))
    (chain : List String) (w : Workspace (RelationTable H) (W × List (Call ε H))) :
    (walk create start chain).run (forget w) =
      (((walk (noted create) start chain).run w).1,
        forget ((walk (noted create) start chain).run w).2) := by
  induction chain generalizing start w with
  | nil => rfl
  | cons name chain ih =>
    rw [run_walk_cons, run_walk_cons, run_reach_noted]
    rcases (reach (noted create) (extend (start.map Prod.fst) name) (start.map Prod.snd) name).run w
      with ⟨e | id, w'⟩
    · rfl
    · exact ih _ w'

theorem history_noted (uses : List (Use ε W H))
    (w : Workspace (RelationTable H) (W × List (Call ε H))) :
    history uses (forget w) =
      ((history (uses.map Use.noted) w).1, forget (history (uses.map Use.noted) w).2) := by
  induction uses generalizing w with
  | nil => rfl
  | cons use uses ih =>
    cases use with
    | resolve create chain =>
      simp only [List.map_cons, Use.noted, history, resolve, run_walk_noted, ih]
    | replaceHandle id handle => exact ih { w with store := w.store.replaceHandle id handle }

/-! ## What a history keeps -/

/-- After a history the table is coherent, what was once found is found still, and each walk that
succeeded ended at the relation that its path has now. -/
theorem coherent_history {I : W → List String → Prop} {uses : List (Use ε W H)}
    (htrack : ∀ create chain, Use.resolve create chain ∈ uses → Tracks create I)
    {w : Workspace (RelationTable H) W} {made : List String} (hc : Coherent w.store made)
    (hi : I w.host made) :
    (∃ made', Coherent (history uses w).2.store made' ∧ I (history uses w).2.host made') ∧
      w.store.Keeps (history uses w).2.store ∧
      ∀ chain id, (chain, .ok id) ∈ (history uses w).1 →
        (history uses w).2.store.At (along none chain) id := by
  induction uses generalizing w made with
  | nil => exact ⟨⟨made, hc, hi⟩, Keeps.refl _, by simp [history]⟩
  | cons use uses ih =>
    have htrack' : ∀ create chain, Use.resolve create chain ∈ uses → Tracks create I :=
      fun create chain h => htrack create chain (List.mem_cons_of_mem use h)
    cases use with
    | replaceHandle id handle =>
      have hc' : Coherent { w with store := w.store.replaceHandle id handle }.store made :=
        hc.replaceHandle id handle
      obtain ⟨hcoherent, hkeeps, hends⟩ := ih htrack' hc' hi
      exact ⟨hcoherent, (keeps_replaceHandle _ id handle).trans hkeeps, hends⟩
    | resolve create chain =>
      rcases hrun : (resolve create chain).run w with ⟨r, w'⟩
      obtain ⟨⟨made', hc', hi'⟩, hkeeps, hend⟩ :=
        coherent_resolve (htrack create chain List.mem_cons_self) hc hi hrun
      obtain ⟨hcoherent, hkeeps', hends⟩ := ih htrack' hc' hi'
      simp only [history, hrun]
      refine ⟨hcoherent, hkeeps.trans hkeeps', ?_⟩
      intro chain' id hm
      rcases List.mem_cons.1 hm with heq | hm
      · rw [Prod.mk.injEq] at heq
        obtain ⟨rfl, hr⟩ := heq
        exact (hend id hr.symm).keep hkeeps'
      · exact hends chain' id hm

/-! ## Paths and relations -/

/-- Paths and relations determine each other: the memo lists the relations in the order of their
creation, each under its path, and walks end at one relation just when their paths are the same. -/
structure Faithful (t : RelationTable H) (made : List String)
    (results : List (List String × Except ε (Option Nat))) : Prop extends Coherent t made where
  paths_eq : t.paths = t.nodes.map (·.path)
  lookup_iff : ∀ (path : String) (id : Nat),
    t.lookup path = some id ↔ ∃ node, t.nodes[id]? = some node ∧ node.path = path
  outcome_nil : ∀ id, ([], .ok id) ∈ results → id = none
  outcome : ∀ chain id, chain ≠ [] → (chain, .ok id) ∈ results →
    ∃ number node, id = some number ∧ t.nodes[number]? = some node ∧
      node.path = ".".intercalate chain
  outcome_iff : ∀ chain chain' id id', chain ≠ [] → chain' ≠ [] → (chain, .ok id) ∈ results →
    (chain', .ok id') ∈ results → (id = id' ↔ ".".intercalate chain = ".".intercalate chain')
  /-- Of names without points, there is one chain for each relation. -/
  chain_iff : ∀ chain chain' id id', chain ≠ [] → chain' ≠ [] → (chain, .ok id) ∈ results →
    (chain', .ok id') ∈ results → (∀ name ∈ chain, '.' ∉ name.toList) →
    (∀ name ∈ chain', '.' ∉ name.toList) → (id = id' ↔ chain = chain')
  name_eq : ∀ (id : Nat) (node : Relation H) (name : String), t.nodes[id]? = some node →
    made[id]? = some name → '.' ∉ name.toList → node.name = name

/-- Two relations that were reached are the same just when their paths are. -/
theorem Coherent.eq_iff_of_at {t : RelationTable H} {made : List String} {path path' : String}
    {id id' : Option Nat} (h : Coherent t made) (ha : t.At (some path) id)
    (ha' : t.At (some path') id') : id = id' ↔ path = path' := by
  constructor
  · intro heq
    subst heq
    have hp : some path = some path' := by rw [← h.pathOf_of_at ha, ← h.pathOf_of_at ha']
    exact Option.some.inj hp
  · intro heq
    subst heq
    cases id with
    | none => exact ha.elim
    | some id =>
      cases id' with
      | none => exact ha'.elim
      | some id' => exact ha.symm.trans ha'

theorem Coherent.faithful {t : RelationTable H} {made : List String}
    {results : List (List String × Except ε (Option Nat))} (h : Coherent t made)
    (hends : ∀ chain id, (chain, .ok id) ∈ results → t.At (along none chain) id) :
    Faithful t made results := by
  have hend : ∀ chain id, chain ≠ [] → (chain, .ok id) ∈ results →
      t.At (some (".".intercalate chain)) id := by
    intro chain id hne hm
    rw [← along_none hne]
    exact hends chain id hm
  refine { h with
    paths_eq := h.paths_eq
    lookup_iff := fun path id => h.lookup_iff
    outcome_nil := ?_, outcome := ?_, outcome_iff := ?_, chain_iff := ?_, name_eq := ?_ }
  · intro id hm
    have ha : t.At none id := hends [] id hm
    cases id with
    | none => rfl
    | some id => exact ha.elim
  · intro chain id hne hm
    have ha := hend chain id hne hm
    cases id with
    | none => exact ha.elim
    | some number =>
      obtain ⟨node, hn, hp⟩ := h.lookup_iff.1 ha
      exact ⟨number, node, rfl, hn, hp⟩
  · intro chain chain' id id' hne hne' hm hm'
    exact h.eq_iff_of_at (hend chain id hne hm) (hend chain' id' hne' hm')
  · intro chain chain' id id' hne hne' hm hm' hnames hnames'
    rw [← intercalate_inj hne hne' hnames hnames']
    exact h.eq_iff_of_at (hend chain id hne hm) (hend chain' id' hne' hm')
  · intro id node name hn hm hname
    exact name_extend (h.path_eq id node name hn hm) hname

/-- After every history of a memoizing table, also one with walks that failed on their way, paths
and relations determine each other. -/
theorem faithful_history (kind : RelationKind) (uses : List (Use ε W H)) (host : W)
    (tally : Tally) :
    Faithful (history uses ⟨empty kind true, host, tally⟩).2.store
      (madeNames (history (uses.map Use.noted) ⟨empty kind true, (host, []), tally⟩).2.host.2)
      (history uses ⟨empty kind true, host, tally⟩).1 := by
  have htrack : ∀ create chain, Use.resolve create chain ∈ uses.map Use.noted →
      Tracks create fun (host : W × List (Call ε H)) made => made = madeNames host.2 := by
    intro create chain hm
    obtain ⟨use, -, hu⟩ := List.mem_map.1 hm
    cases use with
    | replaceHandle id handle => cases hu
    | resolve create' chain' =>
      cases hu
      exact tracks_noted create'
  have hempty : Coherent (empty kind true : RelationTable H) [] := coherent_empty kind
  obtain ⟨⟨made, hc, hmade⟩, -, hends⟩ :=
    coherent_history (w := ⟨empty kind true, (host, []), tally⟩) htrack hempty rfl
  have hforget : history uses ⟨empty kind true, host, tally⟩ = _ :=
    history_noted uses ⟨empty kind true, (host, []), tally⟩
  rw [hforget, ← hmade]
  exact hc.faithful hends

end Criteria.RelationTable
