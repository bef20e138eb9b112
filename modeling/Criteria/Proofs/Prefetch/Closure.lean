import Mathlib
import Criteria.Prefetch
import Criteria.Proofs.Outline.Leaves
import Criteria.Proofs.Outline.Spelling
import Criteria.Proofs.Property.Attributes
import Criteria.Proofs.Relation.Register

/-!
# What requests for prefetching fetch

A request asks for the beginnings of the leaves of its outline. Requests that are
met one after the other, also behind one that fails, fetch just the different
chains they asked for, each up to the first name that is rejected; table and plan
are told from these chains. So a request that is repeated fetches nothing.
-/

namespace Criteria.Prefetch

open Criteria.Relation (beginnings lastName linksOf eraseDups_append_of_subset)
open Criteria.Register (Charted Outcome Reaches upTo answer outcome_resolveAll charted_empty)

variable {E : Type} {w w' : Workspace (RelationTable Nat) Plan} {request : String}
  {reached chains : List (List String)} {r : Except Failure Unit}

/-- The chains a request asks for: the beginnings of its leaves, leaf after leaf. -/
def asked (request : String) : List (List String) :=
  (Outline.parse request).leaves.flatMap beginnings

/-- Meets requests in order, whether or not those before have failed. -/
def serve (meet : Prefetcher E) :
    List String → Workspace E Plan → List (Except Failure Unit) × Workspace E Plan
  | [], w => ([], w)
  | request :: requests, w =>
    let met := (meet request).run w
    let later := serve meet requests met.2
    (met.1 :: later.1, later.2)

theorem serve_append (meet : Prefetcher E) (requests more : List String) (w : Workspace E Plan) :
    serve meet (requests ++ more) w =
      ((serve meet requests w).1 ++ (serve meet more (serve meet requests w).2).1,
        (serve meet more (serve meet requests w).2).2) := by
  induction requests generalizing w with
  | nil => rfl
  | cons request requests ih => simp [serve, ih]

/-! ## Single requests -/

theorem run_outlined (request : String) (w : Workspace (RelationTable Nat) Plan) :
    (outlined request).run w =
      if Text.isBlankText request || w.host.isCount then (.ok (), w)
      else
        let fetched :=
          (Attempt.forEach (RelationTable.resolve Plan.fetch) (Outline.parse request).leaves).run w
        (fetched.1.map fun _ => (), fetched.2) := by
  rw [outlined, Attempt.run_bind, Attempt.run_current]
  dsimp only
  split
  · rfl
  · rw [Attempt.run_bind]
    rcases (Attempt.forEach (RelationTable.resolve Plan.fetch) (Outline.parse request).leaves).run w
      with ⟨_ | _, _⟩ <;> rfl

/-- A blank request asks for nothing. -/
theorem asked_of_blank (h : Text.isBlankText request = true) : asked request = [] := by
  simp [asked, Outline.parse_of_isBlankText h, Outline.leaves, Outline.leavesFrom]

/-- Names that are read have no points. -/
theorem point_not_mem_leaf {leaf : List String} (h : leaf ∈ (Outline.parse request).leaves) :
    ∀ name ∈ leaf, '.' ∉ name.toList := by
  have hnames : ∀ cs, '[' ∉ cs → ∀ name ∈ Outline.names cs, '.' ∉ name.toList := by
    intro cs _ name hm hpoint
    simp only [Outline.names, List.mem_map, List.mem_filter] at hm
    obtain ⟨-, ⟨⟨part, hp, rfl⟩, -⟩, rfl⟩ := hm
    rw [String.toList_ofList] at hpoint
    exact Property.not_mem_of_mem_splitOn '.' hp (Text.mem_of_mem_trim hpoint)
  intro name hn
  exact Outline.forall_allNames_parse hnames request name (Outline.mem_allNames_of_leaf h hn)

theorem outcome_outlined (h : Charted .fetches w.store w.host.fetches reached.eraseDups)
    (hcount : w.host.isCount = false) (hrun : (outlined request).run w = (r, w')) :
    Outcome .fetches w w' reached (asked request) r := by
  rw [run_outlined, hcount, Bool.or_false] at hrun
  split at hrun
  · next hblank =>
    cases hrun
    rw [asked_of_blank hblank]
    exact .inl ⟨(), rfl, Reaches.refl h⟩
  · rcases hfetch : (Attempt.forEach (RelationTable.resolve Plan.fetch)
        (Outline.parse request).leaves).run w with ⟨fetched, w₁⟩
    have houtcome : Outcome .fetches w w₁ reached (asked request) fetched :=
      outcome_resolveAll h (fun leaf hleaf => point_not_mem_leaf hleaf) hfetch
    rw [hfetch] at hrun
    cases hrun
    exact houtcome.map _

/-! ## Requests in order -/

/-- The requests reach what each asks for, up to the first name that is rejected. -/
theorem serve_reaches (requests : List String)
    (h : Charted .fetches w.store w.host.fetches reached.eraseDups)
    (hcount : w.host.isCount = false)
    (hreached : ∀ chain ∈ reached, lastName chain ∉ w.host.rejected) :
    Reaches .fetches w (serve outlined requests w).2 reached
        (requests.flatMap fun request => upTo w.host.rejected (asked request)) ∧
      (serve outlined requests w).1 =
        requests.map fun request => answer w.host.rejected (asked request) := by
  induction requests generalizing w reached with
  | nil => exact ⟨Reaches.refl h, rfl⟩
  | cons request requests ih =>
    rcases hrun : (outlined request).run w with ⟨r, w₁⟩
    obtain ⟨hfirst, hr⟩ := (outcome_outlined h hcount hrun).eq_upTo hreached
    have hrejected := hfirst.rejected_eq
    have hothers : { w₁.host with fetches := [] } = { w.host with fetches := [] } :=
      hfirst.others_eq
    have hcount₁ : w₁.host.isCount = false := (congrArg Plan.isCount hothers).trans hcount
    have hreached₁ : ∀ chain ∈ reached ++ upTo w.host.rejected (asked request),
        lastName chain ∉ w₁.host.rejected := by
      intro chain hm
      rw [hrejected]
      rcases List.mem_append.1 hm with hm | hm
      · exact hreached chain hm
      · simpa using List.mem_takeWhile_imp hm
    obtain ⟨hlater, hanswers⟩ := ih hfirst.charted hcount₁ hreached₁
    rw [hrejected] at hlater hanswers
    simp only [serve, hrun, List.flatMap_cons, List.map_cons, hanswers]
    refine ⟨hfirst.trans hlater, ?_⟩
    rw [← hr]
    cases r <;> rfl

/-! ## Tables of fetches -/

/-- The table of fetches for chains: one relation for each, whose handle is the number of its
fetch. -/
def tableOf (chains : List (List String)) : RelationTable Nat where
  kind := .fetch
  memoize := true
  nodes := chains.mapIdx fun i chain =>
    ⟨".".intercalate chain, chains.idxOf? chain.dropLast, i⟩
  memo := (chains.map ".".intercalate).zipIdx

@[simp] theorem paths_tableOf (chains : List (List String)) :
    (tableOf chains).paths = chains.map ".".intercalate := by
  simp [tableOf, RelationTable.paths]

theorem eq_tableOf {t : RelationTable Nat} {links : List Link}
    (h : Charted .fetches t links chains) (hkind : t.kind = .fetch) : t = tableOf chains := by
  obtain ⟨kind, memoize, nodes, memo⟩ := t
  have hlinks := h.traces.eq_linksOf h.nodup
  have hmemoizes : memoize = true := h.memoizes
  have hmemo : memo = (chains.map ".".intercalate).zipIdx := h.memo_eq
  have hnodes : nodes = (tableOf chains).nodes := by
    apply List.ext_getElem?
    intro i
    have hpath := congrArg (·[i]?) h.paths_eq
    have hparent := congrArg (·[i]?) h.parents_eq
    have hnumber := congrArg (·[i]?) h.numbers_eq
    simp only [hlinks, linksOf, List.getElem?_map, List.getElem?_mapIdx] at hpath hparent hnumber
    simp only [tableOf, List.getElem?_mapIdx]
    cases hc : chains[i]? with
    | none => simpa [hc] using hpath
    | some chain =>
      have hi : i < chains.length := (List.getElem?_eq_some_iff.1 hc).1
      cases hn : nodes[i]? with
      | none => simp [hn, hc] at hpath
      | some node =>
        obtain ⟨path, parent, handle⟩ := node
        simp only [hn, hc, Option.map_some, Option.some.injEq] at hpath hparent
        simp only [hn, Option.map_some, List.getElem?_range hi, Option.some.injEq] at hnumber
        have hhandle : handle = i := hnumber
        simp [hpath, hparent, hhandle]
  simp only [hnodes, hmemo, hmemoizes, show kind = .fetch from hkind]
  rfl

/-- The state after requests to a plan without fetches is told from the chains they reached. -/
theorem serve_fresh (requests : List String) {plan : Plan} (tally : Tally)
    (hfresh : plan.fetches = []) (hcount : plan.isCount = false) :
    let chains := (requests.flatMap fun request => upTo plan.rejected (asked request)).eraseDups
    let served := serve outlined requests ⟨noFetches, plan, tally⟩
    served.1 = requests.map (fun request => answer plan.rejected (asked request)) ∧
      served.2.store = tableOf chains ∧
      served.2.host = { plan with fetches := linksOf chains } := by
  intro chains served
  have hempty : Charted .fetches noFetches plan.fetches ([] : List (List String)).eraseDups := by
    rw [hfresh]
    exact charted_empty .fetches .fetch
  obtain ⟨hreaches, hanswers⟩ :=
    serve_reaches (w := ⟨noFetches, plan, tally⟩) requests hempty hcount (by simp)
  have hcharted : Charted .fetches served.2.store served.2.host.fetches chains :=
    hreaches.charted
  have hothers : { served.2.host with fetches := [] } = { plan with fetches := [] } :=
    hreaches.others_eq
  refine ⟨hanswers, eq_tableOf hcharted hreaches.kind_eq, ?_⟩
  calc served.2.host
      = { { served.2.host with fetches := [] } with fetches := served.2.host.fetches } := rfl
    _ = { plan with fetches := served.2.host.fetches } := by rw [hothers]
    _ = { plan with fetches := linksOf chains } := by
      rw [hcharted.traces.eq_linksOf hcharted.nodup]

/-- What requests fetch for a plan without fetches is told from the different chains they ask for,
each up to the first name that is rejected; repeating a request changes neither table nor plan. For
a plan that only counts, requests change nothing. -/
theorem serve_outlined (requests : List String) :
    (∀ (plan : Plan) (tally : Tally), plan.fetches = [] → plan.isCount = false →
      let chains :=
        (requests.flatMap fun request => upTo plan.rejected (asked request)).eraseDups
      let served := serve outlined requests ⟨noFetches, plan, tally⟩
      served.1 = requests.map (fun request => answer plan.rejected (asked request)) ∧
      served.2.store.paths = chains.map ".".intercalate ∧
      served.2.store = tableOf chains ∧
      served.2.host = { plan with fetches := linksOf chains } ∧
      ∀ request ∈ requests,
        ((outlined request).run served.2).2.store = served.2.store ∧
        ((outlined request).run served.2).2.host = served.2.host) ∧
    ∀ w : Workspace (RelationTable Nat) Plan, w.host.isCount = true →
      serve outlined requests w = (requests.map fun _ => .ok (), w) := by
  constructor
  · intro plan tally hfresh hcount chains served
    obtain ⟨hanswers, hstore, hhost⟩ := serve_fresh requests tally hfresh hcount
    refine ⟨hanswers, ?_, hstore, hhost, ?_⟩
    · rw [hstore, paths_tableOf]
    · intro request hrequest
      have hagain : (serve outlined (requests ++ [request]) ⟨noFetches, plan, tally⟩).2 =
          ((outlined request).run served.2).2 := by
        rw [serve_append]
        rfl
      have hseen : ((requests ++ [request]).flatMap fun request =>
          upTo plan.rejected (asked request)).eraseDups = chains := by
        rw [List.flatMap_append]
        refine eraseDups_append_of_subset ?_
        intro chain hm
        exact List.mem_flatMap.2 ⟨request, hrequest, by simpa using hm⟩
      obtain ⟨-, hstore', hhost'⟩ := serve_fresh (requests ++ [request]) tally hfresh hcount
      rw [hseen] at hstore' hhost'
      rw [← hagain, hstore', hhost', hstore, hhost]
      exact ⟨rfl, rfl⟩
  · intro w hcount
    induction requests with
    | nil => rfl
    | cons request requests ih =>
      have hrun : (outlined request).run w = (.ok (), w) := by simp [run_outlined, hcount]
      simp [serve, hrun, ih]

/-- The second request ends at the name that is rejected, and the third one finds what it asks
for. -/
theorem serve_outlined_refused :
    let plan : Plan := { rejected := ["ghost"] }
    let served := serve outlined ["a.[b,c]", "a.ghost.d,e", "a.b"] ⟨noFetches, plan, {}⟩
    served.1 = [.ok (), .error (.unknownAttribute "ghost"), .ok ()] ∧
      served.2.store.paths = ["a", "a.b", "a.c"] ∧
      served.2.host =
        { plan with fetches := [⟨0, none, "a"⟩, ⟨1, some 0, "b"⟩, ⟨2, some 0, "c"⟩] } ∧
      ((outlined "a.[b,c]").run served.2).2.host = served.2.host ∧
      serve outlined ["a.b"] ⟨noFetches, plan.count, {}⟩ =
        ([.ok ()], ⟨noFetches, plan.count, {}⟩) := by
  obtain ⟨hanswers, hpaths, -, hhost, hagain⟩ :=
    (serve_outlined ["a.[b,c]", "a.ghost.d,e", "a.b"]).1 { rejected := ["ghost"] } {} rfl rfl
  refine ⟨hanswers.trans ?_, hpaths.trans ?_, hhost.trans ?_, (hagain "a.[b,c]" (by simp)).2,
    (serve_outlined ["a.b"]).2 _ rfl⟩
  · decide +kernel
  · decide +kernel
  · decide +kernel

end Criteria.Prefetch
