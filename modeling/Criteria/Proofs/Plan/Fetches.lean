import Mathlib
import Criteria.Proofs.Plan.Forest

/-!
# Fetches as text

Fetches may be asked for from any number, also from their own, from one that is
given out later or never. Whatever is asked for, writing out the fetches ends, and
what is written are the fetches that lead to the root, each in its one place.
-/

namespace Criteria

open FetchTree (children)

/-! ## Writing to a depth -/

/-- The text of a fetch with the texts of those that start from it. -/
def FetchTree.written (name : String) : List String → String
  | [] => "fetch " ++ name
  | text :: texts => "fetch " ++ name ++ "(" ++ ",".intercalate (text :: texts) ++ ")"

theorem FetchTree.text_node (name : String) (trees : List FetchTree) :
    (node name trees).text = written name (trees.map text) := by
  cases trees <;> simp [text, written]

/-- Writes out a fetch and whatever starts from it, looked up among all fetches anew at every step,
if that reaches no deeper than a bound. -/
def Link.textWithin (pool : List Link) : Nat → Link → Option String
  | 0, _ => none
  | depth + 1, link =>
    ((children pool (some link.id)).mapM (textWithin pool depth)).map (FetchTree.written link.name)

/-- Writes out the fetches of a plan, if they reach no deeper than a bound. -/
def Plan.fetchTextWithin (p : Plan) (depth : Nat) : Option String :=
  ((children p.fetches none).mapM (Link.textWithin p.fetches depth)).map (", ".intercalate ·)

namespace LinkTree

variable {pool : List Link} {parent : Option Nat} {trees : List LinkTree} {depth : Nat}

theorem mapM_link_of_forall {f : Link → Option String} {trees : List LinkTree}
    (h : ∀ tree ∈ trees, f tree.link = some tree.named.text) :
    (trees.map link).mapM f = some ((trees.map named).map FetchTree.text) := by
  induction trees with
  | nil => rfl
  | cons tree trees ih =>
    have htrees := ih fun t ht => h t (List.mem_cons_of_mem tree ht)
    simp [h tree List.mem_cons_self, htrees]

theorem length_links_le {tree : LinkTree} (h : tree ∈ trees) :
    tree.links.length ≤ (linksAll trees).length := by
  rw [linksAll_eq_flatMap]
  exact (List.sublist_flatten_of_mem (List.mem_map_of_mem h)).length_le

/-- Placed links are written out by a depth that is not below their number. -/
theorem Placed.mapM_textWithin (h : Placed pool parent trees)
    (hdepth : (linksAll trees).length ≤ depth) :
    (children pool parent).mapM (Link.textWithin pool depth) =
      some ((trees.map named).map FetchTree.text) := by
  induction h generalizing depth with
  | @intro parent trees hlinks hbelow ih =>
    rw [← hlinks]
    refine mapM_link_of_forall fun tree htree => ?_
    have hlength : (linksAll tree.subtrees).length < depth := by
      have hle := length_links_le htree
      rw [links_eq, List.length_cons] at hle
      omega
    obtain ⟨depth, rfl⟩ : ∃ d, depth = d + 1 := ⟨depth - 1, by omega⟩
    rw [Link.textWithin, ih tree htree (by omega)]
    cases tree
    simp [named, FetchTree.text_node]

end LinkTree

namespace Plan

/-! ## Asking for fetches -/

/-- Asks for fetches, each with the number to start from and an attribute. One that is refused does
not keep back those that follow. -/
def fetchAll (p : Plan) (requests : List (Option Nat × String)) : Plan :=
  requests.foldl (fun p request => ((fetch request.1 request.2).run p).2) p

/-- The fetches that come of requests, with the numbers that are next. -/
def numbered : Nat → List (Option Nat × String) → List Link
  | _, [] => []
  | next, request :: requests => ⟨next, request.1, request.2⟩ :: numbered (next + 1) requests

theorem map_id_numbered (next : Nat) (requests : List (Option Nat × String)) :
    (numbered next requests).map (·.id) = List.range' next requests.length := by
  induction requests generalizing next with
  | nil => rfl
  | cons request requests ih => simp [numbered, ih, List.range'_succ]

theorem mem_of_mem_numbered {next : Nat} {requests : List (Option Nat × String)} {link : Link}
    (h : link ∈ numbered next requests) : (link.parent, link.name) ∈ requests := by
  induction requests generalizing next with
  | nil => simp [numbered] at h
  | cons request requests ih =>
    rcases List.mem_cons.1 h with rfl | h
    · exact List.mem_cons_self
    · exact List.mem_cons_of_mem request (ih h)

/-- Asking for one fetch adds it with the next number, unless its attribute is rejected. -/
theorem fetch_eq (p : Plan) (parent : Option Nat) (name : String) :
    ((fetch parent name).run p).2 =
      if name ∈ p.rejected then p
      else { p with fetches := p.fetches ++ [⟨p.fetches.length, parent, name⟩] } := by
  rw [run_fetch]
  split_ifs <;> rfl

/-- Requests that are not refused are numbered in their order, whatever they start from. -/
theorem fetchAll_eq (p : Plan) (requests : List (Option Nat × String)) :
    p.fetchAll requests =
      { p with
        fetches := p.fetches ++
          numbered p.fetches.length (requests.filter (·.2 ∉ p.rejected)) } := by
  induction requests generalizing p with
  | nil => simp [fetchAll, numbered]
  | cons request requests ih =>
    rw [fetchAll, List.foldl_cons, ← fetchAll, fetch_eq]
    split_ifs with hrejected
    · rw [ih, List.filter_cons_of_neg (by simpa using hrejected)]
    · rw [ih, List.filter_cons_of_pos (by simpa using hrejected)]
      simp [numbered]

section

variable {p : Plan} (h : p.fetches = []) (requests : List (Option Nat × String))

include h

theorem fetches_fetchAll :
    (p.fetchAll requests).fetches = numbered 0 (requests.filter (·.2 ∉ p.rejected)) := by
  simp [fetchAll_eq, h]

theorem nodup_id_fetchAll : ((p.fetchAll requests).fetches.map (·.id)).Nodup := by
  rw [fetches_fetchAll h, map_id_numbered]
  exact List.nodup_range'

/-- The forest of a plan shows the names of the fetches as they are placed. -/
theorem fetchForest_fetchAll {trees : List LinkTree}
    (hplaced : LinkTree.Placed (p.fetchAll requests).fetches none trees) :
    (p.fetchAll requests).fetchForest = trees.map LinkTree.named := by
  rw [hplaced.unique (LinkTree.placed_forest (nodup_id_fetchAll h requests)),
    LinkTree.map_named_forest]
  rfl

/-- Writing out the fetches of a plan goes no deeper than there are fetches. -/
theorem fetchTextWithin_fetchAll {depth : Nat}
    (hdepth : (p.fetchAll requests).fetches.length ≤ depth) :
    (p.fetchAll requests).fetchTextWithin depth = some (p.fetchAll requests).fetchText := by
  have hids := nodup_id_fetchAll h requests
  have hplaced := LinkTree.placed_forest hids
  have hlength := (hplaced.length_linksAll_le hids).trans hdepth
  rw [fetchTextWithin, hplaced.mapM_textWithin hlength, fetchText,
    fetchForest_fetchAll h requests hplaced]
  rfl

end

/-- **Writing out the fetches ends, with every fetch that leads to the root in its one place.**
Whatever numbers the fetches of a plan start from, looking up what starts from each goes no deeper
than there are fetches. The trees that are written have the fetches without parent at their roots
and on each fetch those that start from it, always in the order in which they were asked for; a
fetch whose parents lead to the root stands in them once, and no other fetch does. -/
theorem fetchText_fetchAll (p : Plan) (requests : List (Option Nat × String))
    (h : p.fetches = []) :
    let q := p.fetchAll requests
    let trees := LinkTree.forest q.fetches none
    q.fetches = numbered 0 (requests.filter (·.2 ∉ p.rejected)) ∧
      (∀ depth, q.fetches.length ≤ depth → q.fetchTextWithin depth = some q.fetchText) ∧
      q.fetchForest = trees.map LinkTree.named ∧
      LinkTree.Placed q.fetches none trees ∧
      (∀ link, link.Rooted q.fetches → (LinkTree.linksAll trees).count link = 1) ∧
      ∀ link ∈ LinkTree.linksAll trees, link.Rooted q.fetches := by
  intro q trees
  have hids : (q.fetches.map (·.id)).Nodup := nodup_id_fetchAll h requests
  have hplaced : LinkTree.Placed q.fetches none trees := LinkTree.placed_forest hids
  refine ⟨fetches_fetchAll h requests, fun depth => fetchTextWithin_fetchAll h requests,
    fetchForest_fetchAll h requests hplaced, hplaced, ?_, ?_⟩
  · exact fun link hrooted => hplaced.count_eq_one hids hrooted
  · exact fun link hmem => hplaced.rooted hmem

/-- Two fetches that start from each other, one below them, one that starts from itself, one from a
later number and one from a number that is never given out, and one that is refused. -/
theorem fetchText_fetchAll_cyclic :
    let p : Plan := { rejected := ["ghost"] }
    let requests := [(none, "a"), (some 0, "b"), (some 2, "self"), (some 4, "x"), (some 3, "y"),
      (none, "ghost"), (some 3, "z"), (some 20, "lost"), (some 8, "early"), (none, "d"),
      (some 0, "c")]
    let q := p.fetchAll requests
    let trees := LinkTree.forest q.fetches none
    p.fetches = [] ∧
      q.fetches.length = 10 ∧
      q.fetchText = "fetch a(fetch b,fetch c), fetch d(fetch early)" ∧
      (∀ depth, q.fetches.length ≤ depth → q.fetchTextWithin depth = some q.fetchText) ∧
      q.fetchForest = trees.map LinkTree.named ∧
      LinkTree.Placed q.fetches none trees ∧
      (∀ link, link.Rooted q.fetches → (LinkTree.linksAll trees).count link = 1) ∧
      ∀ link ∈ LinkTree.linksAll trees, link.Rooted q.fetches := by
  intro p requests q trees
  obtain ⟨hfetches, hdepth, hrest⟩ := fetchText_fetchAll p requests rfl
  have hlength : q.fetches.length = 10 := by decide
  have htext : q.fetchTextWithin 10 = some "fetch a(fetch b,fetch c), fetch d(fetch early)" := by
    decide +kernel
  rw [hdepth 10 hlength.le] at htext
  exact ⟨rfl, hlength, Option.some.inj htext, hdepth, hrest⟩

end Plan

end Criteria
