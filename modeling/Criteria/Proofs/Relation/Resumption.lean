import Mathlib
import Criteria.Proofs.Relation.Creation
import Criteria.Proofs.Relation.Views

/-!
# Walks that are taken up again

A walk that fails keeps what it has created before. If the same walk is taken up
again, with handles that are made like before and can be made now, it finds the
first part of its chain and creates the rest. In the end nothing tells that it
has ever failed.
-/

namespace Criteria.RelationTable

open Criteria.Relation (along along_none beginnings beginnings_append extend lastName
  ne_nil_of_mem_beginnings stretch stretch_cons)
open Workspace (seen seen_eq_iff)

variable {ε H V V' W : Type} {t t' : RelationTable H} {names front : List String}
  {made : List (List String × H)}

/-! ## What is still missing -/

theorem missing_append (t : RelationTable H) (front rest : List String) :
    t.missing (front ++ rest) = t.missing front ++
      (stretch front rest).filter fun c => ".".intercalate c ∉ t.nodes.map (·.path) := by
  rw [missing, beginnings_append, List.filter_append, ← missing]

namespace Filled

theorem missing_eq_nil (h : Filled t front made t') (hc : Coherent t names) :
    t'.missing front = [] := by
  refine List.filter_eq_nil_iff.2 fun c hm => ?_
  obtain ⟨number, node, -, hn, hpath⟩ := h.exists_node hc hm
  have hthere : ".".intercalate c ∈ t'.nodes.map (·.path) :=
    hpath ▸ List.mem_map_of_mem (List.mem_of_getElem? hn)
  simpa using hthere

/-- What is missing along a chain is what was created along its front, and what is missing then. -/
theorem missing_append (h : Filled t front made t') (hc : Coherent t names) (rest : List String) :
    t.missing (front ++ rest) = made.map Prod.fst ++ t'.missing (front ++ rest) := by
  have hrest : (stretch front rest).filter (fun c => ".".intercalate c ∉ t'.nodes.map (·.path)) =
      (stretch front rest).filter fun c => ".".intercalate c ∉ t.nodes.map (·.path) := by
    refine List.filter_congr fun c hm => ?_
    obtain ⟨behind, hb, rfl⟩ := List.mem_map.1 hm
    simp only [h.path_mem_iff (ne_nil_of_mem_beginnings hb)]
  rw [RelationTable.missing_append, RelationTable.missing_append, h.missing_eq_nil hc, hrest,
    h.missing_eq, List.nil_append]

/-- A relation that was missing behind the front is the first that is missing then. -/
theorem missing_cons (h : Filled t front made t') (hc : Coherent t names) {name : String}
    (hmissing : ".".intercalate (front ++ [name]) ∉ t.nodes.map (·.path)) (rest : List String) :
    ∃ more, t'.missing (front ++ name :: rest) = (front ++ [name]) :: more := by
  rw [← h.path_mem_iff (List.cons_ne_nil name [])] at hmissing
  rw [RelationTable.missing_append, h.missing_eq_nil hc, stretch_cons,
    List.filter_cons_of_pos (by simpa using hmissing)]
  exact ⟨_, rfl⟩

end Filled

/-! ## Handles that are computed -/

/-- The handles that are made, if they are made, are those of `f`. -/
def Agrees (f : Option H → String → Except ε H) (create : Option H → String → Attempt ε V H) :
    Prop :=
  ∀ parent name host handle, ((create parent name).run host).1 = .ok handle →
    f parent name = .ok handle

/-- Whether a handle can be made, and which, is told by `f`. -/
def Computes (f : Option H → String → Except ε H) (create : Option H → String → Attempt ε V H) :
    Prop :=
  ∀ parent name host, ((create parent name).run host).1 = f parent name

variable {f : Option H → String → Except ε H} {create : Option H → String → Attempt ε V H}
  {again : Option H → String → Attempt ε V' H}

/-- Walks with handles that are computed go by the table alone. -/
theorem Computes.sees_walk (h : Computes f again) (start : Option (String × Nat))
    (chain : List String) : (walk again start chain).Sees (seen fun _ => ()) := by
  refine RelationTable.sees_walk (fun parent name host host' _ => ⟨?_, rfl⟩) start chain
  rw [h, h]

/-! ## Walks after an attempt at them -/

variable {w w' : Workspace (RelationTable H) V} {u u' : Workspace (RelationTable H) V'}
  {path name : String} {parent : Option Nat} {number : Nat}

/-- What was reached is reached again in the same way. -/
theorem reach_again (hcreate : Agrees f create) (hagain : Computes f again)
    (hrun : (reach create path parent name).run w = (.ok number, w')) (hu : u.store = w.store) :
    ∃ u', (reach again path parent name).run u = (.ok number, u') ∧ u'.store = w'.store := by
  rw [run_reach, hu]
  rcases reach_cases hrun with ⟨id, hl, hr, hst, -⟩ | ⟨-, e, hr, -, -⟩ |
    ⟨hl, handle, hr, hst, hmade⟩
  · cases hr
    rw [hl, hst]
    exact ⟨_, rfl, rfl⟩
  · cases hr
  · have hcomputed : ((again (parent.bind w.store.handle?) name).run u.host).1 = .ok handle := by
      rw [hagain, hcreate _ _ w.host handle (by rw [hmade])]
    cases hr
    rcases hrun' : (again (parent.bind w.store.handle?) name).run u.host with ⟨r, host⟩
    rw [hrun'] at hcomputed
    cases hcomputed
    rw [hl, hst]
    exact ⟨_, rfl, rfl⟩

/-- What is there is found. -/
theorem reach_found (again : Option H → String → Attempt ε V' H)
    (hl : u.store.lookup path = some number) (parent : Option Nat) (name : String) :
    ∃ u', (reach again path parent name).run u = (.ok number, u') ∧ u'.store = u.store := by
  rw [run_reach, hl]
  exact ⟨_, rfl, rfl⟩

/-- After an attempt at a walk the walk ends as it does without the attempt. The first attempt
leaves a table that lies between the one it has started from and the one at the end. -/
theorem walk_after_attempt (hcreate : Agrees f create) (hagain : Computes f again)
    {start : Option (String × Nat)} {chain : List String} (hc : Coherent w.store names)
    (hs : w.store.At (start.map Prod.fst) (start.map Prod.snd)) {r : Except ε (Option Nat)}
    (hrun : (walk create start chain).run w = (r, w')) (hu : u.store = w'.store)
    (hu' : u'.store = w.store) :
    ((walk again start chain).run u).1 = ((walk again start chain).run u').1 ∧
      ((walk again start chain).run u).2.store = ((walk again start chain).run u').2.store := by
  induction chain generalizing start names w u u' with
  | nil =>
    cases hrun
    exact ⟨rfl, hu.trans hu'.symm⟩
  | cons name chain ih =>
    rw [run_walk_cons] at hrun
    rcases hreach : (reach create (extend (start.map Prod.fst) name) (start.map Prod.snd)
      name).run w with ⟨e | id, w₁⟩
    · rw [hreach] at hrun
      cases hrun
      rcases reach_cases hreach with ⟨_, -, hr, -⟩ | ⟨-, _, -, hst, -⟩ | ⟨-, _, hr, -⟩
      · cases hr
      · -- Nothing has been added here, so both walks start from the same table.
        have hsame : u.seen (fun _ => ()) = u'.seen fun _ => () :=
          seen_eq_iff.2 ⟨hu.trans (hst.trans hu'.symm), rfl⟩
        obtain ⟨hresult, hstore⟩ := hagain.sees_walk start (name :: chain) u u' hsame
        exact ⟨hresult, (seen_eq_iff.1 hstore).1⟩
      · cases hr
    · rw [hreach] at hrun
      obtain ⟨⟨made, hc₁, -⟩, -, hat⟩ := coherent_reach (tracks_true create) hc trivial hs hreach
      have hnext : w₁.store.lookup (extend (start.map Prod.fst) name) = some id := hat id rfl
      have hs₁ : w₁.store.At (Option.map Prod.fst (some (extend (start.map Prod.fst) name, id)))
          (Option.map Prod.snd (some (extend (start.map Prod.fst) name, id))) := hnext
      obtain ⟨-, hkeeps, -⟩ := coherent_walk (tracks_true create) hc₁ trivial hs₁ hrun
      -- The walk from the start creates what the attempt has created; the other walk finds it.
      obtain ⟨u₁', hrun', hst'⟩ := reach_again hcreate hagain hreach hu'
      have hfound : u.store.lookup (extend (start.map Prod.fst) name) = some id :=
        hu ▸ hkeeps _ _ hnext
      obtain ⟨u₁, hrun₁, hst₁⟩ := reach_found again hfound (start.map Prod.snd) name
      rw [run_walk_cons, run_walk_cons, hrun', hrun₁]
      exact ih hc₁ hs₁ hrun (hst₁.trans hu) hst'

theorem resolve_after_attempt (hcreate : Agrees f create) (hagain : Computes f again)
    (hc : Coherent w.store names) (chain : List String)
    (hu : u.store = ((resolve create chain).run w).2.store) (hu' : u'.store = w.store) :
    ((resolve again chain).run u).1 = ((resolve again chain).run u').1 ∧
      ((resolve again chain).run u).2.store = ((resolve again chain).run u').2.store := by
  have hroot : w.store.At (Option.map Prod.fst (none : Option (String × Nat)))
      (Option.map Prod.snd (none : Option (String × Nat))) := trivial
  exact walk_after_attempt hcreate hagain hc hroot rfl hu hu'

/-! ## Walks that fail -/

namespace Course

variable {tally tally' : Tally} {chain : List String} {notes : List (Call ε H)}
  {r : Except ε (Option Nat)}

/-- With a call that fails, the walk has got stuck there. -/
theorem stuck_of_error (h : Course t tally chain notes r t' tally') {call : Call ε H} {e : ε}
    (hcall : call ∈ notes) (he : call.outcome = .error e) :
    ∃ front name rest made, chain = front ++ name :: rest ∧ Filled t front made t' ∧
      ".".intercalate (front ++ [name]) ∉ t.nodes.map (·.path) ∧
      call = t'.callFor (front ++ [name]) (.error e) ∧ notes = t'.callsFor made ++ [call] ∧
      r = .error e := by
  have hmade (made : List (List String × H)) : call ∉ t'.callsFor made := by
    rw [callsFor, List.mem_map]
    rintro ⟨entry, -, rfl⟩
    cases he
  cases h with
  | came h => exact absurd hcall (hmade _)
  | stuck e' hsplit h hmissing =>
    rcases List.mem_append.1 hcall with hcall | hcall
    · exact absurd hcall (hmade _)
    · rw [List.mem_singleton.1 hcall] at he ⊢
      cases he
      exact ⟨_, _, _, _, hsplit, h, hmissing, rfl, rfl, rfl⟩

end Course

/-- A walk in a memoizing table after any history is attempted, and a handle cannot be made. The
attempt ends with this error at once, and has added the relations that were missing up to there
and nothing else. When the handles are made as before and the walk is taken up again, it asks for
what is still missing and ends with the result and the table of a single walk without failure. -/
theorem resolve_after_failure (kind : RelationKind) (uses : List (Use ε W H)) (host : W)
    {δ : Type} {f : Option H → String → Except δ H} {create : Option H → String → Attempt δ V H}
    {again : Option H → String → Attempt δ V' H} (hcreate : Agrees f create)
    (hagain : Computes f again) {chain : List String} {v : V} {tally : Tally} {call : Call δ H}
    {e : δ} (hcall : call ∈ calls create chain ⟨tableAfter kind uses host, v, tally⟩)
    (he : call.outcome = .error e) (v₁ v₂ : V') (tally₁ tally₂ : Tally) :
    let t := tableAfter kind uses host
    let first := (resolve create chain).run ⟨t, v, tally⟩
    let left := first.2.store
    let later := (resolve again chain).run ⟨left, v₁, tally₁⟩
    let single := (resolve again chain).run ⟨t, v₂, tally₂⟩
    first.1 = .error e ∧
      (∃ front name rest made, chain = front ++ name :: rest ∧
        call = left.callFor (front ++ [name]) (.error e) ∧
        calls create chain ⟨t, v, tally⟩ = left.callsFor made ++ [call] ∧
        Filled t front made left ∧
        t.missing chain = made.map Prod.fst ++ left.missing chain ∧
        ∃ more, left.missing chain = (front ++ [name]) :: more) ∧
      (∃ names, Coherent left names) ∧
      later.1 = single.1 ∧ later.2.store = single.2.store ∧
      ((∀ call ∈ calls again chain ⟨left, v₁, tally₁⟩, ∃ handle, call.outcome = .ok handle) →
        later.1 = .ok (later.2.store.numberAt chain) ∧
          ((calls again chain ⟨left, v₁, tally₁⟩).map fun call => (call.parent, call.name)) =
            (left.missing chain).map fun c => (later.2.store.handleAt c.dropLast, lastName c)) := by
  intro t first left later single
  obtain ⟨names, hc⟩ := exists_coherent_tableAfter kind uses host
  have hcourse := course_calls create chain (w := ⟨t, v, tally⟩) hc
  obtain ⟨front, name, rest, made, rfl, hfilled, hmissing, hlast, hnotes, herror⟩ :=
    hcourse.stuck_of_error hcall he
  have hleft : Coherent left _ := hfilled.coherent names hc
  obtain ⟨hresult, hstore⟩ : later.1 = single.1 ∧ later.2.store = single.2.store :=
    resolve_after_attempt hcreate hagain (w := ⟨t, v, tally⟩) hc _ rfl rfl
  refine ⟨herror, ⟨front, name, rest, made, rfl, hlast, hnotes, hfilled,
    hfilled.missing_append hc _, hfilled.missing_cons hc hmissing rest⟩, ⟨_, hleft⟩, hresult,
    hstore, fun hok => ?_⟩
  have hlater := course_calls again (front ++ name :: rest) (w := ⟨left, v₁, tally₁⟩) hleft
  obtain ⟨made', hfilled', hnotes', hr, -⟩ := hlater.filled_of_ok hok
  refine ⟨hr, ?_⟩
  rw [hnotes']
  exact hfilled'.map_callsFor

/-- The length of the names up to here, but for one call that fails after as many as the host
tells. -/
def lengthToOr (parent : Option Nat) (name : String) : Attempt String Nat Nat :=
  ⟨fun n => (if n = 0 then .error "busy" else lengthTo parent name, n - 1)⟩

/-- Two of five relations are there, and the second of the others fails. -/
theorem resolve_after_failure_at_fourth :
    let lengths : Option Nat → String → Attempt String Unit Nat :=
      fun parent name => .ofExcept (lengthTo parent name)
    let t := tableAfter .join [.resolve lengths ["a", "b"], .replaceHandle 0 7] ()
    let chain := ["a", "b", "c", "d", "e"]
    let first := (resolve lengthToOr chain).run ⟨t, 1, {}⟩
    let later := (resolve lengths chain).run ⟨first.2.store, (), {}⟩
    let single := (resolve lengths chain).run ⟨t, (), {}⟩
    Agrees lengthTo lengthToOr ∧ Computes lengthTo lengths ∧
      calls lengthToOr chain ⟨t, 1, {}⟩ = [⟨some 2, "c", .ok 3⟩, ⟨some 3, "d", .error "busy"⟩] ∧
      first.1 = .error "busy" ∧ later.1 = single.1 ∧ later.2.store = single.2.store := by
  intro lengths t chain first later single
  have hagrees : Agrees lengthTo lengthToOr := by
    intro parent name n handle h
    simp only [lengthToOr] at h
    split at h
    · cases h
    · exact h
  have hcomputes : Computes lengthTo lengths := fun _ _ _ => rfl
  have hcalls : calls lengthToOr chain ⟨t, 1, {}⟩ =
      [⟨some 2, "c", .ok 3⟩, ⟨some 3, "d", .error "busy"⟩] := rfl
  have hcall : ⟨some 3, "d", .error "busy"⟩ ∈ calls lengthToOr chain ⟨t, 1, {}⟩ := by
    rw [hcalls]
    exact List.mem_cons_of_mem _ List.mem_cons_self
  obtain ⟨herror, -, -, hresult, hstore, -⟩ :=
    resolve_after_failure .join _ () hagrees hcomputes hcall rfl () () {} {}
  refine ⟨hagrees, hcomputes, hcalls, herror, ?_, ?_⟩
  -- The walks are the same as they stand; none of them need be run.
  · with_reducible exact hresult
  · with_reducible exact hstore

end Criteria.RelationTable
