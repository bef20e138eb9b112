import Mathlib
import Criteria.Proofs.Attempt
import Criteria.Proofs.Relation.Register
import Criteria.Proofs.Tally

/-!
# Counting relations

A walk enters in the tally each relation that it finds again and each that it
creates, and nothing else; only what is created gets a link in the plan. To the
end of a chain these are as many as the chain has attributes, and in a table that
does not memoize all of them are created.
-/

namespace Criteria

/-! ## Tables that do not memoize -/

/-- The table does not memoize, and holds nothing that was. -/
structure RelationTable.Forgets {H : Type} (t : RelationTable H) : Prop where
  memoize_eq : t.memoize = false
  memo_eq : t.memo = []

theorem RelationTable.Forgets.add {H : Type} {t : RelationTable H} (h : t.Forgets)
    (node : Relation H) : (t.add node).Forgets where
  memoize_eq := h.memoize_eq
  memo_eq := by simp [RelationTable.add, h.memoize_eq, h.memo_eq]

namespace Register

open Criteria.RelationTable (reach walk walk_cons run_reach)

variable {H α β : Type} {g : Register H} {w w₁ w' : Workspace (RelationTable H) Plan}
  {s t : Tally} {n m : Nat}

/-! ## What is entered -/

/-- From one workspace to another the tally has grown by `t`, and the links by as many as `t` has
created relations of the table's kind. -/
structure Counted (g : Register H) (w w' : Workspace (RelationTable H) Plan) (t : Tally) :
    Prop where
  kind_eq : w'.store.kind = w.store.kind
  tally_eq : w'.tally = w.tally + t
  length_eq : (g.links w'.host).length =
    (g.links w.host).length + (t.usage w.store.kind).created
  forgets : w.store.Forgets → w'.store.Forgets ∧ (t.usage w.store.kind).hits = 0

theorem Counted.trans (h : g.Counted w w₁ s) (h' : g.Counted w₁ w' t) : g.Counted w w' (s + t) where
  kind_eq := h'.kind_eq.trans h.kind_eq
  tally_eq := by rw [h'.tally_eq, h.tally_eq, Tally.add_assoc]
  length_eq := by
    rw [h'.length_eq, h.length_eq, h.kind_eq, Tally.usage_add, Usage.created_add, Nat.add_assoc]
  forgets hw := by
    obtain ⟨hw₁, hs⟩ := h.forgets hw
    obtain ⟨hw', ht⟩ := h'.forgets hw₁
    rw [h.kind_eq] at ht
    exact ⟨hw', by rw [Tally.usage_add, Usage.hits_add, hs, ht]⟩

/-- An entry that is not about relations of the table's kind. -/
theorem Counted.of_entry (hstore : w'.store = w.store) (hhost : w'.host = w.host)
    (htally : w'.tally = w.tally + t) (h : t.usage w.store.kind = {}) : g.Counted w w' t where
  kind_eq := congrArg RelationTable.kind hstore
  tally_eq := htally
  length_eq := by
    rw [hhost, h]
    rfl
  forgets hw := by
    rw [hstore, h]
    exact ⟨hw, rfl⟩

/-- What a table shows of relations that were counted, with the tally and the links. -/
def ledger (g : Register H) (w : Workspace (RelationTable H) Plan) :
    RelationKind × Bool × List (String × Nat) × Tally × List Link :=
  (w.store.kind, w.store.memoize, w.store.memo, w.tally, g.links w.host)

theorem Counted.of_ledger (h : g.ledger w' = g.ledger w) : g.Counted w w' {} := by
  simp only [ledger, Prod.mk.injEq] at h
  obtain ⟨hkind, hmemoize, hmemo, htally, hlinks⟩ := h
  have hzero : (({} : Tally).usage w.store.kind) = {} := by cases w.store.kind <;> rfl
  refine ⟨hkind, htally, ?_, fun hw => ⟨⟨?_, ?_⟩, ?_⟩⟩
  · rw [hlinks, hzero]
    rfl
  · rw [hmemoize, hw.memoize_eq]
  · rw [hmemo, hw.memo_eq]
  · rw [hzero]

/-- From this workspace the attempt enters in the tally relations of the table's kind and nothing
else. If it succeeds, these are `n`. -/
def CountsAt (g : Register H) (n : Nat) (x : Attempt Failure (Workspace (RelationTable H) Plan) α)
    (w : Workspace (RelationTable H) Plan) : Prop :=
  ∃ u : Usage, g.Counted w (x.run w).2 (.only w.store.kind u) ∧
    ((x.run w).1.isOk = true → u.hits + u.created = n)

/-- So it does from every workspace. -/
def Counts (g : Register H) (n : Nat)
    (x : Attempt Failure (Workspace (RelationTable H) Plan) α) : Prop :=
  ∀ w, g.CountsAt n x w

variable {x : Attempt Failure (Workspace (RelationTable H) Plan) α}
  {f : α → Attempt Failure (Workspace (RelationTable H) Plan) β}

theorem countsAt_of_ledger (h : g.ledger (x.run w).2 = g.ledger w) : g.CountsAt 0 x w := by
  refine ⟨{}, ?_, fun _ => rfl⟩
  rw [Tally.only_zero]
  exact .of_ledger h

theorem counts_of_keeps (h : x.Keeps g.ledger) : g.Counts 0 x := fun w => countsAt_of_ledger (h w)

theorem CountsAt.bind (hx : g.CountsAt n x w)
    (hf : ∀ a w₁, x.run w = (.ok a, w₁) → g.CountsAt m (f a) w₁) :
    g.CountsAt (n + m) (x >>= f) w := by
  obtain ⟨u, hfirst, hn⟩ := hx
  rcases hrun : x.run w with ⟨e | a, w₁⟩
  · rw [hrun] at hfirst
    rw [CountsAt, Attempt.run_bind_of_error hrun]
    exact ⟨u, hfirst, fun hok => by cases hok⟩
  · rw [hrun] at hfirst hn
    obtain ⟨v, hsecond, hm⟩ := hf a w₁ hrun
    rw [hfirst.kind_eq] at hsecond
    rw [CountsAt, Attempt.run_bind_of_ok hrun]
    refine ⟨u + v, ?_, fun hok => ?_⟩
    · rw [← Tally.only_add]
      exact hfirst.trans hsecond
    · have hu := hn rfl
      have hv := hm hok
      rw [Usage.hits_add, Usage.created_add]
      omega

theorem Counts.bind (hx : g.Counts n x) (hf : ∀ a, g.Counts m (f a)) :
    g.Counts (n + m) (x >>= f) :=
  fun w => (hx w).bind fun a w₁ _ => hf a w₁

theorem Counts.forEach {size : α → Nat} (hf : ∀ a, g.Counts (size a) (f a)) (l : List α) :
    g.Counts (l.map size).sum (Attempt.forEach f l) := by
  induction l with
  | nil => exact counts_of_keeps (Attempt.keeps_pure [])
  | cons a rest ih =>
    rw [List.map_cons, List.sum_cons]
    refine (hf a).bind fun b => ?_
    exact ih.bind fun bs => counts_of_keeps (Attempt.keeps_pure (b :: bs))

/-! ## Walks -/

/-- A step finds a relation or creates one, unless it is refused. -/
theorem counts_reach (path : String) (parent : Option Nat) (name : String) :
    g.Counts 1 (reach g.create path parent name) := by
  intro w
  rw [CountsAt, run_reach]
  cases hlookup : w.store.lookup path with
  | some id =>
    refine ⟨⟨1, 0⟩, ⟨rfl, Tally.recordHit_eq_add _ _, ?_, fun hw => ?_⟩, fun _ => rfl⟩
    · rw [Tally.usage_only]
      rfl
    · rw [RelationTable.lookup, hw.memo_eq] at hlookup
      cases hlookup
  | none =>
    by_cases hname : name ∈ w.host.rejected
    · rw [g.run_rejected _ _ _ hname]
      refine ⟨{}, ?_, fun hok => by cases hok⟩
      rw [Tally.only_zero]
      exact .of_ledger rfl
    · obtain ⟨handle, p', hrun, -, hlinks, -⟩ :=
        g.run_admitted (parent.bind w.store.handle?) name w.host hname
      rw [hrun]
      refine ⟨⟨0, 1⟩, ⟨rfl, Tally.recordCreated_eq_add _ _, ?_, fun hw => ?_⟩, fun _ => rfl⟩
      · rw [Tally.usage_only, hlinks, List.length_append, List.length_singleton]
      · rw [Tally.usage_only]
        exact ⟨hw.add _, rfl⟩

theorem counts_walk (start : Option (String × Nat)) (chain : List String) :
    g.Counts chain.length (walk g.create start chain) := by
  induction chain generalizing start with
  | nil => exact counts_of_keeps (Attempt.keeps_pure _)
  | cons name chain ih =>
    rw [walk_cons, List.length_cons, Nat.add_comm]
    exact (counts_reach _ _ name).bind fun id => ih _

end Register

end Criteria
