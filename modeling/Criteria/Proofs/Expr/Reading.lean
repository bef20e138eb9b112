import Mathlib
import Criteria.Proofs.Expr.Grouping

/-!
# Reading written expressions

What is written can be read again: what stands in parentheses belongs together,
`and` binds tighter than `or`, and neighbours under one connective may be grouped
in either way. All readings of a written expression are the expression itself but
for the grouping, and the one that groups to the left is written alike. So two
expressions are written alike just if they differ in the grouping alone.
-/

namespace Criteria

/-- How tightly the parts of a piece of writing hold together. -/
inductive Binding where
  /-- An atom, or something in parentheses. -/
  | operand
  | conjunction
  | disjunction

/-- The piece that is written between the sides of a connective. -/
def Connective.piece : Connective → Piece
  | and => .and
  | or => .or

/-- What a connective makes of its sides. -/
def Connective.outer : Connective → Binding
  | and => .conjunction
  | or => .disjunction

/-- What the sides of a connective are at most, if they are not grouped with their neighbours. -/
def Connective.inner : Connective → Binding
  | and => .operand
  | or => .conjunction

/-- How neighbours under one connective are grouped. -/
inductive Grouping where
  | either
  | left

/-- What may stand on the right side of a connective. -/
def Grouping.right : Grouping → Connective → Binding
  | either, connective => connective.outer
  | left, connective => connective.inner

namespace Expr

variable {grouping : Grouping} {binding : Binding} {connective : Connective} {ps qs : List Piece}
  {e f : Expr}

/-! ## Readings -/

/-- The pieces can be read as the expression. -/
inductive Reads (grouping : Grouping) : Binding → List Piece → Expr → Prop
  | atom (a : Atom) : Reads grouping .operand [.atom a] (.atom a)
  | enclosed {ps : List Piece} {e : Expr} (h : Reads grouping .disjunction ps e) :
      Reads grouping .operand (.opening :: (ps ++ [.closing])) e
  | single (connective : Connective) {ps : List Piece} {e : Expr}
      (h : Reads grouping connective.inner ps e) : Reads grouping connective.outer ps e
  | sides (connective : Connective) {ps qs : List Piece} {l r : Expr}
      (hl : Reads grouping connective.outer ps l)
      (hr : Reads grouping (grouping.right connective) qs r) :
      Reads grouping connective.outer (ps ++ connective.piece :: qs) (connective.apply l r)

/-- An expression is a reading of its own pieces, also where it is a side of a conjunction. -/
theorem reads_pieces (e : Expr) :
    Reads .either .conjunction e.sidePieces e ∧ Reads .either .disjunction e.pieces e := by
  induction e with
  | atom a =>
    have hside : Reads .either .conjunction [.atom a] (atom a) := .single .and (.atom a)
    exact ⟨hside, .single .or hside⟩
  | and l r ihl ihr =>
    have hside : Reads .either .conjunction (and l r).sidePieces (and l r) :=
      .sides .and ihl.1 ihr.1
    exact ⟨hside, .single .or hside⟩
  | or l r ihl ihr =>
    have hpieces : Reads .either .disjunction (or l r).pieces (or l r) := .sides .or ihl.2 ihr.2
    exact ⟨.single .and (.enclosed hpieces), hpieces⟩

/-! ## Grouping to the left -/

theorem outer_injective : Function.Injective Connective.outer := by
  intro connective connective' h
  cases connective with
  | and =>
    cases connective' with
    | and => rfl
    | or => cases h
  | or =>
    cases connective' with
    | and => cases h
    | or => rfl

/-- What stands on the right side can be taken apart and grouped to the left. -/
theorem Reads.sides_left (hl : Reads .left connective.outer ps e)
    (hr : Reads .left connective.outer qs f) :
    ∃ g, Reads .left connective.outer (ps ++ connective.piece :: qs) g ∧
      Regrouped Set.univ (connective.apply e f) g := by
  generalize hb : connective.outer = binding at hr
  induction hr with
  | atom a | enclosed h => cases connective <;> cases hb
  | single connective' h =>
    obtain rfl := outer_injective hb
    exact ⟨_, .sides connective hl h, .refl _⟩
  | @sides connective' qs qs' f f' hf hf' ih =>
    obtain rfl := outer_injective hb
    obtain ⟨g, hg, hregrouped⟩ := ih rfl
    refine ⟨connective.apply g f', ?_, ?_⟩
    · have hsides := hg.sides connective hf'
      rwa [List.append_assoc, List.cons_append] at hsides
    · exact (Regrouped.assoc (Set.mem_univ _) e f f').symm.trans
        (hregrouped.sides connective (.refl f'))

/-- Whatever can be read can be read with neighbours grouped to the left. -/
theorem Reads.exists_left (h : Reads .either binding ps e) :
    ∃ f, Reads .left binding ps f ∧ Regrouped Set.univ e f := by
  induction h with
  | atom a => exact ⟨_, .atom a, .refl _⟩
  | enclosed _ ih =>
    obtain ⟨f, hf, hregrouped⟩ := ih
    exact ⟨f, .enclosed hf, hregrouped⟩
  | single connective _ ih =>
    obtain ⟨f, hf, hregrouped⟩ := ih
    exact ⟨f, .single connective hf, hregrouped⟩
  | sides connective _ _ ihl ihr =>
    obtain ⟨fl, hfl, hl⟩ := ihl
    obtain ⟨fr, hfr, hr⟩ := ihr
    obtain ⟨f, hf, hregrouped⟩ := hfl.sides_left hfr
    exact ⟨f, hf, (hl.sides connective hr).trans hregrouped⟩

/-! ## A reader -/

/-- What waits in front of the next operand: the left side of an `or`, and that of an `and` behind
it. -/
structure Pending where
  disjunct : Option Expr := none
  conjunct : Option Expr := none

namespace Pending

/-- An expression with what may wait for it. -/
def join (connective : Connective) (before : Option Expr) (e : Expr) : Expr :=
  before.elim e (connective.apply · e)

/-- Everything up to and including the operand. -/
def complete (p : Pending) (e : Expr) : Expr := join .or p.disjunct (join .and p.conjunct e)

/-- What waits behind an operand and a connective. -/
def await (p : Pending) (e : Expr) : Connective → Pending
  | .and => { p with conjunct := some (join .and p.conjunct e) }
  | .or => { disjunct := some (p.complete e) }

end Pending

/-- Reads on, with what waits outside and inside the last parenthesis that is open, behind an
operand if there is one. -/
def readFrom : List Pending → Pending → Option Expr → List Piece → Option Expr
  | outside, inside, none, .atom a :: rest => readFrom outside inside (some (.atom a)) rest
  | outside, inside, none, .opening :: rest => readFrom (inside :: outside) {} none rest
  | outside, inside, some e, .and :: rest => readFrom outside (inside.await e .and) none rest
  | outside, inside, some e, .or :: rest => readFrom outside (inside.await e .or) none rest
  | before :: outside, inside, some e, .closing :: rest =>
    readFrom outside before (some (inside.complete e)) rest
  | [], inside, some e, [] => some (inside.complete e)
  | _, _, _, _ => none

/-- Reads pieces from left to right and groups neighbours to the left. -/
def read (ps : List Piece) : Option Expr := readFrom [] {} none ps

/-- Where the pieces are read, the expression has been read behind them. -/
def ReadBehind : Binding → List Piece → Expr → Prop
  | .operand, ps, e => ∀ outside inside rest,
      readFrom outside inside none (ps ++ rest) = readFrom outside inside (some e) rest
  | .conjunction, ps, e => ∀ outside disjunct rest, ∃ conjunct f,
      readFrom outside ⟨disjunct, none⟩ none (ps ++ rest) =
        readFrom outside ⟨disjunct, conjunct⟩ (some f) rest ∧ Pending.join .and conjunct f = e
  | .disjunction, ps, e => ∀ outside rest, ∃ inside f,
      readFrom outside {} none (ps ++ rest) = readFrom outside inside (some f) rest ∧
        inside.complete f = e

/-- The reader reads what can be read with neighbours grouped to the left. -/
theorem Reads.readBehind (h : Reads .left binding ps e) : ReadBehind binding ps e := by
  induction h with
  | atom a => exact fun outside inside rest => rfl
  | @enclosed ps e _ ih =>
    intro outside inside rest
    obtain ⟨last, f, hread, rfl⟩ := ih (inside :: outside) (.closing :: rest)
    rw [List.cons_append, List.append_assoc]
    exact hread
  | @single connective ps e _ ih =>
    cases connective with
    | and => exact fun outside disjunct rest => ⟨none, e, ih outside _ rest, rfl⟩
    | or =>
      intro outside rest
      obtain ⟨conjunct, f, hread, rfl⟩ := ih outside none rest
      exact ⟨_, f, hread, rfl⟩
  | @sides connective ps qs l r _ _ ihl ihr =>
    cases connective with
    | and =>
      intro outside disjunct rest
      obtain ⟨conjunct, f, hread, rfl⟩ := ihl outside disjunct (.and :: (qs ++ rest))
      refine ⟨some (Pending.join .and conjunct f), r, ?_, rfl⟩
      rw [List.append_assoc]
      exact hread.trans (ihr outside _ rest)
    | or =>
      intro outside rest
      obtain ⟨inside, f, hread, rfl⟩ := ihl outside (.or :: (qs ++ rest))
      obtain ⟨conjunct, g, hread', rfl⟩ := ihr outside (some (inside.complete f)) rest
      refine ⟨⟨some (inside.complete f), conjunct⟩, g, ?_, rfl⟩
      rw [List.append_assoc]
      exact hread.trans hread'

theorem Reads.read_eq (h : Reads .left .disjunction ps e) : read ps = some e := by
  obtain ⟨inside, f, hread, rfl⟩ := h.readBehind [] []
  rw [List.append_nil] at hread
  exact hread

/-! ## Written expressions -/

/-- **What is written means what the expression means.** It can be read, and all its readings are
the expression but for the grouping of neighbours, with the same truth. Grouping to the left gives
one reading, which the reader finds and which is written alike. Other expressions are written alike
just if they differ from this one in the grouping of neighbours alone. -/
theorem readings_of_pieces (e : Expr) :
    Reads .either .disjunction e.pieces e ∧
    (∀ f, Reads .either .disjunction e.pieces f →
      Regrouped Set.univ f e ∧ ∀ holds, f.eval holds = e.eval holds) ∧
    (∃ f, read e.pieces = some f ∧ (∀ g, Reads .left .disjunction e.pieces g ↔ g = f) ∧
      f.pieces = e.pieces ∧ ∀ holds, f.eval holds = e.eval holds) ∧
    ∀ f, f.pieces = e.pieces ↔ Regrouped Set.univ f e := by
  have hread := (reads_pieces e).2
  obtain ⟨left, hleft, hregrouped⟩ := hread.exists_left
  have hunique : ∀ g, Reads .left .disjunction e.pieces g → g = left := by
    intro g hg
    have heq := hg.read_eq.symm.trans hleft.read_eq
    exact Option.some.inj heq
  have hall : ∀ f, Reads .either .disjunction e.pieces f → Regrouped Set.univ f e := by
    intro f hf
    obtain ⟨g, hg, hfg⟩ := hf.exists_left
    rw [hunique g hg] at hfg
    exact hfg.trans hregrouped.symm
  refine ⟨hread, fun f hf => ⟨hall f hf, (hall f hf).eval_eq⟩, ⟨left, hleft.read_eq, fun g => ?_,
    hregrouped.symm.pieces_eq, hregrouped.symm.eval_eq⟩, fun f => ⟨fun heq => ?_, ?_⟩⟩
  · constructor
    · exact hunique g
    · rintro rfl
      exact hleft
  · exact hall f (heq ▸ (reads_pieces f).2)
  · exact Regrouped.pieces_eq

example (a b c d : Atom) :
    read (or (.atom a) (or (and (.atom b) (or (.atom c) (.atom d))) (.atom a))).pieces =
      some (or (or (.atom a) (and (.atom b) (or (.atom c) (.atom d)))) (.atom a)) := rfl

end Expr

end Criteria
