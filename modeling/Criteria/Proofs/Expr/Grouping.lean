import Mathlib
import Criteria.Condition

/-!
# Grouping of expressions

Neighbours under one connective may be grouped to the left or to the right. This
changes the tree, but neither the expression as it is written nor its truth.
-/

namespace Criteria

namespace Expr

variable {among : Set Connective} {e f : Expr}

/-- The expressions are the same but for the grouping of neighbours under the given connectives. -/
inductive Regrouped (among : Set Connective) : Expr → Expr → Prop
  | refl (e : Expr) : Regrouped among e e
  | symm {e f : Expr} (h : Regrouped among e f) : Regrouped among f e
  | trans {e f g : Expr} (h : Regrouped among e f) (h' : Regrouped among f g) : Regrouped among e g
  | sides (connective : Connective) {l l' r r' : Expr} (hl : Regrouped among l l')
      (hr : Regrouped among r r') :
      Regrouped among (connective.apply l r) (connective.apply l' r')
  | assoc {connective : Connective} (h : connective ∈ among) (e f g : Expr) :
      Regrouped among (connective.apply (connective.apply e f) g)
        (connective.apply e (connective.apply f g))

/-! ## How expressions are written -/

/-- The pieces of an expression that is a side of a conjunction. -/
def sidePieces (e : Expr) : List Piece := enclose e.isOr e.pieces

theorem pieces_and (l r : Expr) : (and l r).pieces = l.sidePieces ++ .and :: r.sidePieces := rfl

theorem pieces_or (l r : Expr) : (or l r).pieces = l.pieces ++ .or :: r.pieces := rfl

/-- A conjunction needs no parentheses, whatever it is a side of. -/
theorem sidePieces_and (l r : Expr) :
    (and l r).sidePieces = l.sidePieces ++ .and :: r.sidePieces := rfl

theorem Regrouped.written (h : Regrouped among e f) : e.pieces = f.pieces ∧ e.isOr = f.isOr := by
  induction h with
  | refl e => exact ⟨rfl, rfl⟩
  | symm _ ih => exact ⟨ih.1.symm, ih.2.symm⟩
  | trans _ _ ih ih' => exact ⟨ih.1.trans ih'.1, ih.2.trans ih'.2⟩
  | sides connective _ _ ihl ihr =>
    cases connective with
    | and => exact ⟨by simp only [Connective.apply, pieces, ihl, ihr], rfl⟩
    | or => exact ⟨by simp only [Connective.apply, pieces, ihl, ihr], rfl⟩
  | @assoc connective _ e f g =>
    cases connective with
    | and => exact ⟨by simp [Connective.apply, pieces_and, sidePieces_and], rfl⟩
    | or => exact ⟨by simp [Connective.apply, pieces_or], rfl⟩

/-- Regrouped expressions are written alike. -/
theorem Regrouped.pieces_eq (h : Regrouped among e f) : e.pieces = f.pieces := h.written.1

theorem Regrouped.text_eq (h : Regrouped among e f) : e.text = f.text := by
  rw [text, text, h.pieces_eq]

/-- Regrouped expressions are true of the same atoms. -/
theorem Regrouped.eval_eq (h : Regrouped among e f) (holds : Atom → Bool) :
    e.eval holds = f.eval holds := by
  induction h with
  | refl e => rfl
  | symm _ ih => exact ih.symm
  | trans _ _ ih ih' => exact ih.trans ih'
  | sides connective _ _ ihl ihr =>
    cases connective with
    | and => simp only [Connective.apply, eval, ihl, ihr]
    | or => simp only [Connective.apply, eval, ihl, ihr]
  | @assoc connective _ e f g =>
    cases connective with
    | and => exact Bool.and_assoc ..
    | or => exact Bool.or_assoc ..

end Expr

end Criteria
