import Mathlib
import Criteria.Proofs.Expr.Grouping
import Criteria.Proofs.Query.Filters

/-!
# Conjunctions of many expressions

Expressions are conjoined one after the other, grouped to the left. What is
written is their texts between `and`s. Two neighbours that are conjoined
beforehand change nothing but the grouping.
-/

namespace Criteria.Expr

variable {among : Set Connective}

/-! ## Texts -/

/-- The text of an expression that is a side of a conjunction. -/
def sideText (e : Expr) : String := if e.isOr then "(" ++ e.text ++ ")" else e.text

theorem text_eq_join (e : Expr) : e.text = String.join (e.pieces.map Piece.text) := by
  have hjoin : ∀ texts : List String, "".intercalate texts = String.join texts := by
    intro texts
    induction texts with
    | nil => rfl
    | cons t texts ih =>
      cases texts with
      | nil => simp
      | cons u texts =>
        simp only [String.intercalate_cons_cons, ih, String.append_empty, String.join_cons]
  rw [text, hjoin]

theorem join_sidePieces (e : Expr) :
    String.join (e.sidePieces.map Piece.text) = e.sideText := by
  rw [sidePieces, sideText]
  cases e.isOr with
  | false => exact (text_eq_join e).symm
  | true => simp [enclose, text_eq_join, Piece.text, String.append_assoc]

theorem text_and (l r : Expr) : (and l r).text = l.sideText ++ " and " ++ r.sideText := by
  rw [text_eq_join, pieces_and, List.map_append, String.join_append, join_sidePieces, List.map_cons,
    String.join_cons, join_sidePieces, String.append_assoc]
  rfl

theorem sideText_and (l r : Expr) : (and l r).sideText = (and l r).text := rfl

/-- Texts between `and`s. -/
def sidesText (es : List Expr) : String := " and ".intercalate (es.map sideText)

theorem sideText_foldl_and (e : Expr) (es : List Expr) :
    (es.foldl and e).sideText = sidesText (e :: es) := by
  induction es generalizing e with
  | nil => simp [sidesText]
  | cons e' es ih =>
    rw [List.foldl_cons, ih, sidesText, List.map_cons, sideText_and, text_and,
      String.intercalate_cons_append, sidesText, List.map_cons, List.map_cons,
      String.intercalate_cons_cons, String.append_assoc]

/-- What is written for expressions that are conjoined: an expression alone stands as it is, others
have `and`s between them, and the disjunctions among these stand in parentheses. -/
def conjoinedText : List Expr → String
  | [] => always.text
  | [e] => e.text
  | es => sidesText es

theorem text_conjunction (es : List Expr) : (conjunction es).text = conjoinedText es := by
  match es with
  | [] => rfl
  | [e] => rfl
  | e :: e' :: es =>
    -- the outermost of several is a conjunction, which has no parentheses
    have hside : ∀ (es : List Expr) (l r : Expr),
        (es.foldl and (and l r)).sideText = (es.foldl and (and l r)).text := by
      intro es
      induction es with
      | nil => exact fun l r => rfl
      | cons e es ih => exact fun l r => ih (and l r) e
    rw [conjunction, List.foldl_cons, ← hside, ← List.foldl_cons, sideText_foldl_and]
    rfl

/-! ## Grouping -/

theorem regrouped_foldl_and {e f : Expr} (h : Regrouped among e f) (es : List Expr) :
    Regrouped among (es.foldl and e) (es.foldl and f) := by
  induction es generalizing e f with
  | nil => exact h
  | cons e' es ih => exact ih (h.sides .and (.refl e'))

/-- Neighbours may be conjoined before the others are. -/
theorem regrouped_conjunction (hand : Connective.and ∈ among) (before : List Expr) (e f : Expr)
    (after : List Expr) :
    Regrouped among (conjunction (before ++ and e f :: after))
      (conjunction (before ++ e :: f :: after)) := by
  cases before with
  | nil => exact .refl _
  | cons first before =>
    simp only [List.cons_append, conjunction, List.foldl_append, List.foldl_cons]
    exact regrouped_foldl_and (.symm (.assoc hand _ e f)) after

end Criteria.Expr
