import Criteria.Json.Number
import Criteria.Json.Quotation

/-!
# JSON values of a wanted kind

Readers for the plain kinds. A value of another kind is refused, but only after
it has been read as far as its kind is plain too: a fault inside it comes first.
-/

namespace Criteria.Json

/-- Refuses what begins here as a value of another kind. -/
def refuse {α : Type} : List Char → Except Fault α
  | [] => .error .truncated
  | 'n' :: rest => takeWord ['u', 'l', 'l'] rest >>= fun _ => .error .mismatched
  | 't' :: rest => takeWord ['r', 'u', 'e'] rest >>= fun _ => .error .mismatched
  | 'f' :: rest => takeWord ['a', 'l', 's', 'e'] rest >>= fun _ => .error .mismatched
  | '"' :: rest => Quotation.read rest >>= fun _ => .error .mismatched
  | '[' :: _ | '\x7b' :: _ => .error .mismatched
  | c :: rest =>
    if Number.begins c then Number.read (c :: rest) >>= fun _ => .error .mismatched
    else .error .malformed

/-- A truth value. -/
def readBool : Reader Bool := fun cs =>
  match skipSpace cs with
  | 't' :: rest => (true, ·) <$> takeWord ['r', 'u', 'e'] rest
  | 'f' :: rest => (false, ·) <$> takeWord ['a', 'l', 's', 'e'] rest
  | rest => refuse rest

/-- A string. -/
def readString : Reader String := fun cs =>
  match skipSpace cs with
  | '"' :: rest => Quotation.read rest
  | rest => refuse rest

/-- A number that `convert` accepts. -/
def readNumber {α : Type} (convert : Number → Option α) : Reader α := fun cs =>
  match skipSpace cs with
  | [] => .error .truncated
  | c :: rest =>
    if Number.begins c then do
      let (n, rest) ← Number.read (c :: rest)
      match convert n with
      | some a => return (a, rest)
      | none => .error .mismatched
    else refuse (c :: rest)

/-- The items of a list from one that has to be there, in at most `fuel` items. -/
def readItems {α : Type} (item : Reader α) : Nat → Reader (List α)
  | 0, _ => .error .truncated
  | fuel + 1, cs => do
    let (a, rest) ← item cs
    match skipSpace rest with
    | [] => .error .truncated
    | ']' :: rest => return ([a], rest)
    | ',' :: rest =>
      match skipSpace rest with
      | [] => .error .truncated
      | ']' :: _ => .error .malformed
      | rest =>
        let (more, rest) ← readItems item fuel rest
        return (a :: more, rest)
    | _ => .error .malformed

/-- A list behind its opening bracket. Every item takes a character of the text, so there are no
more items than characters. -/
def readList {α : Type} (item : Reader α) : Reader (List α) := fun cs =>
  match skipSpace cs with
  | [] => .error .truncated
  | ']' :: rest => .ok ([], rest)
  | rest => readItems item rest.length rest

end Criteria.Json
