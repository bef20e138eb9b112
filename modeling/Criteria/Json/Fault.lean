/-!
# Faults in JSON texts

A text is read from left to right and its first fault decides which of three
kinds it is.
-/

namespace Criteria.Json

/-- Why a JSON text was not accepted. -/
inductive Fault where
  /-- The text ends inside a value. -/
  | truncated
  /-- The text is not JSON. -/
  | malformed
  /-- The text is JSON so far, but not of the kind that is wanted. -/
  | mismatched
deriving DecidableEq

/-- The fault in one word. -/
def Fault.word : Fault → String
  | truncated => "<eof>"
  | malformed => "<syntax>"
  | mismatched => "<data>"

/-- A reader takes what it wants from the front of the text and returns the rest. -/
abbrev Reader (α : Type) := List Char → Except Fault (α × List Char)

/-- The fault of meeting `rest` where something else has to stand. -/
def unexpected {α : Type} (rest : List Char) : Except Fault α :=
  .error (if rest.isEmpty then .truncated else .malformed)

/-- White space between tokens. -/
def isSpace (c : Char) : Bool := c == ' ' || c == '\n' || c == '\t' || c == '\r'

/-- The text from its first token on. -/
def skipSpace (cs : List Char) : List Char := cs.dropWhile isSpace

/-- Takes the letters of a word, one by one. -/
def takeWord : List Char → List Char → Except Fault (List Char)
  | [], rest => .ok rest
  | w :: word, c :: cs => if c = w then takeWord word cs else .error .malformed
  | _ :: _, [] => .error .truncated

/-- Takes one mark, after white space. -/
def takeMark (mark : Char) (cs : List Char) : Except Fault (List Char) :=
  match skipSpace cs with
  | c :: rest => if c = mark then .ok rest else .error .malformed
  | [] => .error .truncated

/-- Nothing but white space may follow the value of a text. -/
def finish {α : Type} : α × List Char → Except Fault α
  | (a, rest) => if (skipSpace rest).isEmpty then .ok a else .error .malformed

end Criteria.Json
