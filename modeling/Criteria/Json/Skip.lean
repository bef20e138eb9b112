import Criteria.Json.Quotation

/-!
# Passing over JSON values

A value nobody asked for is passed over, at any depth of nesting, but it has to
be JSON. Numbers are checked for their form alone, and one that ends too early
is malformed even at the end of the text.
-/

namespace Criteria.Json.Skip

/-- At least one digit. -/
def digits (cs : List Char) : Except Fault (List Char) :=
  if (cs.head?.any Char.isDigit) then .ok (cs.dropWhile Char.isDigit) else .error .malformed

/-- An exponent behind its letter. -/
def exponent : List Char → Except Fault (List Char)
  | '+' :: rest | '-' :: rest => digits rest
  | rest => digits rest

/-- A number behind its sign. A fraction may be followed by an exponent. -/
def number (cs : List Char) : Except Fault (List Char) := do
  let rest ←
    match cs with
    | '0' :: rest => if rest.head?.any Char.isDigit then .error .malformed else .ok rest
    | rest => digits rest
  let rest ←
    match rest with
    | '.' :: rest => digits rest
    | rest => .ok rest
  match rest with
  | 'e' :: rest | 'E' :: rest => exponent rest
  | rest => .ok rest

/-- A bracket that is still open. -/
inductive Bracket where
  | square
  | curly

/-- The mark that closes a bracket. -/
def Bracket.mark : Bracket → Char
  | square => ']'
  | curly => '\x7d'

/-- The key of a member and its colon. -/
def key (cs : List Char) : Except Fault (List Char) := do
  let rest ← takeMark '"' cs
  let rest ← Quotation.skip rest
  takeMark ':' rest

/-- What has to stand before the next value inside a bracket. -/
def introduce : Bracket → List Char → Except Fault (List Char)
  | .square, cs => .ok cs
  | .curly, cs => key cs

mutual

/-- Passes over a value inside the brackets `outer`, innermost first, and over all that follows up
to the end of the outermost one. -/
def value : Nat → List Bracket → List Char → Except Fault (List Char)
  | 0, _, _ => .error .truncated
  | fuel + 1, outer, cs =>
    match skipSpace cs with
    | [] => .error .truncated
    | '[' :: rest => opened fuel .square outer rest
    | '\x7b' :: rest => opened fuel .curly outer rest
    | 'n' :: rest => takeWord ['u', 'l', 'l'] rest >>= following fuel outer
    | 't' :: rest => takeWord ['r', 'u', 'e'] rest >>= following fuel outer
    | 'f' :: rest => takeWord ['a', 'l', 's', 'e'] rest >>= following fuel outer
    | '"' :: rest => Quotation.skip rest >>= following fuel outer
    | '-' :: rest => number rest >>= following fuel outer
    | c :: rest =>
      if c.isDigit then number (c :: rest) >>= following fuel outer else .error .malformed

/-- Goes on behind an opening bracket, which may be closed at once. -/
def opened : Nat → Bracket → List Bracket → List Char → Except Fault (List Char)
  | 0, _, _, _ => .error .truncated
  | fuel + 1, bracket, outer, cs =>
    match skipSpace cs with
    | [] => .error .truncated
    | c :: rest =>
      if c = bracket.mark then following fuel outer rest
      else introduce bracket (c :: rest) >>= value fuel (bracket :: outer)

/-- Goes on behind a value: to the next one, or out of the bracket. -/
def following : Nat → List Bracket → List Char → Except Fault (List Char)
  | 0, _, _ => .error .truncated
  | _ + 1, [], cs => .ok cs
  | fuel + 1, bracket :: outer, cs =>
    match skipSpace cs with
    | [] => .error .truncated
    | c :: rest =>
      if c = ',' then introduce bracket rest >>= value fuel (bracket :: outer)
      else if c = bracket.mark then following fuel outer rest
      else .error .malformed

end

/-- Passes over one value. Every character takes at most two steps. -/
def one (cs : List Char) : Except Fault (List Char) := value (3 * cs.length + 3) [] cs

end Criteria.Json.Skip
