import Criteria.Json.Fault

/-!
# JSON strings

A string is read unit by unit: a plain character, an escape, or two `\u` escapes
that stand for one character beyond the sixteen-bit ones. Control characters
have to be escaped, and half a pair is refused.
-/

namespace Criteria.Json.Quotation

/-- The value of a hexadecimal digit. -/
def hexValue? (c : Char) : Option Nat :=
  if c.isDigit then some (c.toNat - '0'.toNat)
  else if 'a' ≤ c ∧ c ≤ 'f' then some (c.toNat - 'a'.toNat + 10)
  else if 'A' ≤ c ∧ c ≤ 'F' then some (c.toNat - 'A'.toNat + 10)
  else none

/-- The bytes of a text in UTF-8. -/
def byteCount (cs : List Char) : Nat := cs.foldl (fun n c => n + c.utf8Size) 0

/-- The number of four hexadecimal digits. Fewer than four bytes are a text that ends too early,
whatever they are. -/
def quad (cs : List Char) : Except Fault (Nat × List Char) :=
  match cs with
  | a :: b :: c :: d :: rest =>
    match hexValue? a, hexValue? b, hexValue? c, hexValue? d with
    | some a, some b, some c, some d => .ok (((a * 16 + b) * 16 + c) * 16 + d, rest)
    | _, _, _, _ => .error .malformed
  | few => .error (if byteCount few < 4 then .truncated else .malformed)

/-- The character of an escape that is one letter. -/
def letter? : Char → Option Char
  | '"' => some '"'
  | '\\' => some '\\'
  | '/' => some '/'
  | 'b' => some '\x08'
  | 'f' => some '\x0c'
  | 'n' => some '\n'
  | 'r' => some '\r'
  | 't' => some '\t'
  | _ => none

/-- The second half of a pair, with its own escape in front. -/
def lowHalf (cs : List Char) : Except Fault (Nat × List Char) := do
  let cs ← takeWord ['\\', 'u'] cs
  let (low, rest) ← quad cs
  if 0xDC00 ≤ low ∧ low ≤ 0xDFFF then return (low, rest) else .error .malformed

/-- The character of a numeric escape, behind its letter. -/
def numeric (cs : List Char) : Except Fault (Char × List Char) := do
  let (code, rest) ← quad cs
  if 0xDC00 ≤ code ∧ code ≤ 0xDFFF then .error .malformed
  else if 0xD800 ≤ code ∧ code ≤ 0xDBFF then
    let (low, rest) ← lowHalf rest
    return (Char.ofNat ((code - 0xD800) * 0x400 + (low - 0xDC00) + 0x10000), rest)
  else return (Char.ofNat code, rest)

/-- The character of an escape, behind its backslash. -/
def escape : List Char → Except Fault (Char × List Char)
  | [] => .error .truncated
  | 'u' :: rest => numeric rest
  | c :: rest =>
    match letter? c with
    | some d => .ok (d, rest)
    | none => .error .malformed

/-- One unit of a string: a character, or the closing quote. -/
def unit : List Char → Except Fault (Option Char × List Char)
  | [] => .error .truncated
  | '"' :: rest => .ok (none, rest)
  | '\\' :: rest => do
    let (c, rest) ← escape rest
    return (some c, rest)
  | c :: rest => if c.toNat < 0x20 then .error .malformed else .ok (some c, rest)

/-- The characters up to the closing quote, in at most `fuel` units. -/
def units : Nat → List Char → Except Fault (List Char × List Char)
  | 0, _ => .error .truncated
  | fuel + 1, cs => do
    match ← unit cs with
    | (none, rest) => return ([], rest)
    | (some c, rest) =>
      let (more, rest) ← units fuel rest
      return (c :: more, rest)

/-- A string behind its opening quote. Every unit takes a character of the text, so there are no
more units than characters. -/
def read : Reader String := fun cs => do
  let (chars, rest) ← units (cs.length + 1) cs
  return (String.ofList chars, rest)

/-! ## Passing over -/

/-- Passes over an escape, behind its backslash; numeric escapes need not make a character. -/
def skipEscape : List Char → Except Fault (List Char)
  | [] => .error .truncated
  | 'u' :: rest => Prod.snd <$> quad rest
  | c :: rest => if (letter? c).isSome then .ok rest else .error .malformed

/-- Passes over a string behind its opening quote, in at most `fuel` units. -/
def skipUnits : Nat → List Char → Except Fault (List Char)
  | 0, _ => .error .truncated
  | _ + 1, [] => .error .truncated
  | fuel + 1, c :: rest =>
    if c = '"' then .ok rest
    else if c = '\\' then skipEscape rest >>= skipUnits fuel
    else if c.toNat < 0x20 then .error .malformed
    else skipUnits fuel rest

/-- Passes over a string behind its opening quote. -/
def skip (cs : List Char) : Except Fault (List Char) := skipUnits (cs.length + 1) cs

end Criteria.Json.Quotation
