import Criteria.Failure
import Criteria.Json.Kind
import Criteria.Json.Skip

/-!
# Query options

Two switches that change how a query is built and not what it means, and their
JSON form. A text may be an object that names some of them, beside members that
mean nothing here, or an array with up to two truth values; a switch that is
not given is on.
-/

namespace Criteria.Query

/-- How a query is built. -/
structure Options where
  /-- A join serves all properties that need it; otherwise each gets its own. -/
  reuseJoins : Bool := true
  /-- Requests for prefetching are met. -/
  prefetch : Bool := true
deriving DecidableEq

namespace Options

/-- A switch in words. -/
def truthText (b : Bool) : String := if b then "true" else "false"

/-- The JSON form. -/
def toJson (o : Options) : String :=
  "\x7b\"join_cache\":" ++ truthText o.reuseJoins ++ ",\"prefetch\":" ++ truthText o.prefetch ++
    "\x7d"

/-- The options as they describe themselves. -/
def describe (o : Options) : String :=
  "BuilderOptions \x7b join_cache: " ++ truthText o.reuseJoins ++ ", prefetch: " ++
    truthText o.prefetch ++ " \x7d"

/-! ## Reading -/

open Json (Reader skipSpace takeMark unexpected)

/-- Options of which some may not have been given yet. -/
structure Partial where
  reuseJoins : Option Bool := none
  prefetch : Option Bool := none

/-- The options given, and the others as they are by default. -/
def Partial.complete (p : Partial) : Options where
  reuseJoins := p.reuseJoins.getD true
  prefetch := p.prefetch.getD true

/-- A switch behind its name, unless it was given before. -/
def readSwitch (given : Option Bool) : Reader Bool := fun cs =>
  if given.isSome then .error .mismatched
  else takeMark ':' cs >>= Json.readBool

/-- A member behind its name. What is not an option is passed over. -/
def readMember (name : String) (p : Partial) : Reader Partial := fun cs =>
  match name with
  | "join_cache" => readSwitch p.reuseJoins cs >>= fun (b, rest) =>
    .ok ({ p with reuseJoins := some b }, rest)
  | "prefetch" => readSwitch p.prefetch cs >>= fun (b, rest) =>
    .ok ({ p with prefetch := some b }, rest)
  | _ => takeMark ':' cs >>= Json.Skip.one >>= fun rest => .ok (p, rest)

/-- The members of an object from one that has to be there, in at most `fuel` members. -/
def readMembers : Nat → Partial → Reader Partial
  | 0, _, _ => .error .truncated
  | fuel + 1, p, cs => do
    let rest ← takeMark '"' cs
    let (name, rest) ← Json.Quotation.read rest
    let (p, rest) ← readMember name p rest
    match skipSpace rest with
    | '\x7d' :: rest => return (p, rest)
    | ',' :: rest => readMembers fuel p rest
    | rest => unexpected rest

/-- An object behind its opening bracket. Every member takes a character of the text. -/
def readObject : Reader Options := fun cs =>
  match skipSpace cs with
  | '\x7d' :: rest => .ok ({}, rest)
  | rest => readMembers (rest.length + 1) {} rest >>= fun (p, rest) => .ok (p.complete, rest)

/-- The end of an array. -/
def readEnd (o : Options) : Reader Options := fun cs =>
  match skipSpace cs with
  | ']' :: rest => .ok (o, rest)
  | rest => unexpected rest

/-- An array behind its opening bracket, with the switches in order. -/
def readArray : Reader Options := fun cs =>
  match skipSpace cs with
  | ']' :: rest => .ok ({}, rest)
  | rest => do
    let (reuseJoins, rest) ← Json.readBool rest
    match skipSpace rest with
    | ',' :: rest =>
      let (prefetch, rest) ← Json.readBool rest
      readEnd { reuseJoins, prefetch } rest
    | rest => readEnd { reuseJoins } rest

/-- An object or an array. -/
def read : Reader Options := fun cs =>
  match skipSpace cs with
  | '\x7b' :: rest => readObject rest
  | '[' :: rest => readArray rest
  | rest => Json.refuse rest

/-- The options of a JSON text. -/
def ofJson (s : String) : Except Failure Options :=
  (read s.toList >>= Json.finish).mapError .configuration

end Options

end Criteria.Query
