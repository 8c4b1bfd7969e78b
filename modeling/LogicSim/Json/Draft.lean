import LogicSim.Json.Token
import LogicSim.Json.Value

/-!
# Drafts: what a text says before it breaks off

A text is read in one direction, and what it says is decided by the first error met, whether that
is an error of the text or of its content. A `Draft` therefore keeps the content of a text in the
order of the text, up to the point where the text stops being JSON: an array or object that is not
closed properly keeps the items that were complete and is marked as not `whole`. A container that
holds one that is not whole is not whole either, and nothing follows a container that is not whole.

`Draft.ofText` builds the draft by an automaton over tokens with a stack of open containers.
`Draft.value?` gives the value of a draft, which exists only if the text is whole, its strings have
a text, its numbers are not too large and its nesting is within a bound.
-/

namespace LogicSim.Json

/-- The content of a text, as far as it can be read. -/
inductive Draft where
  | null
  | bool (b : Bool)
  | number (n : Decimal.Numeral)
  | string (s : Option String)
  | array (items : List Draft) (whole : Bool)
  | object (members : List (Option String × Draft)) (whole : Bool)

/-! ## 1. Building a draft from tokens -/

/-- A container that is still open, with its complete contents latest first. -/
inductive OpenContainer where
  | array (items : List Draft)
  | object (members : List (Option String × Draft))
  /-- an object in which the value of `key` is still missing -/
  | member (members : List (Option String × Draft)) (key : Option String)

/-- What may come next. -/
inductive Expected where
  | value
  /-- a value, or the end of an empty array -/
  | item
  /-- a key, or the end of an empty object -/
  | firstKey
  | key
  | colon
  /-- a comma, or the end of the innermost container -/
  | next
  deriving DecidableEq, Repr

/-- The state of reading a document. -/
inductive Reading where
  | inside (containers : List OpenContainer) (expected : Expected)
  /-- the value is complete; `alone` tells that no token follows it -/
  | complete (root : Draft) (alone : Bool)
  /-- the text broke off -/
  | broken (root : Option Draft)

/-- Puts a value that broke off into the containers around it, from the inside out. -/
def enclose : Option Draft → List OpenContainer → Option Draft
  | d, [] => d
  | d, .array items :: outer =>
    enclose (some (.array (d.toList.reverse ++ items).reverse false)) outer
  | _, .object members :: outer => enclose (some (.object members.reverse false)) outer
  | d, .member members key :: outer =>
    enclose (some (.object ((d.toList.map fun v => (key, v)) ++ members).reverse false)) outer

/-- Reading stops inside these containers. -/
def Reading.stop (containers : List OpenContainer) : Reading := .broken (enclose none containers)

/-- A complete value goes into the innermost container. -/
def Reading.put (d : Draft) : List OpenContainer → Reading
  | [] => .complete d true
  | .array items :: outer => .inside (.array (d :: items) :: outer) .next
  | .member members key :: outer => .inside (.object ((key, d) :: members) :: outer) .next
  | .object members :: outer => .stop (.object members :: outer)

/-- A token where a value begins. -/
def Reading.value (containers : List OpenContainer) : Token → Reading
  | .null => .put .null containers
  | .bool b => .put (.bool b) containers
  | .number n => .put (.number n) containers
  | .string s => .put (.string s) containers
  | .openArray => .inside (.array [] :: containers) .item
  | .openObject => .inside (.object [] :: containers) .firstKey
  | _ => .stop containers

/-- A token where the key of a member is due. -/
def Reading.key (containers : List OpenContainer) : Token → Reading
  | .string s => match containers with
    | .object members :: outer => .inside (.member members s :: outer) .colon
    | _ => .stop containers
  | _ => .stop containers

/-- The next token. -/
def Reading.step (r : Reading) (t : Token) : Reading :=
  match r with
  | .complete root _ => .complete root false
  | .broken root => .broken root
  | .inside containers expected =>
    match expected, t, containers with
    | .item, .closeArray, .array items :: outer => .put (.array items.reverse true) outer
    | .firstKey, .closeObject, .object members :: outer =>
      .put (.object members.reverse true) outer
    | .next, .closeArray, .array items :: outer => .put (.array items.reverse true) outer
    | .next, .closeObject, .object members :: outer => .put (.object members.reverse true) outer
    | .next, .comma, .array _ :: _ => .inside containers .value
    | .next, .comma, .object _ :: _ => .inside containers .key
    | .next, _, _ => .stop containers
    | .colon, .colon, _ => .inside containers .value
    | .colon, _, _ => .stop containers
    | .value, t, _ => Reading.value containers t
    | .item, t, _ => Reading.value containers t
    | .firstKey, t, _ => Reading.key containers t
    | .key, t, _ => Reading.key containers t

/-- What has been read when the tokens end. -/
def Reading.finish : Reading → Reading
  | .inside containers _ => .stop containers
  | r => r

/-- The reading of a text. -/
def Reading.ofText (text : String) : Reading :=
  ((tokens text).foldl Reading.step (.inside [] .value)).finish

/-! ## 2. The value of a draft -/

mutual

/-- The value of a draft in which at most `levels` containers stand one inside the other. Of
    members with the same key the last one counts. -/
def Draft.value? (levels : Nat) : Draft → Option Json
  | .null => some .null
  | .bool b => some (.bool b)
  | .number n => n.value?.map .number
  | .string s => s.map .string
  | .array items whole =>
    match levels with
    | 0 => none
    | levels + 1 => if whole then (Draft.values? levels items).map .array else none
  | .object members whole =>
    match levels with
    | 0 => none
    | levels + 1 => if whole then (Draft.members? levels [] members).map .object else none

/-- The values of the items of an array. -/
def Draft.values? (levels : Nat) : List Draft → Option (List Json)
  | [] => some []
  | d :: rest => do return (← d.value? levels) :: (← Draft.values? levels rest)

/-- The members of an object, added to those before them. -/
def Draft.members? (levels : Nat) (earlier : List (String × Json)) :
    List (Option String × Draft) → Option (List (String × Json))
  | [] => some earlier
  | (key, d) :: rest => do
    let key ← key
    let v ← d.value? levels
    Draft.members? levels (putMember key v earlier) rest

end

/-- How many containers may stand one inside the other in a document. -/
def maxLevels : Nat := 127

/-- The value of a text. -/
def ofText? (text : String) : Option Json :=
  match Reading.ofText text with
  | .complete root true => root.value? maxLevels
  | _ => none

end LogicSim.Json
