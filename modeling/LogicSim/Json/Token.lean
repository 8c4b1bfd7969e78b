import LogicSim.Decimal.Numeral

/-!
# Tokens of a JSON text

`tokens` splits a text into tokens, one character at a time, by an automaton (`LexState.step`).
The grammar of tokens is the strict one: no leading zeros, no bare control characters in strings,
no spellings of `null`, `true` and `false` but these. Where no token can begin or one cannot go on,
a single `Token.bad` ends the list.

A string may name a character by a pair of surrogates. Whether each surrogate has its partner is
found out when the string is complete (`joinHalves`): a string with a lone surrogate is a token, but
has no text.
-/

namespace LogicSim.Json

/-- A token. The text of a string is absent if a surrogate in it lacks its partner. -/
inductive Token where
  | openArray
  | closeArray
  | openObject
  | closeObject
  | comma
  | colon
  | null
  | bool (b : Bool)
  | number (n : Decimal.Numeral)
  | string (s : Option String)
  | bad
  deriving DecidableEq, Repr

/-! ## 1. Strings -/

/-- A part of a string: a character, or one of the two halves of a surrogate pair. -/
inductive StringPart where
  | char (c : Char)
  | half (unit : Nat)
  deriving DecidableEq, Repr

/-- Whether a unit is the first half of a pair. -/
def isHighHalf (unit : Nat) : Bool := 0xD800 ≤ unit && unit < 0xDC00

/-- Whether a unit is the second half of a pair. -/
def isLowHalf (unit : Nat) : Bool := 0xDC00 ≤ unit && unit < 0xE000

/-- The part named by four hexadecimal digits. -/
def StringPart.ofUnit (unit : Nat) : StringPart :=
  if isHighHalf unit || isLowHalf unit then .half unit else .char (Char.ofNat unit)

/-- The characters of a string, each first half joined with the second half that follows it; none
    if a half is left over. -/
def joinHalves : List StringPart → Option (List Char)
  | [] => some []
  | .char c :: rest => (joinHalves rest).map (c :: ·)
  | .half high :: .half low :: rest =>
    if isHighHalf high && isLowHalf low then
      (joinHalves rest).map
        (Char.ofNat (0x10000 + (high - 0xD800) * 0x400 + (low - 0xDC00)) :: ·)
    else none
  | .half _ :: _ => none

/-- The value of a hexadecimal digit. -/
def hexValue? (c : Char) : Option Nat :=
  if '0' ≤ c && c ≤ '9' then some (c.toNat - '0'.toNat)
  else if 'a' ≤ c && c ≤ 'f' then some (c.toNat - 'a'.toNat + 10)
  else if 'A' ≤ c && c ≤ 'F' then some (c.toNat - 'A'.toNat + 10)
  else none

/-- The character that a letter after a backslash stands for. -/
def escaped? : Char → Option Char
  | '"' => some '"'
  | '\\' => some '\\'
  | '/' => some '/'
  | 'b' => some '\x08'
  | 'f' => some '\x0c'
  | 'n' => some '\n'
  | 'r' => some '\r'
  | 't' => some '\t'
  | _ => none

/-! ## 2. Numbers -/

/-- How far the reading of a number has come. Digits are kept latest first. -/
inductive NumberState where
  /-- after the minus sign -/
  | sign
  /-- after a leading zero -/
  | zero (negative : Bool)
  | whole (negative : Bool) (digits : List Nat)
  /-- after the point -/
  | point (negative : Bool) (before : List Nat)
  | fraction (negative : Bool) (before : List Nat) (digits : List Nat)
  /-- after the letter of the exponent; `start` has the exponent still missing -/
  | exponentLetter (start : Decimal.Numeral)
  /-- after the sign of the exponent -/
  | exponentSign (start : Decimal.Numeral) (negative : Bool)
  | exponent (start : Decimal.Numeral) (negative : Bool) (value : Nat)
  deriving DecidableEq, Repr

/-- The number read so far, if it may end here. -/
def NumberState.complete? : NumberState → Option Decimal.Numeral
  | .zero negative => some ⟨negative, [0], none, none⟩
  | .whole negative digits => some ⟨negative, digits.reverse, none, none⟩
  | .fraction negative before digits =>
    some ⟨negative, before.reverse, some digits.reverse, none⟩
  | .exponent start negative value =>
    some { start with exponent := some (if negative then -value else value) }
  | _ => none

/-- The value of a decimal digit. -/
def digit? (c : Char) : Option Nat :=
  if '0' ≤ c && c ≤ '9' then some (c.toNat - '0'.toNat) else none

/-- What reading a character does to a number: it goes on, it is over before the character, or the
    text is no number. -/
inductive NumberStep where
  | more (s : NumberState)
  | over (n : Decimal.Numeral)
  | bad

/-- The next character of a number. -/
def NumberState.step (s : NumberState) (c : Char) : NumberStep :=
  let orOver : NumberStep := match s.complete? with
    | some n =>
      if (c = 'e' || c = 'E') && n.exponent.isNone then .more (.exponentLetter n) else .over n
    | none => .bad
  match s, digit? c with
  | .sign, some 0 => .more (.zero true)
  | .sign, some d => .more (.whole true [d])
  | .zero _, some _ => .bad
  | .whole negative digits, some d => .more (.whole negative (d :: digits))
  | .point negative before, some d => .more (.fraction negative before [d])
  | .fraction negative before digits, some d => .more (.fraction negative before (d :: digits))
  | .exponentLetter start, some d => .more (.exponent start false d)
  | .exponentSign start negative, some d => .more (.exponent start negative d)
  | .exponent start negative value, some d => .more (.exponent start negative (value * 10 + d))
  | .exponentLetter start, none =>
    if c = '+' then .more (.exponentSign start false)
    else if c = '-' then .more (.exponentSign start true)
    else .bad
  | .zero negative, none => if c = '.' then .more (.point negative [0]) else orOver
  | .whole negative digits, none => if c = '.' then .more (.point negative digits) else orOver
  | _, none => orOver

/-! ## 3. The automaton -/

/-- Where the automaton stands. -/
inductive LexState where
  /-- between tokens -/
  | between
  /-- within a word, with the letters that must follow -/
  | word (letters : List Char) (token : Token)
  | number (s : NumberState)
  /-- within a string, whose parts are kept latest first -/
  | string (parts : List StringPart)
  /-- after a backslash -/
  | escape (parts : List StringPart)
  /-- within the hexadecimal digits of a unit, of which `missing` more must follow -/
  | unit (parts : List StringPart) (missing value : Nat)
  /-- after a bad token -/
  | stuck
  deriving DecidableEq, Repr

/-- White space between tokens. -/
def isSpace (c : Char) : Bool := c = ' ' || c = '\t' || c = '\n' || c = '\r'

/-- A character between tokens. -/
def LexState.begin (c : Char) : LexState × List Token :=
  match c with
  | '[' => (.between, [.openArray])
  | ']' => (.between, [.closeArray])
  | '{' => (.between, [.openObject])
  | '}' => (.between, [.closeObject])
  | ',' => (.between, [.comma])
  | ':' => (.between, [.colon])
  | '"' => (.string [], [])
  | '-' => (.number .sign, [])
  | '0' => (.number (.zero false), [])
  | 'n' => (.word ['u', 'l', 'l'] .null, [])
  | 't' => (.word ['r', 'u', 'e'] (.bool true), [])
  | 'f' => (.word ['a', 'l', 's', 'e'] (.bool false), [])
  | c =>
    if isSpace c then (.between, [])
    else match digit? c with
      | some d => (.number (.whole false [d]), [])
      | none => (.stuck, [.bad])

/-- The next character. -/
def LexState.step (s : LexState) (c : Char) : LexState × List Token :=
  match s with
  | .between => LexState.begin c
  | .word [] token => let (s, ts) := LexState.begin c; (s, token :: ts)
  | .word [letter] token => if c = letter then (.between, [token]) else (.stuck, [.bad])
  | .word (letter :: letters) token =>
    if c = letter then (.word letters token, []) else (.stuck, [.bad])
  | .number n =>
    match n.step c with
    | .more n => (.number n, [])
    | .over n => let (s, ts) := LexState.begin c; (s, .number n :: ts)
    | .bad => (.stuck, [.bad])
  | .string parts =>
    if c = '"' then (.between, [.string ((joinHalves parts.reverse).map String.ofList)])
    else if c = '\\' then (.escape parts, [])
    else if c.toNat < 0x20 then (.stuck, [.bad])
    else (.string (.char c :: parts), [])
  | .escape parts =>
    if c = 'u' then (.unit parts 4 0, [])
    else match escaped? c with
      | some e => (.string (.char e :: parts), [])
      | none => (.stuck, [.bad])
  | .unit parts missing value =>
    match hexValue? c with
    | some d =>
      if missing ≤ 1 then (.string (.ofUnit (value * 16 + d) :: parts), [])
      else (.unit parts (missing - 1) (value * 16 + d), [])
    | none => (.stuck, [.bad])
  | .stuck => (.stuck, [])

/-- The tokens due when the text ends. -/
def LexState.finish : LexState → List Token
  | .between => []
  | .number n => match n.complete? with
    | some n => [.number n]
    | none => [.bad]
  | .stuck => []
  | _ => [.bad]

/-- The tokens of the characters that follow a state. -/
def LexState.run (s : LexState) : List Char → List Token
  | [] => s.finish
  | c :: cs => let (s, ts) := s.step c; ts ++ s.run cs

/-- The tokens of a text. -/
def tokens (text : String) : List Token := LexState.run .between text.toList

end LogicSim.Json
