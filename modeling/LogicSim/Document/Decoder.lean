import LogicSim.Json.Draft
import LogicSim.Signal

/-!
# Decoding documents

A decoder turns the draft of a text into a value. It goes through the draft in the order of the
text and stops at the first error, which is either a signal that cannot be decoded (`signal`) or
anything else (`malformed`).

A record is an object or an array (`Decoder.record`):

* in an object, each field may stand once, in any order; other members are ignored, whatever their
  value;
* in an array, the fields stand in the order of their declaration, and only the last ones may be
  missing; nothing may follow them.
-/

namespace LogicSim

/-- Why a document cannot be decoded. -/
inductive DocumentError where
  | malformed
  /-- a value that denotes no signal -/
  | signal (value : Json)

/-- The text of an error, if it has one. -/
def DocumentError.text? : DocumentError → Option String
  | .malformed => none
  | .signal value => some s!"invalid signal value {value.compact}"

/-- A decoder, given how many containers may stand one inside the other. -/
abbrev Decoder (α : Type) := Nat → Json.Draft → Except DocumentError α

namespace Decoder

open Json (Draft)

variable {α : Type}

/-! ## 1. Scalars -/

/-- A string. -/
def string : Decoder String
  | _, .string (some s) => .ok s
  | _, _ => .error .malformed

/-- A boolean. -/
def bool : Decoder Bool
  | _, .bool b => .ok b
  | _, _ => .error .malformed

/-- Any number, as a double. -/
def float : Decoder Float
  | _, .number n => match n.value? with
    | some v => .ok v.toFloat
    | none => .error .malformed
  | _, _ => .error .malformed

/-- A whole number within two bounds. -/
def int (least greatest : Int) : Decoder Int
  | _, .number n => match n.value? with
    | some (.whole i) => if least ≤ i && i ≤ greatest then .ok i else .error .malformed
    | _ => .error .malformed
  | _, _ => .error .malformed

/-- A signed number of 32 bits. -/
def int32 : Decoder Int32 := fun levels d =>
  (int Int32.minValue.toInt Int32.maxValue.toInt levels d).map Int32.ofInt

/-- An unsigned number of 64 bits. -/
def natural : Decoder Nat := fun levels d => (int 0 (UInt64.size - 1) levels d).map Int.toNat

/-- An unsigned number of 64 bits, as a word. -/
def uint64 : Decoder UInt64 := fun levels d => (natural levels d).map UInt64.ofNat

/-- A value that may be `null`. -/
def optional (decoder : Decoder α) : Decoder (Option α)
  | _, .null => .ok none
  | levels, d => (decoder levels d).map some

/-! ## 2. Signals -/

/-- The signal that a value denotes: a boolean, the number zero or one, a word for a level, or
    `null` for low. -/
def signalOf? : Json → Option Bool
  | .bool b => some b
  | .number n => if n.toFloat == 0 then some false else if n.toFloat == 1 then some true else none
  | .string s => Signal.level? s
  | .null => some false
  | _ => none

/-- A value that denotes a signal. -/
def signal : Decoder Bool := fun levels d =>
  match d.value? levels with
  | none => .error .malformed
  | some v => match signalOf? v with
    | some b => .ok b
    | none => .error (.signal v)

/-! ## 3. Containers -/

/-- Decodes items one after the other. -/
def items (decoder : Decoder α) (levels : Nat) : List Draft → Except DocumentError (List α)
  | [] => .ok []
  | d :: rest => do
    let a ← decoder levels d
    return a :: (← items decoder levels rest)

/-- An array. -/
def list (decoder : Decoder α) : Decoder (List α)
  | levels + 1, .array ds whole => do
    let items ← items decoder levels ds
    if whole then return items else throw .malformed
  | _, _ => .error .malformed

/-- The signals of a gate: an array, or `null` for none. -/
def signals : Decoder (List Bool)
  | _, .null => .ok []
  | levels, d => list signal levels d

/-- Decodes the members of an object of strings, added to those before them. -/
def stringMembers (put : String → String → α → α) (levels : Nat) (earlier : α) :
    List (Option String × Draft) → Except DocumentError α
  | [] => .ok earlier
  | (none, _) :: _ => .error .malformed
  | (some key, d) :: rest => do
    let s ← string levels d
    stringMembers put levels (put key s earlier) rest

/-- An object of strings, whose members are put one by one into an empty collection. -/
def stringObject (put : String → String → α → α) (empty : α) : Decoder α
  | levels + 1, .object members whole => do
    let collection ← stringMembers put levels empty members
    if whole then return collection else throw .malformed
  | _, _ => .error .malformed

/-- One of several names: a string, or an object with the name as its one key and `null` as its
    value. -/
def choice (ofName? : String → Option α) : Decoder α
  | _, .string (some s) => (ofName? s).elim (.error .malformed) .ok
  | _ + 1, .object [(some s, .null)] true => (ofName? s).elim (.error .malformed) .ok
  | _, _ => .error .malformed

/-! ## 4. Records -/

/-- The members of a record with the given fields, and whether the record is complete and has
    nothing else in it. -/
def membersOf (fields : List String) : Draft → Option (List (Option String × Draft) × Bool)
  | .object members whole => some (members, whole)
  | .array ds whole =>
    some ((fields.map some).zip ds, whole && ds.length ≤ fields.length)
  | _ => none

/-- Goes through the members of a record. `read` takes in the value of a field; it gives nothing
    for a name that is no field. -/
def readMembers (read : String → Draft → α → Option (Except DocumentError α)) (a : α) :
    List (Option String × Draft) → Except DocumentError α
  | [] => .ok a
  | (none, _) :: _ => .error .malformed
  | (some name, d) :: rest =>
    match read name d a with
    | none => readMembers read a rest
    | some result => do readMembers read (← result) rest

/-- A record with the given fields, in the order of their declaration. The fields are taken in
    starting from a record without any, and `finish` requires those without a default. -/
def record {β : Type} (fields : List String)
    (read : Nat → String → Draft → α → Option (Except DocumentError α)) (empty : α)
    (finish : α → Option β) : Decoder β
  | levels + 1, d =>
    match membersOf fields d with
    | none => .error .malformed
    | some (members, complete) => do
      let a ← readMembers (read levels) empty members
      match complete, finish a with
      | true, some b => return b
      | _, _ => throw .malformed
  | 0, _ => .error .malformed

/-- Takes in the value of a field that was not there before. -/
def field {β : Type} (decoder : Decoder β) (levels : Nat) (d : Draft) (before : Option β)
    (put : Option β → α) : Option (Except DocumentError α) :=
  some <| match before with
    | some _ => .error .malformed
    | none => (decoder levels d).map fun b => put (some b)

/-- The value of a text, which must contain nothing else. -/
def text (decoder : Decoder α) (s : String) : Except DocumentError α :=
  match Json.Reading.ofText s with
  | .complete root alone => do
    let a ← decoder Json.maxLevels root
    if alone then return a else throw .malformed
  | .broken (some root) => do
    let _ ← decoder Json.maxLevels root
    throw .malformed
  | _ => .error .malformed

end Decoder

end LogicSim
