/-!
# Kinds of gates

The kinds that a document can name, with the pins a gate of each kind has unless it says otherwise.
Sequential kinds are those whose output depends on history rather than on the inputs of the moment.
-/

namespace LogicSim

/-- The kind of a gate. Whatever name is not among the others is `unknown`. -/
inductive Kind where
  | input
  | output
  | and
  | or
  | not
  | xor
  | nand
  | nor
  | clock
  | flipFlop
  | latch
  | mux
  | custom
  | unknown
  deriving DecidableEq, Repr

namespace Kind

/-- The kinds that have a name in documents. -/
def named : List Kind :=
  [.input, .output, .and, .or, .not, .xor, .nand, .nor, .clock, .flipFlop, .latch, .mux, .custom]

/-- The name of a kind in messages. -/
def name : Kind → String
  | .input => "INPUT"
  | .output => "OUTPUT"
  | .and => "AND"
  | .or => "OR"
  | .not => "NOT"
  | .xor => "XOR"
  | .nand => "NAND"
  | .nor => "NOR"
  | .clock => "CLOCK"
  | .flipFlop => "D-FF"
  | .latch => "SR-LATCH"
  | .mux => "MUX"
  | .custom => "CUSTOM"
  | .unknown => "UNKNOWN"

/-- The name of a kind in documents: that in messages, but for `unknown`. -/
def tag : Kind → String
  | .unknown => "Unknown"
  | k => k.name

/-- The kind of a name; every name has one. -/
def ofTag (s : String) : Kind := (named.find? fun k => k.name = s).getD .unknown

/-- The number of input pins of a new gate. -/
def inputCount : Kind → Nat
  | .input | .clock | .unknown | .custom => 0
  | .output | .not => 1
  | .and | .or | .xor | .nand | .nor | .flipFlop | .latch => 2
  | .mux => 3

/-- The number of output pins of a new gate. -/
def outputCount : Kind → Nat
  | .flipFlop | .latch => 2
  | .custom => 0
  | _ => 1

/-- Whether the output depends on history. -/
def isSequential : Kind → Bool
  | .input | .clock | .flipFlop | .latch => true
  | _ => false

/-- The written name of a kind reads back. -/
@[simp] theorem ofTag_tag (k : Kind) : ofTag k.tag = k := by
  cases k <;> decide

end Kind

end LogicSim
