import LogicSim.Circuit.Basic
import LogicSim.Decimal.Layout

/-!
# Elements

An element is what a gate does: its kind with the memory that this kind has, and nothing else. It is
evaluated on the signals at its inputs (`Element.evaluate`) and answers with the signals at its
outputs, its new memory and possibly notes, or with a fault. A fault changes no memory.

What a custom gate does is a parameter `ε`; a `Reaction` tells how to run it.
-/

namespace LogicSim

/-! ## 1. Faults and answers -/

/-- Why an element could not be evaluated. -/
inductive Fault where
  /-- the number of inputs is not the one the kind requires -/
  | arity (kind : Kind) (expected actual : Nat)
  /-- the frequency of a clock gives no period -/
  | frequency (f : Float)
  /-- the gate does nothing at all -/
  | unsupported (reason : String)
  /-- a failure inside a custom gate -/
  | custom (name message : String)

/-- The text of a fault. -/
def Fault.text : Fault → String
  | .arity kind expected actual =>
    s!"{kind.name} gate requires exactly {expected} inputs, got {actual}"
  | .frequency f =>
    s!"clock frequency must be positive, got {Decimal.Layout.plain.write f}"
  | .unsupported reason => reason
  | .custom name message => s!"custom gate {name}: {message}"

/-- What is the same for all elements of a pass. -/
structure Instant where
  /-- the time in milliseconds -/
  now : UInt64
  /-- how many passes a circuit inside a custom gate may take to settle -/
  settleLimit : Nat

/-- The signals at the outputs, with notes about the gate. -/
structure Answer where
  outputs : List Bool
  notes : List String := []
  deriving DecidableEq, Repr

/-- What a custom gate makes of the signals at its inputs. It has no memory. -/
abbrev Reaction := Instant → List Bool → Except Fault Answer

/-! ## 2. Elements and their memory -/

/-- Gates that reduce their inputs to one signal. -/
inductive Reduction where
  | and
  | or
  | xor
  | nand
  | nor
  deriving DecidableEq, Repr

/-- The kind of a reducing gate. -/
def Reduction.kind : Reduction → Kind
  | .and => .and
  | .or => .or
  | .xor => .xor
  | .nand => .nand
  | .nor => .nor

/-- The memory of a clock. -/
structure ClockMemory where
  isRunning : Bool
  frequency : Float
  /-- the time of the first period, set when a running clock is first evaluated -/
  start : Option UInt64

/-- The memory of a flip-flop. -/
structure FlipFlopMemory where
  previousClock : Bool
  q : Bool
  qBar : Bool
  deriving DecidableEq, Repr

/-- The memory of a latch. -/
structure LatchMemory where
  q : Bool
  qBar : Bool
  deriving DecidableEq, Repr

/-- What a gate does. -/
inductive Element (ε : Type) where
  | input (value : Bool)
  | output
  | reduce (r : Reduction)
  | not
  | clock (m : ClockMemory)
  | flipFlop (m : FlipFlopMemory)
  | latch (m : LatchMemory)
  | mux
  | custom (e : ε)
  /-- a gate that always fails, with the kind it was given -/
  | invalid (kind : Kind) (reason : String)

namespace Element

variable {ε : Type}

/-- The kind of the gate. -/
def kind : Element ε → Kind
  | .input _ => .input
  | .output => .output
  | .reduce r => r.kind
  | .not => .not
  | .clock _ => .clock
  | .flipFlop _ => .flipFlop
  | .latch _ => .latch
  | .mux => .mux
  | .custom _ => .custom
  | .invalid kind _ => kind

/-- Whether the output depends on history rather than on the inputs of the moment. -/
def isSequential : Element ε → Bool
  | .input _ | .clock _ | .flipFlop _ | .latch _ => true
  | _ => false

/-- An element with what a custom gate does mapped to another type. -/
def map {ε' : Type} (f : ε → ε') : Element ε → Element ε'
  | .input value => .input value
  | .output => .output
  | .reduce r => .reduce r
  | .not => .not
  | .clock m => .clock m
  | .flipFlop m => .flipFlop m
  | .latch m => .latch m
  | .mux => .mux
  | .custom e => .custom (f e)
  | .invalid kind reason => .invalid kind reason

end Element

/-! ## 3. Evaluation -/

namespace Reduction

/-- The signal of a reducing gate. `or` and `nor` take any number of inputs, the others two. -/
def apply : Reduction → List Bool → Except Fault Bool
  | .and, [a, b] => .ok (a && b)
  | .nand, [a, b] => .ok !(a && b)
  | .xor, [a, b] => .ok (a != b)
  | .or, inputs => .ok (inputs.any id)
  | .nor, inputs => .ok !(inputs.any id)
  | r, inputs => .error (.arity r.kind 2 inputs.length)

end Reduction

namespace ClockMemory

/-- The time since the start, not negative. -/
def elapsed (start now : UInt64) : UInt64 := if start ≤ now then now - start else 0

/-- Whether a clock of the given frequency is in the second half of its cycle. Each half lasts
    `1000 / frequency` milliseconds; the count of halves does not go beyond 64 bits. -/
def isHigh (frequency : Float) (elapsed : UInt64) : Bool :=
  let halves := (elapsed.toFloat / (1000 / frequency)).floor.toUInt64
  halves % 2 = 1

/-- A clock at a time. A stopped clock is low whatever its frequency. -/
def tick (m : ClockMemory) (now : UInt64) : Except Fault (ClockMemory × Bool) :=
  if !m.isRunning then .ok (m, false)
  else if m.frequency ≤ 0 || !m.frequency.isFinite then .error (.frequency m.frequency)
  else
    let start := m.start.getD now
    .ok ({ m with start := some start }, isHigh m.frequency (elapsed start now))

end ClockMemory

/-- A flip-flop takes over its input when the clock rises. -/
def FlipFlopMemory.next (m : FlipFlopMemory) (d clock : Bool) : FlipFlopMemory :=
  if !m.previousClock && clock then ⟨clock, d, !d⟩ else { m with previousClock := clock }

/-- A latch is set or reset by the one input that is high; it holds otherwise. -/
def LatchMemory.next (m : LatchMemory) (set reset : Bool) : LatchMemory :=
  match set, reset with
  | true, false => ⟨true, false⟩
  | false, true => ⟨false, true⟩
  | _, _ => m

/-- The note of a latch whose inputs are both high. -/
def LatchMemory.conflict : String := "S and R both set; latch holds its previous state"

namespace Element

variable {ε : Type}

/-- Evaluates an element on the signals at its inputs. The first component of the result is the
    element with its new memory. -/
def evaluate (run : ε → Reaction) (instant : Instant) (inputs : List Bool) (e : Element ε) :
    Except Fault (Element ε × Answer) :=
  let arity (expected : Nat) : Except Fault (Element ε × Answer) :=
    .error (.arity e.kind expected inputs.length)
  match e with
  | .input value => .ok (e, ⟨[value], []⟩)
  | .output => match inputs with
    | [a] => .ok (e, ⟨[a], []⟩)
    | _ => arity 1
  | .not => match inputs with
    | [a] => .ok (e, ⟨[!a], []⟩)
    | _ => arity 1
  | .reduce r => do return (e, ⟨[← r.apply inputs], []⟩)
  | .mux => match inputs with
    | [low, high, select] => .ok (e, ⟨[if select then high else low], []⟩)
    | _ => arity 3
  | .clock m => do
    let (m, level) ← m.tick instant.now
    return (.clock m, ⟨[level], []⟩)
  | .flipFlop m => match inputs with
    | [d, level] =>
      let m := m.next d level
      .ok (.flipFlop m, ⟨[m.q, m.qBar], []⟩)
    | _ => arity 2
  | .latch m => match inputs with
    | [set, reset] =>
      let m := m.next set reset
      .ok (.latch m, ⟨[m.q, m.qBar], if set && reset then [LatchMemory.conflict] else []⟩)
    | _ => arity 2
  | .custom expansion => do return (e, ← run expansion instant inputs)
  | .invalid _ reason => .error (.unsupported reason)

/-- An element after an evaluation, with the outcome. After a fault it is what it was. -/
def advance (run : ε → Reaction) (instant : Instant) (inputs : List Bool) (e : Element ε) :
    Element ε × Except Fault Answer :=
  match e.evaluate run instant inputs with
  | .ok (e, answer) => (e, .ok answer)
  | .error fault => (e, .error fault)

/-! ## 4. Memory and text -/

/-- Writes the memory of an element into the metadata of its gate. -/
def store {δ : Type} (e : Element ε) (m : Metadata δ) : Metadata δ :=
  match e with
  | .clock c =>
    { m with isRunning := some c.isRunning, frequency := some c.frequency, startTime := c.start }
  | .flipFlop f =>
    { m with previousClock := some f.previousClock, q := some f.q, qBar := some f.qBar }
  | .latch l => { m with q := some l.q, qBar := some l.qBar }
  | _ => m

/-- An element in a message. -/
def text : Element ε → String
  | .input value => s!"Input({Signal.encode value})"
  | .clock m => s!"Clock({Decimal.Layout.plain.write m.frequency}Hz)"
  | .flipFlop m => s!"Dff(q={Signal.encode m.q})"
  | .latch m => s!"Latch(q={Signal.encode m.q})"
  | .invalid kind reason => s!"{kind.name}!({reason})"
  | e => e.kind.name

end Element

end LogicSim
