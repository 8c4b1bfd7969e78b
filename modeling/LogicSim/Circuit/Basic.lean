import LogicSim.Circuit.Kind
import LogicSim.Circuit.Wire
import LogicSim.Signal

/-!
# Circuits

A circuit is a list of gates and a list of wires. A gate keeps its signals, its memory and, if it is
a custom gate, its definition in itself, so that a circuit is the whole state of a simulation.

What defines a custom gate again contains a circuit. `Gate` and `Circuit` are therefore stated over
a type `δ` of definitions, and `Definition` is the type that contains circuits over itself.
`Definition.fold` is the recursion over definitions: it works on the definitions within a
definition first. `Definition.fold_mk` is its equation.
-/

namespace LogicSim

/-! ## 1. Gates -/

/-- Where a gate is drawn. -/
structure Position where
  x : Float := 0
  y : Float := 0

/-- What a gate keeps besides its signals: the memory of sequential gates, and the definition of a
    custom gate. -/
structure Metadata (δ : Type) where
  label : Option String := none
  /-- clock: whether it runs -/
  isRunning : Option Bool := none
  /-- clock: the frequency in hertz -/
  frequency : Option Float := none
  /-- clock: the time of the first period, in milliseconds -/
  startTime : Option UInt64 := none
  /-- flip-flop: the clock level of the pass before -/
  previousClock : Option Bool := none
  /-- flip-flop and latch: the stored signal -/
  q : Option Bool := none
  /-- flip-flop and latch: the stored complement -/
  qBar : Option Bool := none
  definition : Option δ := none

/-- A gate. -/
structure Gate (δ : Type) where
  id : GateId
  kind : Kind
  position : Position := {}
  inputs : List Bool := []
  outputs : List Bool := []
  metadata : Metadata δ := {}

/-- A circuit. -/
structure Circuit (δ : Type) where
  gates : List (Gate δ) := []
  wires : List Wire := []

/-- A gate with what defines it mapped to another type. -/
def Gate.mapDefinition {δ ε : Type} (f : δ → ε) (g : Gate δ) : Gate ε :=
  { id := g.id
    kind := g.kind
    position := g.position
    inputs := g.inputs
    outputs := g.outputs
    metadata :=
      { label := g.metadata.label
        isRunning := g.metadata.isRunning
        frequency := g.metadata.frequency
        startTime := g.metadata.startTime
        previousClock := g.metadata.previousClock
        q := g.metadata.q
        qBar := g.metadata.qBar
        definition := g.metadata.definition.map f } }

/-- A circuit with what defines its gates mapped to another type. -/
def Circuit.mapDefinitions {δ ε : Type} (f : δ → ε) (c : Circuit δ) : Circuit ε :=
  ⟨c.gates.map (Gate.mapDefinition f), c.wires⟩

/-! ## 2. Definitions of custom gates -/

/-- A pin of a custom gate and the gate it is bound to inside. -/
structure Pin where
  name : String
  gate : Option GateId := none
  /-- the pin of that gate, in the signed form of wire ends -/
  index : Int32 := -1
  deriving DecidableEq, Repr

/-- A pin bound to the first pin of a gate. -/
def Pin.bound (name : String) (gate : GateId) : Pin := { name, gate := some gate }

/-- A pin bound to an input pin of a gate. The pin is kept to 32 bits. -/
def Pin.boundTo (name : String) (gate : GateId) (pin : Nat) : Pin :=
  { name, gate := some gate, index := Int32.ofNat pin }

/-- The rows of a truth table: from a pattern of inputs to a pattern of outputs, sorted by the
    former. -/
abbrev Rows := List (String × String)

/-- Rows with one more row, which replaces a row of the same inputs. -/
def Rows.put (inputs outputs : String) : Rows → Rows
  | [] => [(inputs, outputs)]
  | row :: rest =>
    if inputs = row.1 then (inputs, outputs) :: rest
    else if inputs < row.1 then (inputs, outputs) :: row :: rest
    else row :: Rows.put inputs outputs rest

/-- The contents of a definition, over the definitions `δ` inside it. -/
structure Body (δ : Type) where
  name : String
  inputs : List Pin
  outputs : List Pin
  circuit : Option (Circuit δ) := none
  rows : Option Rows := none

/-- The definition of a custom gate: by a circuit, or by a truth table. -/
inductive Definition where
  | mk (body : Body Definition)

namespace Definition

/-- The contents of a definition. -/
def body : Definition → Body Definition
  | .mk b => b

/-- The name of the gate. -/
def name (d : Definition) : String := d.body.name

/-- The input pins, in order. -/
def inputs (d : Definition) : List Pin := d.body.inputs

/-- The output pins, in order. -/
def outputs (d : Definition) : List Pin := d.body.outputs

/-- A definition by a truth table. Of rows with the same inputs the last one counts. -/
def ofRows (name : String) (inputs outputs : List String) (rows : List (String × String)) :
    Definition :=
  .mk { name
        inputs := inputs.map fun n => { name := n }
        outputs := outputs.map fun n => { name := n }
        rows := some (rows.foldl (fun acc row => Rows.put row.1 row.2 acc) []) }

/-- A definition by a circuit. -/
def ofCircuit (name : String) (inputs outputs : List Pin) (c : Circuit Definition) : Definition :=
  .mk { name, inputs, outputs, circuit := some c }

/-! ## 3. Recursion over definitions -/

mutual

/-- Works a definition out from the results for the definitions inside it. -/
def fold {α : Type} (f : Body α → α) : Definition → α
  | .mk ⟨name, inputs, outputs, circuit, rows⟩ =>
    f ⟨name, inputs, outputs, foldCircuit f circuit, rows⟩

/-- The results for the circuit of a definition. -/
def foldCircuit {α : Type} (f : Body α → α) : Option (Circuit Definition) → Option (Circuit α)
  | none => none
  | some ⟨gates, wires⟩ => some ⟨foldGates f gates, wires⟩

/-- The results for the gates of a circuit. -/
def foldGates {α : Type} (f : Body α → α) : List (Gate Definition) → List (Gate α)
  | [] => []
  | ⟨id, kind, position, inputs, outputs,
      ⟨label, isRunning, frequency, startTime, previousClock, q, qBar, definition⟩⟩ :: rest =>
    ⟨id, kind, position, inputs, outputs,
      ⟨label, isRunning, frequency, startTime, previousClock, q, qBar,
        foldInner f definition⟩⟩ :: foldGates f rest

/-- The result for the definition of a gate. -/
def foldInner {α : Type} (f : Body α → α) : Option Definition → Option α
  | none => none
  | some d => some (fold f d)

end

theorem foldInner_eq {α : Type} (f : Body α → α) (d : Option Definition) :
    foldInner f d = d.map (fold f) := by
  cases d <;> simp [foldInner]

theorem foldGates_eq {α : Type} (f : Body α → α) (gates : List (Gate Definition)) :
    foldGates f gates = gates.map (Gate.mapDefinition (fold f)) := by
  induction gates with
  | nil => simp [foldGates]
  | cons g gates ih =>
    simp only [foldGates, ih, List.map_cons, foldInner_eq, Gate.mapDefinition]

/-- **The equation of the recursion.** -/
theorem fold_mk {α : Type} (f : Body α → α) (b : Body Definition) :
    fold f (.mk b) =
      f ⟨b.name, b.inputs, b.outputs, b.circuit.map (Circuit.mapDefinitions (fold f)), b.rows⟩ := by
  obtain ⟨name, inputs, outputs, circuit, rows⟩ := b
  cases circuit with
  | none => simp [fold, foldCircuit]
  | some c => simp [fold, foldCircuit, foldGates_eq, Circuit.mapDefinitions]

end Definition

/-! ## 4. Pins and signals of a gate -/

namespace Gate

/-- A new gate, all its signals low. -/
def new (id : GateId) (kind : Kind) : Gate Definition :=
  { id
    kind
    inputs := List.replicate kind.inputCount false
    outputs := List.replicate kind.outputCount false }

/-- An input gate that holds a signal. -/
def input (id : GateId) (value : Bool) : Gate Definition :=
  { new id .input with outputs := [value] }

/-- A running clock. -/
def clock (id : GateId) (frequency : Float) : Gate Definition :=
  { new id .clock with metadata := { isRunning := some true, frequency := some frequency } }

/-- A custom gate, with the pins of its definition. -/
def custom (id : GateId) (d : Definition) : Gate Definition :=
  { id
    kind := .custom
    inputs := d.inputs.map fun _ => false
    outputs := d.outputs.map fun _ => false
    metadata := { definition := some d } }

/-- The number of input pins: those of its definition for a custom gate that has one, otherwise
    as many as signals are stored, but not fewer than its kind has. -/
def inputCount (g : Gate Definition) : Nat :=
  match g.kind, g.metadata.definition with
  | .custom, some d => d.inputs.length
  | kind, _ => max g.inputs.length kind.inputCount

/-- The number of output pins, by the same rule. -/
def outputCount (g : Gate Definition) : Nat :=
  match g.kind, g.metadata.definition with
  | .custom, some d => d.outputs.length
  | kind, _ => max g.outputs.length kind.outputCount

/-- The first output signal. -/
def output {δ : Type} (g : Gate δ) : Bool := g.outputs.headD false

/-- A gate in a message. -/
def text {δ : Type} (g : Gate δ) : String :=
  s!"{g.kind.name} {g.id}({Signal.encodeAll g.inputs}) = {Signal.encodeAll g.outputs}"

end Gate

/-! ## 5. Circuits as they are edited -/

namespace Circuit

variable {δ : Type}

/-- The first gate with an identifier. -/
def gate? (c : Circuit δ) (id : GateId) : Option (Gate δ) := c.gates.find? (·.id = id)

/-- A circuit with one more gate. -/
def add (c : Circuit δ) (g : Gate δ) : Circuit δ := { c with gates := c.gates ++ [g] }

/-- A circuit with several more gates. -/
def addAll (c : Circuit δ) (gs : List (Gate δ)) : Circuit δ := { c with gates := c.gates ++ gs }

/-- A circuit with one more wire. -/
def addWire (c : Circuit δ) (w : Wire) : Circuit δ := { c with wires := c.wires ++ [w] }

/-- A circuit without the gates with an identifier. Wires at those gates stay. -/
def removeGate (c : Circuit δ) (id : GateId) : Circuit δ :=
  { c with gates := c.gates.filter (·.id ≠ id) }

/-- A circuit without the wires with an identifier. -/
def removeWire (c : Circuit δ) (id : WireId) : Circuit δ :=
  { c with wires := c.wires.filter (·.id ≠ id) }

/-- The identifier of the `n`th generated wire. -/
def wireName (n : Nat) : WireId := s!"w{n}"

/-- The first generated identifier from number `n` on that is not in use, among `fuel + 1`. -/
def freshWire (taken : List WireId) : Nat → Nat → WireId
  | n, 0 => wireName n
  | n, fuel + 1 => if taken.contains (wireName n) then freshWire taken (n + 1) fuel else wireName n

/-- The identifier for a new wire: the search begins at the number of wires, and as many steps as
    there are wires suffice. -/
def newWireId (c : Circuit δ) : WireId :=
  freshWire (c.wires.map (·.id)) c.wires.length c.wires.length

/-- Joins an output pin to an input pin by a new wire, which comes last. -/
def connect (c : Circuit δ) (source : GateId) (sourcePin : Nat) (sink : GateId) (sinkPin : Nat) :
    Circuit δ :=
  c.addWire ⟨c.newWireId, .output source sourcePin, .input sink sinkPin, false⟩

@[simp] theorem gates_connect (c : Circuit δ) (source : GateId) (sourcePin : Nat) (sink : GateId)
    (sinkPin : Nat) : (c.connect source sourcePin sink sinkPin).gates = c.gates := rfl

theorem wires_connect (c : Circuit δ) (source : GateId) (sourcePin : Nat) (sink : GateId)
    (sinkPin : Nat) :
    (c.connect source sourcePin sink sinkPin).wires =
      c.wires ++ [⟨c.newWireId, .output source sourcePin, .input sink sinkPin, false⟩] := rfl

/-- Changes the first element that satisfies a condition. -/
def updateFirst {α : Type} (p : α → Bool) (f : α → α) : List α → List α
  | [] => []
  | a :: rest => if p a then f a :: rest else a :: updateFirst p f rest

/-- A circuit in which a gate takes the place of the first gate with its identifier. -/
def replace (c : Circuit δ) (g : Gate δ) : Circuit δ :=
  { c with gates := updateFirst (·.id = g.id) (fun _ => g) c.gates }

/-- Sets the signal of the first gate with an identifier if it is an input gate. The second
    component tells whether it is. -/
def setInput (c : Circuit δ) (id : GateId) (value : Bool) : Circuit δ × Bool :=
  match c.gate? id with
  | some g =>
    if g.kind = .input then
      ({ c with gates := updateFirst (·.id = id)
                  (fun g => { g with outputs := value :: g.outputs.drop 1 }) c.gates }, true)
    else (c, false)
  | none => (c, false)

/-- A circuit in a message: one line per gate and per wire. -/
def text (c : Circuit δ) : String :=
  s!"Circuit with {c.gates.length} gates, {c.wires.length} wires:\n"
    ++ String.join (c.gates.map fun g => s!"\t{g.text}\n")
    ++ String.join (c.wires.map fun w => s!"\t{w.text}\n")

end Circuit

end LogicSim
