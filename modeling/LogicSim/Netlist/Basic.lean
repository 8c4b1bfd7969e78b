import LogicSim.Circuit.Check
import LogicSim.Graph.Dependencies
import LogicSim.Netlist.Element

/-!
# Netlists

A netlist is a circuit made ready for passes: node `i` is gate `i` as an element with its signals,
and connections name nodes by number. `Netlist.ofCircuit` builds it from a valid circuit, given what
makes of a definition the behaviour `ε` of a custom gate; `Netlist.writeBack` returns signals and
memory to the circuit.
-/

namespace LogicSim

/-! ## 1. Nodes and connections -/

/-- A gate in a netlist. -/
structure Node (ε : Type) where
  id : GateId
  element : Element ε
  /-- the signals at the inputs in the last pass -/
  inputs : List Bool
  outputs : List Bool
  /-- a signal that takes the place of the first output -/
  forced : Option Bool := none

/-- A wire in a netlist. -/
structure Connection where
  /-- the number of the wire in the circuit -/
  wire : Nat
  source : Nat
  sourcePin : Nat
  sink : Nat
  sinkPin : Nat
  deriving DecidableEq, Repr

/-- A circuit made ready for passes. -/
structure Netlist (ε : Type) where
  nodes : List (Node ε) := []
  connections : List Connection := []

/-- A node with what custom gates do mapped to another type. -/
def Node.map {ε ε' : Type} (f : ε → ε') (n : Node ε) : Node ε' :=
  { id := n.id
    element := n.element.map f
    inputs := n.inputs
    outputs := n.outputs
    forced := n.forced }

/-- A netlist with what custom gates do mapped to another type. -/
def Netlist.map {ε ε' : Type} (f : ε → ε') (net : Netlist ε) : Netlist ε' :=
  ⟨net.nodes.map (Node.map f), net.connections⟩

variable {ε : Type}

namespace Netlist

/-- The node of a gate. -/
def index? (net : Netlist ε) (id : GateId) : Option Nat := net.nodes.findIdx? (·.id = id)

/-- The signal at an output pin; a pin that does not exist is low. -/
def outputAt (net : Netlist ε) (node pin : Nat) : Bool :=
  ((net.nodes[node]?.bind (·.outputs[pin]?)).getD false)

/-- The signal that an input pin had in the last pass; a pin that does not exist is low. -/
def inputAt (net : Netlist ε) (node pin : Nat) : Bool :=
  ((net.nodes[node]?.bind (·.inputs[pin]?)).getD false)

/-- For each of `size` nodes the numbers of the connections into it. The connections come with their
    numbers, and are entered one by one. -/
def driverTable (size : Nat) (numbered : List (Connection × Nat)) : Array (List Nat) :=
  numbered.foldl (fun table p => table.modify p.1.sink (· ++ [p.2])) (Array.replicate size [])

/-- The connections into a node, by the table of their numbers. -/
def drivers (net : Netlist ε) (node : Nat) : List Connection :=
  ((driverTable net.nodes.length net.connections.zipIdx).getD node []).filterMap
    (net.connections[·]?)

/-- Of the nodes only their number matters to the table. -/
theorem drivers_congr {ε' : Type} {net : Netlist ε} {net' : Netlist ε'} {node : Nat}
    (hnodes : net'.nodes.length = net.nodes.length)
    (hconnections : net'.connections = net.connections) :
    net'.drivers node = net.drivers node := by
  rw [drivers, drivers, hnodes, hconnections]

/-- A list with one position overwritten per connection, if it has that position. -/
def overwrite (signals : List Bool) (drivers : List Connection) (read : Nat → Nat → Bool) :
    List Bool :=
  drivers.foldl (fun signals c => signals.set c.sinkPin (read c.source c.sourcePin)) signals

@[simp] theorem length_overwrite (signals : List Bool) (drivers : List Connection)
    (read : Nat → Nat → Bool) : (overwrite signals drivers read).length = signals.length := by
  unfold overwrite
  induction drivers generalizing signals with
  | nil => rfl
  | cons c drivers ih => simp [ih]

/-- The signals at the inputs of a node when outputs are read by `read`. A pin without a connection
    keeps its signal. -/
def gather (net : Netlist ε) (node : Nat) (read : Nat → Nat → Bool) : List Bool :=
  match net.nodes[node]? with
  | some n => overwrite n.inputs (net.drivers node) read
  | none => []

/-- Changes a node. -/
def updateNode (net : Netlist ε) (node : Nat) (f : Node ε → Node ε) : Netlist ε :=
  { net with nodes := net.nodes.modify node f }

@[simp] theorem connections_updateNode (net : Netlist ε) (i : Nat) (f : Node ε → Node ε) :
    (net.updateNode i f).connections = net.connections := rfl

@[simp] theorem getElem?_updateNode (net : Netlist ε) (i j : Nat) (f : Node ε → Node ε) :
    (net.updateNode i f).nodes[j]? = if i = j then net.nodes[j]?.map f else net.nodes[j]? := by
  simp only [updateNode, List.getElem?_modify]
  split <;> simp

/-- Forces the first output of a node, or releases it. -/
def force (net : Netlist ε) (node : Nat) (value : Option Bool) : Netlist ε :=
  net.updateNode node fun n => { n with forced := value }

/-- The dependencies between the nodes. -/
def dependencies (net : Netlist ε) : Dependencies :=
  .ofEdges (net.nodes.map (·.element.isSequential)).toArray
    (net.connections.map fun c => (c.source, c.sink))

/-- The number of nodes, where a custom gate counts for itself and for what it contains. -/
def expandedSize (contents : ε → Nat) (net : Netlist ε) : Nat :=
  (net.nodes.map fun n => match n.element with
    | .custom e => 1 + contents e
    | _ => 1).foldr (· + ·) 0

end Netlist

/-! ## 2. Building a netlist -/

/-- The element of a gate, with its memory taken from the gate. What a gate of unknown kind or
    without a usable definition does is to fail. -/
def Element.ofGate (compile : Definition → Except String ε) (g : Gate Definition) : Element ε :=
  let m := g.metadata
  match g.kind with
  | .input => .input g.output
  | .output => .output
  | .and => .reduce .and
  | .or => .reduce .or
  | .xor => .reduce .xor
  | .nand => .reduce .nand
  | .nor => .reduce .nor
  | .not => .not
  | .mux => .mux
  | .clock => .clock ⟨m.isRunning.getD true, m.frequency.getD 1, m.startTime⟩
  | .flipFlop =>
    let q := m.q.getD g.output
    .flipFlop ⟨m.previousClock.getD false, q, m.qBar.getD !q⟩
  | .latch =>
    let q := m.q.getD g.output
    .latch ⟨q, m.qBar.getD !q⟩
  | .custom => match m.definition with
    | none => .invalid .custom "custom gate has no definition"
    | some d => match compile d with
      | .ok e => .custom e
      | .error reason => .invalid .custom reason
  | .unknown => .invalid .unknown "unknown gate kind"

/-- The output signals that a node starts with: those of its memory, if it has any, otherwise those
    of the gate. -/
def Element.startOutputs (e : Element ε) (g : Gate Definition) : List Bool :=
  match e with
  | .input value => [value]
  | .flipFlop m => [m.q, m.qBar]
  | .latch m => [m.q, m.qBar]
  | _ => Signal.resize g.outputs g.outputCount

/-- The node of a gate. -/
def Node.ofGate (compile : Definition → Except String ε) (g : Gate Definition) : Node ε :=
  let e := Element.ofGate compile g
  { id := g.id
    element := e
    inputs := Signal.resize g.inputs g.inputCount
    outputs := e.startOutputs g }

/-- The connection of a wire, with its number; none if an end does not exist. -/
def Connection.ofWire? (nodes : List (Node ε)) (w : Wire) (number : Nat) : Option Connection := do
  return {
    wire := number
    source := ← nodes.findIdx? (·.id = w.source.gate)
    sourcePin := w.source.outputPin
    sink := ← nodes.findIdx? (·.id = w.sink.gate)
    sinkPin := ← w.sink.inputPin? }

/-- The netlist of a circuit without regard to its validity. -/
def Netlist.assemble (compile : Definition → Except String ε) (c : Circuit Definition) :
    Netlist ε :=
  let nodes := c.gates.map (Node.ofGate compile)
  { nodes
    connections := c.wires.zipIdx.filterMap fun (w, number) => Connection.ofWire? nodes w number }

/-- The netlist of a valid circuit, or all structural problems of an invalid one. -/
def Netlist.ofCircuit (compile : Definition → Except String ε) (c : Circuit Definition) :
    Except (List Problem) (Netlist ε) :=
  match c.check with
  | [] => .ok (.assemble compile c)
  | problems => .error problems

/-! ## 3. Returning to the circuit -/

/-- A gate with the signals and the memory of a node. -/
def Node.store {δ : Type} (n : Node ε) (g : Gate δ) : Gate δ :=
  { g with inputs := n.inputs, outputs := n.outputs, metadata := n.element.store g.metadata }

namespace Netlist

/-- A circuit with the signals and memory of its netlist. Each wire shows the signal at its
    source. -/
def writeBack {δ : Type} (net : Netlist ε) (c : Circuit δ) : Circuit δ :=
  { gates := c.gates.mapIdx fun i g => match net.nodes[i]? with
      | some n => n.store g
      | none => g
    wires := c.wires.mapIdx fun i w => match net.connections.find? (·.wire = i) with
      | some k => { w with isActive := net.outputAt k.source k.sourcePin }
      | none => w }

/-! ## 4. Text -/

/-- A netlist in a message: one line per node and per connection. -/
def text (net : Netlist ε) : String :=
  s!"Netlist with {net.nodes.length} nodes:\n"
    ++ String.join (net.nodes.mapIdx fun i n => s!"\t{i} ({n.id}) = {n.element.text}\n")
    ++ String.join (net.connections.map fun c =>
        s!"\t{c.source}[{c.sourcePin}] -> {c.sink}[{c.sinkPin}]\n")

end Netlist

end LogicSim
