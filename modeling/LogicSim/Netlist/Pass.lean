import LogicSim.Netlist.Basic

/-!
# Passes

A pass evaluates every node of a netlist once. There are two modes:

* in a *delayed* pass every node reads the outputs as they were before the pass, so that each gate
  delays its signal by one pass (`Netlist.delayed`);
* in an *immediate* pass the nodes are evaluated in the order of a schedule and read the outputs of
  this pass, except along feedback, which carries those of the pass before (`Netlist.immediate`).

A node whose element fails has low outputs; the fault becomes a warning. Delayed passes can be
repeated until one changes nothing (`Netlist.settle`).
-/

namespace LogicSim

variable {ε : Type}

/-! ## 1. One node -/

/-- The outputs of a forced node: those it had, with the first one replaced. -/
def forceFirst (value : Bool) : List Bool → List Bool
  | [] => []
  | _ :: rest => value :: rest

@[simp] theorem length_forceFirst (value : Bool) (outputs : List Bool) :
    (forceFirst value outputs).length = outputs.length := by
  cases outputs <;> rfl

/-- A node after a pass in which it sees the given signals at its inputs, and the warnings about
    it. It keeps the number of its outputs. -/
def Node.react (run : ε → Reaction) (instant : Instant) (inputs : List Bool) (n : Node ε) :
    Node ε × List Warning :=
  match n.forced with
  | some value => ({ n with inputs, outputs := forceFirst value n.outputs }, [])
  | none =>
    match n.element.evaluate run instant inputs with
    | .ok (element, answer) =>
      ({ n with element, inputs, outputs := Signal.resize answer.outputs n.outputs.length },
        answer.notes.map (Warning.ofGate n.id))
    | .error fault =>
      ({ n with inputs, outputs := List.replicate n.outputs.length false },
        [.ofProblem (.evaluationError n.id fault.text)])

/-- A pass keeps the number of outputs of a node. -/
@[simp] theorem Node.length_outputs_react (run : ε → Reaction) (instant : Instant)
    (inputs : List Bool) (n : Node ε) :
    (n.react run instant inputs).1.outputs.length = n.outputs.length := by
  unfold Node.react
  split
  · simp
  · split <;> simp

/-- A node records the signals that it sees. -/
@[simp] theorem Node.inputs_react (run : ε → Reaction) (instant : Instant) (inputs : List Bool)
    (n : Node ε) : (n.react run instant inputs).1.inputs = inputs := by
  unfold Node.react
  split
  · rfl
  · split <;> rfl

@[simp] theorem Node.id_react (run : ε → Reaction) (instant : Instant) (inputs : List Bool)
    (n : Node ε) : (n.react run instant inputs).1.id = n.id := by
  unfold Node.react
  split
  · rfl
  · split <;> rfl

/-! ## 2. One pass -/

/-- The result of a pass. -/
structure Sweep (ε : Type) where
  netlist : Netlist ε
  warnings : List Warning := []
  /-- whether the outputs of any node changed -/
  changed : Bool := false

namespace Netlist

/-- A pass in which every node reads the outputs of the pass before. -/
def delayed (run : ε → Reaction) (instant : Instant) (net : Netlist ε) : Sweep ε :=
  let results := net.nodes.mapIdx fun i n => n.react run instant (net.gather i net.outputAt)
  { netlist := { net with nodes := results.map (·.1) }
    warnings := results.flatMap (·.2)
    changed := (net.nodes.zip results).any fun (before, after) =>
      before.outputs != after.1.outputs }

@[simp] theorem connections_delayed (run : ε → Reaction) (instant : Instant) (net : Netlist ε) :
    (net.delayed run instant).netlist.connections = net.connections := rfl

/-- In a delayed pass each node reacts to the outputs before the pass. -/
theorem getElem?_delayed (run : ε → Reaction) (instant : Instant) (net : Netlist ε) (i : Nat) :
    (net.delayed run instant).netlist.nodes[i]? =
      net.nodes[i]?.map fun n => (n.react run instant (net.gather i net.outputAt)).1 := by
  simp [delayed, Function.comp_def]

/-- What a node reads in an immediate pass: along feedback the outputs of the netlist `before` the
    pass, otherwise those of the netlist as it is. -/
def readScheduled (schedule : Schedule) (before now : Netlist ε) (sink source pin : Nat) : Bool :=
  if schedule.isFeedback source sink then before.outputAt source pin else now.outputAt source pin

/-- An immediate pass goes on to a node. -/
def visit (run : ε → Reaction) (schedule : Schedule) (instant : Instant) (before : Netlist ε)
    (s : Sweep ε) (node : Nat) : Sweep ε :=
  match s.netlist.nodes[node]? with
  | none => s
  | some n =>
    let inputs := s.netlist.gather node (readScheduled schedule before s.netlist node)
    let (after, warnings) := n.react run instant inputs
    { netlist := s.netlist.updateNode node fun _ => after
      warnings := s.warnings ++ warnings
      changed := s.changed || n.outputs != after.outputs }

@[simp] theorem connections_visit (run : ε → Reaction) (schedule : Schedule) (instant : Instant)
    (before : Netlist ε) (s : Sweep ε) (node : Nat) :
    (visit run schedule instant before s node).netlist.connections = s.netlist.connections := by
  unfold visit
  split <;> rfl

/-- A visit changes no other node. -/
theorem getElem?_visit_of_ne (run : ε → Reaction) (schedule : Schedule) (instant : Instant)
    (before : Netlist ε) (s : Sweep ε) {node i : Nat} (h : node ≠ i) :
    (visit run schedule instant before s node).netlist.nodes[i]? = s.netlist.nodes[i]? := by
  unfold visit
  split
  · rfl
  · simp [h]

/-- A pass in the order of a schedule. -/
def immediate (run : ε → Reaction) (schedule : Schedule) (instant : Instant) (net : Netlist ε) :
    Sweep ε :=
  schedule.order.foldl (visit run schedule instant net) { netlist := net }

end Netlist

/-! ## 3. Settling -/

/-- A netlist in the course of delayed passes. -/
structure Settling (ε : Type) where
  netlist : Netlist ε
  warnings : List Warning := []
  /-- the number of passes so far -/
  passes : Nat := 0
  /-- whether the last pass changed nothing -/
  settled : Bool := false

namespace Settling

/-- One more delayed pass. -/
def pass (run : ε → Reaction) (instant : Instant) (s : Settling ε) : Settling ε :=
  let sweep := s.netlist.delayed run instant
  { netlist := sweep.netlist
    warnings := s.warnings ++ sweep.warnings
    passes := s.passes + 1
    settled := !sweep.changed }

/-- Delayed passes until one changes nothing, but at most `limit` of them. -/
def run (behave : ε → Reaction) (instant : Instant) : Nat → Settling ε → Settling ε
  | 0, s => { s with settled := false }
  | limit + 1, s =>
    let s := s.pass behave instant
    if s.settled then s else run behave instant limit s

end Settling

/-- Delayed passes from a netlist until one changes nothing, but at most `limit` of them. -/
def Netlist.settle (run : ε → Reaction) (instant : Instant) (limit : Nat) (net : Netlist ε) :
    Settling ε :=
  Settling.run run instant limit { netlist := net }

end LogicSim
