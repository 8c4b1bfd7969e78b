import LogicSim.Service.Basic

/-!
# Clock cycles

A cycle drives one clock low, high and low again. The output of the clock is forced, so that the
cycle does not depend on time. After each change there are delayed passes until nothing changes, but
only as many as allowed: a circuit that still changes is worth a warning, and the cycle goes on.
-/

namespace LogicSim

/-- What a clock cycle is asked for. -/
structure CycleRequest where
  clock : GateId
  /-- the number of passes allowed after each change of the clock -/
  passLimit : Nat
  deriving DecidableEq, Repr

/-- The outcome of a clock cycle. -/
structure CycleResponse where
  circuit : Circuit Definition
  /-- whether the outputs of any flip-flop changed -/
  flipFlopsChanged : Bool
  info : CallInfo
  warnings : List Warning

namespace CycleRequest

/-- The node of the clock. -/
def node? (r : CycleRequest) (net : Netlist Expansion) : Option Nat :=
  (net.index? r.clock).filter fun i => match net.nodes[i]? with
    | some n => match n.element with
      | .clock _ => true
      | _ => false
    | none => false

/-- The warning about a circuit that still changes with the clock at a level. -/
def unsettledWarning (r : CycleRequest) (level : Bool) : Warning :=
  let levelName := if level then "high" else "low"
  .ofCircuit s!"circuit still changing after {r.passLimit} passes with {r.clock} {levelName}"

/-- One phase of a cycle: the clock, which is the given node, goes to a level. -/
def phase (r : CycleRequest) (instant : Instant) (node : Nat) (s : Settling Expansion)
    (level : Bool) : Settling Expansion :=
  let s := Settling.run Expansion.react instant r.passLimit
    { s with netlist := s.netlist.force node (some level) }
  if s.settled then s else { s with warnings := s.warnings ++ [r.unsettledWarning level] }

/-- The levels of a cycle, in order. -/
def levels : List Bool := [false, true, false]

/-- A cycle, after which the clock is released. -/
def drive (r : CycleRequest) (instant : Instant) (node : Nat) (s : Settling Expansion) :
    Settling Expansion :=
  let s := levels.foldl (r.phase instant node) s
  { s with netlist := s.netlist.force node none }

/-- Whether a node is a flip-flop. -/
def isFlipFlop (n : Node Expansion) : Bool :=
  match n.element with
  | .flipFlop _ => true
  | _ => false

/-- Whether the outputs of any flip-flop differ between two states of a netlist. -/
def flipFlopsDiffer (before after : Netlist Expansion) : Bool :=
  (before.nodes.zip after.nodes).any fun (b, a) => isFlipFlop b && a.outputs != b.outputs

end CycleRequest

/-- Drives a clock through a cycle. The clock has to be a gate of that kind. -/
def Service.cycle (s : Service) (c : Circuit Definition) (r : CycleRequest) :
    Except Failure CycleResponse × Service :=
  s.call c fun call s =>
    let net := call.state.netlist
    match r.node? net with
    | none =>
      .error (.invalidCircuit [.invalidGate r.clock "no clock gate with this id"])
    | some node =>
      let state := r.drive call.instant node call.state
      let (response, s) := s.finish c state .delayed false
      .ok ({ circuit := response.circuit
             flipFlopsChanged := CycleRequest.flipFlopsDiffer net state.netlist
             info := response.info
             warnings := response.warnings }, s)

end LogicSim
