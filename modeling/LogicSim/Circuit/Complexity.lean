import LogicSim.Graph.Dependencies

/-!
# Size and structure of a circuit

Numbers about a circuit that need no evaluation, and no validity either.
-/

namespace LogicSim

/-- Size and structure of a circuit. -/
structure Complexity where
  gateCount : Nat
  wireCount : Nat
  customCount : Nat
  /-- the gates of a combinational cycle in the direction of the signal -/
  cycleGates : List GateId
  hasClock : Bool
  hasFlipFlop : Bool
  hasLatch : Bool
  /-- the number of combinational gates on the longest path -/
  depth : Nat
  deriving DecidableEq, Repr

namespace Complexity

/-- Whether there is a combinational cycle. -/
def hasCycles (k : Complexity) : Bool := !k.cycleGates.isEmpty

/-- Whether the circuit keeps a state between passes. -/
def isSequential (k : Complexity) : Bool :=
  k.hasClock || k.hasFlipFlop || k.hasLatch || k.hasCycles

/-- The size and structure of a circuit. -/
def ofCircuit (c : Circuit Definition) : Complexity :=
  let dependencies := c.dependencies
  let has (kind : Kind) : Bool := c.gates.any (·.kind = kind)
  { gateCount := c.gates.length
    wireCount := c.wires.length
    customCount := (c.gates.filter (·.kind = .custom)).length
    cycleGates := match dependencies.order with
      | .ok _ => []
      | .error cycle => cycle.dropLast.filterMap fun i => c.gates[i]?.map (·.id)
    hasClock := has .clock
    hasFlipFlop := has .flipFlop
    hasLatch := has .latch
    depth := dependencies.depth }

/-- Size and structure in a message, one line per number; what does not occur is left out. -/
def text (k : Complexity) : String :=
  let line (present : Bool) (s : String) : String := if present then "  " ++ s ++ "\n" else ""
  "Complexity:\n"
    ++ line true s!"Gates: {k.gateCount}"
    ++ line true s!"Wires: {k.wireCount}"
    ++ line (k.customCount ≠ 0) s!"Custom: {k.customCount}"
    ++ line true s!"Depth: {k.depth}"
    ++ line k.hasClock "Clock"
    ++ line k.hasFlipFlop "D flip-flops"
    ++ line k.hasLatch "Latches"
    ++ line k.hasCycles ("Cycle: " ++ " -> ".intercalate k.cycleGates)

end Complexity

end LogicSim
