import LogicSim.Netlist.Compilation

/-!
# Evaluating a circuit

One pass over a circuit, from circuit to circuit. Nothing is kept between passes: the circuit that
comes back holds all signals and all memory, and evaluating it again continues the simulation. When
a pass is not possible, the circuit comes back as it was.
-/

namespace LogicSim

/-- The bounds of an evaluation. -/
structure Evaluator where
  /-- how deep custom gates may nest -/
  deepest : Nat := Definition.defaultDepth
  /-- how many passes a circuit inside a custom gate may take to settle -/
  settleLimit : Nat := Definition.defaultSettleLimit
  deriving DecidableEq, Repr

/-- The result of a pass over a circuit. -/
structure Evaluation where
  circuit : Circuit Definition
  /-- what prevented the pass -/
  problems : List Problem := []
  warnings : List Warning := []
  /-- delayed passes: whether any output changed -/
  changed : Option Bool := none

/-- Whether the pass took place. -/
def Evaluation.succeeded (e : Evaluation) : Bool := e.problems.isEmpty

/-- The problem of a cycle of nodes. -/
def Netlist.cycleProblem {ε : Type} (net : Netlist ε) (cycle : List Nat) : Problem :=
  .circularDependency (cycle.filterMap fun i => net.nodes[i]?.map (·.id))

namespace Evaluator

/-- What goes with the problem of a cycle. -/
def cycleWarning : Warning :=
  { kind := some .circularDependency
    message := "circuit contains a combinational cycle; "
      ++ "use delayed evaluation to simulate feedback" }

/-- What is the same for all gates of a pass at a time. -/
def instant (e : Evaluator) (now : UInt64) : Instant := ⟨now, e.settleLimit⟩

/-- The result of a pass that took place. -/
def finish (c : Circuit Definition) (s : Sweep Expansion) (changed : Option Bool) : Evaluation :=
  { circuit := s.netlist.writeBack c, warnings := s.warnings, changed }

/-- An immediate pass. It is not possible for a circuit with a combinational cycle. -/
def immediate (e : Evaluator) (c : Circuit Definition) (now : UInt64) : Evaluation :=
  match c.netlist e.deepest with
  | .error problems => { circuit := c, problems }
  | .ok net =>
    match net.dependencies.schedule with
    | .error cycle =>
      { circuit := c, problems := [net.cycleProblem cycle], warnings := [cycleWarning] }
    | .ok schedule => finish c (net.immediate Expansion.react schedule (e.instant now)) none

/-- A delayed pass. -/
def delayed (e : Evaluator) (c : Circuit Definition) (now : UInt64) : Evaluation :=
  match c.netlist e.deepest with
  | .error problems => { circuit := c, problems }
  | .ok net =>
    let s := net.delayed Expansion.react (e.instant now)
    finish c s (some s.changed)

end Evaluator

end LogicSim
