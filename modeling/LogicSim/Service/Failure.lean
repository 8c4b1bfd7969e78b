import LogicSim.Problem

/-!
# Failures of a service

Why a call of the service did not succeed, with a text and with a hint for the user.
-/

namespace LogicSim

/-- Why a call did not succeed. -/
inductive Failure where
  /-- the circuit is not valid -/
  | invalidCircuit (problems : List Problem)
  /-- the call took too long -/
  | timeout (elapsed limit : UInt64)
  /-- the circuit did not settle -/
  | oscillation (passes : Nat)
  /-- the circuit has too many gates -/
  | tooLarge (gates limit : Nat)
  /-- the strategy asked for is not possible -/
  | strategyFailed (strategy : String) (problems : List Problem)
  | unknown (message : String)
  deriving DecidableEq, Repr

namespace Failure

/-- The category of a failure. -/
def kindName : Failure → String
  | .invalidCircuit _ => "CIRCUIT_INVALID"
  | .timeout .. => "SIMULATION_TIMEOUT"
  | .oscillation _ => "OSCILLATION_DETECTED"
  | .tooLarge .. => "MEMORY_LIMIT_EXCEEDED"
  | .strategyFailed .. => "STRATEGY_FAILED"
  | .unknown _ => "UNKNOWN_ERROR"

/-- The text of a failure. -/
def text : Failure → String
  | .invalidCircuit problems => s!"circuit is invalid: {Problem.texts problems}"
  | .timeout elapsed limit =>
    s!"simulation took {elapsed.toNat}ms, over the {limit.toNat}ms budget"
  | .oscillation passes => s!"circuit still changing after {passes} iterations"
  | .tooLarge gates limit => s!"circuit has {gates} gates after expansion, limit is {limit}"
  | .strategyFailed strategy problems =>
    s!"{strategy} evaluation failed: {Problem.texts problems}"
  | .unknown message => message

/-- What the user may do about a failure. -/
def hint : Failure → String
  | .invalidCircuit _ => "Remove dangling wires and duplicate ids, then evaluate again"
  | .timeout .. => "Reduce the circuit size or raise the timeout in the configuration"
  | .oscillation _ =>
    "The circuit oscillates; step it in delayed mode instead of waiting for a stable state"
  | .tooLarge .. => "Split the circuit or flatten deeply nested custom gates"
  | .strategyFailed .. =>
    "Let the service pick the strategy, or use delayed mode for circuits with feedback"
  | .unknown _ => "Report the circuit that triggered the failure"

/-- The problems that a failure carries, if it is of a kind that does. -/
def problems? : Failure → Option (List Problem)
  | .invalidCircuit problems => some problems
  | .strategyFailed _ problems => some problems
  | _ => none

/-- The beginning of the message about a circuit document that cannot be read. -/
def malformedPrefix : String := "malformed circuit document: "

/-- The failure of a circuit document that cannot be read. -/
def malformed (reason : String) : Failure := .unknown (malformedPrefix ++ reason)

end Failure

end LogicSim
