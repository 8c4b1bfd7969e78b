import LogicSim.Netlist.Compilation

/-!
# Configuration of a service
-/

namespace LogicSim

/-- How a circuit is evaluated. -/
inductive Strategy where
  /-- immediate unless there is a combinational cycle -/
  | auto
  | immediate
  | delayed
  deriving DecidableEq, Repr

namespace Strategy

/-- All strategies. -/
def all : List Strategy := [.auto, .immediate, .delayed]

/-- The name of a strategy. -/
def name : Strategy → String
  | .auto => "auto"
  | .immediate => "immediate"
  | .delayed => "delayed"

/-- The strategy of a name. -/
def ofName? (s : String) : Option Strategy := all.find? (·.name = s)

@[simp] theorem ofName?_name (s : Strategy) : ofName? s.name = some s := by
  cases s <;> decide

end Strategy

/-- The configuration of a service. -/
structure Config where
  strategy : Strategy := .auto
  /-- the number of passes within which a circuit has to settle -/
  settleLimit : Nat := Definition.defaultSettleLimit
  /-- the time that a call may take, in milliseconds -/
  timeLimit : UInt64 := 5000
  /-- the number of gates allowed, at all levels -/
  gateLimit : Nat := 100000
  /-- how deep custom gates may nest -/
  deepest : Nat := Definition.defaultDepth
  deriving DecidableEq, Repr

end LogicSim
