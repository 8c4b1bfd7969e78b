import LogicSim.Circuit.Wire

/-!
# Problems and warnings

A *problem* prevents a pass: the circuit is malformed, or has a combinational cycle. A failure of a
single gate does not prevent a pass; it becomes a *warning*, which keeps the category of the
problem it stands for (`Warning.ofProblem`). Other warnings have no category.
-/

namespace LogicSim

/-! ## 1. Problems -/

/-- What prevents a pass, or makes a gate fail. -/
inductive Problem where
  | invalidGate (gate : GateId) (message : String)
  | invalidWire (wire : WireId) (message : String)
  /-- the gates of a cycle in the direction of the signal, the first one again at the end -/
  | circularDependency (cycle : List GateId)
  | missingDependency (wire : WireId) (gate : GateId)
  | evaluationError (gate : GateId) (message : String)
  deriving DecidableEq, Repr

/-- The categories of problems. -/
inductive ProblemKind where
  | invalidGate
  | invalidWire
  | circularDependency
  | missingDependency
  | evaluationError
  deriving DecidableEq, Repr

namespace ProblemKind

/-- All categories. -/
def all : List ProblemKind :=
  [.invalidGate, .invalidWire, .circularDependency, .missingDependency, .evaluationError]

/-- The name of a category. -/
def name : ProblemKind → String
  | .invalidGate => "INVALID_GATE"
  | .invalidWire => "INVALID_WIRE"
  | .circularDependency => "CIRCULAR_DEPENDENCY"
  | .missingDependency => "MISSING_DEPENDENCY"
  | .evaluationError => "EVALUATION_ERROR"

/-- The category of a name. -/
def ofName? (s : String) : Option ProblemKind := all.find? (·.name = s)

@[simp] theorem ofName?_name (k : ProblemKind) : ofName? k.name = some k := by
  cases k <;> decide

end ProblemKind

namespace Problem

/-- The category of a problem. -/
def kind : Problem → ProblemKind
  | .invalidGate .. => .invalidGate
  | .invalidWire .. => .invalidWire
  | .circularDependency .. => .circularDependency
  | .missingDependency .. => .missingDependency
  | .evaluationError .. => .evaluationError

/-- The gate to blame, if it is a single one. -/
def gate? : Problem → Option GateId
  | .invalidGate gate _ => some gate
  | .missingDependency _ gate => some gate
  | .evaluationError gate _ => some gate
  | .invalidWire .. => none
  | .circularDependency .. => none

/-- The text of a problem. -/
def text : Problem → String
  | .invalidGate gate message => s!"invalid gate {gate}: {message}"
  | .invalidWire wire message => s!"invalid wire {wire}: {message}"
  | .circularDependency cycle => "circular dependency: " ++ " -> ".intercalate cycle
  | .missingDependency wire gate => s!"wire {wire} references missing gate {gate}"
  | .evaluationError gate message => s!"evaluation of {gate} failed: {message}"

/-- Several problems in one line. -/
def texts (problems : List Problem) : String := "; ".intercalate (problems.map text)

end Problem

/-! ## 2. Warnings -/

/-- What a pass has to say about a gate, or about the circuit as a whole. -/
structure Warning where
  gate : Option GateId := none
  kind : Option ProblemKind := none
  message : String
  deriving DecidableEq, Repr

namespace Warning

/-- A warning about a gate. -/
def ofGate (gate : GateId) (message : String) : Warning := { gate := some gate, message }

/-- A warning about the circuit. -/
def ofCircuit (message : String) : Warning := { message }

/-- A warning in place of a problem. -/
def ofProblem (p : Problem) : Warning := { gate := p.gate?, kind := some p.kind, message := p.text }

/-- The text of a warning. -/
def text (w : Warning) : String :=
  match w.gate with
  | some id => s!"{id}: {w.message}"
  | none => w.message

end Warning

end LogicSim
