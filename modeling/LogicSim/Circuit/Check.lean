import LogicSim.Circuit.Basic
import LogicSim.Problem

/-!
# Structural validity

`Circuit.check` lists every structural problem of a circuit: first the gates whose identifier was
used before, then wire by wire the repeated identifiers, the ends at missing gates, the pins that
do not exist and the input pins that an earlier wire drives. An identifier used by several gates
denotes the last of them.
-/

namespace LogicSim.Circuit

/-- The gate that an identifier denotes. -/
def lookup (c : Circuit Definition) (id : GateId) : Option (Gate Definition) :=
  c.gates.reverse.find? (·.id = id)

/-- The problems of gates that come after the gates named `earlier`. -/
def gateProblems (earlier : List GateId) : List (Gate Definition) → List Problem
  | [] => []
  | g :: rest =>
    (if earlier.contains g.id then [.invalidGate g.id "duplicate gate id"] else [])
      ++ gateProblems (g.id :: earlier) rest

/-- The problem of a source pin, if the gate exists. -/
def sourceProblems (c : Circuit Definition) (w : Wire) : List Problem :=
  match c.lookup w.source.gate with
  | none => []
  | some g =>
    let pin := w.source.outputPin
    if pin < g.outputCount then [] else [.invalidWire w.id s!"{g.id} has no output pin {pin}"]

/-- The problem of a destination pin, if the gate exists. -/
def sinkProblems (c : Circuit Definition) (earlier : List Wire) (w : Wire) : List Problem :=
  match c.lookup w.sink.gate with
  | none => []
  | some g =>
    match w.sink.inputPin? with
    | some pin =>
      if pin < g.inputCount then
        if earlier.any (·.drives g.id pin) then
          [.invalidWire w.id s!"input pin {pin} of {g.id} has several drivers"]
        else []
      else [.invalidWire w.id s!"{g.id} has no input pin {w.sink.index.toInt}"]
    | none => [.invalidWire w.id s!"{g.id} has no input pin {w.sink.index.toInt}"]

/-- The problem of an end at a missing gate. -/
def danglingProblems (c : Circuit Definition) (w : Wire) (e : Endpoint) : List Problem :=
  if (c.lookup e.gate).isSome then [] else [.missingDependency w.id e.gate]

/-- The problems of one wire. -/
def wireProblems (c : Circuit Definition) (earlier : List Wire) (w : Wire) : List Problem :=
  (if earlier.any (·.id = w.id) then [.invalidWire w.id "duplicate wire id"] else [])
    ++ c.danglingProblems w w.source ++ c.danglingProblems w w.sink
    ++ c.sourceProblems w ++ c.sinkProblems earlier w

/-- The problems of wires that come after the wires `earlier`. -/
def wiresProblems (c : Circuit Definition) (earlier : List Wire) : List Wire → List Problem
  | [] => []
  | w :: rest => c.wireProblems earlier w ++ c.wiresProblems (w :: earlier) rest

/-- Every structural problem of a circuit. -/
def check (c : Circuit Definition) : List Problem :=
  gateProblems [] c.gates ++ c.wiresProblems [] c.wires

end LogicSim.Circuit
