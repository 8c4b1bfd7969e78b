import LogicSim.Netlist.Expansion

/-!
# Making definitions ready

`Definition.compile` turns the definition of a custom gate into an expansion. The definitions
inside it are compiled first, each one level deeper, and a definition beyond the deepest level
allowed is not compiled. A gate whose definition cannot be compiled fails in every pass; the
definition around it compiles all the same.

The circuit of a definition takes precedence over its truth table.
-/

namespace LogicSim

/-- The largest number of inputs of a truth table. -/
def maxTableInputs : Nat := 16

namespace Definition

/-! ## 1. Pins -/

/-- Why a pin cannot be bound to a pin of its gate. -/
def missingPin (d : Definition) (p : Pin) : String :=
  s!"pin {p.name} of {d.name} is bound to missing pin {p.index.toInt}"

/-- The node a pin is bound to. -/
def boundNode {ε : Type} (d : Definition) (net : Netlist ε) (p : Pin) :
    Except String (Nat × Node ε) :=
  match p.gate with
  | none => .error s!"pin {p.name} of {d.name} is not bound"
  | some id =>
    match net.index? id with
    | none => .error s!"pin {p.name} of {d.name} is bound to unknown gate {id}"
    | some i => match net.nodes[i]? with
      | none => .error s!"pin {p.name} of {d.name} is bound to unknown gate {id}"
      | some n => .ok (i, n)

/-- The binding of an input pin. The index of an input gate does not matter; a negative index at
    another gate denotes its first input. -/
def bindInput {ε : Type} (d : Definition) (net : Netlist ε) (p : Pin) :
    Except String InputBinding := do
  let (i, n) ← d.boundNode net p
  match n.element with
  | .input _ => return .gate i
  | _ =>
    let pin := p.index.toInt.toNat
    if pin < n.inputs.length then return .pin i pin else throw (d.missingPin p)

/-- The tap of an output pin. The index of an output gate does not matter; at another gate index
    `-k - 1` is output `k` and any other index an input. -/
def tapOutput {ε : Type} (d : Definition) (net : Netlist ε) (p : Pin) :
    Except String OutputTap := do
  let (i, n) ← d.boundNode net p
  if n.element.kind = .output then return .gate i
  else if p.index < 0 then
    let pin := (-(p.index.toInt + 1)).toNat
    if pin < n.outputs.length then return .output i pin else throw (d.missingPin p)
  else
    let pin := p.index.toInt.toNat
    if pin < n.inputs.length then return .input i pin else throw (d.missingPin p)

/-- The expansion of a definition whose circuit has the given netlist. -/
def linkCircuit {ε : Type} (d : Definition) (net : Netlist ε) : Except String (SubCircuit ε) := do
  let inputs ← d.inputs.mapM (d.bindInput net)
  let outputs ← d.outputs.mapM (d.tapOutput net)
  return {
    name := d.name
    template := net
    schedule := net.dependencies.schedule.toOption
    inputs
    outputs }

/-! ## 2. Truth tables -/

/-- A pattern of a given length. -/
def pattern? (length : Nat) (s : String) : Option (List Bool) :=
  (Signal.pattern? s).filter (·.length = length)

/-- A table with one more row, or with the reason why the row is left out. -/
def addRow (inputCount outputCount : Nat) (t : TruthTable) (row : String × String) : TruthTable :=
  match pattern? inputCount row.1, pattern? outputCount row.2 with
  | none, _ =>
    { t with skipped :=
        t.skipped ++ ["ignored row with invalid input pattern " ++ Text.quoted row.1] }
  | some _, none =>
    { t with skipped :=
        t.skipped ++ ["ignored row with invalid output pattern " ++ Text.quoted row.2] }
  | some inputs, some outputs =>
    { t with columns :=
        t.columns.zipWith (fun column value =>
          TruthTable.putBit column (TruthTable.inputNumber inputs) value) outputs }

/-- The expansion of a definition with the given rows. Inputs without a row give low outputs. -/
def linkTable (d : Definition) (rows : Rows) : Except String TruthTable :=
  let inputCount := d.inputs.length
  let outputCount := d.outputs.length
  if inputCount > maxTableInputs then
    .error <| s!"truth table of {d.name} has {inputCount} inputs, "
      ++ s!"at most {maxTableInputs} are supported"
  else
    .ok (rows.foldl (addRow inputCount outputCount)
      { name := d.name, inputCount, columns := List.replicate outputCount 0, skipped := [] })

/-! ## 3. Compilation -/

/-- Compiles a definition when `levels` more levels are allowed, of `deepest` in all. -/
def compile (deepest : Nat) : (levels : Nat) → Definition → Except String Expansion
  | 0, _ => .error s!"custom gates nested deeper than {deepest}"
  | levels + 1, d =>
    match d.body.circuit, d.body.rows with
    | some c, _ =>
      match Netlist.ofCircuit (compile deepest levels) c with
      | .error problems =>
        .error s!"invalid internal circuit in {d.name}: {Problem.texts problems}"
      | .ok net => (d.linkCircuit net).map .circuit
    | none, some rows => (d.linkTable rows).map .table
    | none, none => .error s!"{d.name} has neither an internal circuit nor a truth table"

/-- Compiles a definition at a level, of `deepest` levels in all. The custom gates of a circuit are
    at level one. -/
def compileAt (deepest level : Nat) (d : Definition) : Except String Expansion :=
  compile deepest (deepest + 1 - level) d

/-- The deepest level allowed unless another is given. -/
def defaultDepth : Nat := 16

/-- The number of passes allowed for settling unless another is given. -/
def defaultSettleLimit : Nat := 50

/-- Compiles and evaluates a definition on its own. -/
def evaluate (d : Definition) (now : UInt64) (inputs : List Bool) : Except Fault Answer :=
  match d.compileAt defaultDepth 1 with
  | .error reason => .error (.custom d.name reason)
  | .ok e => e.react ⟨now, defaultSettleLimit⟩ inputs

end Definition

/-- The netlist of a circuit whose custom gates may nest to a depth. -/
def Circuit.netlist (deepest : Nat) (c : Circuit Definition) :
    Except (List Problem) (Netlist Expansion) :=
  Netlist.ofCircuit (Definition.compile deepest deepest) c

/-- The number of gates of a netlist, at all levels. -/
def Netlist.size (net : Netlist Expansion) : Nat := net.expandedSize Expansion.size

end LogicSim
