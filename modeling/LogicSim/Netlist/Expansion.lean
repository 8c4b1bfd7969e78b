import LogicSim.Netlist.Pass
import LogicSim.Text.Quoted

/-!
# What is inside a custom gate

A custom gate is a circuit or a truth table made ready for evaluation: an `Expansion`. Its tree of
nested circuits is kept as data. A custom gate has no memory: each evaluation starts from the
`template` of its circuit.

* `SubCircuit.evaluate` puts the inputs into the template, runs one immediate pass, or delayed
  passes until the circuit settles if it has a cycle, and reads the outputs.
* `TruthTable.evaluate` looks the inputs up.
* `Expansion.fold` is the recursion over expansions, and `Expansion.react` the evaluation of a whole
  tree.
-/

namespace LogicSim

/-! ## 1. Circuits inside a gate -/

/-- How an input of a custom gate reaches the circuit inside. -/
inductive InputBinding where
  /-- as the signal of an input gate -/
  | gate (node : Nat)
  /-- as the signal at an input pin -/
  | pin (node pin : Nat)
  deriving DecidableEq, Repr

/-- Where an output of a custom gate is read in the circuit inside. -/
inductive OutputTap where
  /-- the signal that an output gate shows -/
  | gate (node : Nat)
  | output (node pin : Nat)
  | input (node pin : Nat)
  deriving DecidableEq, Repr

/-- A custom gate given by a circuit. -/
structure SubCircuit (ε : Type) where
  name : String
  /-- the circuit as it is at the start of each evaluation -/
  template : Netlist ε
  /-- the order of a pass, if there is no combinational cycle -/
  schedule : Option Schedule
  inputs : List InputBinding
  outputs : List OutputTap

/-- A gate requires as many signals as it has input pins. -/
def checkArity (expected : Nat) (inputs : List Bool) : Except Fault Unit :=
  if inputs.length = expected then .ok () else .error (.arity .custom expected inputs.length)

/-- Puts a signal where an input is bound. -/
def InputBinding.write {ε : Type} (value : Bool) : InputBinding → Netlist ε → Netlist ε
  | .gate node, net =>
    net.updateNode node fun n =>
      { n with element := .input value, outputs := n.outputs.set 0 value }
  | .pin node k, net => net.updateNode node fun n => { n with inputs := n.inputs.set k value }

/-- The signal at an output. -/
def OutputTap.read {ε : Type} (net : Netlist ε) : OutputTap → Bool
  | .gate node => net.inputAt node 0
  | .output node pin => net.outputAt node pin
  | .input node pin => net.inputAt node pin

namespace SubCircuit

variable {ε : Type}

/-- A circuit with what nested custom gates do mapped to another type. -/
def map {ε' : Type} (f : ε → ε') (sub : SubCircuit ε) : SubCircuit ε' :=
  { name := sub.name
    template := sub.template.map f
    schedule := sub.schedule
    inputs := sub.inputs
    outputs := sub.outputs }

/-- The circuit with the signals at the inputs put in, in the order of the pins. -/
def load (sub : SubCircuit ε) (inputs : List Bool) : Netlist ε :=
  (sub.inputs.zip inputs).foldl (fun net (binding, value) => binding.write value net) sub.template

/-- The text of a failure to settle. -/
def unsettled (limit : Nat) : String := s!"internal circuit did not settle within {limit} passes"

/-- The circuit at the end of an evaluation, with the warnings of its passes. -/
def simulate (sub : SubCircuit ε) (run : ε → Reaction) (instant : Instant) (inputs : List Bool) :
    Except Fault (Netlist ε × List Warning) :=
  let net := sub.load inputs
  match sub.schedule with
  | some schedule =>
    let sweep := net.immediate run schedule instant
    .ok (sweep.netlist, sweep.warnings)
  | none =>
    let s := net.settle run instant instant.settleLimit
    if s.settled then .ok (s.netlist, s.warnings)
    else .error (.custom sub.name (unsettled instant.settleLimit))

/-- The evaluation of a custom gate given by a circuit. Warnings inside become notes. -/
def evaluate (sub : SubCircuit ε) (run : ε → Reaction) : Reaction := fun instant inputs => do
  checkArity sub.inputs.length inputs
  let (net, warnings) ← sub.simulate run instant inputs
  return {
    outputs := sub.outputs.map (·.read net)
    notes := warnings.map fun w => s!"in {sub.name}, {w.text}" }

end SubCircuit

/-! ## 2. Truth tables -/

/-- A custom gate given by a truth table. For each output there is a number whose bit `m` is the
    output for the inputs of number `m`; bit `i` of that number is input `i`. -/
structure TruthTable where
  name : String
  inputCount : Nat
  columns : List Nat
  /-- why rows were left out -/
  skipped : List String
  deriving DecidableEq, Repr

namespace TruthTable

/-- The number of a list of inputs. -/
def inputNumber : List Bool → Nat
  | [] => 0
  | b :: rest => b.toNat + 2 * inputNumber rest

/-- A column with one of its bits set. -/
def putBit (column position : Nat) (value : Bool) : Nat :=
  if column.testBit position = value then column else column ^^^ (1 <<< position)

/-- Setting a bit of a column changes no other bit. -/
theorem testBit_putBit (column position : Nat) (value : Bool) (i : Nat) :
    (putBit column position value).testBit i =
      if i = position then value else column.testBit i := by
  unfold putBit
  split
  next h => split <;> simp_all
  next h =>
    rw [Nat.testBit_xor, Nat.one_shiftLeft, Nat.testBit_two_pow]
    by_cases hi : i = position
    · subst hi
      cases value <;> simp_all
    · have : ¬ position = i := fun h => hi h.symm
      simp [hi, this]

/-- Lists of inputs of the same length have different numbers. -/
theorem inputNumber_inj {a b : List Bool} (h : a.length = b.length)
    (hn : inputNumber a = inputNumber b) : a = b := by
  induction a generalizing b with
  | nil => cases b <;> simp_all
  | cons x a ih =>
    cases b with
    | nil => simp at h
    | cons y b =>
      have hlen : a.length = b.length := by simpa using h
      have hxy : x = y := by cases x <;> cases y <;> simp [inputNumber] at hn ⊢ <;> omega
      subst hxy
      rw [ih hlen (by simp only [inputNumber] at hn; omega)]

/-- The evaluation of a custom gate given by a truth table. Each evaluation repeats why rows were
    left out. -/
def evaluate (t : TruthTable) : Reaction := fun _ inputs => do
  checkArity t.inputCount inputs
  return {
    outputs := t.columns.map (·.testBit (inputNumber inputs))
    notes := t.skipped.map fun reason => s!"in {t.name}, {reason}" }

/-- A column in a message: the number of inputs, and the bits in hexadecimal, first those of the
    largest numbers. A column of less than four bits has one digit. -/
def columnText (inputCount column : Nat) : String :=
  let width := max 1 (Nat.pow 2 inputCount / 4)
  let digits := Text.hex column
  let padded := String.ofList (List.replicate (width - digits.length) '0' ++ digits)
  s!"Lut{inputCount}({padded})"

/-- A truth table in a message. -/
def text (t : TruthTable) : String :=
  "TruthTable \x7b name: " ++ Text.quoted t.name ++ s!", nb_inputs: {t.inputCount}, luts: "
    ++ Text.quotedList (t.columns.map (columnText t.inputCount))
    ++ ", skipped: " ++ Text.quotedList t.skipped ++ " \x7d"

end TruthTable

/-! ## 3. Expansions -/

/-- What is inside a custom gate. -/
inductive Expansion where
  | circuit (sub : SubCircuit Expansion)
  | table (t : TruthTable)

namespace Expansion

mutual

/-- Works an expansion out from the results for the expansions inside it. -/
def fold {α : Type} (onCircuit : SubCircuit α → α) (onTable : TruthTable → α) : Expansion → α
  | .circuit ⟨name, ⟨nodes, connections⟩, schedule, inputs, outputs⟩ =>
    onCircuit ⟨name, ⟨foldNodes onCircuit onTable nodes, connections⟩, schedule, inputs, outputs⟩
  | .table t => onTable t

/-- The results for the nodes of a circuit. -/
def foldNodes {α : Type} (onCircuit : SubCircuit α → α) (onTable : TruthTable → α) :
    List (Node Expansion) → List (Node α)
  | [] => []
  | ⟨id, element, inputs, outputs, forced⟩ :: rest =>
    ⟨id, foldElement onCircuit onTable element, inputs, outputs, forced⟩
      :: foldNodes onCircuit onTable rest

/-- The result for the element of a node. -/
def foldElement {α : Type} (onCircuit : SubCircuit α → α) (onTable : TruthTable → α) :
    Element Expansion → Element α
  | .custom e => .custom (fold onCircuit onTable e)
  | .input value => .input value
  | .output => .output
  | .reduce r => .reduce r
  | .not => .not
  | .clock m => .clock m
  | .flipFlop m => .flipFlop m
  | .latch m => .latch m
  | .mux => .mux
  | .invalid kind reason => .invalid kind reason

end

theorem foldElement_eq {α : Type} (onCircuit : SubCircuit α → α) (onTable : TruthTable → α)
    (e : Element Expansion) :
    foldElement onCircuit onTable e = e.map (fold onCircuit onTable) := by
  cases e <;> simp [foldElement, Element.map]

theorem foldNodes_eq {α : Type} (onCircuit : SubCircuit α → α) (onTable : TruthTable → α)
    (nodes : List (Node Expansion)) :
    foldNodes onCircuit onTable nodes = nodes.map (Node.map (fold onCircuit onTable)) := by
  induction nodes with
  | nil => simp [foldNodes]
  | cons n nodes ih => simp [foldNodes, ih, foldElement_eq, Node.map]

/-- **The equation of the recursion.** -/
theorem fold_circuit {α : Type} (onCircuit : SubCircuit α → α) (onTable : TruthTable → α)
    (sub : SubCircuit Expansion) :
    fold onCircuit onTable (.circuit sub) = onCircuit (sub.map (fold onCircuit onTable)) := by
  obtain ⟨name, ⟨nodes, connections⟩, schedule, inputs, outputs⟩ := sub
  simp [fold, foldNodes_eq, SubCircuit.map, Netlist.map]

@[simp] theorem fold_table {α : Type} (onCircuit : SubCircuit α → α) (onTable : TruthTable → α)
    (t : TruthTable) : fold onCircuit onTable (.table t) = onTable t := by
  simp [fold]

/-- The evaluation of a custom gate. -/
def react : Expansion → Reaction :=
  fold (fun sub => sub.evaluate id) TruthTable.evaluate

/-- The number of gates inside a custom gate, at all levels. A truth table has none. -/
def size : Expansion → Nat :=
  fold (fun sub => sub.template.expandedSize id) fun _ => 0

/-- The name of the definition. -/
def name : Expansion → String
  | .circuit sub => sub.name
  | .table t => t.name

end Expansion

end LogicSim
