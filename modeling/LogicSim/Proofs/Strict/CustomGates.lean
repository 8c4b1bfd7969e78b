import LogicSim.Proofs.Strict.Passes

/-!
# Strict custom gates

The strict counterparts of evaluating custom gates. A truth table is looked up at the number of its
inputs, which is put together by shifts within a word and has to be a row of the table; a circuit is
given its inputs at the nodes and pins that they are bound to, and read at the nodes of its outputs.

* `TruthTable.strictEvaluate_eq` -- a table of at most `maxTableInputs` inputs is looked up in bounds;
* `SubCircuit.Runnable.strictEvaluate_eq` -- so is a circuit evaluated whose bindings exist in its
  template, each time from a fresh copy of it.

`Expansion.strictReact` enters only so many levels of nested circuits.
-/

namespace LogicSim

/-! ## 1. Truth tables -/

/-- The number of bits that a word has at least. -/
def wordBits : Nat := 32

/-- A one, shifted within a word. -/
def strictShift (i : Nat) : Option Nat := if i < wordBits then some (1 <<< i) else none

namespace TruthTable

/-- The number of a list of inputs, put together by shifts. -/
def strictNumber (inputs : List Bool) : Option Nat :=
  inputs.zipIdx.foldlM
    (fun number (value, i) => if value then do return number ||| (← strictShift i) else return number)
    0

/-- The entry of a column at a row of the table. -/
def strictLookup (inputCount column row : Nat) : Option Bool :=
  if row < 2 ^ inputCount then some (column.testBit row) else none

/-- The evaluation of a custom gate given by a truth table. -/
def strictEvaluate (t : TruthTable) : StrictReaction := fun _ inputs =>
  match checkArity t.inputCount inputs with
  | .error fault => some (.error fault)
  | .ok _ => do
    let row ← strictNumber inputs
    let outputs ← t.columns.mapM fun column => strictLookup t.inputCount column row
    return .ok { outputs, notes := t.skipped.map fun reason => s!"in {t.name}, {reason}" }

theorem inputNumber_lt (inputs : List Bool) : inputNumber inputs < 2 ^ inputs.length := by
  induction inputs with
  | nil => decide
  | cons b inputs ih =>
    have hb : b.toNat < 2 := Bool.toNat_lt b
    rw [inputNumber, List.length_cons, pow_succ]
    omega

/-- **The number of a list of inputs is put together within a word.** -/
theorem strictNumber_eq {inputs : List Bool} (h : inputs.length ≤ wordBits) :
    strictNumber inputs = some (inputNumber inputs) := by
  suffices hfrom : ∀ (inputs : List Bool) (k number : Nat), k + inputs.length ≤ wordBits →
      number < 2 ^ k → (inputs.zipIdx k).foldlM
        (fun number (value, i) =>
          if value then do return number ||| (← strictShift i) else return number) number =
        some (number + 2 ^ k * inputNumber inputs) by
    rw [strictNumber, hfrom inputs 0 0 (by omega) (by decide)]
    simp
  intro inputs
  induction inputs with
  | nil => exact fun k number _ _ => rfl
  | cons b inputs ih =>
    intro k number hk hnumber
    rw [List.length_cons] at hk
    rw [List.zipIdx_cons, List.foldlM_cons]
    cases b with
    | false =>
      refine (ih (k + 1) number (by omega) (by rw [pow_succ]; omega)).trans ?_
      rw [inputNumber, pow_succ]
      simp [Nat.mul_assoc]
    | true =>
      have hshift : strictShift k = some (2 ^ k) := by
        rw [strictShift, if_pos (by omega), Nat.one_shiftLeft]
      have hor : number ||| 2 ^ k = number + 2 ^ k := by
        have := Nat.two_pow_add_eq_or_of_lt hnumber 1
        rw [Nat.mul_one] at this
        rw [Nat.or_comm, ← this, Nat.add_comm]
      simp only [if_true, hshift, Option.bind_eq_bind, Option.bind_some, Option.pure_def]
      refine (ih (k + 1) (number ||| 2 ^ k) (by omega) (by rw [hor, pow_succ]; omega)).trans ?_
      rw [hor, inputNumber, pow_succ, Bool.toNat_true, Nat.mul_add, Nat.mul_one, Nat.mul_assoc,
        Nat.add_assoc]

/-- **A table is looked up in bounds.** -/
theorem strictEvaluate_eq {t : TruthTable} (h : t.inputCount ≤ wordBits) (instant : Instant)
    (inputs : List Bool) : t.strictEvaluate instant inputs = some (t.evaluate instant inputs) := by
  rw [strictEvaluate, evaluate, checkArity]
  by_cases hlength : inputs.length = t.inputCount
  · have hrow : inputNumber inputs < 2 ^ t.inputCount := hlength ▸ inputNumber_lt inputs
    have hcolumns : t.columns.mapM
        (fun column => strictLookup t.inputCount column (inputNumber inputs)) =
        some (t.columns.map (·.testBit (inputNumber inputs))) :=
      mapM_eq_some fun column _ => if_pos hrow
    rw [if_pos hlength, strictNumber_eq (hlength.le.trans h)]
    simp only [Option.bind_eq_bind, Option.bind_some, hcolumns]
    rfl
  · rw [if_neg hlength]
    rfl

end TruthTable

/-! ## 2. Circuits inside a gate -/

variable {ε : Type}

/-- Puts a signal where an input is bound. -/
def InputBinding.strictWrite (value : Bool) (b : InputBinding) (net : Netlist ε) :
    Option (Netlist ε) :=
  match b with
  | .gate node => do
    let n ← net.nodes[node]?
    if 0 < n.outputs.length then return (InputBinding.gate node).write value net else none
  | .pin node k => do
    let n ← net.nodes[node]?
    if k < n.inputs.length then return (InputBinding.pin node k).write value net else none

/-- The signal at an output of a node that exists. A pin that the node does not have is low. -/
def OutputTap.strictRead (net : Netlist ε) : OutputTap → Option Bool
  | .gate node => do return ((← net.nodes[node]?).inputs[0]?).getD false
  | .output node pin => do return ((← net.nodes[node]?).outputs[pin]?).getD false
  | .input node pin => do return ((← net.nodes[node]?).inputs[pin]?).getD false

namespace SubCircuit

/-- A copy of the template with the signals at the inputs put in. -/
def strictLoad (sub : SubCircuit ε) (inputs : List Bool) : Option (Netlist ε) :=
  (sub.inputs.zip inputs).foldlM (fun net (binding, value) => binding.strictWrite value net)
    sub.template

/-- The circuit at the end of an evaluation. -/
def strictSimulate (sub : SubCircuit ε) (run : ε → StrictReaction) (instant : Instant)
    (inputs : List Bool) : Option (Except Fault (Netlist ε × List Warning)) := do
  let net ← sub.strictLoad inputs
  match sub.schedule with
  | some schedule =>
    let sweep ← net.strictImmediate run schedule instant
    return .ok (sweep.netlist, sweep.warnings)
  | none =>
    let s ← Settling.strictRun run instant instant.settleLimit { netlist := net }
    if s.settled then return .ok (s.netlist, s.warnings)
    else return .error (.custom sub.name (unsettled instant.settleLimit))

/-- The evaluation of a custom gate given by a circuit. -/
def strictEvaluate (sub : SubCircuit ε) (run : ε → StrictReaction) : StrictReaction :=
  fun instant inputs =>
    match checkArity sub.inputs.length inputs with
    | .error fault => some (.error fault)
    | .ok _ => do
      match ← sub.strictSimulate run instant inputs with
      | .error fault => return .error fault
      | .ok (net, warnings) =>
        let outputs ← sub.outputs.mapM (·.strictRead net)
        return .ok { outputs, notes := warnings.map fun w => s!"in {sub.name}, {w.text}" }

end SubCircuit

/-- The numbers of the input and output pins of each node. -/
def Netlist.pinCounts (net : Netlist ε) : List (Nat × Nat) :=
  net.nodes.map fun n => (n.inputs.length, n.outputs.length)

/-- Whether an input is bound to what exists. -/
def InputBinding.Within (counts : List (Nat × Nat)) : InputBinding → Prop
  | .gate node => ∃ count, counts[node]? = some count ∧ 0 < count.2
  | .pin node k => ∃ count, counts[node]? = some count ∧ k < count.1

/-- The node that an output is read at. -/
def OutputTap.node : OutputTap → Nat
  | .gate node | .output node _ | .input node _ => node

variable {strict : ε → StrictReaction} {run : ε → Reaction}

theorem Netlist.pinCounts_updateNode {net : Netlist ε} {node : Nat} {f : Node ε → Node ε}
    (hf : ∀ n, (f n).inputs.length = n.inputs.length ∧ (f n).outputs.length = n.outputs.length) :
    (net.updateNode node f).pinCounts = net.pinCounts := by
  refine List.ext_getElem? fun i => ?_
  rw [pinCounts, pinCounts, List.getElem?_map, List.getElem?_map, getElem?_updateNode]
  split
  · cases net.nodes[i]? with
    | none => rfl
    | some n => simp [hf n]
  · rfl

/-- Putting a signal in changes no number of pins. -/
theorem InputBinding.pinCounts_write (value : Bool) (b : InputBinding) (net : Netlist ε) :
    (b.write value net).pinCounts = net.pinCounts := by
  cases b with
  | gate node => exact Netlist.pinCounts_updateNode fun n => ⟨rfl, List.length_set⟩
  | pin node k => exact Netlist.pinCounts_updateNode fun n => ⟨List.length_set, rfl⟩

/-- **A signal is put in within bounds.** -/
theorem InputBinding.strictWrite_eq {b : InputBinding} {net : Netlist ε}
    (h : b.Within net.pinCounts) (value : Bool) :
    b.strictWrite value net = some (b.write value net) := by
  cases b with
  | gate node | pin node k =>
    obtain ⟨count, hcount, hlt⟩ := h
    rw [Netlist.pinCounts, List.getElem?_map] at hcount
    obtain ⟨n, hn, rfl⟩ := Option.map_eq_some_iff.mp hcount
    rw [strictWrite, hn]
    exact if_pos hlt

theorem Netlist.Runnable.write {net : Netlist ε} (h : net.Runnable strict run) (value : Bool)
    (b : InputBinding) : (b.write value net).Runnable strict run := by
  cases b with
  | gate node => exact h.updateNode fun n _ => ⟨rfl, trivial⟩
  | pin node k =>
    exact h.updateNode fun n hn => ⟨List.length_set, h.elements n (List.mem_of_getElem? hn)⟩

theorem OutputTap.strictRead_eq {t : OutputTap} {net : Netlist ε} (h : t.node < net.nodes.length) :
    t.strictRead net = some (t.read net) := by
  have hn := List.getElem?_eq_getElem h
  cases t with
  | gate node | output node pin | input node pin =>
    simp only [OutputTap.node] at hn
    simp [strictRead, read, Netlist.inputAt, Netlist.outputAt, hn]

/-- **A circuit inside a gate that can be run in bounds**: its template can be, and its schedule, the
    bindings of its inputs and the taps of its outputs fit it. -/
structure SubCircuit.Runnable (strict : ε → StrictReaction) (run : ε → Reaction)
    (sub : SubCircuit ε) : Prop where
  template : sub.template.Runnable strict run
  schedule : ∀ s, sub.schedule = some s → Dependencies.Fits s sub.template.nodes.length
  inputs : ∀ b ∈ sub.inputs, b.Within sub.template.pinCounts
  outputs : ∀ t ∈ sub.outputs, t.node < sub.template.nodes.length

namespace SubCircuit

/-- A copy of the template with inputs has its nodes. -/
theorem length_load (sub : SubCircuit ε) (inputs : List Bool) :
    (sub.load inputs).nodes.length = sub.template.nodes.length := by
  refine List.foldlRecOn (sub.inputs.zip inputs) _
    (motive := fun net : Netlist ε => net.nodes.length = sub.template.nodes.length)
    rfl fun net hnet p _ => ?_
  have hcounts := congrArg List.length (InputBinding.pinCounts_write p.2 p.1 net)
  rw [Netlist.pinCounts, Netlist.pinCounts, List.length_map, List.length_map] at hcounts
  exact hcounts.trans hnet

/-- The circuit at the end of an evaluation has the nodes of the template. -/
theorem length_simulate {sub : SubCircuit ε} {instant : Instant} {inputs : List Bool}
    {net : Netlist ε} {warnings : List Warning}
    (hnet : sub.simulate run instant inputs = .ok (net, warnings)) :
    net.nodes.length = sub.template.nodes.length := by
  refine Eq.trans (Netlist.length_of_shape ?_) (sub.length_load inputs)
  unfold simulate at hnet
  dsimp only at hnet
  split at hnet
  · cases hnet
    exact Netlist.shape_immediate ..
  · split at hnet
    · cases hnet
      exact Settling.shape_run ..
    · cases hnet

end SubCircuit

namespace SubCircuit.Runnable

variable {sub : SubCircuit ε} (h : sub.Runnable strict run)
include h

/-- **Every copy of the template takes the inputs where the template does.** -/
theorem strictLoad_eq (inputs : List Bool) : sub.strictLoad inputs = some (sub.load inputs) :=
  foldlM_eq_some (P := fun net => net.pinCounts = sub.template.pinCounts)
    (fun net hnet p hp => by
      have hbinding := h.inputs p.1 (List.of_mem_zip hp).1
      exact ⟨InputBinding.strictWrite_eq (hnet ▸ hbinding) p.2,
        (InputBinding.pinCounts_write ..).trans hnet⟩)
    rfl

theorem load (inputs : List Bool) : (sub.load inputs).Runnable strict run :=
  List.foldlRecOn (sub.inputs.zip inputs) _
    (motive := fun net : Netlist ε => net.Runnable strict run) h.template
    fun _ hnet p _ => hnet.write p.2 p.1

theorem strictSimulate_eq (instant : Instant) (inputs : List Bool) :
    sub.strictSimulate strict instant inputs = some (sub.simulate run instant inputs) := by
  have hnet := h.load inputs
  rw [SubCircuit.strictSimulate, SubCircuit.simulate, h.strictLoad_eq inputs]
  simp only [Option.bind_eq_bind, Option.bind_some]
  cases hschedule : sub.schedule with
  | some schedule =>
    have hfits : Dependencies.Fits schedule (sub.load inputs).nodes.length :=
      sub.length_load inputs ▸ h.schedule schedule hschedule
    simp only [hnet.strictImmediate_eq hfits]
    rfl
  | none =>
    simp only [Settling.strictRun_eq (s := { netlist := sub.load inputs }) instant _ hnet,
      Option.bind_some]
    unfold Netlist.settle
    split <;> rfl

/-- **A circuit inside a gate is evaluated in bounds.** -/
theorem strictEvaluate_eq (instant : Instant) (inputs : List Bool) :
    sub.strictEvaluate strict instant inputs = some (sub.evaluate run instant inputs) := by
  rw [SubCircuit.strictEvaluate, SubCircuit.evaluate]
  cases checkArity sub.inputs.length inputs with
  | error fault => rfl
  | ok _ =>
    simp only [h.strictSimulate_eq instant inputs, Option.bind_eq_bind, Option.bind_some]
    cases hsimulate : sub.simulate run instant inputs with
    | error fault => rfl
    | ok result =>
      obtain ⟨net, warnings⟩ := result
      have houtputs : sub.outputs.mapM (·.strictRead net) = some (sub.outputs.map (·.read net)) :=
        mapM_eq_some fun t ht =>
          OutputTap.strictRead_eq ((length_simulate hsimulate).symm ▸ h.outputs t ht)
      simp only [houtputs]
      rfl

end SubCircuit.Runnable

/-! ## 3. Nested circuits -/

/-- The evaluation of a custom gate. Circuits nested deeper than so many levels are not entered. -/
def Expansion.strictReact : Nat → Expansion → StrictReaction
  | 0, _ => fun _ _ => none
  | levels + 1, .circuit sub => sub.strictEvaluate (strictReact levels)
  | _ + 1, .table t => t.strictEvaluate

end LogicSim
