import LogicSim.Proofs.Netlist.Loading
import LogicSim.Proofs.Strict.CustomGates

/-!
# Strict compilation

The strict counterparts of checking a circuit, of building its netlist and of making definitions
ready. Besides positions they guard the arithmetic of signed pin indices: a number has to fit the
width in which it is computed, and what becomes a position must not be negative.

* `Circuit.strictCheck_eq` -- any circuit is checked in bounds;
* `Definition.strictCompile_eq` -- any definition is compiled in bounds, to any depth;
* `Definition.strictReact_eq` -- what comes of it stays in bounds whenever it is evaluated;
* `Circuit.strictNetlist_eq`, `Circuit.runnable_netlist` -- so does the netlist of any circuit.

A computation that can also fail in the ordinary way is in `ExceptT` over `Option`; `inBounds` embeds
the outcomes that are reached.
-/

namespace LogicSim

/-! ## 1. Outcomes in bounds -/

section Outcomes

variable {φ α β : Type}

/-- An outcome that is reached in bounds. -/
def inBounds (x : Except φ α) : ExceptT φ Option α := ExceptT.mk (some x)

@[simp] theorem run_inBounds (x : Except φ α) : (inBounds x).run = some x := rfl

@[simp] theorem liftM_some (a : α) : (liftM (some a) : ExceptT φ Option α) = pure a := rfl

/-- **One step after another is in bounds**, where the second one has to be only if the first one
    succeeds. -/
theorem inBounds_bind {x : Except φ α} {f : α → ExceptT φ Option β} {g : α → Except φ β}
    (h : ∀ a, x = .ok a → f a = inBounds (g a)) : inBounds x >>= f = inBounds (x >>= g) := by
  cases x with
  | error e => rfl
  | ok a => exact h a rfl

/-- A list of steps in bounds, up to the first that fails. -/
theorem inBounds_mapM {f : α → ExceptT φ Option β} {g : α → Except φ β} {l : List α}
    (h : ∀ a ∈ l, f a = inBounds (g a)) : l.mapM f = inBounds (l.mapM g) := by
  induction l with
  | nil => rfl
  | cons a l ih =>
    rw [List.mapM_cons, List.mapM_cons, h a List.mem_cons_self,
      ih fun x hx => h x (List.mem_cons_of_mem a hx)]
    exact inBounds_bind fun b _ => inBounds_bind fun bs _ => rfl

end Outcomes

/-! ## 2. Pin indices -/

/-- A number computed in so many bits, with a sign. -/
def strictInt (bits : Nat) (x : Int) : Option Int :=
  if -2 ^ (bits - 1) ≤ x ∧ x < 2 ^ (bits - 1) then some x else none

/-- A number taken for a position. -/
def strictNat (x : Int) : Option Nat := if 0 ≤ x then some x.toNat else none

/-- The output pin that a source denotes, computed in 32 bits. -/
def Endpoint.strictOutputPin (e : Endpoint) : Option Nat :=
  if e.index < 0 then do
    let next ← strictInt 32 (e.index.toInt + 1)
    strictNat (← strictInt 32 (-next))
  else strictNat e.index.toInt

theorem strictInt_eq {bits : Nat} {x : Int} (hlow : -2 ^ (bits - 1) ≤ x) (hhigh : x < 2 ^ (bits - 1)) :
    strictInt bits x = some x := if_pos ⟨hlow, hhigh⟩

theorem strictNat_eq {x : Int} (h : 0 ≤ x) : strictNat x = some x.toNat := if_pos h

theorem toInt_neg_of_lt {i : Int32} (h : i < 0) : i.toInt < 0 := Int32.lt_iff_toInt_lt.mp h

theorem toInt_nonneg_of_not_lt {i : Int32} (h : ¬ i < 0) : 0 ≤ i.toInt :=
  Int.not_lt.mp fun hi => h (Int32.lt_iff_toInt_lt.mpr hi)

/-- **The output pin of a source is found within 32 bits**: the least index is not negated before one
    has been added to it. -/
theorem Endpoint.strictOutputPin_eq (e : Endpoint) : e.strictOutputPin = some e.outputPin := by
  have hlow := e.index.le_toInt
  rw [strictOutputPin, outputPin]
  split
  next h =>
    have hneg := toInt_neg_of_lt h
    rw [strictInt_eq (by omega) (by omega), Option.bind_eq_bind, Option.bind_some,
      strictInt_eq (by omega) (by omega), Option.bind_some]
    exact strictNat_eq (by omega)
  next h => exact strictNat_eq (toInt_nonneg_of_not_lt h)

example : strictInt 32 (-(-2 ^ 31)) = none := by decide

/-! ## 3. Structural validity -/

namespace Circuit

/-- The problem of a source pin, if the gate exists. -/
def strictSourceProblems (c : Circuit Definition) (w : Wire) : Option (List Problem) :=
  match c.lookup w.source.gate with
  | none => some []
  | some g => do
    let pin ← w.source.strictOutputPin
    return if pin < g.outputCount then [] else [.invalidWire w.id s!"{g.id} has no output pin {pin}"]

/-- The problems of one wire. -/
def strictWireProblems (c : Circuit Definition) (earlier : List Wire) (w : Wire) :
    Option (List Problem) := do
  return (if earlier.any (·.id = w.id) then [.invalidWire w.id "duplicate wire id"] else [])
    ++ c.danglingProblems w w.source ++ c.danglingProblems w w.sink
    ++ (← c.strictSourceProblems w) ++ c.sinkProblems earlier w

/-- The problems of wires that come after the wires `earlier`. -/
def strictWiresProblems (c : Circuit Definition) (earlier : List Wire) :
    List Wire → Option (List Problem)
  | [] => some []
  | w :: rest => do
    return (← c.strictWireProblems earlier w) ++ (← c.strictWiresProblems (w :: earlier) rest)

/-- Every structural problem of a circuit. -/
def strictCheck (c : Circuit Definition) : Option (List Problem) := do
  return gateProblems [] c.gates ++ (← c.strictWiresProblems [] c.wires)

theorem strictWireProblems_eq (c : Circuit Definition) (earlier : List Wire) (w : Wire) :
    c.strictWireProblems earlier w = some (c.wireProblems earlier w) := by
  have hsource : c.strictSourceProblems w = some (c.sourceProblems w) := by
    rw [strictSourceProblems, sourceProblems]
    cases c.lookup w.source.gate with
    | none => rfl
    | some g =>
      dsimp only
      rw [w.source.strictOutputPin_eq]
      rfl
  rw [strictWireProblems, hsource]
  rfl

/-- **Any circuit is checked in bounds.** -/
theorem strictCheck_eq (c : Circuit Definition) : c.strictCheck = some c.check := by
  have hwires : ∀ earlier wires,
      c.strictWiresProblems earlier wires = some (c.wiresProblems earlier wires) := by
    intro earlier wires
    induction wires generalizing earlier with
    | nil => rfl
    | cons w rest ih =>
      rw [strictWiresProblems, c.strictWireProblems_eq, ih]
      rfl
  rw [strictCheck, hwires]
  rfl

end Circuit

/-! ## 4. Building a netlist -/

variable {ε : Type}

/-- The element of a gate. Only the definition of a custom gate is compiled. -/
def Element.strictOfGate (compile : Definition → ExceptT String Option ε) (g : Gate Definition) :
    Option (Element ε) :=
  match g.kind, g.metadata.definition with
  | .custom, some d => do
    match ← (compile d).run with
    | .ok e => return .custom e
    | .error reason => return .invalid .custom reason
  | _, _ => some (Element.ofGate (fun _ => .error "") g)

/-- The node of a gate. -/
def Node.strictOfGate (compile : Definition → ExceptT String Option ε) (g : Gate Definition) :
    Option (Node ε) := do
  let element ← Element.strictOfGate compile g
  return {
    id := g.id
    element
    inputs := Signal.resize g.inputs g.inputCount
    outputs := element.startOutputs g }

/-- The connection of a wire, with its number. A wire with an end that does not exist has none. -/
def Connection.strictOfWire (nodes : List (Node ε)) (w : Wire) (number : Nat) :
    Option (Option Connection) :=
  match nodes.findIdx? (·.id = w.source.gate), nodes.findIdx? (·.id = w.sink.gate),
    w.sink.inputPin? with
  | some source, some sink, some sinkPin => do
    return some { wire := number, source, sourcePin := ← w.source.strictOutputPin, sink, sinkPin }
  | _, _, _ => some none

namespace Netlist

/-- The netlist of a circuit, with the connections entered into the table of drivers. -/
def strictAssemble (compile : Definition → ExceptT String Option ε) (c : Circuit Definition) :
    Option (Netlist ε) := do
  let nodes ← c.gates.mapM (Node.strictOfGate compile)
  let connections ← c.wires.zipIdx.mapM fun (w, number) => Connection.strictOfWire nodes w number
  let net : Netlist ε := { nodes, connections := connections.filterMap id }
  let _ ← net.strictDriverTable
  return net

/-- The netlist of a valid circuit, or all structural problems of an invalid one. -/
def strictOfCircuit (compile : Definition → ExceptT String Option ε) (c : Circuit Definition) :
    ExceptT (List Problem) Option (Netlist ε) := do
  match ← c.strictCheck with
  | [] => return ← strictAssemble compile c
  | problems => throw problems

end Netlist

section Building

variable {strict : Definition → ExceptT String Option ε} {compile : Definition → Except String ε}
  (h : ∀ d, strict d = inBounds (compile d))
include h

theorem Node.strictOfGate_eq (g : Gate Definition) :
    strictOfGate strict g = some (ofGate compile g) := by
  have helement : Element.strictOfGate strict g = some (Element.ofGate compile g) := by
    rw [Element.strictOfGate, Element.ofGate, Element.ofGate]
    cases g.kind with
    | custom =>
      cases g.metadata.definition with
      | none => rfl
      | some d =>
        dsimp only
        rw [h d]
        cases compile d <;> rfl
    | _ => rfl
  rw [strictOfGate, helement]
  rfl

omit h in
theorem Connection.strictOfWire_eq (nodes : List (Node ε)) (w : Wire) (number : Nat) :
    strictOfWire nodes w number = some (ofWire? nodes w number) := by
  rw [strictOfWire, ofWire?]
  cases nodes.findIdx? (·.id = w.source.gate) with
  | none => rfl
  | some source =>
    cases nodes.findIdx? (·.id = w.sink.gate) with
    | none => rfl
    | some sink =>
      cases w.sink.inputPin? with
      | none => rfl
      | some sinkPin =>
        dsimp only
        rw [w.source.strictOutputPin_eq]
        rfl

/-- **The netlist of a valid circuit is built in bounds.** -/
theorem Netlist.strictAssemble_eq {c : Circuit Definition} (hc : c.Valid) :
    strictAssemble strict c = some (assemble compile c) := by
  have hnodes : c.gates.mapM (Node.strictOfGate strict) = some (c.gates.map (Node.ofGate compile)) :=
    mapM_eq_some fun g _ => Node.strictOfGate_eq h g
  have hconnections := mapM_eq_some (l := c.wires.zipIdx) fun p _ =>
    Connection.strictOfWire_eq (c.gates.map (Node.ofGate compile)) p.1 p.2
  have hfilter : (c.wires.zipIdx.map fun p => Connection.ofWire?
      (c.gates.map (Node.ofGate compile)) p.1 p.2).filterMap id = (assemble compile c).connections := by
    rw [List.filterMap_map]
    rfl
  have hwell : (assemble compile c).WellFormed := wellFormed_assemble hc
  rw [strictAssemble, hnodes]
  simp only [Option.bind_eq_bind, Option.bind_some, hconnections, hfilter]
  have htable : strictDriverTable
      ⟨c.gates.map (Node.ofGate compile), (assemble compile c).connections⟩ = some _ :=
    hwell.strictDriverTable_eq
  rw [htable]
  rfl

/-- **Any circuit is checked and built in bounds.** -/
theorem Netlist.strictOfCircuit_eq (c : Circuit Definition) :
    strictOfCircuit strict c = inBounds (ofCircuit compile c) := by
  rw [strictOfCircuit, ofCircuit, c.strictCheck_eq, liftM_some, pure_bind]
  cases hcheck : c.check with
  | nil =>
    dsimp only
    rw [strictAssemble_eq h (Circuit.check_eq_nil_iff.mp hcheck)]
    rfl
  | cons problem problems => rfl

end Building

/-! ## 5. Making definitions ready -/

namespace Definition

/-- The node a pin is bound to. -/
def strictBoundNode (d : Definition) (net : Netlist ε) (p : Pin) :
    ExceptT String Option (Nat × Node ε) :=
  match p.gate with
  | none => throw s!"pin {p.name} of {d.name} is not bound"
  | some id =>
    match net.index? id with
    | none => throw s!"pin {p.name} of {d.name} is bound to unknown gate {id}"
    | some i => do
      let n ← (net.nodes[i]? : Option (Node ε))
      return (i, n)

/-- The binding of an input pin. -/
def strictBindInput (d : Definition) (net : Netlist ε) (p : Pin) :
    ExceptT String Option InputBinding := do
  let (i, n) ← d.strictBoundNode net p
  match n.element with
  | .input _ => return .gate i
  | _ =>
    let pin ← strictNat (max p.index.toInt 0)
    if pin < n.inputs.length then return .pin i pin else throw (d.missingPin p)

/-- The tap of an output pin. A negative index is turned into a pin in 64 bits. -/
def strictTapOutput (d : Definition) (net : Netlist ε) (p : Pin) :
    ExceptT String Option OutputTap := do
  let (i, n) ← d.strictBoundNode net p
  if n.element.kind = .output then return .gate i
  else if p.index < 0 then
    let negated ← strictInt 64 (-p.index.toInt)
    let shifted ← strictInt 64 (negated - 1)
    let pin ← strictNat shifted
    if pin < n.outputs.length then return .output i pin else throw (d.missingPin p)
  else
    let pin ← strictNat p.index.toInt
    if pin < n.inputs.length then return .input i pin else throw (d.missingPin p)

/-- The expansion of a definition whose circuit has the given netlist. -/
def strictLinkCircuit (d : Definition) (net : Netlist ε) : ExceptT String Option (SubCircuit ε) := do
  let inputs ← d.inputs.mapM (d.strictBindInput net)
  let outputs ← d.outputs.mapM (d.strictTapOutput net)
  let dependencies ← net.strictDependencies
  let schedule ← dependencies.strictSchedule
  return { name := d.name, template := net, schedule := schedule.toOption, inputs, outputs }

/-- A column with one of its bits set, which is a row of the table. -/
def strictPutBit (inputCount column row : Nat) (value : Bool) : Option Nat :=
  if row < 2 ^ inputCount then some (TruthTable.putBit column row value) else none

/-- A table with one more row, or with the reason why the row is left out. -/
def strictAddRow (inputCount outputCount : Nat) (t : TruthTable) (row : String × String) :
    Option TruthTable :=
  match pattern? inputCount row.1, pattern? outputCount row.2 with
  | some inputs, some outputs => do
    let number ← TruthTable.strictNumber inputs
    let columns ← (t.columns.zip outputs).mapM fun (column, value) =>
      strictPutBit inputCount column number value
    return { t with columns }
  | _, _ => some (addRow inputCount outputCount t row)

/-- The expansion of a definition with the given rows. -/
def strictLinkTable (d : Definition) (rows : Rows) : ExceptT String Option TruthTable :=
  let inputCount := d.inputs.length
  let outputCount := d.outputs.length
  if inputCount > maxTableInputs then
    throw <| s!"truth table of {d.name} has {inputCount} inputs, "
      ++ s!"at most {maxTableInputs} are supported"
  else
    (rows.foldlM (strictAddRow inputCount outputCount)
      { name := d.name, inputCount, columns := List.replicate outputCount 0, skipped := [] } :
        Option TruthTable)

/-- Compiles a definition when `levels` more levels are allowed, of `deepest` in all. -/
def strictCompile (deepest : Nat) : (levels : Nat) → Definition → ExceptT String Option Expansion
  | 0, _ => throw s!"custom gates nested deeper than {deepest}"
  | levels + 1, d =>
    match d.body.circuit, d.body.rows with
    | some c, _ => do
      match ← (Netlist.strictOfCircuit (strictCompile deepest levels) c).run with
      | .error problems => throw s!"invalid internal circuit in {d.name}: {Problem.texts problems}"
      | .ok net => return .circuit (← d.strictLinkCircuit net)
    | none, some rows => return .table (← d.strictLinkTable rows)
    | none, none => throw s!"{d.name} has neither an internal circuit nor a truth table"

variable {d : Definition} {net : Netlist ε}

theorem strictBoundNode_eq (d : Definition) (net : Netlist ε) (p : Pin) :
    d.strictBoundNode net p = inBounds (d.boundNode net p) := by
  rw [strictBoundNode, boundNode]
  cases p.gate with
  | none => rfl
  | some id =>
    dsimp only
    cases hi : net.index? id with
    | none => rfl
    | some i =>
      have hlt : i < net.nodes.length := (List.findIdx?_eq_some_iff_findIdx_eq.mp hi).1
      dsimp only
      rw [List.getElem?_eq_getElem hlt]
      rfl

theorem strictBindInput_eq (d : Definition) (net : Netlist ε) (p : Pin) :
    d.strictBindInput net p = inBounds (d.bindInput net p) := by
  rw [strictBindInput, bindInput, strictBoundNode_eq]
  refine inBounds_bind fun bound _ => ?_
  obtain ⟨i, n⟩ := bound
  have hpin : strictNat (max p.index.toInt 0) = some p.index.toInt.toNat := by
    rw [strictNat_eq (by omega)]
    congr 1
    omega
  dsimp only
  rw [hpin]
  cases n.element with
  | input value => rfl
  | _ =>
    dsimp only [liftM_some]
    rw [pure_bind]
    split <;> rfl

theorem strictTapOutput_eq (d : Definition) (net : Netlist ε) (p : Pin) :
    d.strictTapOutput net p = inBounds (d.tapOutput net p) := by
  rw [strictTapOutput, tapOutput, strictBoundNode_eq]
  refine inBounds_bind fun bound _ => ?_
  obtain ⟨i, n⟩ := bound
  have hlow := p.index.le_toInt
  dsimp only
  split
  · rfl
  · split
    next hneg =>
      have hneg := toInt_neg_of_lt hneg
      have hpin : (-p.index.toInt - 1).toNat = (-(p.index.toInt + 1)).toNat := by omega
      rw [strictInt_eq (by omega) (by omega), liftM_some, pure_bind,
        strictInt_eq (by omega) (by omega), liftM_some, pure_bind, strictNat_eq (by omega), hpin,
        liftM_some, pure_bind]
      split <;> rfl
    next hneg =>
      rw [strictNat_eq (toInt_nonneg_of_not_lt hneg), liftM_some, pure_bind]
      split <;> rfl

/-- **A circuit is linked in bounds**, whatever its pins are bound to. -/
theorem strictLinkCircuit_eq (d : Definition) (h : net.WellFormed) :
    d.strictLinkCircuit net = inBounds (d.linkCircuit net) := by
  obtain ⟨hdependencies, hbounded⟩ := h.strictDependencies_eq
  rw [strictLinkCircuit, linkCircuit, inBounds_mapM fun p _ => d.strictBindInput_eq net p]
  refine inBounds_bind fun inputs _ => ?_
  rw [inBounds_mapM fun p _ => d.strictTapOutput_eq net p]
  refine inBounds_bind fun outputs _ => ?_
  rw [hdependencies, liftM_some, pure_bind, hbounded.strictSchedule_eq]
  rfl

theorem strictAddRow_eq {inputCount : Nat} (h : inputCount ≤ wordBits) (outputCount : Nat)
    (t : TruthTable) (row : String × String) :
    strictAddRow inputCount outputCount t row = some (addRow inputCount outputCount t row) := by
  rw [strictAddRow]
  cases hinputs : pattern? inputCount row.1 with
  | none => rfl
  | some inputs =>
    cases houtputs : pattern? outputCount row.2 with
    | none => rfl
    | some outputs =>
      have hlength : inputs.length = inputCount := by
        have := (Option.filter_eq_some_iff.mp hinputs).2
        simpa using this
      have hrow : TruthTable.inputNumber inputs < 2 ^ inputCount :=
        hlength ▸ TruthTable.inputNumber_lt inputs
      have hcolumns : (t.columns.zip outputs).mapM (fun (column, value) =>
          strictPutBit inputCount column (TruthTable.inputNumber inputs) value) =
          some ((t.columns.zip outputs).map fun (column, value) =>
            TruthTable.putBit column (TruthTable.inputNumber inputs) value) :=
        mapM_eq_some fun p _ => if_pos hrow
      dsimp only
      rw [TruthTable.strictNumber_eq (hlength.le.trans h)]
      simp only [Option.bind_eq_bind, Option.bind_some, hcolumns]
      rw [addRow, hinputs, houtputs, List.zip_eq_zipWith, List.map_zipWith]
      rfl

/-- A row changes neither the name nor the number of inputs of a table. -/
theorem inputCount_addRow (inputCount outputCount : Nat) (t : TruthTable) (row : String × String) :
    (addRow inputCount outputCount t row).inputCount = t.inputCount := by
  unfold addRow
  split <;> rfl

/-- **A truth table is filled in bounds.** -/
theorem strictLinkTable_eq (d : Definition) (rows : Rows) :
    d.strictLinkTable rows = inBounds (d.linkTable rows) := by
  rw [strictLinkTable, linkTable]
  split
  · rfl
  next h =>
    have hcount : d.inputs.length ≤ wordBits := (Nat.le_of_not_lt h).trans (by decide)
    rw [foldlM_eq_some (P := fun _ => True) fun t _ row _ =>
      ⟨strictAddRow_eq hcount d.outputs.length t row, trivial⟩]
    · rfl
    · trivial

/-- **Any definition is compiled in bounds**, however deep definitions nest in it. -/
theorem strictCompile_eq (deepest levels : Nat) (d : Definition) :
    d.strictCompile deepest levels = inBounds (d.compile deepest levels) := by
  -- the levels left go down with the definitions inside
  induction levels generalizing d with
  | zero => rfl
  | succ levels ih =>
    rw [strictCompile, compile]
    cases d.body.circuit with
    | none =>
      cases d.body.rows with
      | none => rfl
      | some rows =>
        dsimp only
        rw [strictLinkTable_eq]
        cases d.linkTable rows <;> rfl
    | some c =>
      dsimp only
      rw [Netlist.strictOfCircuit_eq ih, run_inBounds, liftM_some, pure_bind]
      cases hnet : Netlist.ofCircuit (compile deepest levels) c with
      | error problems => rfl
      | ok net =>
        obtain ⟨hvalid, rfl⟩ := Netlist.valid_of_ofCircuit hnet
        dsimp only
        rw [strictLinkCircuit_eq d (Netlist.wellFormed_assemble hvalid)]
        cases d.linkCircuit (Netlist.assemble (compile deepest levels) c) <;> rfl

/-! ## 6. What comes of a definition -/

/-- The node that a pin is bound to exists. -/
theorem getElem?_of_boundNode {p : Pin} {i : Nat} {n : Node ε}
    (h : d.boundNode net p = .ok (i, n)) : net.nodes[i]? = some n := by
  unfold boundNode at h
  split at h
  · cases h
  · split at h
    · cases h
    · split at h
      · cases h
      next hn =>
        cases h
        exact hn

/-- **An input is bound to what exists**, if every input gate has an output. -/
theorem within_bindInput {p : Pin} {b : InputBinding} (hb : d.bindInput net p = .ok b)
    (hinputs : ∀ n ∈ net.nodes, ∀ value, n.element = .input value → n.outputs ≠ []) :
    b.Within net.pinCounts := by
  obtain ⟨⟨i, n⟩, hbound, hb⟩ := exists_of_bind hb
  have hn := getElem?_of_boundNode hbound
  have hcount : net.pinCounts[i]? = some (n.inputs.length, n.outputs.length) := by
    rw [Netlist.pinCounts, List.getElem?_map, hn]
    rfl
  dsimp only at hb
  split at hb
  next value helement =>
    cases hb
    have hne := hinputs n (List.mem_of_getElem? hn) value helement
    exact ⟨_, hcount, List.length_pos_iff.mpr hne⟩
  next =>
    split at hb
    next hlt =>
      cases hb
      exact ⟨_, hcount, hlt⟩
    next => cases hb

/-- **An output is read at a node that exists.** -/
theorem node_tapOutput_lt {p : Pin} {t : OutputTap} (ht : d.tapOutput net p = .ok t) :
    t.node < net.nodes.length := by
  obtain ⟨⟨i, n⟩, hbound, ht⟩ := exists_of_bind ht
  have hlt := (List.getElem?_eq_some_iff.mp (getElem?_of_boundNode hbound)).1
  dsimp only at ht
  split at ht
  · cases ht
    exact hlt
  · split at ht <;> split at ht <;> cases ht <;> exact hlt

/-- **A circuit that was linked can be run in bounds**, if its netlist can be. -/
theorem runnable_linkCircuit {strict : ε → StrictReaction} {run : ε → Reaction} {sub : SubCircuit ε}
    (hlink : d.linkCircuit net = .ok sub) (hnet : net.Runnable strict run)
    (hinputs : ∀ n ∈ net.nodes, ∀ value, n.element = .input value → n.outputs ≠ []) :
    sub.Runnable strict run := by
  obtain ⟨htemplate, hschedule, hbind, htap, -⟩ := linkCircuit_eq_ok hlink
  have hbounded := hnet.wellFormed.strictDependencies_eq.2
  refine ⟨htemplate ▸ hnet, fun s hs => ?_, fun b hb => ?_, fun t ht => ?_⟩
  · rw [hschedule] at hs
    rw [htemplate, ← Netlist.size_dependencies]
    cases hd : net.dependencies.schedule with
    | error cycle =>
      rw [hd] at hs
      cases hs
    | ok schedule =>
      rw [hd] at hs
      obtain rfl := Option.some.inj hs
      exact hbounded.fits hd
  · obtain ⟨p, -, hp⟩ := exists_of_mem_mapM hbind hb
    exact htemplate ▸ within_bindInput hp hinputs
  · obtain ⟨p, -, hp⟩ := exists_of_mem_mapM htap ht
    exact htemplate ▸ node_tapOutput_lt hp

/-- The number of inputs of a table is small. -/
theorem inputCount_le_of_linkTable {rows : Rows} {t : TruthTable} (h : d.linkTable rows = .ok t) :
    t.inputCount ≤ wordBits := by
  unfold linkTable at h
  dsimp only at h
  split at h
  · cases h
  next hle =>
    obtain rfl := Except.ok.inj h
    refine (List.foldlRecOn rows _ (motive := fun t : TruthTable => t.inputCount = d.inputs.length)
      rfl fun t ht row _ => (inputCount_addRow ..).trans ht).le.trans ?_
    exact (Nat.le_of_not_lt hle).trans (by decide)

end Definition

namespace Netlist

/-- An input gate in a netlist has an output. -/
theorem outputs_ne_nil_of_assemble {compile : Definition → Except String ε} {c : Circuit Definition}
    {n : Node ε} (hn : n ∈ (assemble compile c).nodes) {value : Bool}
    (helement : n.element = .input value) : n.outputs ≠ [] := by
  obtain ⟨g, -, rfl⟩ := List.mem_map.mp hn
  have houtputs : (Node.ofGate compile g).outputs = [value] :=
    congrArg (fun e : Element ε => e.startOutputs g) helement
  rw [houtputs]
  exact List.cons_ne_nil _ _

/-- **The netlist of a valid circuit can be run in bounds**, if what comes of definitions is evaluated
    so. -/
theorem runnable_assemble {strict : ε → StrictReaction} {run : ε → Reaction}
    {compile : Definition → Except String ε} {c : Circuit Definition} (hc : c.Valid)
    (hcompile : ∀ d x, compile d = .ok x → ∀ instant inputs,
      strict x instant inputs = some (run x instant inputs)) :
    (assemble compile c).Runnable strict run := by
  refine ⟨wellFormed_assemble hc, fun n hn => ?_⟩
  obtain ⟨g, -, rfl⟩ := List.mem_map.mp hn
  rw [Node.element_ofGate]
  cases he : Element.ofGate compile g with
  | custom x =>
    obtain ⟨-, d, -, hd⟩ := Element.ofGate_eq_custom_iff.mp he
    exact hcompile d x hd
  | _ => trivial

end Netlist

/-- **What comes of a definition is evaluated in bounds**, at any time, on any inputs, and whatever
    the number of passes allowed. -/
theorem Definition.strictReact_eq {deepest levels : Nat} {d : Definition} {x : Expansion}
    (hcompile : d.compile deepest levels = .ok x) (instant : Instant) (inputs : List Bool) :
    x.strictReact levels instant inputs = some (x.react instant inputs) := by
  refine compile_induction (P := fun levels _ x => ∀ instant inputs,
    x.strictReact levels instant inputs = some (x.react instant inputs)) ?_ ?_ hcompile instant inputs
  · intro levels d rows t _ htable instant inputs
    rw [Expansion.react, Expansion.fold_table]
    exact TruthTable.strictEvaluate_eq (inputCount_le_of_linkTable htable) instant inputs
  · intro levels d inner sub _ hvalid hlink ih instant inputs
    have hnet : (Netlist.assemble (compile deepest levels) inner).Runnable
        (Expansion.strictReact levels) Expansion.react :=
      Netlist.runnable_assemble hvalid ih
    rw [Expansion.react_circuit]
    exact (runnable_linkCircuit hlink hnet fun n hn value helement =>
      Netlist.outputs_ne_nil_of_assemble hn helement).strictEvaluate_eq instant inputs

/-! ## 7. Circuits -/

/-- The netlist of a circuit whose custom gates may nest to a depth. -/
def Circuit.strictNetlist (deepest : Nat) (c : Circuit Definition) :
    ExceptT (List Problem) Option (Netlist Expansion) :=
  Netlist.strictOfCircuit (Definition.strictCompile deepest deepest) c

/-- **The netlist of any circuit is built in bounds.** -/
theorem Circuit.strictNetlist_eq (deepest : Nat) (c : Circuit Definition) :
    c.strictNetlist deepest = inBounds (c.netlist deepest) :=
  Netlist.strictOfCircuit_eq (Definition.strictCompile_eq deepest deepest) c

/-- **The netlist of a circuit can be run in bounds.** -/
theorem Circuit.runnable_netlist {deepest : Nat} {c : Circuit Definition} {net : Netlist Expansion}
    (h : c.netlist deepest = .ok net) :
    net.Runnable (Expansion.strictReact deepest) Expansion.react := by
  obtain ⟨hc, rfl⟩ := Netlist.valid_of_ofCircuit h
  exact Netlist.runnable_assemble hc fun d x hx => Definition.strictReact_eq hx

end LogicSim
