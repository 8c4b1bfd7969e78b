import LogicSim.Proofs.Nesting.Levels
import LogicSim.Proofs.Netlist.Equations
import LogicSim.Proofs.Netlist.Mapping

/-!
# The circuit inside a custom gate

`Definition.linkCircuit` binds the pins of a custom gate to nodes of the circuit inside. For a
definition by a circuit of plain gates (`Definition.Transparent`), each input becomes the signal of an
input gate, and each output shows the signal of an output pin, its `Pin.origin`.

* `Definition.linkCircuit_eq_ok`, `Definition.compile_eq_ok` -- the parts of a compiled definition;
* `Definition.Transparent.has_load` -- putting the inputs in changes the bound input gates only;
* `Definition.Transparent.answers` -- what the gate answers, in terms of the equations inside.
-/

namespace LogicSim

variable {ε : Type} {run : ε → Reaction} {instant : Instant}

/-! ## 1. Bindings -/

/-- The two steps of what succeeds. -/
theorem exists_of_bind {φ α β : Type} {x : Except φ α} {f : α → Except φ β} {b : β}
    (h : x >>= f = .ok b) : ∃ a, x = .ok a ∧ f a = .ok b := by
  cases x with
  | error e => cases h
  | ok a => exact ⟨a, rfl, h⟩

/-- A list that was mapped with success, position by position. -/
theorem getElem?_of_mapM_ok {α β : Type} {f : α → Except String β} {l : List α} {l' : List β}
    (h : l.mapM f = .ok l') : l'.length = l.length ∧
      ∀ {k : Nat} {a : α}, l[k]? = some a → ∃ b, l'[k]? = some b ∧ f a = .ok b := by
  induction l generalizing l' with
  | nil =>
    obtain rfl : [] = l' := Except.ok.inj h
    exact ⟨rfl, fun h => by cases h⟩
  | cons a l ih =>
    rw [List.mapM_cons] at h
    obtain ⟨b, hb, h⟩ := exists_of_bind h
    obtain ⟨rest, hrest, h⟩ := exists_of_bind h
    obtain rfl : b :: rest = l' := Except.ok.inj h
    obtain ⟨hlength, hget⟩ := ih hrest
    refine ⟨by rw [List.length_cons, List.length_cons, hlength], ?_⟩
    intro k x hx
    cases k with
    | zero =>
      obtain rfl : a = x := Option.some.inj hx
      exact ⟨b, rfl, hb⟩
    | succ k => exact hget hx

/-- What is in a list that was mapped with success comes of some entry. -/
theorem exists_of_mem_mapM {α β : Type} {f : α → Except String β} {l : List α} {l' : List β}
    (h : l.mapM f = .ok l') {b : β} (hb : b ∈ l') : ∃ a ∈ l, f a = .ok b := by
  obtain ⟨hlength, hget⟩ := getElem?_of_mapM_ok h
  obtain ⟨k, hk⟩ := List.getElem?_of_mem hb
  have hlt : k < l.length := hlength ▸ (List.getElem?_eq_some_iff.mp hk).1
  obtain ⟨b', hb', ha⟩ := hget (List.getElem?_eq_getElem hlt)
  obtain rfl : b = b' := Option.some.inj (hk.symm.trans hb')
  exact ⟨l[k], List.getElem_mem hlt, ha⟩

namespace Definition

variable {d : Definition} {net : Netlist ε} {sub : SubCircuit ε}

/-- **The parts of a circuit that was made ready.** -/
theorem linkCircuit_eq_ok (h : d.linkCircuit net = .ok sub) :
    sub.template = net ∧ sub.schedule = net.dependencies.schedule.toOption ∧
      d.inputs.mapM (d.bindInput net) = .ok sub.inputs ∧
      d.outputs.mapM (d.tapOutput net) = .ok sub.outputs ∧ sub.name = d.name := by
  obtain ⟨inputs, hinputs, h⟩ := exists_of_bind h
  obtain ⟨outputs, houtputs, h⟩ := exists_of_bind h
  obtain rfl := Except.ok.inj h
  exact ⟨rfl, rfl, hinputs, houtputs, rfl⟩

/-- A definition with a circuit compiles to that circuit, its custom gates one level deeper. -/
theorem compile_eq_ok {deepest levels : Nat} {e : Expansion} {inner : Circuit Definition}
    (h : d.compile deepest levels = .ok e) (hcircuit : d.body.circuit = some inner) :
    ∃ levels' sub, levels = levels' + 1 ∧ e = .circuit sub ∧ inner.Valid ∧
      d.linkCircuit (Netlist.assemble (compile deepest levels') inner) = .ok sub := by
  cases levels with
  | zero => cases h
  | succ levels =>
    rw [compile, hcircuit] at h
    dsimp only at h
    cases hnet : Netlist.ofCircuit (compile deepest levels) inner with
    | error problems => rw [hnet] at h; cases h
    | ok net =>
      obtain ⟨hvalid, rfl⟩ := Netlist.valid_of_ofCircuit hnet
      rw [hnet] at h
      dsimp only at h
      cases hsub : d.linkCircuit (Netlist.assemble (compile deepest levels) inner) with
      | error reason => rw [hsub] at h; cases h
      | ok sub =>
        rw [hsub] at h
        exact ⟨levels, sub, rfl, (Except.ok.inj h).symm, hvalid, hsub⟩

/-- A definition without a circuit compiles to its truth table. -/
theorem exists_table {deepest levels : Nat} {e : Expansion}
    (h : d.compile deepest levels = .ok e) (hcircuit : d.body.circuit = none) :
    ∃ rows t, d.body.rows = some rows ∧ d.linkTable rows = .ok t ∧ e = .table t := by
  cases levels with
  | zero => cases h
  | succ levels =>
    rw [compile, hcircuit] at h
    cases hrows : d.body.rows with
    | none =>
      rw [hrows] at h
      cases h
    | some rows =>
      rw [hrows] at h
      dsimp only at h
      cases htable : d.linkTable rows with
      | error reason =>
        rw [htable] at h
        cases h
      | ok t =>
        rw [htable] at h
        exact ⟨rows, t, rfl, htable, (Except.ok.inj h).symm⟩

/-- **Induction over what definitions compile to.** The levels left go down with the definitions
    inside. -/
theorem compile_induction {deepest : Nat} {P : Nat → Definition → Expansion → Prop}
    (table : ∀ levels d rows t, d.body.circuit = none → d.linkTable rows = .ok t →
      P (levels + 1) d (.table t))
    (circuit : ∀ levels d inner sub, d.body.circuit = some inner → inner.Valid →
      d.linkCircuit (Netlist.assemble (compile deepest levels) inner) = .ok sub →
      (∀ d' x, d'.compile deepest levels = .ok x → P levels d' x) → P (levels + 1) d (.circuit sub))
    {levels : Nat} {d : Definition} {x : Expansion} (h : d.compile deepest levels = .ok x) :
    P levels d x := by
  induction levels generalizing d x with
  | zero => cases h
  | succ levels ih =>
    cases hcircuit : d.body.circuit with
    | none =>
      obtain ⟨rows, t, -, htable, rfl⟩ := exists_table h hcircuit
      exact table levels d rows t hcircuit htable
    | some inner =>
      obtain ⟨levels', sub, hlevels, rfl, hvalid, hlink⟩ := compile_eq_ok h hcircuit
      obtain rfl : levels = levels' := Nat.succ.inj hlevels
      exact circuit levels d inner sub hcircuit hvalid hlink fun _ _ => ih

section Pins

variable {compile : Definition → Except String ε} {inner : Circuit Definition} {p : Pin}
  {x : Gate Definition} {i : Nat}

theorem boundNode_eq (hvalid : inner.Valid) (hx : inner.gates[i]? = some x)
    (hp : p.gate = some x.id) :
    d.boundNode (Netlist.assemble compile inner) p = .ok (i, Node.ofGate compile x) := by
  have hindex : (Netlist.assemble compile inner).index? x.id = some i := by
    rw [Netlist.index?, findIdx?_id_eq_some_iff ((Netlist.ids_assemble _ inner) ▸ hvalid.gateIds),
      Netlist.ids_assemble, List.getElem?_map, hx, Option.map_some]
  rw [boundNode, hp]
  dsimp only
  rw [hindex]
  dsimp only
  rw [Netlist.getElem?_assemble hx]

/-- An input pin at an input gate is bound to that gate. -/
theorem bindInput_of_input (hvalid : inner.Valid) (hx : inner.gates[i]? = some x)
    (hp : p.gate = some x.id) (hkind : x.kind = .input) :
    d.bindInput (Netlist.assemble compile inner) p = .ok (.gate i) := by
  have helement : (Node.ofGate compile x).element = .input x.output := by
    rw [Node.element_ofGate, Element.ofGate, hkind]
  simp only [bindInput, boundNode_eq hvalid hx hp, bind, Except.bind, helement]
  rfl

/-- An output pin at an output gate is tapped there. -/
theorem tapOutput_of_output (hvalid : inner.Valid) (hx : inner.gates[i]? = some x)
    (hp : p.gate = some x.id) (hkind : x.kind = .output) :
    d.tapOutput (Netlist.assemble compile inner) p = .ok (.gate i) := by
  have helement : (Node.ofGate compile x).element.kind = .output := by
    rw [Node.element_ofGate, Element.kind_ofGate, hkind]
  simp only [tapOutput, boundNode_eq hvalid hx hp, bind, Except.bind, if_pos helement]
  rfl

/-- An output pin at another gate, its index negative, is tapped at an output of that gate. -/
theorem tapOutput_of_negative (hvalid : inner.Valid) (hx : inner.gates[i]? = some x)
    (hp : p.gate = some x.id) (hkind : x.kind ≠ .output) (hindex : p.index < 0) {tap : OutputTap}
    (h : d.tapOutput (Netlist.assemble compile inner) p = .ok tap) :
    tap = .output i (Endpoint.mk x.id p.index).outputPin ∧
      (Endpoint.mk x.id p.index).outputPin < (Node.ofGate compile x).outputs.length := by
  have helement : (Node.ofGate compile x).element.kind ≠ .output := by
    rw [Node.element_ofGate, Element.kind_ofGate]
    exact hkind
  have hpin : (Endpoint.mk x.id p.index).outputPin = (-(p.index.toInt + 1)).toNat := by
    rw [Endpoint.outputPin, if_pos hindex]
  rw [hpin]
  simp only [tapOutput, boundNode_eq hvalid hx hp, bind, Except.bind, if_neg helement,
    if_pos hindex] at h
  split at h
  next hlt => exact ⟨(Except.ok.inj h).symm, hlt⟩
  next => cases h

end Pins

end Definition

/-! ## 2. Signals put in -/

/-- A node that holds a signal as an input gate does. -/
def Node.hold (value : Bool) (n : Node ε) : Node ε :=
  { n with element := .input value, outputs := n.outputs.set 0 value }

/-- Signals are put in one after the other. -/
def InputBinding.writeAll (pairs : List (InputBinding × Bool)) (net : Netlist ε) : Netlist ε :=
  pairs.foldl (fun net p => p.1.write p.2 net) net

namespace InputBinding

variable {pairs : List (InputBinding × Bool)} {i : Nat} {net : Netlist ε}

@[simp] theorem connections_writeAll :
    (writeAll pairs net).connections = net.connections := by
  induction pairs generalizing net with
  | nil => rfl
  | cons p pairs ih =>
    rw [writeAll, List.foldl_cons, ← writeAll, ih]
    cases p.1 <;> rfl

/-- A node that no signal is put into stays as it is. -/
theorem getElem?_writeAll_of_free (hgates : ∀ p ∈ pairs, ∃ j, p.1 = .gate j)
    (hfree : ∀ p ∈ pairs, p.1 ≠ .gate i) : (writeAll pairs net).nodes[i]? = net.nodes[i]? := by
  induction pairs generalizing net with
  | nil => rfl
  | cons p pairs ih =>
    obtain ⟨j, hj⟩ := hgates p List.mem_cons_self
    have hne : j ≠ i := fun h => hfree p List.mem_cons_self (h ▸ hj)
    rw [writeAll, List.foldl_cons, ← writeAll,
      ih (fun q hq => hgates q (List.mem_cons_of_mem p hq))
        fun q hq => hfree q (List.mem_cons_of_mem p hq), hj, write, Netlist.getElem?_updateNode,
      if_neg hne]

/-- A node that one signal is put into holds it. -/
theorem getElem?_writeAll_of_mem {value : Bool} (hgates : ∀ p ∈ pairs, ∃ j, p.1 = .gate j)
    (hnodup : (pairs.map (·.1)).Nodup) (hmem : (.gate i, value) ∈ pairs) :
    (writeAll pairs net).nodes[i]? = net.nodes[i]?.map (·.hold value) := by
  induction pairs generalizing net with
  | nil => exact absurd hmem List.not_mem_nil
  | cons p pairs ih =>
    rw [List.map_cons, List.nodup_cons] at hnodup
    have hgates' : ∀ q ∈ pairs, ∃ j, q.1 = .gate j :=
      fun q hq => hgates q (List.mem_cons_of_mem p hq)
    rw [writeAll, List.foldl_cons, ← writeAll]
    rcases List.mem_cons.mp hmem with rfl | hmem
    · -- no later signal is put into the same node
      rw [getElem?_writeAll_of_free hgates' fun q hq he =>
        hnodup.1 (List.mem_map.mpr ⟨q, hq, he⟩), write, Netlist.getElem?_updateNode, if_pos rfl]
      rfl
    · obtain ⟨j, hj⟩ := hgates p List.mem_cons_self
      have hne : j ≠ i := by
        intro he
        subst he
        exact hnodup.1 (hj ▸ List.mem_map_of_mem (f := (·.1)) hmem)
      rw [ih hgates' hnodup.2 hmem, hj, write, Netlist.getElem?_updateNode, if_neg hne]

end InputBinding

/-! ## 3. Definitions by plain gates -/

/-- The kinds of gates without memory of the past and without a definition. -/
def Kind.plain : List Kind := [.input, .output, .and, .or, .not, .xor, .nand, .nor, .mux]

/-- **A definition by a circuit of plain gates** that have the pins of their kinds, without a
    combinational cycle. Its input pins are bound to different input gates, its output pins to
    output gates or to output pins. -/
structure Definition.Transparent (d : Definition) (inner : Circuit Definition) : Prop where
  circuit : d.body.circuit = some inner
  kinds : ∀ x ∈ inner.gates, x.kind ∈ Kind.plain
  inputPins : ∀ x ∈ inner.gates, x.inputCount = x.kind.inputCount
  outputPins : ∀ x ∈ inner.gates, x.outputCount = x.kind.outputCount
  inputs : ∀ p ∈ d.inputs, ∃ x ∈ inner.gates, p.gate = some x.id ∧ x.kind = .input
  distinct : (d.inputs.map (·.gate)).Nodup
  outputs : ∀ p ∈ d.outputs, ∃ x ∈ inner.gates, p.gate = some x.id ∧
    (x.kind = .output ∨ p.index < 0)
  acyclic : ¬ inner.CombinationalCycle

/-- The number of the input pin that is bound to a gate. -/
def Definition.inputOf (d : Definition) (id : GateId) : Option Nat :=
  d.inputs.findIdx? (·.gate = some id)

/-- The output pin inside whose signal an output pin shows. An output gate shows its signal at its
    own output too. -/
def Pin.origin (p : Pin) (inner : Circuit Definition) : Endpoint :=
  let gate := p.gate.getD ""
  if (inner.gate? gate).any (·.kind = .output) then .output gate 0 else ⟨gate, p.index⟩

/-- The nodes of the circuit inside with the signals at the inputs put in. -/
def Definition.loaded (compile : Definition → Except String ε) (d : Definition)
    (inner : Circuit Definition) (values : List Bool) (id : GateId) : Node ε :=
  match d.inputOf id with
  | some k => (inner.startState compile id).hold (values.getD k false)
  | none => inner.startState compile id

theorem Kind.isSequential_of_plain {k : Kind} (h : k ∈ Kind.plain) :
    k.isSequential = true ↔ k = .input := by
  revert h
  cases k <;> decide

/-- Only a custom gate needs its definition. -/
theorem Element.ofGate_congr (compile compile' : Definition → Except String ε) {x : Gate Definition}
    (h : x.kind ≠ .custom) : ofGate compile x = ofGate compile' x :=
  ofGate_of_definition fun hk => absurd hk h

/-- An output gate shows at its output what it sees. -/
theorem Node.Follows.output {b a : Node ε} (h : b.Follows run instant a)
    (helement : b.element = .output) (hforced : b.forced = none) (hinputs : a.inputs.length = 1)
    (houtputs : 0 < b.outputs.length) : a.outputs[0]? = a.inputs[0]? := by
  obtain ⟨value, hvalue⟩ := List.length_eq_one_iff.mp hinputs
  have heval : b.element.evaluate run instant a.inputs = .ok (.output, ⟨[value], []⟩) := by
    rw [helement, hvalue]
    rfl
  rw [(h.evaluated hforced _ _ heval).2 0 houtputs, hvalue]
  rfl

/-- An output pin at an output gate shows what that gate shows. -/
theorem Pin.origin_of_output {inner : Circuit Definition} (hvalid : inner.Valid)
    {x : Gate Definition} (hx : x ∈ inner.gates) {p : Pin} (hp : p.gate = some x.id)
    (hkind : x.kind = .output) : p.origin inner = .output x.id 0 := by
  rw [origin, hp, Option.getD_some, Circuit.gate?_eq_some hvalid.gateIds hx, Option.any_some,
    if_pos (by simpa using hkind)]

/-- An output pin at another gate shows the output that its index denotes. -/
theorem Pin.origin_of_ne {inner : Circuit Definition} (hvalid : inner.Valid)
    {x : Gate Definition} (hx : x ∈ inner.gates) {p : Pin} (hp : p.gate = some x.id)
    (hkind : x.kind ≠ .output) : p.origin inner = ⟨x.id, p.index⟩ := by
  rw [origin, hp, Option.getD_some, Circuit.gate?_eq_some hvalid.gateIds hx, Option.any_some,
    if_neg (by simpa using hkind)]

theorem SubCircuit.load_eq (sub : SubCircuit ε) (values : List Bool) :
    sub.load values = InputBinding.writeAll (sub.inputs.zip values) sub.template := rfl

namespace Definition

variable {d : Definition} {inner : Circuit Definition} {compile : Definition → Except String ε}
  {x : Gate Definition} {k : Nat} {p : Pin} {values : List Bool}

theorem inputOf_eq_some_iff (hdistinct : (d.inputs.map (·.gate)).Nodup) {id : GateId} :
    d.inputOf id = some k ↔ ∃ p, d.inputs[k]? = some p ∧ p.gate = some id := by
  rw [inputOf, findIdx?_id_eq_some_iff hdistinct, List.getElem?_map, Option.map_eq_some_iff]

/-- Different input pins are bound to different gates. -/
theorem inputOf_inj (hdistinct : (d.inputs.map (·.gate)).Nodup) {a b : GateId}
    (ha : d.inputOf a = some k) (hb : d.inputOf b = some k) : a = b := by
  obtain ⟨p, hp, hpa⟩ := (inputOf_eq_some_iff hdistinct).mp ha
  obtain ⟨p', hp', hpb⟩ := (inputOf_eq_some_iff hdistinct).mp hb
  obtain rfl : p = p' := Option.some.inj (hp.symm.trans hp')
  exact Option.some.inj (hpa.symm.trans hpb)

namespace Transparent

/-- The input gate of an input pin. -/
theorem input (h : d.Transparent inner) (hp : d.inputs[k]? = some p) :
    ∃ x ∈ inner.gates, p.gate = some x.id ∧ x.kind = .input ∧ d.inputOf x.id = some k := by
  obtain ⟨x, hx, hgate, hkind⟩ := h.inputs p (List.mem_of_getElem? hp)
  exact ⟨x, hx, hgate, hkind, (inputOf_eq_some_iff h.distinct).mpr ⟨p, hp, hgate⟩⟩

/-- A gate that is bound to an input pin is an input gate. -/
theorem kind_of_inputOf (h : d.Transparent inner) (hvalid : inner.Valid) (hx : x ∈ inner.gates)
    (hk : d.inputOf x.id = some k) : k < d.inputs.length ∧ x.kind = .input := by
  obtain ⟨p, hp, hgate⟩ := (inputOf_eq_some_iff h.distinct).mp hk
  obtain ⟨x', hx', hgate', hkind⟩ := h.inputs p (List.mem_of_getElem? hp)
  have hid : x.id = x'.id := Option.some.inj (hgate.symm.trans hgate')
  obtain rfl : x = x' := List.inj_on_of_nodup_map hvalid.gateIds hx hx' hid
  exact ⟨(List.getElem?_eq_some_iff.mp hp).1, hkind⟩

theorem inputOf_of_ne (h : d.Transparent inner) (hvalid : inner.Valid) (hx : x ∈ inner.gates)
    (hkind : x.kind ≠ .input) : d.inputOf x.id = none := by
  rw [Option.eq_none_iff_forall_ne_some]
  intro k hk
  exact hkind (h.kind_of_inputOf hvalid hx hk).2

theorem loaded_of_none (hx : x ∈ inner.gates) (hvalid : inner.Valid)
    (hnone : d.inputOf x.id = none) :
    d.loaded compile inner values x.id = Node.ofGate compile x := by
  rw [loaded, hnone, Circuit.startState_eq hvalid hx]

/-- An input gate that is bound to a pin holds the signal at that pin. -/
theorem loaded_of_some (h : d.Transparent inner) (hvalid : inner.Valid) (hx : x ∈ inner.gates)
    (hk : d.inputOf x.id = some k) :
    d.loaded compile inner values x.id =
      { Node.ofGate compile x with
        element := .input (values.getD k false), outputs := [values.getD k false] } := by
  have hkind := (h.kind_of_inputOf hvalid hx hk).2
  have houtputs : (Node.ofGate compile x).outputs = [x.output] := by
    rw [Node.ofGate, Element.ofGate, hkind]
    rfl
  rw [loaded, hk]
  dsimp only
  rw [Circuit.startState_eq hvalid hx, Node.hold, houtputs]
  rfl

/-- The node of a gate inside has the output pins of its kind. -/
theorem length_outputs (h : d.Transparent inner) (hx : x ∈ inner.gates) :
    (Node.ofGate compile x).outputs.length = x.kind.outputCount := by
  rw [← h.outputPins x hx]
  have hkind := h.kinds x hx
  have hcount := h.outputPins x hx
  rw [Node.ofGate, Element.ofGate]
  cases hk : x.kind with
  | input =>
    rw [hcount, hk]
    rfl
  | clock | flipFlop | latch | custom | unknown =>
    rw [hk] at hkind
    exact absurd hkind (by decide)
  | _ => exact Signal.length_resize _ _

/-- Putting signals in keeps the shape. -/
theorem shape_loaded (h : d.Transparent inner) (hvalid : inner.Valid) (hx : x ∈ inner.gates) :
    (d.loaded compile inner values x.id).shape = (Node.ofGate compile x).shape := by
  cases hk : d.inputOf x.id with
  | none => rw [loaded_of_none hx hvalid hk]
  | some k =>
    have hkind := (h.kind_of_inputOf hvalid hx hk).2
    rw [h.loaded_of_some hvalid hx hk, Node.shape, Node.ofGate, Element.ofGate, hkind]
    rfl

section Load

variable {sub : SubCircuit ε}

/-- Each input is bound to its input gate. -/
theorem binding (h : d.Transparent inner) (hvalid : inner.Valid)
    (hlink : d.linkCircuit (Netlist.assemble compile inner) = .ok sub) (hp : d.inputs[k]? = some p) :
    ∃ i x, inner.gates[i]? = some x ∧ d.inputOf x.id = some k ∧ sub.inputs[k]? = some (.gate i) := by
  obtain ⟨-, -, hinputs, -⟩ := linkCircuit_eq_ok hlink
  obtain ⟨x, hx, hgate, hkind, hk⟩ := h.input hp
  obtain ⟨i, hi⟩ := List.getElem?_of_mem hx
  obtain ⟨b, hb, hbind⟩ := (getElem?_of_mapM_ok hinputs).2 hp
  rw [bindInput_of_input hvalid hi hgate hkind] at hbind
  obtain rfl : .gate i = b := Except.ok.inj hbind
  exact ⟨i, x, hi, hk, hb⟩

/-- **All bindings are those of input pins.** -/
theorem of_binding (h : d.Transparent inner) (hvalid : inner.Valid)
    (hlink : d.linkCircuit (Netlist.assemble compile inner) = .ok sub) {b : InputBinding}
    (hb : sub.inputs[k]? = some b) :
    ∃ i x, b = .gate i ∧ inner.gates[i]? = some x ∧ d.inputOf x.id = some k := by
  have hlength := (getElem?_of_mapM_ok (linkCircuit_eq_ok hlink).2.2.1).1
  have hk : k < d.inputs.length := hlength ▸ (List.getElem?_eq_some_iff.mp hb).1
  obtain ⟨i, x, hi, hx, hb'⟩ := h.binding hvalid hlink (List.getElem?_eq_getElem hk)
  exact ⟨i, x, Option.some.inj (hb.symm.trans hb'), hi, hx⟩

theorem nodup_bindings (h : d.Transparent inner) (hvalid : inner.Valid)
    (hlink : d.linkCircuit (Netlist.assemble compile inner) = .ok sub) : sub.inputs.Nodup := by
  rw [List.nodup_iff_getElem?_ne_getElem?]
  intro k l hkl hl he
  have hb := List.getElem?_eq_getElem hl
  obtain ⟨i, x, hi, hx, hinput⟩ := h.of_binding hvalid hlink hb
  obtain ⟨j, y, hj, hy, hinput'⟩ := h.of_binding hvalid hlink (he.trans hb)
  obtain rfl : i = j := InputBinding.gate.inj (hi.symm.trans hj)
  obtain rfl : x = y := Option.some.inj (hx.symm.trans hy)
  have : k = l := Option.some.inj (hinput'.symm.trans hinput)
  omega

/-- A signal is put into the node of a gate that is bound. -/
theorem of_mem_zip (h : d.Transparent inner) (hvalid : inner.Valid)
    (hlink : d.linkCircuit (Netlist.assemble compile inner) = .ok sub) {q : InputBinding × Bool}
    (hq : q ∈ sub.inputs.zip values) :
    ∃ i x k, q.1 = .gate i ∧ inner.gates[i]? = some x ∧ d.inputOf x.id = some k := by
  obtain ⟨k, hk⟩ := List.getElem?_of_mem (List.of_mem_zip hq).1
  obtain ⟨i, x, hi, hx, hinput⟩ := h.of_binding hvalid hlink hk
  exact ⟨i, x, k, hi, hx, hinput⟩

/-- The signal at a pin is put into the node of the gate that is bound to it. -/
theorem mem_zip (h : d.Transparent inner) (hvalid : inner.Valid)
    (hlink : d.linkCircuit (Netlist.assemble compile inner) = .ok sub)
    (hvalues : values.length = d.inputs.length) {i : Nat} (hx : inner.gates[i]? = some x)
    (hk : d.inputOf x.id = some k) :
    (.gate i, values.getD k false) ∈ sub.inputs.zip values := by
  have hlt := (h.kind_of_inputOf hvalid (List.mem_of_getElem? hx) hk).1
  obtain ⟨j, y, hj, hy, hb⟩ := h.binding hvalid hlink (List.getElem?_eq_getElem hlt)
  obtain rfl : j = i := hvalid.place_eq hx <| by
    rw [List.getElem?_map, hj, Option.map_some, inputOf_inj h.distinct hy hk]
  have hvalue : values[k]? = some (values.getD k false) := by
    rw [List.getD_eq_getElem?_getD, List.getElem?_eq_getElem (hvalues ▸ hlt), Option.getD_some]
  exact List.mem_of_getElem? (List.getElem?_zip_eq_some.mpr ⟨hb, hvalue⟩)

/-- **Putting the signals in changes the bound input gates and nothing else.** -/
theorem has_load (h : d.Transparent inner) (hvalid : inner.Valid)
    (hlink : d.linkCircuit (Netlist.assemble compile inner) = .ok sub)
    (hvalues : values.length = d.inputs.length) :
    (sub.load values).Has inner (d.loaded compile inner values) := by
  obtain ⟨htemplate, -, hinputs, -⟩ := linkCircuit_eq_ok hlink
  have hlength : sub.inputs.length = values.length :=
    (getElem?_of_mapM_ok hinputs).1.trans hvalues.symm
  have hgates : ∀ q ∈ sub.inputs.zip values, ∃ j, q.1 = .gate j := by
    intro q hq
    obtain ⟨j, -, -, hj, -⟩ := h.of_mem_zip hvalid hlink hq
    exact ⟨j, hj⟩
  have hnodup : ((sub.inputs.zip values).map (·.1)).Nodup := by
    rw [List.map_fst_zip (Nat.le_of_eq hlength)]
    exact h.nodup_bindings hvalid hlink
  refine List.ext_getElem? fun i => ?_
  rw [SubCircuit.load_eq, htemplate, List.getElem?_map]
  cases hx : inner.gates[i]? with
  | none =>
    rw [InputBinding.getElem?_writeAll_of_free hgates, Netlist.assemble, List.getElem?_map, hx]
    · rfl
    · intro q hq hi
      obtain ⟨j, y, k, hj, hy, -⟩ := h.of_mem_zip hvalid hlink hq
      obtain rfl : i = j := InputBinding.gate.inj (hi.symm.trans hj)
      rw [hx] at hy
      cases hy
  | some x =>
    have hmem := List.mem_of_getElem? hx
    rw [Option.map_some, loaded, Circuit.startState_eq hvalid hmem]
    cases hk : d.inputOf x.id with
    | none =>
      rw [InputBinding.getElem?_writeAll_of_free hgates, Netlist.getElem?_assemble hx]
      intro q hq hi
      obtain ⟨j, y, k, hj, hy, hk'⟩ := h.of_mem_zip hvalid hlink hq
      obtain rfl : i = j := InputBinding.gate.inj (hi.symm.trans hj)
      obtain rfl : x = y := Option.some.inj (hx.symm.trans hy)
      rw [hk] at hk'
      cases hk'
    | some k =>
      rw [InputBinding.getElem?_writeAll_of_mem hgates hnodup
        (h.mem_zip hvalid hlink hvalues hx hk), Netlist.getElem?_assemble hx, Option.map_some]

/-- An output shows the signal of its origin. -/
theorem read_tap (h : d.Transparent inner) (hvalid : inner.Valid) {net : Netlist ε}
    {after : GateId → Node ε} (hafter : net.Has inner after)
    (hsolves : inner.Solves run instant (d.loaded compile inner values) after) (hp : p ∈ d.outputs)
    {tap : OutputTap} (htap : d.tapOutput (Netlist.assemble compile inner) p = .ok tap) :
    tap.read net =
      (after (p.origin inner).gate).outputs.getD (p.origin inner).outputPin false := by
  obtain ⟨x, hx, hgate, hcase⟩ := h.outputs p hp
  obtain ⟨i, hi⟩ := List.getElem?_of_mem hx
  by_cases hkind : x.kind = .output
  · rw [tapOutput_of_output hvalid hi hgate hkind] at htap
    obtain rfl : .gate i = tap := Except.ok.inj htap
    have hloaded : d.loaded compile inner values x.id = Node.ofGate compile x :=
      loaded_of_none hx hvalid (h.inputOf_of_ne hvalid hx (by rw [hkind]; decide))
    have hfollows := hsolves.follows x hx
    have hpins := hsolves.pins x hx
    rw [hloaded] at hfollows hpins
    have hinputs : (after x.id).inputs.length = 1 := by
      rw [hpins, Node.inputs_ofGate, Signal.length_resize, h.inputPins x hx, hkind]
      rfl
    have houtputs : 0 < (Node.ofGate compile x).outputs.length := by
      rw [h.length_outputs hx, hkind]
      decide
    have hshown : (after x.id).outputs[0]? = (after x.id).inputs[0]? :=
      hfollows.output (by rw [Node.element_ofGate, Element.ofGate, hkind]) rfl hinputs houtputs
    rw [Pin.origin_of_output hvalid hx hgate hkind, Endpoint.outputPin_output _ (by decide),
      List.getD_eq_getElem?_getD]
    show net.inputAt i 0 = ((after x.id).outputs[0]?).getD false
    rw [Netlist.inputAt, hafter.node hi, hshown]
    rfl
  · obtain ⟨rfl, -⟩ :=
      tapOutput_of_negative hvalid hi hgate hkind (hcase.resolve_left hkind) htap
    rw [Pin.origin_of_ne hvalid hx hgate hkind]
    exact hafter.outputAt hi _

/-- **What the gate answers**: each output shows the signal of its origin in the solution of the
    circuit inside. -/
theorem answers (h : d.Transparent inner) (run : ε → Reaction) (instant : Instant)
    (hvalid : inner.Valid)
    (hlink : d.linkCircuit (Netlist.assemble compile inner) = .ok sub)
    (hvalues : values.length = d.inputs.length) :
    ∃ after answer, inner.Solves run instant (d.loaded compile inner values) after ∧
      sub.evaluate run instant values = .ok answer ∧
      ∀ {k : Nat} {p : Pin}, d.outputs[k]? = some p → answer.outputs.getD k false =
        (after (p.origin inner).gate).outputs.getD (p.origin inner).outputPin false := by
  obtain ⟨htemplate, hschedule, hinputs, houtputs, -⟩ := linkCircuit_eq_ok hlink
  have hhas := h.has_load hvalid hlink hvalues
  have hshape : (sub.load values).shape = (Netlist.assemble compile inner).shape :=
    Circuit.shape_of_has hhas (by rw [SubCircuit.load_eq, InputBinding.connections_writeAll,
      htemplate]) fun x hx => h.shape_loaded hvalid hx
  obtain ⟨schedule, hs⟩ := (Netlist.schedule_iff hvalid hshape).mpr h.acyclic
  obtain ⟨after, hafter, hsolves⟩ : ∃ after,
      ((sub.load values).immediate run schedule instant).netlist.Has inner after ∧
        inner.Solves run instant (d.loaded compile inner values) after :=
    Circuit.solves_immediate hvalid hshape hhas hs
  have hsub : sub.schedule = some schedule := by
    rw [hschedule, ← Netlist.dependencies_of_shape hshape, hs]
    rfl
  have harity : checkArity sub.inputs.length values = .ok () := by
    rw [checkArity, (getElem?_of_mapM_ok hinputs).1, if_pos hvalues]
  have heval : ∃ answer, sub.evaluate run instant values = .ok answer ∧ answer.outputs =
      sub.outputs.map (·.read ((sub.load values).immediate run schedule instant).netlist) := by
    rw [SubCircuit.evaluate, harity, SubCircuit.simulate, hsub]
    exact ⟨_, rfl, rfl⟩
  obtain ⟨answer, heval, hanswer⟩ := heval
  refine ⟨after, answer, hsolves, heval, fun {k p} hp => ?_⟩
  obtain ⟨tap, htap, hread⟩ := (getElem?_of_mapM_ok houtputs).2 hp
  rw [hanswer, List.getD_eq_getElem?_getD, List.getElem?_map, htap, Option.map_some,
    Option.getD_some]
  exact h.read_tap hvalid hafter hsolves (List.mem_of_getElem? hp) hread

end Load

end Transparent

end Definition

end LogicSim
