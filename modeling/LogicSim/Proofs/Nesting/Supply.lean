import LogicSim.Proofs.Netlist.Loading
import LogicSim.Proofs.Evaluation.Reseeding
import Mathlib.Data.List.Forall2

/-!
# Signals supplied to a circuit

The signals at the inputs of a custom gate are put into a netlist that was made once
(`SubCircuit.load`). The same netlist comes out if they are put into the circuit and the netlist is
made from that (`Definition.load_eq_assemble`): an input gate gets its output, any other gate the
stored signal of an input pin. Pins take effect in their order, so that of two pins that are bound to
the same place the later one counts.

What is supplied changes no pins, no kinds and no definitions (`Gate.outline`), and with these nothing
that validity, nesting or the order of a pass depend on.
-/

namespace LogicSim

variable {ε : Type} {compile : Definition → Except String ε} {c c' : Circuit Definition}

/-! ## 1. Outlines -/

/-- What signals and memory leave alone of a gate. -/
structure Outline where
  id : GateId
  kind : Kind
  inputs : Nat
  outputs : Nat
  definition : Option Definition

/-- The outline of a gate. -/
def Gate.outline (g : Gate Definition) : Outline :=
  ⟨g.id, g.kind, g.inputCount, g.outputCount, g.metadata.definition⟩

/-- Circuits of the same outline: the same wires, and gates that differ in signals and memory. -/
structure Circuit.Similar (c c' : Circuit Definition) : Prop where
  gates : c'.gates.map Gate.outline = c.gates.map Gate.outline
  wires : c'.wires = c.wires

namespace Circuit.Similar

theorem refl (c : Circuit Definition) : c.Similar c := ⟨rfl, rfl⟩

theorem trans {c'' : Circuit Definition} (h : c.Similar c') (h' : c'.Similar c'') :
    c.Similar c'' := ⟨h'.gates.trans h.gates, h'.wires.trans h.wires⟩

theorem symm (h : c.Similar c') : c'.Similar c := ⟨h.gates.symm, h.wires.symm⟩

/-- What depends on the outlines only is the same. -/
theorem map_eq (h : c.Similar c') {α : Type} {f : Gate Definition → α} (f' : Outline → α)
    (hf : ∀ g, f g = f' g.outline) : c'.gates.map f = c.gates.map f := by
  have hsplit : f = f' ∘ Gate.outline := funext hf
  rw [hsplit, ← List.map_map, ← List.map_map, h.gates]

theorem exists_gate (h : c.Similar c') {i : Nat} {g : Gate Definition} (hg : c.gates[i]? = some g) :
    ∃ g', c'.gates[i]? = some g' ∧ g'.outline = g.outline := by
  have hi : (c'.gates.map Gate.outline)[i]? = (c.gates.map Gate.outline)[i]? := by rw [h.gates]
  rwa [List.getElem?_map, List.getElem?_map, hg, Option.map_some, Option.map_eq_some_iff] at hi

theorem exists_mem (h : c.Similar c') {g : Gate Definition} (hg : g ∈ c.gates) :
    ∃ g' ∈ c'.gates, g'.outline = g.outline := by
  obtain ⟨i, hi⟩ := List.getElem?_of_mem hg
  obtain ⟨g', hg', he⟩ := h.exists_gate hi
  exact ⟨g', List.mem_of_getElem? hg', he⟩

theorem ids (h : c.Similar c') : c'.gates.map (·.id) = c.gates.map (·.id) :=
  h.map_eq Outline.id fun _ => rfl

/-- **Validity depends on the outlines only.** -/
theorem valid (h : c.Similar c') (hc : c.Valid) : c'.Valid := by
  refine ⟨h.ids ▸ hc.gateIds, h.wires ▸ hc.wireIds, fun w hw => ?_, fun w hw => ?_,
    h.wires ▸ hc.single⟩
  · obtain ⟨g, hg, hid, hpin⟩ := hc.source w (h.wires ▸ hw)
    obtain ⟨g', hg', he⟩ := h.exists_mem hg
    have hcount : g'.outputCount = g.outputCount := congrArg Outline.outputs he
    exact ⟨g', hg', (congrArg Outline.id he).trans hid, hcount.symm ▸ hpin⟩
  · obtain ⟨g, hg, hid, pin, hpin, hlt⟩ := hc.sink w (h.wires ▸ hw)
    obtain ⟨g', hg', he⟩ := h.exists_mem hg
    have hcount : g'.inputCount = g.inputCount := congrArg Outline.inputs he
    exact ⟨g', hg', (congrArg Outline.id he).trans hid, pin, hpin, hcount.symm ▸ hlt⟩

end Circuit.Similar

/-- The shape of the node that is made from a gate of an outline. -/
def Outline.shape (o : Outline) : Shape where
  id := o.id
  inputs := o.inputs
  outputs := match o.kind with
    | .input | .flipFlop | .latch => o.kind.outputCount
    | _ => o.outputs
  sequential := o.kind.isSequential

/-- The shape of a node depends on the outline of its gate. -/
theorem Node.shape_ofGate (compile : Definition → Except String ε) (g : Gate Definition) :
    (ofGate compile g).shape = g.outline.shape := by
  have hinputs : (ofGate compile g).inputs.length = g.inputCount := Signal.length_resize ..
  have houtputs : (ofGate compile g).outputs.length = g.returnedOutputs := length_startOutputs
  rw [shape, hinputs, houtputs, element_ofGate, Element.isSequential_ofGate, id_ofGate]
  rfl

theorem Circuit.Similar.connections_assemble (h : c.Similar c') :
    (Netlist.assemble compile c').connections = (Netlist.assemble compile c).connections := by
  rw [Netlist.connections_assemble, Netlist.connections_assemble, h.ids, h.wires]

/-- **And so does the shape of a netlist.** -/
theorem Circuit.Similar.shape_assemble (h : c.Similar c') :
    (Netlist.assemble compile c').shape = (Netlist.assemble compile c).shape := by
  have hnodes : (Netlist.assemble compile c').nodes.map Node.shape =
      (Netlist.assemble compile c).nodes.map Node.shape := by
    rw [Netlist.assemble, Netlist.assemble, List.map_map, List.map_map]
    exact h.map_eq Outline.shape (Node.shape_ofGate compile)
  exact Prod.ext hnodes h.connections_assemble

/-! ## 2. Supplying a signal -/

/-- A gate that a signal is put into: an input gate takes it for its output, any other gate for the
    stored signal of one of its input pins. -/
def Gate.supply (pin : Nat) (value : Bool) (g : Gate Definition) : Gate Definition :=
  if g.kind = .input then { g with outputs := value :: g.outputs.drop 1 }
  else { g with inputs := (Signal.resize g.inputs g.inputCount).set pin value }

/-- **A circuit that a signal is put into**, at the gate to which a pin is bound. -/
def Circuit.supply (c : Circuit Definition) (p : Pin) (value : Bool) : Circuit Definition :=
  { c with gates := c.gates.map fun g =>
      if p.gate = some g.id then g.supply p.index.toInt.toNat value else g }

/-- A circuit that signals are put into, one after the other. -/
def Circuit.supplyAll (c : Circuit Definition) (pairs : List (Pin × Bool)) : Circuit Definition :=
  pairs.foldl (fun c q => c.supply q.1 q.2) c

/-- **The circuit inside a custom gate with the signals at the inputs of the gate.** -/
def Definition.supplied (d : Definition) (inner : Circuit Definition) (values : List Bool) :
    Circuit Definition := inner.supplyAll (d.inputs.zip values)

theorem Gate.supply_of_input {g : Gate Definition} (hk : g.kind = .input) (pin : Nat)
    (value : Bool) : g.supply pin value = { g with outputs := value :: g.outputs.drop 1 } :=
  if_pos hk

theorem Gate.supply_of_ne {g : Gate Definition} (hk : g.kind ≠ .input) (pin : Nat) (value : Bool) :
    g.supply pin value =
      { g with inputs := (Signal.resize g.inputs g.inputCount).set pin value } :=
  if_neg hk

/-- The stored signals are as many as before, or as many as there are pins. -/
theorem Gate.inputCount_supply (g : Gate Definition) (pin : Nat) (value : Bool) :
    (g.supply pin value).inputCount = g.inputCount := by
  by_cases hk : g.kind = .input
  · rw [supply_of_input hk]
    rfl
  · rw [supply_of_ne hk]
    exact inputCount_of_length rfl rfl ((List.length_set ..).trans (Signal.length_resize ..))

theorem Gate.outputCount_supply (g : Gate Definition) (pin : Nat) (value : Bool) :
    (g.supply pin value).outputCount = g.outputCount := by
  by_cases hk : g.kind = .input
  · rw [supply_of_input hk, outputCount, outputCount, hk]
    show max (value :: g.outputs.drop 1).length 1 = max g.outputs.length 1
    rw [List.length_cons, List.length_drop]
    omega
  · rw [supply_of_ne hk]
    rfl

/-- **A signal leaves the outline of a gate alone.** -/
theorem Gate.outline_supply (g : Gate Definition) (pin : Nat) (value : Bool) :
    (g.supply pin value).outline = g.outline := by
  have hrest : (g.supply pin value).id = g.id ∧ (g.supply pin value).kind = g.kind ∧
      (g.supply pin value).metadata = g.metadata := by
    rw [supply]
    split <;> exact ⟨rfl, rfl, rfl⟩
  obtain ⟨hid, hkind, hmetadata⟩ := hrest
  rw [outline, outline, inputCount_supply, outputCount_supply, hid, hkind, hmetadata]

namespace Circuit

theorem similar_supply (c : Circuit Definition) (p : Pin) (value : Bool) :
    c.Similar (c.supply p value) := by
  refine ⟨?_, rfl⟩
  rw [supply, List.map_map]
  refine List.map_congr_left fun g _ => ?_
  dsimp only [Function.comp]
  split
  · exact g.outline_supply ..
  · rfl

/-- **Signals leave the outline of a circuit alone.** -/
theorem similar_supplyAll (c : Circuit Definition) (pairs : List (Pin × Bool)) :
    c.Similar (c.supplyAll pairs) := by
  induction pairs generalizing c with
  | nil => exact .refl c
  | cons q pairs ih => exact (c.similar_supply q.1 q.2).trans (ih _)

end Circuit

/-! ## 3. Bindings -/

/-- **Where an input pin is bound**, in terms of the circuit. -/
def Pin.Binds (c : Circuit Definition) (p : Pin) : InputBinding → Prop
  | .gate i => ∃ x, c.gates[i]? = some x ∧ p.gate = some x.id ∧ x.kind = .input
  | .pin i k => ∃ x, c.gates[i]? = some x ∧ p.gate = some x.id ∧ x.kind ≠ .input ∧
      k = p.index.toInt.toNat

theorem Pin.Binds.similar {p : Pin} {b : InputBinding} (hb : p.Binds c b) (h : c.Similar c') :
    p.Binds c' b := by
  cases b with
  | gate i =>
    obtain ⟨x, hx, hid, hk⟩ := hb
    obtain ⟨x', hx', he⟩ := h.exists_gate hx
    exact ⟨x', hx', hid.trans (congrArg (some ·.id) he).symm, (congrArg Outline.kind he).trans hk⟩
  | pin i k =>
    obtain ⟨x, hx, hid, hk, hpin⟩ := hb
    obtain ⟨x', hx', he⟩ := h.exists_gate hx
    have hkind : x'.kind = x.kind := congrArg Outline.kind he
    exact ⟨x', hx', hid.trans (congrArg (some ·.id) he).symm, hkind ▸ hk, hpin⟩

namespace Definition

variable {d : Definition} {p : Pin}

/-- The node of a pin is that of the gate that it is bound to. -/
theorem boundNode_eq_ok {i : Nat} {n : Node ε}
    (h : d.boundNode (Netlist.assemble compile c) p = .ok (i, n)) :
    ∃ x, c.gates[i]? = some x ∧ p.gate = some x.id ∧ n = Node.ofGate compile x := by
  unfold boundNode at h
  split at h
  · cases h
  next id hgate =>
    split at h
    · cases h
    next j hindex =>
      split at h
      · cases h
      next n' hn =>
        obtain ⟨rfl, rfl⟩ := Prod.ext_iff.mp (Except.ok.inj h)
        obtain ⟨hj, hid, -⟩ := List.findIdx?_eq_some_iff_getElem.mp hindex
        rw [Netlist.assemble, List.getElem?_map, Option.map_eq_some_iff] at hn
        obtain ⟨x, hx, rfl⟩ := hn
        have hnode : (Netlist.assemble compile c).nodes[j] = Node.ofGate compile x :=
          Option.some.inj ((List.getElem?_eq_getElem hj).symm.trans (Netlist.getElem?_assemble hx))
        rw [hnode, decide_eq_true_iff] at hid
        exact ⟨x, hx, hgate.trans (congrArg some hid.symm), rfl⟩

/-- **An input pin is bound where its binding says.** -/
theorem binds_of_bindInput {b : InputBinding}
    (h : d.bindInput (Netlist.assemble compile c) p = .ok b) : p.Binds c b := by
  obtain ⟨⟨i, n⟩, hbound, h⟩ := exists_of_bind h
  obtain ⟨x, hx, hid, rfl⟩ := boundNode_eq_ok hbound
  have hkind : (Node.ofGate compile x).element.kind = x.kind := Element.kind_ofGate compile x
  dsimp only at h
  split at h
  next value he =>
    obtain rfl := Except.ok.inj h
    exact ⟨x, hx, hid, by rw [← hkind, he]; rfl⟩
  next hne =>
    split at h
    · obtain rfl := Except.ok.inj h
      refine ⟨x, hx, hid, fun hk => ?_, rfl⟩
      exact hne x.output (by rw [Node.element_ofGate, Element.ofGate, hk])
    · cases h

end Definition

/-! ## 4. The netlist of a supplied circuit -/

/-- The node of an input gate that a signal is put into holds it. -/
theorem Node.ofGate_supply_of_input {g : Gate Definition} (hk : g.kind = .input) (pin : Nat)
    (value : Bool) : ofGate compile (g.supply pin value) = (ofGate compile g).hold value := by
  have helement : Element.ofGate compile (g.supply pin value) = .input value := by
    rw [Gate.supply_of_input hk, Element.ofGate]
    dsimp only
    rw [hk]
    rfl
  have hstart : Element.ofGate compile g = .input g.output := by rw [Element.ofGate, hk]
  rw [ofGate, hold, helement, ofGate, hstart, Gate.inputCount_supply, Gate.supply_of_input hk]
  rfl

/-- The node of another gate has it at the input pin. -/
theorem Node.ofGate_supply_of_ne {g : Gate Definition} (hk : g.kind ≠ .input) (pin : Nat)
    (value : Bool) : ofGate compile (g.supply pin value) =
      { ofGate compile g with inputs := (ofGate compile g).inputs.set pin value } := by
  have hinputs : Signal.resize (g.supply pin value).inputs (g.supply pin value).inputCount =
      (Signal.resize g.inputs g.inputCount).set pin value := by
    have hfull := Signal.resize_length ((Signal.resize g.inputs g.inputCount).set pin value)
    rw [List.length_set, Signal.length_resize] at hfull
    rw [Gate.inputCount_supply, Gate.supply_of_ne hk]
    exact hfull
  rw [ofGate, hinputs, Gate.supply_of_ne hk]
  rfl

namespace Netlist

/-- A change of one node is the change of its gate. -/
theorem updateNode_assemble (hc : c.Valid) {p : Pin} {i : Nat} {x : Gate Definition}
    (hx : c.gates[i]? = some x) (hid : p.gate = some x.id) {value : Bool} {f : Node ε → Node ε}
    (hf : Node.ofGate compile (x.supply p.index.toInt.toNat value) = f (Node.ofGate compile x)) :
    (assemble compile c).updateNode i f = assemble compile (c.supply p value) := by
  have hnodes : ((assemble compile c).updateNode i f).nodes =
      (assemble compile (c.supply p value)).nodes := by
    refine List.ext_getElem? fun j => ?_
    rw [getElem?_updateNode, assemble, assemble, Circuit.supply, List.getElem?_map,
      List.getElem?_map, List.getElem?_map]
    by_cases hij : i = j
    · subst hij
      rw [if_pos rfl, hx, Option.map_some, Option.map_some, Option.map_some, Option.map_some,
        if_pos hid, hf]
    · rw [if_neg hij]
      cases hg : c.gates[j]? with
      | none => rfl
      | some g =>
        -- another gate has another identifier
        have hne : ¬ p.gate = some g.id := by
          intro hgate
          refine hij (hc.place_eq hg ?_)
          rw [List.getElem?_map, hx, Option.map_some]
          exact hid.symm.trans hgate
        rw [Option.map_some, Option.map_some, Option.map_some, if_neg hne]
  exact congrArg₂ Netlist.mk hnodes (c.similar_supply p value).connections_assemble.symm

/-- **To put a signal into the netlist is to put it into the circuit.** -/
theorem write_assemble (hc : c.Valid) {p : Pin} {b : InputBinding} (hb : p.Binds c b)
    (value : Bool) : b.write value (assemble compile c) = assemble compile (c.supply p value) := by
  cases b with
  | gate i =>
    obtain ⟨x, hx, hid, hk⟩ := hb
    exact updateNode_assemble hc hx hid (Node.ofGate_supply_of_input hk _ value)
  | pin i k =>
    obtain ⟨x, hx, hid, hk, rfl⟩ := hb
    exact updateNode_assemble hc hx hid (Node.ofGate_supply_of_ne hk _ value)

/-- **The same for several signals**, one after the other. -/
theorem writeAll_assemble (hc : c.Valid) {pins : List Pin} {bindings : List InputBinding}
    (hbinds : List.Forall₂ (Pin.Binds c) pins bindings) (values : List Bool) :
    InputBinding.writeAll (bindings.zip values) (assemble compile c) =
      assemble compile (c.supplyAll (pins.zip values)) := by
  induction pins generalizing c bindings values with
  | nil =>
    cases hbinds
    rfl
  | cons p pins ih =>
    cases hbinds with
    | cons hb hrest =>
      cases values with
      | nil => rfl
      | cons value values =>
        have hsimilar := c.similar_supply p value
        rw [List.zip_cons_cons, List.zip_cons_cons, InputBinding.writeAll, Circuit.supplyAll,
          List.foldl_cons, List.foldl_cons, write_assemble hc hb]
        exact ih (hsimilar.valid hc) (hrest.imp fun _ _ h => h.similar hsimilar) values

end Netlist

/-- A list that was mapped with success stands in the relation of the map to its result. -/
theorem forall₂_of_mapM_ok {α β : Type} {f : α → Except String β} {l : List α} {l' : List β}
    (h : l.mapM f = .ok l') : List.Forall₂ (fun a b => f a = .ok b) l l' := by
  obtain ⟨hlength, hget⟩ := getElem?_of_mapM_ok h
  refine List.forall₂_iff_get.mpr ⟨hlength.symm, fun i hi hi' => ?_⟩
  obtain ⟨b, hb, hfb⟩ := hget (List.getElem?_eq_getElem hi)
  rw [List.getElem?_eq_getElem hi'] at hb
  exact (congrArg Except.ok (Option.some.inj hb)).symm ▸ hfb

/-- **What a custom gate evaluates** is the netlist of its circuit with the signals at its inputs. -/
theorem Definition.load_eq_assemble {d : Definition} {inner : Circuit Definition}
    {sub : SubCircuit ε} (hvalid : inner.Valid)
    (hlink : d.linkCircuit (Netlist.assemble compile inner) = .ok sub) (values : List Bool) :
    sub.load values = Netlist.assemble compile (d.supplied inner values) := by
  obtain ⟨htemplate, -, hinputs, -⟩ := linkCircuit_eq_ok hlink
  have hbinds : List.Forall₂ (Pin.Binds inner) d.inputs sub.inputs :=
    (forall₂_of_mapM_ok hinputs).imp fun _ _ h => binds_of_bindInput h
  rw [SubCircuit.load_eq, htemplate]
  exact Netlist.writeAll_assemble hvalid hbinds values

end LogicSim
