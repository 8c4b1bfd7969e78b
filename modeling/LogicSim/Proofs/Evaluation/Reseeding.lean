import LogicSim.Proofs.Netlist.Equations
import LogicSim.Proofs.Service.Returned

/-!
# A circuit holds its whole state

What a netlist comes to in passes can be written into its circuit and read back without a loss: the
netlist of the circuit that comes back is the netlist that was written
(`Netlist.Carried.assemble_writeBack`).

An input gate, a flip-flop and a latch are rebuilt with the signals of their memory at their outputs,
and with no others. This is what they show anyway, as long as they do not fail and have no further
outputs, which is the case for circuits with standard pins (`Circuit.Standard`).

* `Node.Kept` -- what is true of a node in all passes, whatever the pins of its gate;
* `Node.Carried` -- the same with standard pins, and all that a gate has to hold;
* `Netlist.Each.delayed`, `Netlist.Each.immediate` -- passes keep what reactions keep;
* `Netlist.Kept.assemble_writeBack` -- what is read back: the netlist with the signals of memory shown
  (`Netlist.reseed`);
* `Netlist.Kept.writeBack_writeBack` -- nothing remains of what was written before.
-/

namespace LogicSim

variable {ε : Type} {run : ε → Reaction} {instant : Instant}
  {compile : Definition → Except String ε} {g : Gate Definition}

/-! ## 1. Elements of a gate -/

namespace Element

/-- An element that can stand for a gate: one with some memory of the kind of the gate, or what the
    gate is made into. -/
def Fits (compile : Definition → Except String ε) (g : Gate Definition) : Element ε → Prop
  | .input _ => g.kind = .input
  | .clock _ => g.kind = .clock
  | .flipFlop _ => g.kind = .flipFlop
  | .latch _ => g.kind = .latch
  | e => e = ofGate compile g

theorem fits_ofGate (compile : Definition → Except String ε) (g : Gate Definition) :
    (ofGate compile g).Fits compile g := by
  have hkind := kind_ofGate compile g
  cases he : ofGate compile g with
  | input value => exact (he ▸ hkind).symm
  | clock m => exact (he ▸ hkind).symm
  | flipFlop m => exact (he ▸ hkind).symm
  | latch m => exact (he ▸ hkind).symm
  | _ => exact he.symm

theorem Fits.kind_eq {e : Element ε} (h : e.Fits compile g) : e.kind = g.kind := by
  cases e with
  | input value => exact Eq.symm h
  | clock m => exact Eq.symm h
  | flipFlop m => exact Eq.symm h
  | latch m => exact Eq.symm h
  | _ => exact (congrArg kind h).trans (kind_ofGate compile g)

/-- **An evaluation changes no more than the memory.** -/
theorem Fits.evaluate {e e' : Element ε} {inputs : List Bool} {answer : Answer}
    (h : e.evaluate run instant inputs = .ok (e', answer)) (hfits : e.Fits compile g) :
    e'.Fits compile g := by
  rcases evaluate_cases h with
    rfl | ⟨m, m', level, rfl, -, rfl, -⟩ | ⟨m, d, level, rfl, -, rfl, -⟩ |
      ⟨m, set, reset, rfl, -, rfl, -⟩
  · exact hfits
  · exact hfits
  · exact hfits
  · exact hfits

/-- The signals that an element remembers having shown. -/
def recorded : Element ε → Option (List Bool)
  | .input value => some [value]
  | .flipFlop m => some [m.q, m.qBar]
  | .latch m => some [m.q, m.qBar]
  | _ => none

theorem startOutputs_eq (e : Element ε) (g : Gate Definition) :
    e.startOutputs g = e.recorded.getD (Signal.resize g.outputs g.outputCount) := by
  cases e <;> rfl

/-- An element remembers what it answers. -/
theorem recorded_of_evaluate {e e' : Element ε} {inputs signals : List Bool} {answer : Answer}
    (h : e.evaluate run instant inputs = .ok (e', answer)) (hrecorded : e'.recorded = some signals) :
    answer.outputs = signals := by
  rcases evaluate_cases h with
    rfl | ⟨m, m', level, rfl, -, rfl, rfl⟩ | ⟨m, d, level, rfl, -, rfl, rfl⟩ |
      ⟨m, set, reset, rfl, -, rfl, rfl⟩
  · cases e' with
    | input value =>
      obtain ⟨-, rfl⟩ := Prod.ext_iff.mp (Except.ok.inj h)
      exact Option.some.inj hrecorded
    | flipFlop m | latch m =>
      simp only [evaluate] at h
      split at h
      · obtain ⟨he, rfl⟩ := Prod.ext_iff.mp (Except.ok.inj h)
        exact Option.some.inj ((congrArg recorded he).trans hrecorded)
      · cases h
    | _ => cases hrecorded
  · cases hrecorded
  · exact Option.some.inj hrecorded
  · exact Option.some.inj hrecorded

/-- Nothing but an input becomes one, and an input answers with its signal. -/
theorem input_of_evaluate {e : Element ε} {value : Bool} {inputs : List Bool} {answer : Answer}
    (h : e.evaluate run instant inputs = .ok (.input value, answer)) :
    e = .input value ∧ answer.outputs = [value] := by
  refine ⟨?_, recorded_of_evaluate h rfl⟩
  rcases evaluate_cases h with hsame | ⟨_, _, _, -, -, hclock, -⟩ |
    ⟨_, _, _, -, -, hflipFlop, -⟩ | ⟨_, _, _, -, -, hlatch, -⟩
  · exact hsame.symm
  · cases hclock
  · cases hflipFlop
  · cases hlatch

/-- What an element remembers are the outputs with which its gate comes back. -/
theorem Fits.length_recorded {e : Element ε} {signals : List Bool} (h : e.Fits compile g)
    (hrecorded : e.recorded = some signals) : signals.length = g.returnedOutputs := by
  cases e with
  | input value =>
    have hk : g.kind = .input := h
    rw [← Option.some.inj hrecorded, Gate.returnedOutputs, hk]
    rfl
  | flipFlop m =>
    have hk : g.kind = .flipFlop := h
    rw [← Option.some.inj hrecorded, Gate.returnedOutputs, hk]
    rfl
  | latch m =>
    have hk : g.kind = .latch := h
    rw [← Option.some.inj hrecorded, Gate.returnedOutputs, hk]
    rfl
  | _ => cases hrecorded

/-- An element that remembers its outputs fails only for the number of its inputs. -/
theorem exists_evaluate {e : Element ε} {inputs signals : List Bool}
    (hrecorded : e.recorded = some signals)
    (hinputs : e.kind = .flipFlop ∨ e.kind = .latch → inputs.length = 2) :
    ∃ e' answer, e.evaluate run instant inputs = .ok (e', answer) := by
  cases e with
  | input value => exact ⟨_, _, rfl⟩
  | flipFlop m =>
    obtain ⟨d, level, rfl⟩ := List.length_eq_two.mp (hinputs (.inl rfl))
    exact ⟨_, _, rfl⟩
  | latch m =>
    obtain ⟨set, reset, rfl⟩ := List.length_eq_two.mp (hinputs (.inr rfl))
    exact ⟨_, _, rfl⟩
  | _ => cases hrecorded

/-- What a gate without a recorded signal is made into does not depend on its signals. -/
theorem ofGate_of_unrecorded (h : (ofGate compile g).recorded = none) (inputs outputs : List Bool) :
    ofGate compile { g with inputs, outputs } = ofGate compile g := by
  unfold ofGate at h ⊢
  cases hk : g.kind with
  | input | flipFlop | latch =>
    rw [hk] at h
    cases h
  | _ => rfl

/-- **An element is read back from its gate.** The signal of an input gate is read from its
    output. -/
theorem ofGate_store {e : Element ε} (hfits : e.Fits compile g) {inputs outputs : List Bool}
    (hvalue : ∀ value, e = .input value → outputs = [value]) :
    ofGate compile { g with inputs, outputs, metadata := e.store g.metadata } = e := by
  cases e with
  | input value =>
    have hk : g.kind = .input := hfits
    rw [hvalue _ rfl, ofGate]
    dsimp only
    rw [hk]
    rfl
  | clock m =>
    have hk : g.kind = .clock := hfits
    rw [ofGate]
    dsimp only
    rw [hk]
    rfl
  | flipFlop m =>
    have hk : g.kind = .flipFlop := hfits
    rw [ofGate]
    dsimp only
    rw [hk]
    rfl
  | latch m =>
    have hk : g.kind = .latch := hfits
    rw [ofGate]
    dsimp only
    rw [hk]
    rfl
  | _ =>
    have he := Eq.symm hfits
    exact (ofGate_of_unrecorded (by rw [he]; rfl) ..).trans he

/-- Of what another element of the gate has stored nothing remains. -/
theorem store_store {δ : Type} {e e' : Element ε} (h : e.Fits compile g) (h' : e'.Fits compile g)
    (m : Metadata δ) : e'.store (e.store m) = e'.store m := by
  cases e with
  | clock _ | flipFlop _ | latch _ =>
    -- the gate is of the same kind, and so is the other element
    simp only [Fits] at h
    cases e' <;> simp_all [Fits, ofGate, store]
  | _ => rfl

/-- Only a custom gate has contents, and they do not change. -/
theorem Fits.contents_eq {e : Element ε} (h : e.Fits compile g) (contents : ε → Nat) :
    (match e with
      | .custom x => 1 + contents x
      | _ => 1) = match ofGate compile g with
      | .custom x => 1 + contents x
      | _ => 1 := by
  cases e with
  | input _ | clock _ | flipFlop _ | latch _ =>
    simp only [Fits] at h
    simp only [ofGate, h]
  | _ => rw [← h]

end Element

/-! ## 2. Nodes of a gate -/

/-- **Standard pins**: an input gate that stores at most one output, a flip-flop or latch that stores
    at most two inputs and at most two outputs. -/
structure Gate.Standard (g : Gate Definition) : Prop where
  input : g.kind = .input → g.outputs.length ≤ 1
  inputs : g.kind = .flipFlop ∨ g.kind = .latch → g.inputs.length ≤ 2
  outputs : g.kind = .flipFlop ∨ g.kind = .latch → g.outputs.length ≤ 2

instance (g : Gate Definition) : Decidable g.Standard :=
  decidable_of_iff
    ((g.kind = .input → g.outputs.length ≤ 1) ∧
      (g.kind = .flipFlop ∨ g.kind = .latch → g.inputs.length ≤ 2) ∧
      (g.kind = .flipFlop ∨ g.kind = .latch → g.outputs.length ≤ 2))
    ⟨fun ⟨input, inputs, outputs⟩ => ⟨input, inputs, outputs⟩,
      fun h => ⟨h.input, h.inputs, h.outputs⟩⟩

theorem Gate.Standard.inputCount (h : g.Standard) (hk : g.kind = .flipFlop ∨ g.kind = .latch) :
    g.inputCount = 2 := by
  have hinputs := h.inputs hk
  rw [Gate.inputCount]
  rcases hk with hk | hk
  · rw [hk]
    exact Nat.max_eq_right hinputs
  · rw [hk]
    exact Nat.max_eq_right hinputs

/-- A gate with standard pins comes back with all its outputs. -/
theorem Gate.Standard.returnedOutputs (h : g.Standard) : g.returnedOutputs = g.outputCount := by
  rw [Gate.returnedOutputs]
  cases hk : g.kind with
  | input =>
    rw [Gate.outputCount, hk]
    exact (Nat.max_eq_right (h.input hk)).symm
  | flipFlop =>
    rw [Gate.outputCount, hk]
    exact (Nat.max_eq_right (h.outputs (.inl hk))).symm
  | latch =>
    rw [Gate.outputCount, hk]
    exact (Nat.max_eq_right (h.outputs (.inr hk))).symm
  | _ => rfl

namespace Node

theorem react_of_forced {n : Node ε} {inputs : List Bool} {value : Bool}
    (hforced : n.forced = some value) : (n.react run instant inputs).1 =
      { n with inputs, outputs := forceFirst value n.outputs } := by
  rw [react]
  split
  · rename_i value' hvalue
    obtain rfl : value' = value := Option.some.inj (hvalue.symm.trans hforced)
    rfl
  · rename_i hnone
    cases hnone.symm.trans hforced

theorem react_of_ok {n : Node ε} {inputs : List Bool} {element : Element ε} {answer : Answer}
    (hforced : n.forced = none)
    (h : n.element.evaluate run instant inputs = .ok (element, answer)) :
    (n.react run instant inputs).1 =
      { n with element, inputs, outputs := Signal.resize answer.outputs n.outputs.length } := by
  rw [react, hforced]
  simp only [h]

theorem react_of_error {n : Node ε} {inputs : List Bool} {fault : Fault} (hforced : n.forced = none)
    (h : n.element.evaluate run instant inputs = .error fault) :
    (n.react run instant inputs).1 =
      { n with inputs, outputs := List.replicate n.outputs.length false } := by
  rw [react, hforced]
  simp only [h]

/-- **The node of a gate in the course of passes**: it has the pins of the gate and an element that
    can stand for it, and an input gate shows its signal. -/
structure Kept (compile : Definition → Except String ε) (g : Gate Definition) (n : Node ε) :
    Prop where
  shape : n.shape = (ofGate compile g).shape
  forced : n.forced = none
  fits : n.element.Fits compile g
  value : ∀ value, n.element = .input value → n.outputs = [value]

theorem kept_ofGate (compile : Definition → Except String ε) (g : Gate Definition) :
    (ofGate compile g).Kept compile g := by
  refine ⟨rfl, rfl, Element.fits_ofGate compile g, fun value h => ?_⟩
  rw [element_ofGate] at h
  rw [ofGate, h]
  rfl

theorem Kept.length_inputs {n : Node ε} (h : n.Kept compile g) : n.inputs.length = g.inputCount :=
  (congrArg Shape.inputs h.shape).trans (Signal.length_resize ..)

theorem Kept.length_outputs {n : Node ε} (h : n.Kept compile g) :
    n.outputs.length = g.returnedOutputs := (congrArg Shape.outputs h.shape).trans length_startOutputs

/-- **A pass keeps it.** -/
theorem Kept.react {n : Node ε} (h : n.Kept compile g) {inputs : List Bool}
    (hinputs : inputs.length = n.inputs.length) :
    (n.react run instant inputs).1.Kept compile g := by
  have hshape : (n.react run instant inputs).1.shape = (ofGate compile g).shape :=
    (n.shape_react hinputs).trans h.shape
  cases he : n.element.evaluate run instant inputs with
  | ok result =>
    obtain ⟨element, answer⟩ := result
    rw [react_of_ok h.forced he] at hshape ⊢
    refine ⟨hshape, h.forced, h.fits.evaluate he, fun value hvalue => ?_⟩
    obtain rfl : element = .input value := hvalue
    obtain ⟨hinput, hanswer⟩ := Element.input_of_evaluate he
    rw [hanswer, h.value value hinput]
    rfl
  | error fault =>
    rw [react_of_error h.forced he] at hshape ⊢
    refine ⟨hshape, h.forced, h.fits, fun value hvalue => ?_⟩
    rw [show n.element = .input value from hvalue] at he
    cases he

/-- **After a pass a node shows what it remembers**, unless it has failed for the number of its
    inputs. -/
theorem Kept.shows_react {n : Node ε} (h : n.Kept compile g)
    (hcount : g.kind = .flipFlop ∨ g.kind = .latch → g.inputCount = 2) {inputs : List Bool}
    (hinputs : inputs.length = n.inputs.length) (signals : List Bool)
    (hrecorded : (n.react run instant inputs).1.element.recorded = some signals) :
    (n.react run instant inputs).1.outputs = signals := by
  have hlength : signals.length = g.returnedOutputs := (h.react hinputs).fits.length_recorded hrecorded
  cases he : n.element.evaluate run instant inputs with
  | ok result =>
    obtain ⟨element, answer⟩ := result
    rw [react_of_ok h.forced he] at hrecorded ⊢
    rw [Element.recorded_of_evaluate he hrecorded, h.length_outputs, ← hlength,
      Signal.resize_length]
  | error fault =>
    rw [react_of_error h.forced he] at hrecorded
    -- an element that remembers its outputs has not failed
    have hsucceeds : ∃ e' answer, n.element.evaluate run instant inputs = .ok (e', answer) := by
      refine Element.exists_evaluate hrecorded fun hk => ?_
      rw [hinputs, h.length_inputs, hcount (h.fits.kind_eq ▸ hk)]
    obtain ⟨e', answer, hok⟩ := hsucceeds
    rw [he] at hok
    cases hok

/-- A node as it is read back: it shows what it remembers having shown. -/
def reseed (n : Node ε) : Node ε := { n with outputs := n.element.recorded.getD n.outputs }

/-- What shows its memory is read back as it is. -/
theorem reseed_of_shows {n : Node ε}
    (h : ∀ signals, n.element.recorded = some signals → n.outputs = signals) : n.reseed = n := by
  rw [reseed]
  cases hrecorded : n.element.recorded with
  | none => rfl
  | some signals => rw [Option.getD_some, ← h signals hrecorded]

/-- **The gate gives the node back**, with the signals of its memory shown. -/
theorem Kept.ofGate_store {n : Node ε} (h : n.Kept compile g) :
    ofGate compile (n.store g) = n.reseed := by
  have helement : Element.ofGate compile (n.store g) = n.element :=
    Element.ofGate_store h.fits h.value
  have hinputs : Signal.resize (n.store g).inputs (n.store g).inputCount = n.inputs := by
    rw [inputCount_store h.shape, ← h.length_inputs]
    exact Signal.resize_length n.inputs
  have houtputs : n.element.startOutputs (n.store g) = n.element.recorded.getD n.outputs := by
    rw [Element.startOutputs_eq]
    cases n.element.recorded with
    | some signals => rfl
    | none =>
      rw [Option.getD_none, Option.getD_none, outputCount_store h.shape, ← h.length_outputs]
      exact Signal.resize_length n.outputs
  obtain ⟨id, element, inputs, outputs, forced⟩ := n
  have hid : id = g.id := congrArg Shape.id h.shape
  have hforced : forced = none := h.forced
  rw [ofGate, helement, hinputs, houtputs, hid, hforced]
  rfl

/-- **A node that its gate can carry**: the gate has its pins, and what it remembers it shows. -/
structure Carried (compile : Definition → Except String ε) (g : Gate Definition) (n : Node ε) :
    Prop where
  shape : n.shape = (ofGate compile g).shape
  forced : n.forced = none
  fits : n.element.Fits compile g
  shows : ∀ signals, n.element.recorded = some signals → n.outputs = signals

theorem carried_ofGate (compile : Definition → Except String ε) (g : Gate Definition) :
    (ofGate compile g).Carried compile g := by
  refine ⟨rfl, rfl, Element.fits_ofGate compile g, fun signals h => ?_⟩
  rw [ofGate, Element.startOutputs_eq]
  rw [element_ofGate] at h
  rw [h, Option.getD_some]

theorem Carried.kept {n : Node ε} (h : n.Carried compile g) : n.Kept compile g :=
  ⟨h.shape, h.forced, h.fits, fun value he => h.shows [value] (by rw [he]; rfl)⟩

/-- **A pass keeps it**, if the gate has standard pins. -/
theorem Carried.react {n : Node ε} (h : n.Carried compile g) (hg : g.Standard) {inputs : List Bool}
    (hinputs : inputs.length = n.inputs.length) :
    (n.react run instant inputs).1.Carried compile g :=
  have hkept := h.kept.react hinputs
  ⟨hkept.shape, hkept.forced, hkept.fits, h.kept.shows_react hg.inputCount hinputs⟩

end Node

/-! ## 3. Netlists of a circuit -/

/-- A circuit all of whose gates have standard pins. -/
def Circuit.Standard (c : Circuit Definition) : Prop := ∀ g ∈ c.gates, g.Standard

instance (c : Circuit Definition) : Decidable c.Standard :=
  inferInstanceAs (Decidable (∀ g ∈ c.gates, g.Standard))

/-- A valid circuit with standard pins loses no source. -/
theorem Circuit.Standard.valid_writeBack {c : Circuit Definition} (h : c.Standard) (hc : c.Valid)
    {net : Netlist ε} (hshape : net.shape = (Netlist.assemble compile c).shape) :
    (net.writeBack c).Valid := by
  refine (valid_writeBack_iff hc hshape).mpr fun w hw => ?_
  obtain ⟨g, hg, hid, hpin⟩ := hc.source w hw
  rw [not_losesSource_iff hc hg hid hpin, (h g hg).returnedOutputs]
  exact hpin

/-- The connection of the ends of a wire, among gates with identifiers. -/
def Connection.ofEnds? (ids : List GateId) (ends : WireId × Endpoint × Endpoint) (number : Nat) :
    Option Connection := do
  return {
    wire := number
    source := ← ids.findIdx? (· = ends.2.1.gate)
    sourcePin := ends.2.1.outputPin
    sink := ← ids.findIdx? (· = ends.2.2.gate)
    sinkPin := ← ends.2.2.inputPin? }

/-- A wire is connected by its ends. -/
theorem Connection.ofWire?_eq (nodes : List (Node ε)) (w : Wire) (number : Nat) :
    ofWire? nodes w number = ofEnds? (nodes.map (·.id)) w.ends number := by
  simp only [ofWire?, ofEnds?, List.findIdx?_map]
  rfl

namespace Netlist

variable {c : Circuit Definition} {net net' : Netlist ε}

/-- **Every node stands in a relation to its gate.** -/
def Each (P : Gate Definition → Node ε → Prop) (c : Circuit Definition) (net : Netlist ε) : Prop :=
  ∀ (i : Nat) g n, c.gates[i]? = some g → net.nodes[i]? = some n → P g n

section Each

variable {P : Gate Definition → Node ε → Prop}

theorem each_assemble (h : ∀ g, P g (Node.ofGate compile g)) : (assemble compile c).Each P c := by
  intro i g n hg hn
  rw [getElem?_assemble hg] at hn
  exact Option.some.inj hn ▸ h g

variable (hreact : ∀ g ∈ c.gates, ∀ (n : Node ε) inputs,
  P g n → inputs.length = n.inputs.length → P g (n.react run instant inputs).1)

include hreact

/-- **A delayed pass keeps what reactions keep.** -/
theorem Each.delayed (h : net.Each P c) : (net.delayed run instant).netlist.Each P c := by
  intro i g n hg hn
  rw [getElem?_delayed, Option.map_eq_some_iff] at hn
  obtain ⟨n', hn', rfl⟩ := hn
  exact hreact g (List.mem_of_getElem? hg) n' _ (h i g n' hg hn') (length_gather hn' _)

theorem Each.visit {s : Sweep ε} (h : s.netlist.Each P c) (schedule : Schedule) (net : Netlist ε)
    (v : Nat) : (Netlist.visit run schedule instant net s v).netlist.Each P c := by
  intro i g n hg hn
  by_cases hiv : v = i
  · subst hiv
    rw [getElem?_visit_self, reactAt, Option.map_eq_some_iff] at hn
    obtain ⟨n', hn', rfl⟩ := hn
    exact hreact g (List.mem_of_getElem? hg) n' _ (h v g n' hg hn') (length_gather hn' _)
  · rw [getElem?_visit_of_ne _ _ _ _ _ hiv] at hn
    exact h i g n hg hn

/-- **So does an immediate pass**, visit by visit. -/
theorem Each.immediate (h : net.Each P c) (schedule : Schedule) :
    (net.immediate run schedule instant).netlist.Each P c :=
  immediate_keeps (fun _ v hs => Each.visit hreact hs schedule net v) h

end Each

/-- **The netlist of a circuit in the course of passes.** -/
structure Kept (compile : Definition → Except String ε) (c : Circuit Definition) (net : Netlist ε) :
    Prop where
  shape : net.shape = (assemble compile c).shape
  node : net.Each (Node.Kept compile) c

theorem kept_assemble (compile : Definition → Except String ε) (c : Circuit Definition) :
    (assemble compile c).Kept compile c := ⟨rfl, each_assemble (Node.kept_ofGate compile)⟩

/-- Every gate has its node. -/
theorem Kept.exists_node (h : net.Kept compile c) {i : Nat} {g : Gate Definition}
    (hg : c.gates[i]? = some g) : ∃ n, net.nodes[i]? = some n ∧ n.Kept compile g := by
  obtain ⟨n, hn, -⟩ := exists_of_shape h.shape (getElem?_assemble hg)
  exact ⟨n, hn, h.node i g n hg hn⟩

/-- Every node has its gate. -/
theorem Kept.exists_gate (h : net.Kept compile c) {i : Nat} {n : Node ε}
    (hn : net.nodes[i]? = some n) : ∃ g, c.gates[i]? = some g ∧ n.Kept compile g := by
  have hi : i < c.gates.length := length_of_assemble h.shape ▸ (List.getElem?_eq_some_iff.mp hn).1
  exact ⟨_, List.getElem?_eq_getElem hi, h.node i _ n (List.getElem?_eq_getElem hi) hn⟩

theorem Kept.delayed (h : net.Kept compile c) :
    (net.delayed run instant).netlist.Kept compile c :=
  ⟨(shape_delayed net).trans h.shape, h.node.delayed fun _ _ _ _ hn => hn.react⟩

theorem Kept.immediate (h : net.Kept compile c) (schedule : Schedule) :
    (net.immediate run schedule instant).netlist.Kept compile c :=
  ⟨(shape_immediate ..).trans h.shape, h.node.immediate (fun _ _ _ _ hn => hn.react) schedule⟩

/-- Passes do not change the number of gates. -/
theorem Kept.expandedSize_eq (h : net.Kept compile c) (contents : ε → Nat) :
    net.expandedSize contents = (assemble compile c).expandedSize contents := by
  refine congrArg (List.foldr (· + ·) 0) (List.ext_getElem? fun i => ?_)
  rw [List.getElem?_map, List.getElem?_map]
  cases hg : c.gates[i]? with
  | none =>
    have hlength : (assemble compile c).nodes.length = c.gates.length := List.length_map _
    rw [List.getElem?_eq_none_iff] at hg
    rw [List.getElem?_eq_none (length_of_assemble h.shape ▸ hg),
      List.getElem?_eq_none (hlength ▸ hg)]
  | some g =>
    obtain ⟨n, hn, hkept⟩ := h.exists_node hg
    rw [hn, getElem?_assemble hg]
    exact congrArg some (hkept.fits.contents_eq contents)

/-- Connections are made from the identifiers of the gates and the ends of the wires. -/
theorem connections_assemble (compile : Definition → Except String ε) (c : Circuit Definition) :
    (assemble compile c).connections = ((c.wires.map Wire.ends).zipIdx).filterMap fun p =>
      Connection.ofEnds? (c.gates.map (·.id)) p.1 p.2 := by
  rw [List.zipIdx_map, List.filterMap_map, assemble]
  refine List.filterMap_congr fun p _ => ?_
  obtain ⟨w, number⟩ := p
  refine (Connection.ofWire?_eq _ w number).trans ?_
  rw [List.map_map]
  rfl

/-- A netlist as it is read back: every node shows what it remembers having shown. -/
def reseed (net : Netlist ε) : Netlist ε := { net with nodes := net.nodes.map Node.reseed }

theorem reseed_eq_self (h : ∀ n ∈ net.nodes, n.reseed = n) : net.reseed = net :=
  congrArg (Netlist.mk · net.connections)
    ((List.map_congr_left h).trans (List.map_id net.nodes))

/-- **The netlist that was written is read back**, with the signals of memory shown. -/
theorem Kept.assemble_writeBack (h : net.Kept compile c) :
    assemble compile (net.writeBack c) = net.reseed := by
  have hnodes : (assemble compile (net.writeBack c)).nodes = net.reseed.nodes := by
    refine List.ext_getElem? fun i => ?_
    rw [assemble, List.getElem?_map, reseed, List.getElem?_map]
    cases hg : c.gates[i]? with
    | none =>
      rw [getElem?_gates_writeBack, hg]
      rw [List.getElem?_eq_none_iff] at hg
      rw [List.getElem?_eq_none (length_of_assemble h.shape ▸ hg)]
      rfl
    | some g =>
      obtain ⟨n, hn, hkept⟩ := h.exists_node hg
      rw [getElem?_gates_writeBack_of_some hg hn, hn, Option.map_some, Option.map_some,
        hkept.ofGate_store]
  have hconnections : (assemble compile (net.writeBack c)).connections = net.connections := by
    rw [connections_of_shape h.shape, connections_assemble, connections_assemble,
      ids_writeBack net c, ends_writeBack net c]
  exact congrArg₂ Netlist.mk hnodes hconnections

/-- **Nothing remains of what was written before.** -/
theorem Kept.writeBack_writeBack (h : net.Kept compile c) (h' : net'.Kept compile c) :
    net'.writeBack (net.writeBack c) = net'.writeBack c := by
  have hgates : (net'.writeBack (net.writeBack c)).gates = (net'.writeBack c).gates := by
    refine List.ext_getElem? fun i => ?_
    cases hg : c.gates[i]? with
    | none =>
      rw [getElem?_gates_writeBack, getElem?_gates_writeBack, getElem?_gates_writeBack, hg]
      rfl
    | some g =>
      obtain ⟨n, hn, hkept⟩ := h.exists_node hg
      obtain ⟨n', hn', hkept'⟩ := h'.exists_node hg
      rw [getElem?_gates_writeBack_of_some (getElem?_gates_writeBack_of_some hg hn) hn',
        getElem?_gates_writeBack_of_some hg hn', Node.store, Node.store,
        Element.store_store hkept.fits hkept'.fits]
      rfl
  have hwires : (net'.writeBack (net.writeBack c)).wires = (net'.writeBack c).wires := by
    refine List.ext_getElem? fun i => ?_
    have hconnections : net'.connections = net.connections :=
      connections_of_shape (h'.shape.trans h.shape.symm)
    rw [getElem?_wires_writeBack, getElem?_wires_writeBack, getElem?_wires_writeBack, Option.map_map,
      hconnections]
    refine congrArg (c.wires[i]?.map ·) (funext fun w => ?_)
    dsimp only [Function.comp]
    cases net.connections.find? (·.wire = i) <;> rfl
  exact congrArg₂ Circuit.mk hgates hwires

/-- **A netlist that its circuit can carry.** -/
structure Carried (compile : Definition → Except String ε) (c : Circuit Definition)
    (net : Netlist ε) : Prop where
  shape : net.shape = (assemble compile c).shape
  node : ∀ (i : Nat) g n, c.gates[i]? = some g → net.nodes[i]? = some n → n.Carried compile g

theorem carried_assemble (compile : Definition → Except String ε) (c : Circuit Definition) :
    (assemble compile c).Carried compile c := ⟨rfl, each_assemble (Node.carried_ofGate compile)⟩

theorem Carried.kept (h : net.Carried compile c) : net.Kept compile c :=
  ⟨h.shape, fun i g n hg hn => (h.node i g n hg hn).kept⟩

/-- **Passes keep it**, if the gates have standard pins. -/
theorem Carried.delayed (h : net.Carried compile c) (hc : c.Standard) :
    (net.delayed run instant).netlist.Carried compile c :=
  ⟨(shape_delayed net).trans h.shape, Each.delayed (fun g hg _ _ hn => hn.react (hc g hg)) h.node⟩

theorem Carried.immediate (h : net.Carried compile c) (hc : c.Standard) (schedule : Schedule) :
    (net.immediate run schedule instant).netlist.Carried compile c :=
  ⟨(shape_immediate ..).trans h.shape,
    Each.immediate (fun g hg _ _ hn => hn.react (hc g hg)) h.node schedule⟩

/-- **The netlist that was written is read back** as it was. -/
theorem Carried.assemble_writeBack (h : net.Carried compile c) :
    assemble compile (net.writeBack c) = net := by
  rw [h.kept.assemble_writeBack]
  refine reseed_eq_self fun n hn => ?_
  obtain ⟨i, hi⟩ := List.getElem?_of_mem hn
  obtain ⟨g, hg, -⟩ := h.kept.exists_gate hi
  exact Node.reseed_of_shows (h.node i g n hg hi).shows

end Netlist

end LogicSim
