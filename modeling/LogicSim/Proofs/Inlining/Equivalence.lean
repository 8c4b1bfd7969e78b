import LogicSim.Proofs.Inlining.Paths

/-!
# An inlined circuit does the same

The solution of the circuit with a custom gate and the solution inside that gate together solve the
circuit with the gate inlined. Solutions are unique, so an immediate evaluation finds this one, and
the other gates are what they are with the custom gate.

* `Inlining.state` -- the two solutions put together;
* `Inlining.Applies.solves_state` -- they solve the new circuit;
* `Inlining.immediate_circuit` -- an immediate evaluation does not tell the circuits apart.
-/

namespace LogicSim

/-- A node under another identifier follows in the same way. -/
theorem Node.Follows.rename {ε : Type} {run : ε → Reaction} {instant : Instant} {b a : Node ε}
    (h : b.Follows run instant a) (id : GateId) :
    Node.Follows run instant { b with id := id } { a with id := id } :=
  ⟨rfl, h.forced, h.pins, h.held, h.evaluated, h.failed⟩

namespace Inlining

variable {p : Inlining} {deepest : Nat} {c : Circuit Definition} {x : Gate Definition} {k : Nat}
  {instant : Instant} {compile compile' : Definition → Except String Expansion}
  {after inside : GateId → Node Expansion}

/-! ## 1. The two solutions put together -/

/-- The node of a copy: that of the gate inside, or one that passes on the signal of an input
    pin. -/
def copyNode (p : Inlining) (signals : List Bool) (x : Gate Definition) (n : Node Expansion) :
    Node Expansion :=
  match p.definition.inputOf x.id with
  | some k => { n with
      id := p.gateName x.id
      element := .output
      inputs := [signals.getD k false] }
  | none => { n with id := p.gateName x.id }

/-- The nodes of the new circuit, from those `after` a pass of the circuit around the gate and those
    `inside` it. -/
def state (p : Inlining) (after inside : GateId → Node Expansion) (id : GateId) : Node Expansion :=
  match p.inner.gates.find? fun x => p.gateName x.id = id with
  | some x => p.copyNode (after p.gate.id).inputs x (inside x.id)
  | none => after id

/-- The nodes inside the gate when those around it are `after`: a solution for the signals that the
    gate sees, which it shows at its outputs. -/
structure Inside (p : Inlining) (compile : Definition → Except String Expansion) (instant : Instant)
    (after inside : GateId → Node Expansion) : Prop where
  pins : (after p.gate.id).inputs.length = p.definition.inputs.length
  solves : p.inner.Solves Expansion.react instant
    (p.definition.loaded compile p.inner (after p.gate.id).inputs) inside
  shows : ∀ {k : Nat} {pin : Pin}, p.definition.outputs[k]? = some pin →
    (after p.gate.id).outputs.getD k false =
      (inside (pin.origin p.inner).gate).outputs.getD (pin.origin p.inner).outputPin false

@[simp] theorem outputs_copyNode (signals : List Bool) (n : Node Expansion) :
    (p.copyNode signals x n).outputs = n.outputs := by
  unfold copyNode
  split <;> rfl

theorem copyNode_of_some (hk : p.definition.inputOf x.id = some k) (signals : List Bool)
    (n : Node Expansion) : p.copyNode signals x n = { n with
      id := p.gateName x.id
      element := .output
      inputs := [signals.getD k false] } := by
  rw [copyNode, hk]

theorem copyNode_of_none (hk : p.definition.inputOf x.id = none) (signals : List Bool)
    (n : Node Expansion) : p.copyNode signals x n = { n with id := p.gateName x.id } := by
  rw [copyNode, hk]

namespace Applies

theorem state_copy (h : p.Applies deepest c) (hx : x ∈ p.inner.gates) :
    p.state after inside (p.gateName x.id) =
      p.copyNode (after p.gate.id).inputs x (inside x.id) := by
  unfold state
  cases hfind : p.inner.gates.find? fun y => p.gateName y.id = p.gateName x.id with
  | none =>
    rw [List.find?_eq_none] at hfind
    exact absurd (by simp) (hfind x hx)
  | some y =>
    have hname : p.gateName y.id = p.gateName x.id := by simpa using List.find?_some hfind
    rw [h.gateName_inj (List.mem_of_find?_eq_some hfind) hx hname]

theorem state_kept (h : p.Applies deepest c) {g : Gate Definition} (hg : g ∈ c.gates) :
    p.state after inside g.id = after g.id := by
  have hnone : (p.inner.gates.find? fun y => p.gateName y.id = g.id) = none := by
    rw [List.find?_eq_none]
    intro x hx
    simpa using h.freshGates x hx g hg
  rw [state, hnone]

/-! ## 2. What the gate shows -/

/-- **There is a solution inside for what the gate sees, and the gate shows it.** -/
theorem exists_inside (h : p.Applies deepest c) (hc : c.Valid)
    (hafter : c.Solves Expansion.react instant
      (c.startState (Definition.compile deepest deepest)) after) :
    ∃ levels inside, p.Inside (Definition.compile deepest levels) instant after inside := by
  obtain ⟨levels, sub, hcompile, hvalid, hlink⟩ := h.link
  have hfollows := hafter.follows p.gate h.mem
  have hpins := hafter.pins p.gate h.mem
  rw [Circuit.startState_eq hc h.mem] at hfollows hpins
  have helement : (Node.ofGate (Definition.compile deepest deepest) p.gate).element =
      .custom (.circuit sub) := by
    rw [Node.element_ofGate, Element.ofGate, h.kind, h.definition]
    dsimp only
    rw [hcompile]
  have hlength : (Node.ofGate (Definition.compile deepest deepest) p.gate).outputs.length =
      p.definition.outputs.length := by
    rw [← h.outputCount, Node.ofGate, ← Node.element_ofGate, helement]
    exact Signal.length_resize _ _
  rw [Node.inputs_ofGate, Signal.length_resize, h.inputCount] at hpins
  obtain ⟨inside, answer, hsolves, heval, hshows⟩ :=
    h.transparent.answers Expansion.react instant hvalid hlink hpins
  refine ⟨levels, inside, hpins, hsolves, fun {k pin} hk => ?_⟩
  have hk' : k < p.definition.outputs.length := (List.getElem?_eq_some_iff.mp hk).1
  have heval' : (Node.ofGate (Definition.compile deepest deepest) p.gate).element.evaluate
      Expansion.react instant (after p.gate.id).inputs =
        .ok (.custom (.circuit sub), answer) := by
    rw [helement, Element.evaluate, Expansion.react_circuit, heval]
    rfl
  rw [← hshows hk, List.getD_eq_getElem?_getD,
    (hfollows.evaluated rfl _ _ heval').2 k (hlength ▸ hk'), Option.getD_some]

/-! ## 3. Copies -/

/-- The node of a copy follows as that of the gate inside. -/
theorem follows_copy (h : p.Applies deepest c) (hx : x ∈ p.inner.gates) {values : List Bool}
    {n : Node Expansion}
    (hn : (p.definition.loaded compile' p.inner values x.id).Follows Expansion.react instant n) :
    (Node.ofGate compile (p.copyGate x)).Follows Expansion.react instant
      (p.copyNode values x n) := by
  cases hk : p.definition.inputOf x.id with
  | none =>
    have hkind : x.kind ≠ .custom := by
      intro he
      have := h.transparent.kinds x hx
      rw [he] at this
      exact absurd this (by decide)
    rw [Definition.Transparent.loaded_of_none hx h.inner_valid hk] at hn
    have hnode : Node.ofGate compile (p.copyGate x) =
        { Node.ofGate compile' x with id := p.gateName x.id } := by
      rw [copyGate_of_none hk, Node.ofGate, Node.ofGate, ← Element.ofGate_congr compile compile' hkind]
      rfl
    rw [hnode, copyNode_of_none hk]
    exact hn.rename _
  | some k =>
    rw [h.transparent.loaded_of_some h.inner_valid hx hk] at hn
    have hshown : n.outputs[0]? = some (values.getD k false) :=
      (hn.evaluated rfl (.input (values.getD k false)) ⟨[values.getD k false], []⟩ rfl).2 0
        Nat.zero_lt_one
    have helement : (Node.ofGate compile (p.copyGate x)).element = .output := by
      rw [Node.element_ofGate, copyGate_of_some hk, Element.ofGate]
    have hlength : (Node.ofGate compile (p.copyGate x)).outputs.length = 1 := by
      rw [Node.ofGate, ← Node.element_ofGate, helement]
      show (Signal.resize _ _).length = 1
      rw [Signal.length_resize, h.outputCount_copyGate hx, h.transparent.outputPins x hx,
        (h.transparent.kind_of_inputOf h.inner_valid hx hk).2]
      rfl
    rw [copyNode_of_some hk]
    refine ⟨?_, hn.forced, hn.pins.trans hlength.symm, fun value hvalue => ?_,
      fun _ element answer heval => ?_, fun _ fault heval => ?_⟩
    · rw [Node.id_ofGate, id_copyGate]
    · cases hvalue
    · rw [helement] at heval
      obtain ⟨rfl, rfl⟩ := Prod.ext_iff.mp (Except.ok.inj heval)
      refine ⟨rfl, fun pin hpin => ?_⟩
      obtain rfl : pin = 0 := by omega
      exact hshown
    · rw [helement] at heval
      cases heval

theorem inputs_copyGate_of_some (hk : p.definition.inputOf x.id = some k) :
    (Node.ofGate compile (p.copyGate x)).inputs = [p.gate.inputs.getD k false] := by
  rw [copyGate_of_some hk]
  rfl

theorem inputs_copyGate_of_none (hk : p.definition.inputOf x.id = none) :
    (Node.ofGate compile (p.copyGate x)).inputs = Signal.resize x.inputs x.inputCount := by
  rw [copyGate_of_none hk]
  rfl

/-- The node of a copy has the input pins of the copy. -/
theorem pins_copy (h : p.Applies deepest c) (hx : x ∈ p.inner.gates) {values : List Bool}
    {n : Node Expansion} (hn : n.inputs.length =
      (p.definition.loaded compile' p.inner values x.id).inputs.length) :
    (p.copyNode values x n).inputs.length =
      (Node.ofGate compile (p.copyGate x)).inputs.length := by
  cases hk : p.definition.inputOf x.id with
  | none =>
    rw [Definition.Transparent.loaded_of_none hx h.inner_valid hk] at hn
    rw [copyNode_of_none hk, inputs_copyGate_of_none hk]
    exact hn
  | some k =>
    rw [copyNode_of_some hk, inputs_copyGate_of_some hk]
    rfl

/-! ## 4. Wires -/

/-- A wire around the gate shows what it showed. -/
theorem outputs_source (h : p.Applies deepest c) (hc : c.Valid)
    (hinside : p.Inside compile' instant after inside) {w : Wire} (hw : w ∈ c.wires) :
    (p.state after inside (p.redirectSource w.source).gate).outputs.getD
        (p.redirectSource w.source).outputPin false =
      (after w.source.gate).outputs.getD w.source.outputPin false := by
  rcases h.source_cases hc hw with ⟨-, hw'⟩ | ⟨pin, x, hgate, hpin, hx, horigin, -, hw'⟩
  · obtain ⟨g, hg, hid, -⟩ := hc.source w hw
    rw [hw', ← hid, h.state_kept hg]
  · rw [hw', gate_copyEnd, outputPin_copyEnd, horigin, h.state_copy hx, outputs_copyNode, hgate,
      hinside.shows hpin, horigin]

/-- A pin around the gate that a wire drives shows what it showed. -/
theorem inputs_sink (h : p.Applies deepest c) (hc : c.Valid)
    (hinside : p.Inside compile' instant after inside) {w : Wire} (hw : w ∈ c.wires) {pin : Nat}
    (hpin : (p.redirectSink w.sink).inputPin? = some pin) :
    ∃ k, w.sink.inputPin? = some k ∧
      (p.state after inside (p.redirectSink w.sink).gate).inputs[pin]? =
        (after w.sink.gate).inputs[k]? := by
  rcases h.sink_cases hc hw with ⟨-, hw'⟩ | ⟨k, x, hgate, hk, hx, hinput, hw'⟩
  · obtain ⟨g, hg, hid, -⟩ := hc.sink w hw
    rw [hw'] at hpin ⊢
    refine ⟨pin, hpin, ?_⟩
    rw [← hid, h.state_kept hg]
  · rw [hw', Endpoint.inputPin?_input _ (by decide)] at hpin
    obtain rfl : 0 = pin := Option.some.inj hpin
    have hlt : k < (after p.gate.id).inputs.length := by
      rw [hinside.pins]
      exact (h.transparent.kind_of_inputOf h.inner_valid hx hinput).1
    refine ⟨k, hk, ?_⟩
    rw [hw', hgate]
    show (p.state after inside (p.gateName x.id)).inputs[0]? = _
    rw [h.state_copy hx, copyNode_of_some hinput, List.getD_eq_getElem?_getD,
      List.getElem?_eq_getElem hlt]
    rfl

/-- An input pin without a wire keeps its stored signal, which its copy has too. -/
theorem stored_input (h : p.Applies deepest c) (hc : c.Valid)
    (hafter : c.Solves Expansion.react instant (c.startState compile) after)
    (hx : x ∈ p.inner.gates) (hk : p.definition.inputOf x.id = some k)
    (hfree : ∀ w ∈ (p.circuit c).wires, w.drives (p.gateName x.id) 0 = false) :
    (after p.gate.id).inputs.getD k false = p.gate.inputs.getD k false := by
  have hnone : ∀ w ∈ c.wires, w.drives p.gate.id k = false := by
    intro w hw
    rw [Circuit.drives_eq_false_iff]
    intro hsame
    obtain ⟨hgate, hpin⟩ := hsame
    rcases h.sink_cases hc hw with ⟨hne, -⟩ | ⟨l, y, -, hl, hy, hinput, hw'⟩
    · exact hne hgate
    · obtain rfl : k = l := Option.some.inj (hpin.symm.trans hl)
      have hdrives' := hfree (p.redirect w) (mem_wires.mpr (.inl ⟨w, hw, rfl⟩))
      have hid : y.id = x.id := Definition.inputOf_inj h.transparent.distinct hinput hk
      rw [Circuit.drives_eq_false_iff, sink_redirect, hw', hid] at hdrives'
      exact hdrives' ⟨rfl, Endpoint.inputPin?_input _ (by decide)⟩
  have hlt := (h.transparent.kind_of_inputOf h.inner_valid hx hk).1
  rw [List.getD_eq_getElem?_getD, hafter.free p.gate h.mem k hnone, Circuit.startState_eq hc h.mem,
    Node.inputs_ofGate, h.inputCount, Signal.getElem?_resize hlt, Option.getD_some]

/-! ## 5. The solution -/

/-- A wire of the new circuit that is not feedback shows at its end what it shows at its start. -/
theorem driven_state (h : p.Applies deepest c) (hc : c.Valid)
    (hafter : c.Solves Expansion.react instant (c.startState compile) after)
    (hinside : p.Inside compile' instant after inside) {w : Wire} (hw : w ∈ (p.circuit c).wires)
    {pin : Nat} (hpin : w.sink.inputPin? = some pin)
    (hfb : ¬ (p.circuit c).Feedback w.source.gate w.sink.gate) :
    (p.state after inside w.sink.gate).inputs[pin]? =
      some ((p.state after inside w.source.gate).outputs.getD w.source.outputPin false) := by
  rcases mem_wires.mp hw with ⟨u, hu, rfl⟩ | ⟨u, hu, rfl⟩
  · rw [source_redirect, sink_redirect, h.feedback_redirect hc hu] at hfb
    rw [sink_redirect] at hpin
    rw [source_redirect, sink_redirect, h.outputs_source hc hinside hu]
    obtain ⟨k, hk, hin⟩ := h.inputs_sink hc hinside hu hpin
    rw [hin]
    exact hafter.driven u hu k hk hfb
  · obtain ⟨x, hx, hxid, -⟩ := h.inner_valid.source u hu
    obtain ⟨y, hy, hyid, -, hnone, -⟩ := h.inner_sink hu
    have hwired : p.inner.Wired u.source.gate u.sink.gate := ⟨u, hu, rfl, rfl⟩
    have hdriven := hinside.solves.driven u hu pin hpin (h.not_feedback_inner hwired)
    show (p.state after inside (p.gateName u.sink.gate)).inputs[pin]? =
      some ((p.state after inside (p.gateName u.source.gate)).outputs.getD u.source.outputPin false)
    rw [← hxid, ← hyid] at hdriven ⊢
    rw [h.state_copy hx, h.state_copy hy, outputs_copyNode, copyNode_of_none hnone]
    exact hdriven

/-- Feedback of the new circuit shows what it showed. -/
theorem feedback_state (h : p.Applies deepest c) (hc : c.Valid)
    (hafter : c.Solves Expansion.react instant (c.startState compile) after)
    (hinside : p.Inside compile' instant after inside) {w : Wire} (hw : w ∈ (p.circuit c).wires)
    {pin : Nat} (hpin : w.sink.inputPin? = some pin)
    (hfb : (p.circuit c).Feedback w.source.gate w.sink.gate) :
    (p.state after inside w.sink.gate).inputs[pin]? =
      some (((p.circuit c).startState compile w.source.gate).outputs.getD
        w.source.outputPin false) := by
  rcases mem_wires.mp hw with ⟨u, hu, rfl⟩ | ⟨u, hu, rfl⟩
  · rw [source_redirect, sink_redirect, h.feedback_redirect hc hu] at hfb
    obtain ⟨hsource, -⟩ := h.ne_of_loop ⟨u, hu, rfl, rfl⟩ hfb.2.2
    rw [sink_redirect] at hpin
    obtain ⟨k, hk, hin⟩ := h.inputs_sink hc hinside hu hpin
    obtain ⟨g, hg, hid, -⟩ := hc.source u hu
    have hg' : g ∈ (p.circuit c).gates := mem_gates.mpr (.inl ⟨hg, hid ▸ hsource⟩)
    rw [sink_redirect, hin, hafter.feedback u hu k hk hfb, source_redirect, redirectSource,
      if_neg hsource, ← hid, Circuit.startState_eq hc hg,
      Circuit.startState_eq (h.valid_circuit hc) hg']
  · exact absurd hfb (h.not_feedback_copy hc hu)

/-- A pin of the new circuit without a wire keeps its stored signal. -/
theorem free_state (h : p.Applies deepest c) (hc : c.Valid)
    (hafter : c.Solves Expansion.react instant (c.startState compile) after)
    (hinside : p.Inside compile' instant after inside) {g : Gate Definition}
    (hg : g ∈ (p.circuit c).gates) {pin : Nat}
    (hfree : ∀ w ∈ (p.circuit c).wires, w.drives g.id pin = false) :
    (p.state after inside g.id).inputs[pin]? = (Node.ofGate compile g).inputs[pin]? := by
  rcases mem_gates.mp hg with ⟨hg, hne⟩ | ⟨x, hx, rfl⟩
  · rw [h.state_kept hg, hafter.free g hg pin, Circuit.startState_eq hc hg]
    intro w hw
    rw [Circuit.drives_eq_false_iff]
    intro hsame
    obtain ⟨hgate, hin⟩ := hsame
    have hdrives := hfree (p.redirect w) (mem_wires.mpr (.inl ⟨w, hw, rfl⟩))
    rw [Circuit.drives_eq_false_iff, sink_redirect, redirectSink, if_neg (hgate ▸ hne)] at hdrives
    exact hdrives ⟨hgate, hin⟩
  · rw [id_copyGate] at hfree ⊢
    rw [h.state_copy hx]
    cases hk : p.definition.inputOf x.id with
    | some k =>
      rw [copyNode_of_some hk, inputs_copyGate_of_some hk]
      cases pin with
      | zero => rw [h.stored_input hc hafter hx hk hfree]
      | succ pin => rfl
    | none =>
      rw [copyNode_of_none hk, inputs_copyGate_of_none hk, ← Node.inputs_ofGate compile' x,
        ← Definition.Transparent.loaded_of_none hx h.inner_valid hk]
      refine hinside.solves.free x hx pin fun u hu => ?_
      rw [Circuit.drives_eq_false_iff]
      intro hsame
      obtain ⟨hgate, hin⟩ := hsame
      have hdrives := hfree (p.copyWire u) (mem_wires.mpr (.inr ⟨u, hu, rfl⟩))
      rw [Circuit.drives_eq_false_iff] at hdrives
      exact hdrives ⟨congrArg p.gateName hgate, hin⟩

/-- **The two solutions together solve the new circuit.** -/
theorem solves_state (h : p.Applies deepest c) (hc : c.Valid)
    (hafter : c.Solves Expansion.react instant (c.startState compile) after)
    (hinside : p.Inside compile' instant after inside) :
    (p.circuit c).Solves Expansion.react instant ((p.circuit c).startState compile)
      (p.state after inside) := by
  have hvalid := h.valid_circuit hc
  refine ⟨fun g hg => ?_, fun g hg => ?_, fun w hw pin hpin hfb => ?_, fun w hw pin hpin hfb => ?_,
    fun g hg pin hfree => ?_⟩
  · rw [Circuit.startState_eq hvalid hg]
    rcases mem_gates.mp hg with ⟨hg, -⟩ | ⟨x, hx, rfl⟩
    · rw [h.state_kept hg, ← Circuit.startState_eq hc hg]
      exact hafter.follows g hg
    · rw [id_copyGate, h.state_copy hx]
      exact h.follows_copy hx (hinside.solves.follows x hx)
  · rw [Circuit.startState_eq hvalid hg]
    rcases mem_gates.mp hg with ⟨hg, -⟩ | ⟨x, hx, rfl⟩
    · rw [h.state_kept hg, ← Circuit.startState_eq hc hg]
      exact hafter.pins g hg
    · rw [id_copyGate, h.state_copy hx]
      exact h.pins_copy hx (hinside.solves.pins x hx)
  · exact h.feedback_state hc hafter hinside hw hpin hfb
  · exact h.driven_state hc hafter hinside hw hpin hfb
  · rw [Circuit.startState_eq hvalid hg]
    exact h.free_state hc hafter hinside hg hfree

end Applies

/-- **The circuit with the gate replaced evaluates to the same.** -/
theorem immediate_circuit (hc : c.Valid) (hcycle : ¬ c.CombinationalCycle) (e : Evaluator)
    (h : p.Applies e.deepest c) (now : UInt64) :
    (e.immediate (p.circuit c) now).succeeded = true ∧
      ∀ g ∈ c.gates, g.id ≠ p.gate.id →
        (e.immediate (p.circuit c) now).circuit.gate? g.id =
          (e.immediate c now).circuit.gate? g.id := by
  have hvalid := h.valid_circuit hc
  have hacyclic := h.not_combinationalCycle hc hcycle
  obtain ⟨-, after, hafter, hgate⟩ := e.immediate_solves hc hcycle now
  obtain ⟨hsucceeded, after', hafter', hgate'⟩ := e.immediate_solves hvalid hacyclic now
  obtain ⟨levels, inside, hinside⟩ := h.exists_inside hc hafter
  refine ⟨hsucceeded, fun g hg hne => ?_⟩
  have hg' : g ∈ (p.circuit c).gates := mem_gates.mpr (.inl ⟨hg, hne⟩)
  have hsame := hafter'.unique hvalid hacyclic
    (fun g hg => by rw [Circuit.startState_eq hvalid hg]) (h.solves_state hc hafter hinside) g hg'
  rw [hgate g hg, hgate' g hg', hsame, h.state_kept hg]

/-- **A custom gate is its circuit inlined**, in whatever order the gates and wires of the new
    circuit are written: an immediate evaluation succeeds there, and every other gate comes back as
    it does with the custom gate. -/
theorem immediate_inlined {flat : Circuit Definition} (hcheck : c.check = [])
    (hcycle : ¬ c.CombinationalCycle) (e : Evaluator) (h : p.Applies e.deepest c)
    (hgates : (p.circuit c).gates.Perm flat.gates) (hwires : (p.circuit c).wires.Perm flat.wires)
    (now : UInt64) :
    (e.immediate flat now).succeeded = true ∧
      ∀ g ∈ c.gates, g.id ≠ p.gate.id → ∃ returned,
        (e.immediate c now).circuit.gate? g.id = some returned ∧
        (e.immediate flat now).circuit.gate? g.id = some returned := by
  have hc := Circuit.check_eq_nil_iff.mp hcheck
  obtain ⟨-, after, -, hgate⟩ := e.immediate_solves hc hcycle now
  obtain ⟨-, hsame⟩ := immediate_circuit hc hcycle e h now
  obtain ⟨hsucceeded, horder⟩ := e.immediate_perm (h.valid_circuit hc)
    (h.not_combinationalCycle hc hcycle) hgates hwires now
  refine ⟨hsucceeded, fun g hg hne => ⟨_, hgate g hg, ?_⟩⟩
  rw [horder g (mem_gates.mpr (.inl ⟨hg, hne⟩)), hsame g hg hne, hgate g hg]

/-! ## 6. An adder -/

/-- An adder of two bits as a custom gate. Its carry is read at the gate inside. -/
def adder : Definition :=
  .ofCircuit "HALF-ADDER" [.bound "a" "A", .bound "b" "B"]
    [.bound "sum" "S", .bound "carry" "CARRY"] (Circuit.halfAdder false false)

/-- An adder in use: one of its inputs is wired, the other holds a stored signal. -/
def adding : Circuit Definition :=
  Circuit.connectAll
    { gates := [.input "X" true, { Gate.custom "HA" adder with inputs := [false, true] },
        .new "SUM" .output, .new "CARRY" .output] }
    [("X", 0, "HA", 0), ("HA", 0, "SUM", 0), ("HA", 1, "CARRY", 0)]

/-- The adder replaced by its circuit. -/
def ofAdder : Inlining :=
  { gate := { Gate.custom "HA" adder with inputs := [false, true] }
    definition := adder
    inner := Circuit.halfAdder false false
    gateName := fun id => "HA." ++ id
    wireName := fun id => "HA." ++ id }

theorem ofAdder_applies : ofAdder.Applies 16 adding where
  mem := List.mem_cons_of_mem _ List.mem_cons_self
  kind := rfl
  definition := rfl
  compiles := ⟨_, rfl⟩
  transparent :=
    { circuit := rfl
      kinds := by decide
      inputPins := by decide
      outputPins := by decide
      inputs := by decide
      distinct := by decide
      outputs := by decide
      acyclic := Circuit.not_combinationalCycle_of_forward (by decide) }
  noLoop := fun h => Nat.lt_irrefl _ (Circuit.no_loop_of_forward (by decide) h)
  gateNames := by decide
  freshGates := by decide
  wireNames := by decide
  freshWires := by decide

/-- The circuit with the adder replaced, written backwards. -/
def addingInlined : Circuit Definition :=
  ⟨(ofAdder.circuit adding).gates.reverse, (ofAdder.circuit adding).wires.reverse⟩

/-- One and one make a carry, with the adder and with its circuit in its place. -/
theorem immediate_adding :
    adding.check = [] ∧ (Evaluator.immediate {} addingInlined 0).succeeded = true ∧ ∃ carry,
      (Evaluator.immediate {} adding 0).circuit.gate? "CARRY" = some carry ∧
      (Evaluator.immediate {} addingInlined 0).circuit.gate? "CARRY" = some carry ∧
      carry.outputs = [true] := by
  have hcycle : ¬ adding.CombinationalCycle :=
    Circuit.not_combinationalCycle_of_forward (by decide)
  have hgates : (ofAdder.circuit adding).gates.Perm addingInlined.gates :=
    (List.reverse_perm _).symm
  have hwires : (ofAdder.circuit adding).wires.Perm addingInlined.wires :=
    (List.reverse_perm _).symm
  obtain ⟨hsucceeded, hsame⟩ :=
    immediate_inlined rfl hcycle {} ofAdder_applies hgates hwires 0
  have hmem : Gate.new "CARRY" .output ∈ adding.gates :=
    List.mem_cons_of_mem _ (List.mem_cons_of_mem _ (List.mem_cons_of_mem _ List.mem_cons_self))
  obtain ⟨carry, hcarry, hinlined⟩ := hsame _ hmem (by decide)
  have houtputs : ((Evaluator.immediate {} adding 0).circuit.gate? "CARRY").map (·.outputs) =
      some [true] := rfl
  rw [show (Gate.new "CARRY" .output).id = "CARRY" from rfl] at hcarry hinlined
  rw [hcarry] at houtputs
  exact ⟨rfl, hsucceeded, carry, hcarry, hinlined, Option.some.inj houtputs⟩

end Inlining

end LogicSim
