import LogicSim.Proofs.Service.Cycle

/-!
# The validity of what evaluations return

Whatever call evaluates a valid circuit, what it returns has the same gates and wires, and each gate
has as many input pins as before. Output pins can get lost: an input gate comes back with one output,
a flip-flop and a latch with two, however many were stored. `Circuit.LosesSource` says exactly which
valid circuits come back valid: those in which no wire leaves such an output.
-/

namespace LogicSim

/-! ## 1. Returned circuits -/

/-- **The circuits that evaluations of a circuit return**, by any call that succeeds. -/
inductive Returned (c : Circuit Definition) : Circuit Definition → Prop where
  | immediate (e : Evaluator) (now : UInt64) (h : (e.immediate c now).succeeded = true) :
    Returned c (e.immediate c now).circuit
  | delayed (e : Evaluator) (now : UInt64) (h : (e.delayed c now).succeeded = true) :
    Returned c (e.delayed c now).circuit
  | evaluate (s : Service) {r : Response} (h : (s.evaluate c).1 = .ok r) : Returned c r.circuit
  | step (s : Service) {r : Response} (h : (s.step c).1 = .ok r) : Returned c r.circuit
  | settle (s : Service) {r : Response} (h : (s.settle c).1 = .ok r) : Returned c r.circuit
  | cycle (s : Service) (request : CycleRequest) {r : CycleResponse}
    (h : (s.cycle c request).1 = .ok r) : Returned c r.circuit

/-- A circuit comes back from a netlist of the shape that it was given. -/
def FromShape (c r : Circuit Definition) : Prop :=
  ∃ (deepest : Nat) (net : Netlist Expansion),
    net.shape = (Netlist.assemble (Definition.compile deepest deepest) c).shape ∧
      r = net.writeBack c

theorem Evaluator.fromShape_immediate {e : Evaluator} {c : Circuit Definition} (hc : c.Valid)
    {now : UInt64} (h : (e.immediate c now).succeeded = true) :
    FromShape c (e.immediate c now).circuit := by
  rw [immediate, Circuit.netlist, Netlist.ofCircuit_of_valid _ hc] at h ⊢
  dsimp only at h ⊢
  split at h
  · cases h
  · exact ⟨e.deepest, _, Netlist.shape_immediate .., rfl⟩

theorem Evaluator.fromShape_delayed {e : Evaluator} {c : Circuit Definition} (hc : c.Valid)
    (now : UInt64) : FromShape c (e.delayed c now).circuit := by
  rw [delayed, Circuit.netlist, Netlist.ofCircuit_of_valid _ hc]
  exact ⟨e.deepest, _, Netlist.shape_delayed _, rfl⟩

/-- What a call does happens on the netlist of its circuit. -/
theorem Service.exists_of_call {α : Type} {s : Service} {c : Circuit Definition} (hc : c.Valid)
    {body : Call → Service → Except Failure (α × Service)} {a : α} (h : (s.call c body).1 = .ok a) :
    ∃ call s' s'', call.state.netlist =
        Netlist.assemble (Definition.compile s.config.deepest s.config.deepest) c ∧
      body call s' = .ok (a, s'') := by
  unfold call at h
  cases hstart : s.start c with
  | error failure => rw [hstart] at h; cases h
  | ok accepted =>
    obtain ⟨call, s'⟩ := accepted
    rw [hstart] at h
    dsimp only at h
    cases hbody : body call s' with
    | error failure => rw [hbody] at h; cases h
    | ok result =>
      rw [hbody] at h
      obtain ⟨a', s''⟩ := result
      obtain rfl : a' = a := Except.ok.inj h
      have hnet := netlist_of_start hstart
      rw [Circuit.netlist, Netlist.ofCircuit_of_valid _ hc] at hnet
      exact ⟨call, s', s'', (Except.ok.inj hnet).symm, hbody⟩

theorem Service.fromShape_evaluate {s : Service} {c : Circuit Definition} (hc : c.Valid)
    {r : Response} (h : (s.evaluate c).1 = .ok r) : FromShape c r.circuit := by
  obtain ⟨call, s', s'', hnet, hbody⟩ := exists_of_call hc h
  refine ⟨s.config.deepest, ?_⟩
  rw [← hnet]
  dsimp only at hbody
  split at hbody
  · obtain ⟨rfl, -⟩ := Prod.ext_iff.mp (Except.ok.inj hbody)
    exact ⟨_, Netlist.shape_delayed _, rfl⟩
  · obtain ⟨rfl, -⟩ := Prod.ext_iff.mp (Except.ok.inj hbody)
    exact ⟨_, Netlist.shape_delayed _, rfl⟩
  · obtain ⟨rfl, -⟩ := Prod.ext_iff.mp (Except.ok.inj hbody)
    exact ⟨_, Netlist.shape_immediate .., rfl⟩
  · obtain ⟨rfl, -⟩ := Prod.ext_iff.mp (Except.ok.inj hbody)
    exact ⟨_, Netlist.shape_immediate .., rfl⟩
  · cases hbody

theorem Service.fromShape_step {s : Service} {c : Circuit Definition} (hc : c.Valid)
    {r : Response} (h : (s.step c).1 = .ok r) : FromShape c r.circuit := by
  obtain ⟨call, s', s'', hnet, hbody⟩ := exists_of_call hc h
  obtain ⟨rfl, -⟩ := Prod.ext_iff.mp (Except.ok.inj hbody)
  exact ⟨s.config.deepest, _, hnet ▸ Netlist.shape_delayed _, rfl⟩

theorem Service.fromShape_settle {s : Service} {c : Circuit Definition} (hc : c.Valid)
    {r : Response} (h : (s.settle c).1 = .ok r) : FromShape c r.circuit := by
  obtain ⟨call, s', s'', hnet, hbody⟩ := exists_of_call hc h
  dsimp only at hbody
  split at hbody
  · obtain ⟨rfl, -⟩ := Prod.ext_iff.mp (Except.ok.inj hbody)
    exact ⟨s.config.deepest, _, hnet ▸ Settling.shape_run .., rfl⟩
  · cases hbody

theorem CycleRequest.shape_phase (r : CycleRequest) (instant : Instant) (k : Nat)
    (s : Settling Expansion) (level : Bool) :
    (r.phase instant k s level).netlist.shape = s.netlist.shape := by
  rw [netlist_phase, Settling.shape_run]
  exact Netlist.shape_force ..

theorem CycleRequest.shape_drive (r : CycleRequest) (instant : Instant) (k : Nat)
    (s : Settling Expansion) : (r.drive instant k s).netlist.shape = s.netlist.shape := by
  rw [netlist_drive, Netlist.shape_force, shape_phase, shape_phase, shape_phase]

theorem Service.fromShape_cycle {s : Service} {c : Circuit Definition} (hc : c.Valid)
    {request : CycleRequest} {r : CycleResponse} (h : (s.cycle c request).1 = .ok r) :
    FromShape c r.circuit := by
  obtain ⟨call, s', s'', hnet, hbody⟩ := exists_of_call hc h
  dsimp only at hbody
  split at hbody
  · cases hbody
  · obtain ⟨rfl, -⟩ := Prod.ext_iff.mp (Except.ok.inj hbody)
    exact ⟨s.config.deepest, _, hnet ▸ CycleRequest.shape_drive .., rfl⟩

/-- **Whatever is returned has the shape of what was given.** -/
theorem Returned.fromShape {c r : Circuit Definition} (hc : c.Valid) (h : Returned c r) :
    FromShape c r := by
  cases h with
  | immediate e now h => exact Evaluator.fromShape_immediate hc h
  | delayed e now h => exact Evaluator.fromShape_delayed hc now
  | evaluate s h => exact Service.fromShape_evaluate hc h
  | step s h => exact Service.fromShape_step hc h
  | settle s h => exact Service.fromShape_settle hc h
  | cycle s request h => exact Service.fromShape_cycle hc h

/-! ## 2. Pins of returned gates -/

/-- The number of outputs with which a gate comes back. -/
def Gate.returnedOutputs (g : Gate Definition) : Nat :=
  match g.kind with
  | .input | .flipFlop | .latch => g.kind.outputCount
  | _ => g.outputCount

theorem inputCount_of_length {g g' : Gate Definition} (hkind : g'.kind = g.kind)
    (hdefinition : g'.metadata.definition = g.metadata.definition)
    (hlength : g'.inputs.length = g.inputCount) : g'.inputCount = g.inputCount := by
  rw [Gate.inputCount, hkind, hdefinition, hlength, Gate.inputCount]
  cases g.kind with
  | custom =>
    cases g.metadata.definition with
    | none => exact Nat.max_eq_left (Nat.zero_le _)
    | some d => rfl
  | _ => exact Nat.max_eq_left (Nat.le_max_right _ _)

theorem outputCount_of_length {g g' : Gate Definition} (hkind : g'.kind = g.kind)
    (hdefinition : g'.metadata.definition = g.metadata.definition)
    (hlength : g'.outputs.length = g.returnedOutputs) : g'.outputCount = g.returnedOutputs := by
  rw [Gate.outputCount, hkind, hdefinition, hlength, Gate.returnedOutputs]
  cases hk : g.kind with
  | input | flipFlop | latch => rfl
  | custom =>
    rw [Gate.outputCount, hk]
    cases g.metadata.definition with
    | none => exact Nat.max_eq_left (Nat.zero_le _)
    | some d => rfl
  | _ =>
    rw [Gate.outputCount, hk]
    exact Nat.max_eq_left (Nat.le_max_right _ _)

section Store

variable {ε : Type} {compile : Definition → Except String ε} {g : Gate Definition} {n : Node ε}

theorem definition_store (e : Element ε) (m : Metadata Definition) :
    (e.store m).definition = m.definition := by
  cases e <;> rfl

theorem length_startOutputs :
    ((Element.ofGate compile g).startOutputs g).length = g.returnedOutputs := by
  rw [Element.ofGate, Gate.returnedOutputs]
  cases hk : g.kind with
  | input | flipFlop | latch => rfl
  | custom =>
    dsimp only
    split
    · exact Signal.length_resize ..
    · split <;> exact Signal.length_resize ..
  | _ => exact Signal.length_resize ..

/-- A gate comes back with its input pins. -/
theorem inputCount_store (h : n.shape = (Node.ofGate compile g).shape) :
    (n.store g).inputCount = g.inputCount :=
  inputCount_of_length rfl (definition_store ..)
    ((congrArg Shape.inputs h).trans (Signal.length_resize ..))

/-- **The output pins of a gate that comes back.** -/
theorem outputCount_store (h : n.shape = (Node.ofGate compile g).shape) :
    (n.store g).outputCount = g.returnedOutputs :=
  outputCount_of_length rfl (definition_store ..)
    ((congrArg Shape.outputs h).trans length_startOutputs)

end Store

/-! ## 3. Validity of returned circuits -/

/-- **A wire that loses its source**: it leaves an output that its gate does not have any more when
    it comes back. Only an input gate, a flip-flop or a latch with stored outputs beyond those of its
    kind has such an output. -/
def Circuit.LosesSource (c : Circuit Definition) (w : Wire) : Prop :=
  ∃ g ∈ c.gates, g.id = w.source.gate ∧
    (g.kind = .input ∨ g.kind = .flipFlop ∨ g.kind = .latch) ∧
    g.kind.outputCount ≤ w.source.outputPin

instance (c : Circuit Definition) (w : Wire) : Decidable (c.LosesSource w) :=
  inferInstanceAs (Decidable (∃ g ∈ c.gates, g.id = w.source.gate ∧
    (g.kind = .input ∨ g.kind = .flipFlop ∨ g.kind = .latch) ∧
    g.kind.outputCount ≤ w.source.outputPin))

theorem not_losesSource_iff {c : Circuit Definition} (hc : c.Valid) {w : Wire}
    {g : Gate Definition} (hg : g ∈ c.gates) (hid : g.id = w.source.gate)
    (hpin : w.source.outputPin < g.outputCount) :
    ¬ c.LosesSource w ↔ w.source.outputPin < g.returnedOutputs := by
  have honly : c.LosesSource w ↔ (g.kind = .input ∨ g.kind = .flipFlop ∨ g.kind = .latch) ∧
      g.kind.outputCount ≤ w.source.outputPin := by
    constructor
    · intro hloses
      obtain ⟨g', hg', hid', hloses⟩ := hloses
      obtain rfl := List.inj_on_of_nodup_map hc.gateIds hg' hg (hid'.trans hid.symm)
      exact hloses
    · exact fun h => ⟨g, hg, hid, h⟩
  rw [honly, Gate.returnedOutputs]
  cases hk : g.kind <;> simp [hpin]

section WriteBack

variable {ε : Type} {compile : Definition → Except String ε} {c : Circuit Definition}
  {net : Netlist ε}

theorem exists_returned (hshape : net.shape = (Netlist.assemble compile c).shape)
    {g : Gate Definition} (hg : g ∈ c.gates) :
    ∃ n : Node ε, n.shape = (Node.ofGate compile g).shape ∧
      n.store g ∈ (net.writeBack c).gates := by
  obtain ⟨i, hi⟩ := List.getElem?_of_mem hg
  obtain ⟨n, hn, hs⟩ := Netlist.exists_of_shape hshape (Netlist.getElem?_assemble hi)
  exact ⟨n, hs, List.mem_of_getElem? (Netlist.getElem?_gates_writeBack_of_some hi hn)⟩

/-- Wires come back as they were, apart from the signals that they show. -/
theorem valid_writeBack_of_source (hc : c.Valid)
    (hshape : net.shape = (Netlist.assemble compile c).shape)
    (hsource : ∀ w ∈ c.wires, ∃ g ∈ c.gates, g.id = w.source.gate ∧
      w.source.outputPin < g.returnedOutputs) : (net.writeBack c).Valid := by
  have hends := Netlist.ends_writeBack net c
  have hwire : ∀ {P : WireId × Endpoint × Endpoint → Prop}, (∀ w ∈ c.wires, P w.ends) →
      ∀ w ∈ (net.writeBack c).wires, P w.ends := by
    intro P h w hw
    obtain ⟨w', hw', he⟩ := Netlist.mem_wires_writeBack hw
    exact he ▸ h w' hw'
  refine ⟨?_, ?_, hwire (P := fun e => ∃ g ∈ (net.writeBack c).gates, g.id = e.2.1.gate ∧
    e.2.1.outputPin < g.outputCount) fun w hw => ?_, hwire (P := fun e =>
      ∃ g ∈ (net.writeBack c).gates, g.id = e.2.2.gate ∧ ∃ pin, e.2.2.inputPin? = some pin ∧
        pin < g.inputCount) fun w hw => ?_, ?_⟩
  · rw [Netlist.ids_writeBack]
    exact hc.gateIds
  · have := congrArg (·.map Prod.fst) hends
    simp only [List.map_map] at this
    exact this ▸ hc.wireIds
  · obtain ⟨g, hg, hid, hpin⟩ := hsource w hw
    obtain ⟨n, hs, hmem⟩ := exists_returned hshape hg
    exact ⟨n.store g, hmem, hid, (outputCount_store hs).symm ▸ hpin⟩
  · obtain ⟨g, hg, hid, pin, hpin, hlt⟩ := hc.sink w hw
    obtain ⟨n, hs, hmem⟩ := exists_returned hshape hg
    exact ⟨n.store g, hmem, hid, pin, hpin, (inputCount_store hs).symm ▸ hlt⟩
  · have hpairwise : (c.wires.map Wire.ends).Pairwise fun u w =>
        ¬ (u.2.2.gate = w.2.2.gate ∧ u.2.2.inputPin? = w.2.2.inputPin?) :=
      List.pairwise_map.mpr hc.single
    rw [← hends] at hpairwise
    exact List.pairwise_map.mp hpairwise

/-- **When a circuit comes back valid.** -/
theorem valid_writeBack_iff (hc : c.Valid)
    (hshape : net.shape = (Netlist.assemble compile c).shape) :
    (net.writeBack c).Valid ↔ ∀ w ∈ c.wires, ¬ c.LosesSource w := by
  constructor
  · intro h w hw
    obtain ⟨g, hg, hid, hpin⟩ := hc.source w hw
    rw [not_losesSource_iff hc hg hid hpin]
    obtain ⟨n, hs, hmem⟩ := exists_returned hshape hg
    -- the wire comes back, and so does the gate that it leaves
    have hback := List.mem_map_of_mem (f := Wire.ends) hw
    rw [← Netlist.ends_writeBack net, List.mem_map] at hback
    obtain ⟨w', hw', he⟩ := hback
    obtain ⟨g', hg', hid', hpin'⟩ := h.source w' hw'
    rw [Wire.source_of_ends he] at hid' hpin'
    obtain rfl := List.inj_on_of_nodup_map h.gateIds hg' hmem (hid'.trans hid.symm)
    rwa [outputCount_store hs] at hpin'
  · intro h
    refine valid_writeBack_of_source hc hshape fun w hw => ?_
    obtain ⟨g, hg, hid, hpin⟩ := hc.source w hw
    exact ⟨g, hg, hid, (not_losesSource_iff hc hg hid hpin).mp (h w hw)⟩

end WriteBack

/-- **Exactly when evaluation preserves validity.** A valid circuit comes back valid, from whatever
    call, exactly if none of its wires leaves an output that its gate loses. -/
theorem returned_check_iff {c r : Circuit Definition} (hcheck : c.check = []) (h : Returned c r) :
    r.check = [] ↔ ∀ w ∈ c.wires, ¬ c.LosesSource w := by
  have hc := Circuit.check_eq_nil_iff.mp hcheck
  obtain ⟨deepest, net, hshape, rfl⟩ := h.fromShape hc
  rw [Circuit.check_eq_nil_iff, valid_writeBack_iff hc hshape]

/-- What an adder returns can be evaluated again. -/
theorem halfAdder_returned_check :
    ((Evaluator.immediate {} (Circuit.halfAdder true true) 0).circuit.check = []) := by
  have hreturned : Returned (Circuit.halfAdder true true) _ := .immediate {} 0 rfl
  exact (returned_check_iff rfl hreturned).mpr (by decide)

/-- An input gate with two stored outputs, the second of which is shown by `O`. -/
def Circuit.wideInput : Circuit Definition :=
  Circuit.connectAll
    { gates := [{ Gate.new "A" .input with outputs := [false, false] }, .new "O" .output] }
    [("A", 1, "O", 0)]

/-- It is valid, and comes back with a wire from a pin that is gone. -/
theorem wideInput_returned_check :
    Circuit.wideInput.check = [] ∧
      Returned Circuit.wideInput (Evaluator.delayed {} Circuit.wideInput 0).circuit ∧
      (Evaluator.delayed {} Circuit.wideInput 0).circuit.check =
        [.invalidWire "w0" "A has no output pin 1"] :=
  ⟨rfl, .delayed {} 0 rfl, rfl⟩

end LogicSim
