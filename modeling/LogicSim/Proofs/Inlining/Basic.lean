import LogicSim.Proofs.Netlist.Loading

/-!
# Inlining a custom gate

`Inlining.circuit` replaces a custom gate of a circuit by a copy of the circuit of its definition,
under new identifiers. An input gate that is bound to an input pin becomes a gate that passes one
signal on: that of the wire into the pin, or the stored one. A wire from an output pin leaves from
the gate inside that the pin is bound to.

* `Inlining.Applies` -- when this is done;
* `Inlining.Applies.source_cases`, `Inlining.Applies.sink_cases` -- where the ends of wires go;
* `Inlining.Applies.valid_circuit` -- the result is valid.
-/

namespace LogicSim

/-- What takes the place of a custom gate: the circuit of its definition, and the identifiers of the
    copies. -/
structure Inlining where
  gate : Gate Definition
  definition : Definition
  inner : Circuit Definition
  gateName : GateId → GateId
  wireName : WireId → WireId

namespace Inlining

variable (p : Inlining)

/-! ## 1. The circuit -/

/-- The copy of a gate inside. A gate that is bound to an input pin passes on the signal of the
    pin. -/
def copyGate (x : Gate Definition) : Gate Definition :=
  match p.definition.inputOf x.id with
  | some k => { x with
      id := p.gateName x.id
      kind := .output
      inputs := [p.gate.inputs.getD k false] }
  | none => { x with id := p.gateName x.id }

/-- The copy of an end of a wire inside. -/
def copyEnd (e : Endpoint) : Endpoint := ⟨p.gateName e.gate, e.index⟩

/-- The copy of a wire inside. -/
def copyWire (w : Wire) : Wire :=
  { w with id := p.wireName w.id, source := p.copyEnd w.source, sink := p.copyEnd w.sink }

/-- Where a wire starts: at an output pin of the gate, at the copy of what the pin shows. -/
def redirectSource (e : Endpoint) : Endpoint :=
  if e.gate = p.gate.id then
    match p.definition.outputs[e.outputPin]? with
    | some pin => p.copyEnd (pin.origin p.inner)
    | none => e
  else e

/-- Where a wire ends: at an input pin of the gate, at the copy of the gate bound to the pin. -/
def redirectSink (e : Endpoint) : Endpoint :=
  if e.gate = p.gate.id then
    match e.inputPin?.bind (p.definition.inputs[·]?) with
    | some pin => .input (p.gateName (pin.gate.getD "")) 0
    | none => e
  else e

/-- A wire of the circuit around the gate. -/
def redirect (w : Wire) : Wire :=
  { w with source := p.redirectSource w.source, sink := p.redirectSink w.sink }

/-- **The circuit with the gate replaced.** -/
def circuit (c : Circuit Definition) : Circuit Definition :=
  { gates := c.gates.filter (·.id ≠ p.gate.id) ++ p.inner.gates.map p.copyGate
    wires := c.wires.map p.redirect ++ p.inner.wires.map p.copyWire }

/-- **When a gate of a circuit is inlined**: it is a custom gate on no loop of wires, its definition
    compiles to a circuit of plain gates, and the identifiers of the copies are new. -/
structure Applies (p : Inlining) (deepest : Nat) (c : Circuit Definition) : Prop where
  mem : p.gate ∈ c.gates
  kind : p.gate.kind = .custom
  definition : p.gate.metadata.definition = some p.definition
  compiles : ∃ e, p.definition.compileAt deepest 1 = .ok e
  transparent : p.definition.Transparent p.inner
  noLoop : ¬ Relation.TransGen c.Wired p.gate.id p.gate.id
  gateNames : (p.inner.gates.map fun x => p.gateName x.id).Nodup
  freshGates : ∀ x ∈ p.inner.gates, ∀ g ∈ c.gates, p.gateName x.id ≠ g.id
  wireNames : (p.inner.wires.map fun w => p.wireName w.id).Nodup
  freshWires : ∀ u ∈ p.inner.wires, ∀ w ∈ c.wires, p.wireName u.id ≠ w.id

variable {p} {deepest : Nat} {c : Circuit Definition} {x y : Gate Definition} {k : Nat}

theorem copyGate_of_some (hk : p.definition.inputOf x.id = some k) :
    p.copyGate x = { x with
      id := p.gateName x.id
      kind := .output
      inputs := [p.gate.inputs.getD k false] } := by
  rw [copyGate, hk]

theorem copyGate_of_none (hk : p.definition.inputOf x.id = none) :
    p.copyGate x = { x with id := p.gateName x.id } := by
  rw [copyGate, hk]

@[simp] theorem id_copyGate : (p.copyGate x).id = p.gateName x.id := by
  unfold copyGate
  split <;> rfl

@[simp] theorem gate_copyEnd (e : Endpoint) : (p.copyEnd e).gate = p.gateName e.gate := rfl

@[simp] theorem outputPin_copyEnd (e : Endpoint) : (p.copyEnd e).outputPin = e.outputPin := rfl

@[simp] theorem source_redirect (w : Wire) : (p.redirect w).source = p.redirectSource w.source := rfl

@[simp] theorem sink_redirect (w : Wire) : (p.redirect w).sink = p.redirectSink w.sink := rfl

theorem mem_gates {g : Gate Definition} : g ∈ (p.circuit c).gates ↔
    (g ∈ c.gates ∧ g.id ≠ p.gate.id) ∨ ∃ x ∈ p.inner.gates, p.copyGate x = g := by
  rw [circuit, List.mem_append, List.mem_filter, List.mem_map, decide_eq_true_iff]

theorem mem_wires {w : Wire} : w ∈ (p.circuit c).wires ↔
    (∃ u ∈ c.wires, p.redirect u = w) ∨ ∃ u ∈ p.inner.wires, p.copyWire u = w := by
  rw [circuit, List.mem_append, List.mem_map, List.mem_map]

/-! ## 2. Ends of wires -/

namespace Applies

/-- The definition compiles, so its circuit is valid and its pins are linked. -/
theorem link (h : p.Applies deepest c) : ∃ levels sub,
    Definition.compile deepest deepest p.definition = .ok (.circuit sub) ∧ p.inner.Valid ∧
      p.definition.linkCircuit (Netlist.assemble (Definition.compile deepest levels) p.inner) =
        .ok sub := by
  obtain ⟨e, he⟩ := h.compiles
  rw [Definition.compileAt, Nat.add_sub_cancel] at he
  obtain ⟨levels, sub, -, rfl, hvalid, hsub⟩ := Definition.compile_eq_ok he h.transparent.circuit
  exact ⟨levels, sub, he, hvalid, hsub⟩

theorem inner_valid (h : p.Applies deepest c) : p.inner.Valid := by
  obtain ⟨levels, sub, -, hvalid, -⟩ := h.link
  exact hvalid

theorem inputCount (h : p.Applies deepest c) :
    p.gate.inputCount = p.definition.inputs.length := by
  rw [Gate.inputCount, h.kind, h.definition]

theorem outputCount (h : p.Applies deepest c) :
    p.gate.outputCount = p.definition.outputs.length := by
  rw [Gate.outputCount, h.kind, h.definition]

/-- Different gates inside have different copies. -/
theorem gateName_inj (h : p.Applies deepest c) (hx : x ∈ p.inner.gates) (hy : y ∈ p.inner.gates)
    (he : p.gateName x.id = p.gateName y.id) : x = y :=
  List.inj_on_of_nodup_map h.gateNames hx hy he

/-- What an output pin shows is an output pin inside. -/
theorem origin_cases (h : p.Applies deepest c) {pin : Pin} (hpin : pin ∈ p.definition.outputs) :
    ∃ x ∈ p.inner.gates, (pin.origin p.inner).gate = x.id ∧
      (pin.origin p.inner).outputPin < x.outputCount := by
  obtain ⟨levels, sub, -, hvalid, hlink⟩ := h.link
  obtain ⟨x, hx, hgate, hcase⟩ := h.transparent.outputs pin hpin
  refine ⟨x, hx, ?_⟩
  by_cases hkind : x.kind = .output
  · rw [Pin.origin_of_output hvalid hx hgate hkind, Endpoint.outputPin_output _ (by decide),
      h.transparent.outputPins x hx, hkind]
    exact ⟨rfl, by decide⟩
  · obtain ⟨k, hk⟩ := List.getElem?_of_mem hpin
    obtain ⟨i, hi⟩ := List.getElem?_of_mem hx
    obtain ⟨-, -, -, htaps, -⟩ := Definition.linkCircuit_eq_ok hlink
    obtain ⟨tap, -, htap⟩ := (getElem?_of_mapM_ok htaps).2 hk
    have hlt := (Definition.tapOutput_of_negative hvalid hi hgate hkind
      (hcase.resolve_left hkind) htap).2
    rw [h.transparent.length_outputs hx, ← h.transparent.outputPins x hx] at hlt
    rw [Pin.origin_of_ne hvalid hx hgate hkind]
    exact ⟨rfl, hlt⟩

/-- A wire from the gate leaves from what its pin shows. -/
theorem source_cases (h : p.Applies deepest c) (hc : c.Valid) {w : Wire} (hw : w ∈ c.wires) :
    (w.source.gate ≠ p.gate.id ∧ p.redirectSource w.source = w.source) ∨
    ∃ pin x, w.source.gate = p.gate.id ∧ p.definition.outputs[w.source.outputPin]? = some pin ∧
      x ∈ p.inner.gates ∧ (pin.origin p.inner).gate = x.id ∧
      (pin.origin p.inner).outputPin < x.outputCount ∧
      p.redirectSource w.source = p.copyEnd (pin.origin p.inner) := by
  by_cases hgate : w.source.gate = p.gate.id
  · right
    obtain ⟨g, hg, hid, hlt⟩ := hc.source w hw
    obtain rfl : g = p.gate := List.inj_on_of_nodup_map hc.gateIds hg h.mem (hid.trans hgate)
    rw [h.outputCount] at hlt
    have hpin := List.getElem?_eq_getElem hlt
    obtain ⟨x, hx, hbound, horigin⟩ := h.origin_cases (List.getElem_mem hlt)
    refine ⟨_, x, hgate, hpin, hx, hbound, horigin, ?_⟩
    rw [redirectSource, if_pos hgate, hpin]
  · left
    exact ⟨hgate, by rw [redirectSource, if_neg hgate]⟩

/-- A wire into the gate ends at the copy of the gate bound to its pin. -/
theorem sink_cases (h : p.Applies deepest c) (hc : c.Valid) {w : Wire} (hw : w ∈ c.wires) :
    (w.sink.gate ≠ p.gate.id ∧ p.redirectSink w.sink = w.sink) ∨
    ∃ k x, w.sink.gate = p.gate.id ∧ w.sink.inputPin? = some k ∧ x ∈ p.inner.gates ∧
      p.definition.inputOf x.id = some k ∧
      p.redirectSink w.sink = .input (p.gateName x.id) 0 := by
  by_cases hgate : w.sink.gate = p.gate.id
  · right
    obtain ⟨g, hg, hid, k, hk, hlt⟩ := hc.sink w hw
    obtain rfl : g = p.gate := List.inj_on_of_nodup_map hc.gateIds hg h.mem (hid.trans hgate)
    rw [h.inputCount] at hlt
    have hpin := List.getElem?_eq_getElem hlt
    obtain ⟨x, hx, hbound, -, hinput⟩ := h.transparent.input hpin
    refine ⟨k, x, hgate, hk, hx, hinput, ?_⟩
    rw [redirectSink, if_pos hgate, hk, Option.bind_some, hpin]
    dsimp only
    rw [hbound, Option.getD_some]
  · left
    exact ⟨hgate, by rw [redirectSink, if_neg hgate]⟩

/-- A wire inside ends at a gate that is not an input gate. -/
theorem inner_sink (h : p.Applies deepest c) {w : Wire} (hw : w ∈ p.inner.wires) :
    ∃ y ∈ p.inner.gates, y.id = w.sink.gate ∧ y.kind ≠ .input ∧
      p.definition.inputOf y.id = none ∧ ∃ k, w.sink.inputPin? = some k ∧ k < y.inputCount := by
  obtain ⟨y, hy, hid, k, hk, hlt⟩ := h.inner_valid.sink w hw
  have hkind : y.kind ≠ .input := by
    intro he
    rw [h.transparent.inputPins y hy, he] at hlt
    exact absurd hlt (Nat.not_lt_zero k)
  exact ⟨y, hy, hid, hkind, h.transparent.inputOf_of_ne h.inner_valid hy hkind, k, hk, hlt⟩

/-! ## 3. Validity -/

theorem outputCount_copyGate (h : p.Applies deepest c) (hx : x ∈ p.inner.gates) :
    (p.copyGate x).outputCount = x.outputCount := by
  cases hk : p.definition.inputOf x.id with
  | none => rw [copyGate_of_none hk, Gate.outputCount, Gate.outputCount]
  | some k =>
    have hkind := (h.transparent.kind_of_inputOf h.inner_valid hx hk).2
    rw [copyGate_of_some hk, Gate.outputCount, Gate.outputCount, hkind]
    rfl

theorem ids_circuit (c : Circuit Definition) : (p.circuit c).gates.map (·.id) =
    (c.gates.filter (·.id ≠ p.gate.id)).map (·.id) ++ p.inner.gates.map fun x => p.gateName x.id := by
  rw [circuit, List.map_append, List.map_map]
  exact congrArg _ (List.map_congr_left fun x _ => id_copyGate)

theorem nodup_gates (h : p.Applies deepest c) (hc : c.Valid) :
    ((p.circuit c).gates.map (·.id)).Nodup := by
  rw [ids_circuit, List.nodup_append']
  refine ⟨hc.gateIds.sublist (List.filter_sublist.map _), h.gateNames, ?_⟩
  intro id hid hid'
  obtain ⟨g, hg, rfl⟩ := List.mem_map.mp hid
  obtain ⟨x, hx, he⟩ := List.mem_map.mp hid'
  exact h.freshGates x hx g (List.mem_filter.mp hg).1 he

theorem nodup_wires (h : p.Applies deepest c) (hc : c.Valid) :
    ((p.circuit c).wires.map (·.id)).Nodup := by
  rw [circuit, List.map_append, List.map_map, List.map_map, List.nodup_append']
  refine ⟨hc.wireIds, h.wireNames, ?_⟩
  intro id hid hid'
  obtain ⟨w, hw, rfl⟩ := List.mem_map.mp hid
  obtain ⟨u, hu, he⟩ := List.mem_map.mp hid'
  exact h.freshWires u hu w hw he

/-- Two wires around the gate end at one pin only if they did before. -/
theorem redirectSink_inj (h : p.Applies deepest c) (hc : c.Valid) {u w : Wire} (hu : u ∈ c.wires)
    (hw : w ∈ c.wires) (hgate : (p.redirectSink u.sink).gate = (p.redirectSink w.sink).gate)
    (hpin : (p.redirectSink u.sink).inputPin? = (p.redirectSink w.sink).inputPin?) :
    u.sink.gate = w.sink.gate ∧ u.sink.inputPin? = w.sink.inputPin? := by
  have hfresh : ∀ {v : Wire} {x : Gate Definition}, v ∈ c.wires → x ∈ p.inner.gates →
      v.sink.gate ≠ p.gateName x.id := by
    intro v x hv hx
    obtain ⟨g, hg, hid, -⟩ := hc.sink v hv
    exact hid ▸ (h.freshGates x hx g hg).symm
  rcases h.sink_cases hc hu with ⟨-, hu'⟩ | ⟨k, x, hux, huk, hx, hk, hu'⟩
  · rcases h.sink_cases hc hw with ⟨-, hw'⟩ | ⟨l, y, -, -, hy, -, hw'⟩
    · rw [hu', hw'] at hgate hpin
      exact ⟨hgate, hpin⟩
    · rw [hu', hw'] at hgate
      exact absurd hgate (hfresh hu hy)
  · rcases h.sink_cases hc hw with ⟨-, hw'⟩ | ⟨l, y, hwy, hwl, hy, hl, hw'⟩
    · rw [hu', hw'] at hgate
      exact absurd hgate.symm (hfresh hw hx)
    · rw [hu', hw'] at hgate
      obtain rfl : x = y := h.gateName_inj hx hy hgate
      rw [hux, hwy, huk, hwl, ← hk, ← hl]
      exact ⟨rfl, rfl⟩

/-- No wire around the gate ends at one pin with a copy. -/
theorem redirectSink_ne (h : p.Applies deepest c) (hc : c.Valid) {w u : Wire} (hw : w ∈ c.wires)
    (hu : u ∈ p.inner.wires) : (p.redirectSink w.sink).gate ≠ p.gateName u.sink.gate := by
  obtain ⟨y, hy, hid, -, hnone, -⟩ := h.inner_sink hu
  rw [← hid]
  intro he
  rcases h.sink_cases hc hw with ⟨-, hw'⟩ | ⟨k, x, -, -, hx, hk, hw'⟩
  · obtain ⟨g, hg, hgid, -⟩ := hc.sink w hw
    rw [hw', ← hgid] at he
    exact h.freshGates y hy g hg he.symm
  · rw [hw'] at he
    obtain rfl : x = y := h.gateName_inj hx hy he
    rw [hnone] at hk
    cases hk

theorem single_wires (h : p.Applies deepest c) (hc : c.Valid) :
    (p.circuit c).wires.Pairwise fun u w =>
      ¬ (u.sink.gate = w.sink.gate ∧ u.sink.inputPin? = w.sink.inputPin?) := by
  rw [circuit, List.pairwise_append, List.pairwise_map, List.pairwise_map]
  refine ⟨?_, ?_, ?_⟩
  · refine hc.single.imp_of_mem fun hu hw hne he => hne ?_
    exact h.redirectSink_inj hc hu hw he.1 he.2
  · refine h.inner_valid.single.imp_of_mem fun {u w} hu hw hne he => hne ⟨?_, he.2⟩
    obtain ⟨x, hx, hxid, -⟩ := h.inner_sink hu
    obtain ⟨y, hy, hyid, -⟩ := h.inner_sink hw
    have hname : p.gateName u.sink.gate = p.gateName w.sink.gate := he.1
    rw [← hxid, ← hyid] at hname ⊢
    rw [h.gateName_inj hx hy hname]
  · intro v hv v' hv' he
    obtain ⟨w, hw, rfl⟩ := List.mem_map.mp hv
    obtain ⟨u, hu, rfl⟩ := List.mem_map.mp hv'
    exact h.redirectSink_ne hc hw hu he.1

/-- **The circuit with the gate replaced is valid.** -/
theorem valid_circuit (h : p.Applies deepest c) (hc : c.Valid) : (p.circuit c).Valid := by
  have hkept : ∀ {g : Gate Definition}, g ∈ c.gates → g.id ≠ p.gate.id →
      g ∈ (p.circuit c).gates := fun hg hne => mem_gates.mpr (.inl ⟨hg, hne⟩)
  have hcopied : ∀ {x : Gate Definition}, x ∈ p.inner.gates →
      p.copyGate x ∈ (p.circuit c).gates := fun hx => mem_gates.mpr (.inr ⟨_, hx, rfl⟩)
  refine ⟨h.nodup_gates hc, h.nodup_wires hc, fun w hw => ?_, fun w hw => ?_, h.single_wires hc⟩
  · rcases mem_wires.mp hw with ⟨u, hu, rfl⟩ | ⟨u, hu, rfl⟩
    · rw [source_redirect]
      rcases h.source_cases hc hu with ⟨hne, hu'⟩ | ⟨pin, x, -, -, hx, hgate, hlt, hu'⟩
      · obtain ⟨g, hg, hid, hlt⟩ := hc.source u hu
        rw [hu']
        exact ⟨g, hkept hg (hid ▸ hne), hid, hlt⟩
      · refine ⟨p.copyGate x, hcopied hx, ?_, ?_⟩
        · rw [hu', id_copyGate, gate_copyEnd, hgate]
        · rw [hu', outputPin_copyEnd, h.outputCount_copyGate hx]
          exact hlt
    · obtain ⟨x, hx, hid, hlt⟩ := h.inner_valid.source u hu
      refine ⟨p.copyGate x, hcopied hx, ?_, ?_⟩
      · rw [id_copyGate, hid]
        rfl
      · rw [h.outputCount_copyGate hx]
        exact hlt
  · rcases mem_wires.mp hw with ⟨u, hu, rfl⟩ | ⟨u, hu, rfl⟩
    · rw [sink_redirect]
      rcases h.sink_cases hc hu with ⟨hne, hu'⟩ | ⟨k, x, -, -, hx, hk, hu'⟩
      · obtain ⟨g, hg, hid, hpin⟩ := hc.sink u hu
        rw [hu']
        exact ⟨g, hkept hg (hid ▸ hne), hid, hpin⟩
      · refine ⟨p.copyGate x, hcopied hx, ?_, 0, ?_, ?_⟩
        · rw [hu', id_copyGate]
          rfl
        · rw [hu', Endpoint.inputPin?_input _ (by decide)]
        · rw [copyGate_of_some hk]
          exact Nat.zero_lt_one
    · obtain ⟨y, hy, hid, -, hnone, pin, hpin, hlt⟩ := h.inner_sink hu
      refine ⟨p.copyGate y, hcopied hy, ?_, pin, hpin, ?_⟩
      · rw [id_copyGate, hid]
        rfl
      · rw [copyGate_of_none hnone]
        exact hlt

end Applies

end Inlining

end LogicSim
