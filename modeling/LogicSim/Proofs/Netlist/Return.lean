import LogicSim.Proofs.Netlist.Shape

/-!
# The circuit that a netlist returns

`Netlist.writeBack` puts signals and memory into the gates of a circuit, by position. Identifiers,
kinds, definitions and the ends of wires stay; `Netlist.gate?_writeBack` gives the gate that comes
back for a node, and `Netlist.getElem?_wires_writeBack` the wire that comes back for a connection.
-/

namespace LogicSim

variable {ε : Type}

/-! ## 1. Look-up by identifier -/

/-- What only one member of a list satisfies finds that member. -/
theorem find?_eq_some_of_single {α : Type} {p : α → Bool} {l : List α} {a : α} (ha : a ∈ l)
    (hp : p a = true) (hsingle : ∀ b ∈ l, p b = true → b = a) : l.find? p = some a := by
  cases hfind : l.find? p with
  | none => exact absurd hp (List.find?_eq_none.mp hfind a ha)
  | some b => rw [hsingle b (List.mem_of_find?_eq_some hfind) (List.find?_some hfind)]

namespace Circuit

variable {δ : Type} {c : Circuit δ}

/-- Where identifiers are not repeated, an identifier denotes the gate at its only place. -/
theorem gate?_eq_some (hnodup : (c.gates.map (·.id)).Nodup) {g : Gate δ} (hg : g ∈ c.gates) :
    c.gate? g.id = some g := by
  refine find?_eq_some_of_single hg (decide_eq_true rfl) fun g' hg' hid => ?_
  exact List.inj_on_of_nodup_map hnodup hg' hg (of_decide_eq_true hid)

/-- The first wire with an identifier. -/
def wire? (c : Circuit δ) (id : WireId) : Option Wire := c.wires.find? (·.id = id)

theorem wire?_eq_some (hnodup : (c.wires.map (·.id)).Nodup) {w : Wire} (hw : w ∈ c.wires) :
    c.wire? w.id = some w := by
  refine find?_eq_some_of_single hw (decide_eq_true rfl) fun u hu hid => ?_
  exact List.inj_on_of_nodup_map hnodup hu hw (of_decide_eq_true hid)

end Circuit

/-! ## 2. Gates and wires -/

/-- What a wire joins. -/
def Wire.ends (w : Wire) : WireId × Endpoint × Endpoint := (w.id, w.source, w.sink)

theorem Wire.source_of_ends {u w : Wire} (h : u.ends = w.ends) : u.source = w.source :=
  (Prod.ext_iff.mp (Prod.ext_iff.mp h).2).1

theorem Wire.drives_of_ends {u w : Wire} (h : u.ends = w.ends) (id : GateId) (pin : Nat) :
    u.drives id pin = w.drives id pin := by
  have hsink : u.sink = w.sink := (Prod.ext_iff.mp (Prod.ext_iff.mp h).2).2
  rw [drives, drives, hsink]

namespace Netlist

variable {δ : Type}

theorem getElem?_gates_writeBack (net : Netlist ε) (c : Circuit δ) (i : Nat) :
    (net.writeBack c).gates[i]? = c.gates[i]?.map fun g =>
      ((net.nodes[i]?).map fun n => n.store g).getD g := by
  rw [writeBack, List.getElem?_mapIdx]
  refine congrArg (c.gates[i]?.map ·) (funext fun g => ?_)
  cases net.nodes[i]? <;> rfl

theorem getElem?_gates_writeBack_of_some {net : Netlist ε} {c : Circuit δ} {i : Nat} {g : Gate δ}
    {n : Node ε} (hg : c.gates[i]? = some g) (hn : net.nodes[i]? = some n) :
    (net.writeBack c).gates[i]? = some (n.store g) := by
  rw [getElem?_gates_writeBack, hg, hn]
  rfl

theorem getElem?_wires_writeBack (net : Netlist ε) (c : Circuit δ) (i : Nat) :
    (net.writeBack c).wires[i]? = c.wires[i]?.map fun w =>
      ((net.connections.find? (·.wire = i)).map fun k =>
        { w with isActive := net.outputAt k.source k.sourcePin }).getD w := by
  rw [writeBack, List.getElem?_mapIdx]
  refine congrArg (c.wires[i]?.map ·) (funext fun w => ?_)
  cases net.connections.find? (·.wire = i) <;> rfl

@[simp] theorem ids_writeBack (net : Netlist ε) (c : Circuit δ) :
    (net.writeBack c).gates.map (·.id) = c.gates.map (·.id) := by
  refine List.ext_getElem? fun i => ?_
  rw [List.getElem?_map, List.getElem?_map, getElem?_gates_writeBack, Option.map_map]
  refine congrArg (c.gates[i]?.map ·) (funext fun g => ?_)
  show (((net.nodes[i]?).map fun n => n.store g).getD g).id = g.id
  cases net.nodes[i]? <;> rfl

/-- The wires come back with their identifiers and ends. -/
@[simp] theorem ends_writeBack (net : Netlist ε) (c : Circuit δ) :
    (net.writeBack c).wires.map Wire.ends = c.wires.map Wire.ends := by
  refine List.ext_getElem? fun i => ?_
  rw [List.getElem?_map, List.getElem?_map, getElem?_wires_writeBack, Option.map_map]
  refine congrArg (c.wires[i]?.map ·) (funext fun w => ?_)
  dsimp only [Function.comp]
  cases net.connections.find? (·.wire = i) <;> rfl

/-- **The gate that comes back for a node.** -/
theorem gate?_writeBack {net : Netlist ε} {c : Circuit δ} (hnodup : (c.gates.map (·.id)).Nodup)
    {i : Nat} {g : Gate δ} {n : Node ε} (hg : c.gates[i]? = some g) (hn : net.nodes[i]? = some n) :
    (net.writeBack c).gate? g.id = some (n.store g) := by
  have hmem := List.mem_of_getElem? (getElem?_gates_writeBack_of_some hg hn)
  exact Circuit.gate?_eq_some (by rwa [ids_writeBack]) hmem

theorem mem_wires_writeBack {net : Netlist ε} {c : Circuit δ} {w : Wire}
    (hw : w ∈ (net.writeBack c).wires) : ∃ w' ∈ c.wires, w'.ends = w.ends := by
  have := List.mem_map_of_mem (f := Wire.ends) hw
  rw [ends_writeBack] at this
  exact List.mem_map.mp this

end Netlist

/-! ## 3. Signals at pins -/

/-- The signal at an input pin of a gate: that of the output wired to it, and the stored one if
    there is none. -/
def Circuit.pinSignal {δ : Type} (c : Circuit δ) (g : Gate δ) (pin : Nat) : Bool :=
  match c.wires.find? (·.drives g.id pin) with
  | some w => ((c.gate? w.source.gate).bind (·.outputs[w.source.outputPin]?)).getD false
  | none => g.inputs.getD pin false

theorem Circuit.pinSignal_of_free {δ : Type} {c : Circuit δ} {g : Gate δ} {pin : Nat}
    (h : ∀ w ∈ c.wires, w.drives g.id pin = false) :
    c.pinSignal g pin = g.inputs.getD pin false := by
  have hnone : c.wires.find? (·.drives g.id pin) = none :=
    List.find?_eq_none.mpr fun w hw => by rw [h w hw]; exact Bool.false_ne_true
  rw [pinSignal, hnone]

/-- **A pin with a connection carries, in the circuit that comes back, what the netlist shows at
    the source.** -/
theorem Netlist.pinSignal_writeBack {net : Netlist ε} {c : Circuit Definition}
    (h : net.Realizes c) (hc : c.Valid) {k : Connection} (hk : k ∈ net.connections)
    {g : Gate Definition} (hg : c.gates[k.sink]? = some g) :
    (net.writeBack c).pinSignal g k.sinkPin = net.outputAt k.source k.sourcePin := by
  obtain ⟨w, hw, hsource, hout, hsink, hin⟩ := (h.connection k).mp hk
  have hdrives : w.drives g.id k.sinkPin = true := by
    rw [List.getElem?_map, hg, Option.map_some, Option.some.injEq] at hsink
    exact Circuit.drives_iff.mpr ⟨hsink.symm, hin⟩
  -- the wire that is found has the same ends as `w`
  have hfound : ∃ u, (net.writeBack c).wires.find? (·.drives g.id k.sinkPin) = some u ∧
      u.source = w.source := by
    cases hu : (net.writeBack c).wires.find? (·.drives g.id k.sinkPin) with
    | none =>
      have hmem := List.mem_map_of_mem (f := Wire.ends) (List.mem_of_getElem? hw)
      rw [← ends_writeBack net, List.mem_map] at hmem
      obtain ⟨v, hv, he⟩ := hmem
      have := List.find?_eq_none.mp hu v hv
      exact absurd (Wire.drives_of_ends he .. ▸ hdrives) this
    | some u =>
      obtain ⟨v, hv, he⟩ := mem_wires_writeBack (List.mem_of_find?_eq_some hu)
      have hud := List.find?_some hu
      have hvd : v.drives g.id k.sinkPin = true := Wire.drives_of_ends he .. ▸ hud
      obtain rfl := hc.eq_of_drives hv (List.mem_of_getElem? hw) hvd hdrives
      exact ⟨u, rfl, (Wire.source_of_ends he).symm⟩
  obtain ⟨u, hu, husource⟩ := hfound
  obtain ⟨hlt, -⟩ := h.lt hk
  have hn := List.getElem?_eq_getElem hlt
  rw [List.getElem?_map, Option.map_eq_some_iff] at hsource
  obtain ⟨g', hg', hid⟩ := hsource
  rw [Circuit.pinSignal, hu]
  dsimp only
  rw [husource, ← hid, gate?_writeBack hc.gateIds hg' hn, hout, outputAt, hn]
  rfl

end LogicSim
