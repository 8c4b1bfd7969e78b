import LogicSim.Netlist.Pass
import LogicSim.Netlist.Compilation
import LogicSim.Proofs.Circuit.Validity
import LogicSim.Proofs.Graph.Scheduling

/-!
# The wiring of a netlist

`Netlist.Realizes` relates a netlist to the circuit it stands for: the same gates in the same order,
and a connection for each wire. It says nothing of signals and memory, so that it holds along all
passes. From a valid circuit it follows that the netlist is `Netlist.WellFormed`: connections join
existing nodes, end at existing pins, and no two of them end at one pin.

* `Netlist.realizes_assemble`, `Netlist.wellFormed_assemble` -- for the netlist of a valid circuit;
* `Netlist.isFeedback_iff`, `Netlist.mem_of_dependencies` -- feedback and dependencies of a
  well-formed netlist, in terms of its connections;
* `Netlist.dependencies_assemble` -- they are those of the circuit.
-/

namespace LogicSim

variable {ε : Type}

/-! ## 1. The node of a gate -/

namespace Node

variable (compile : Definition → Except String ε) (g : Gate Definition)

@[simp] theorem id_ofGate : (ofGate compile g).id = g.id := rfl

@[simp] theorem inputs_ofGate : (ofGate compile g).inputs = Signal.resize g.inputs g.inputCount := rfl

@[simp] theorem element_ofGate : (ofGate compile g).element = Element.ofGate compile g := rfl

end Node

/-- An element has the kind of its gate. -/
theorem Element.kind_ofGate (compile : Definition → Except String ε) (g : Gate Definition) :
    (Element.ofGate compile g).kind = g.kind := by
  unfold Element.ofGate
  cases hk : g.kind with
  | custom =>
    dsimp only
    split
    · rfl
    · split <;> rfl
  | _ => rfl

/-- Whether an element is sequential is decided by the kind of its gate. -/
theorem Element.isSequential_ofGate (compile : Definition → Except String ε) (g : Gate Definition) :
    (Element.ofGate compile g).isSequential = g.kind.isSequential := by
  unfold Element.ofGate
  cases hk : g.kind with
  | custom =>
    dsimp only
    split
    · rfl
    · split <;> rfl
  | _ => rfl

/-! ## 2. Places of identifiers -/

/-- Where keys are not repeated, a key is found at its only place. -/
theorem findIdx?_id_eq_some_iff {α β : Type} [DecidableEq β] {key : α → β} {l : List α}
    (hnodup : (l.map key).Nodup) {id : β} {i : Nat} :
    l.findIdx? (fun a => key a = id) = some i ↔ (l.map key)[i]? = some id := by
  rw [List.findIdx?_eq_some_iff_getElem]
  constructor
  · intro hfound
    obtain ⟨hi, hid, -⟩ := hfound
    rw [List.getElem?_map, List.getElem?_eq_getElem hi]
    simpa using hid
  · intro h
    rw [List.getElem?_map, Option.map_eq_some_iff] at h
    obtain ⟨a, ha, hid⟩ := h
    obtain ⟨hi, rfl⟩ := List.getElem?_eq_some_iff.mp ha
    refine ⟨hi, by simpa using hid, fun j hj => ?_⟩
    simp only [decide_eq_true_eq]
    intro he
    have hlen : j < (l.map key).length := by
      rw [List.length_map]
      exact Nat.lt_trans hj hi
    have hsame : (l.map key)[j]? = (l.map key)[i]? := by
      rw [List.getElem?_map, List.getElem?_map, List.getElem?_eq_getElem (Nat.lt_trans hj hi),
        List.getElem?_eq_getElem hi, Option.map_some, Option.map_some, he, hid]
    exact absurd ((List.getElem?_inj hlen hnodup).mp hsame) (Nat.ne_of_lt hj)

/-! ## 3. Netlists of circuits -/

namespace Netlist

/-- **A netlist that stands for a circuit**: the same gates, and a connection for each wire. -/
structure Realizes (net : Netlist ε) (c : Circuit Definition) : Prop where
  ids : net.nodes.map (·.id) = c.gates.map (·.id)
  connection : ∀ k, k ∈ net.connections ↔ ∃ w, c.wires[k.wire]? = some w ∧
    (c.gates.map (·.id))[k.source]? = some w.source.gate ∧ w.source.outputPin = k.sourcePin ∧
    (c.gates.map (·.id))[k.sink]? = some w.sink.gate ∧ w.sink.inputPin? = some k.sinkPin

/-- Connections join existing nodes and end at existing pins, each at a pin of its own. -/
structure WellFormed (net : Netlist ε) : Prop where
  source_lt : ∀ k ∈ net.connections, k.source < net.nodes.length
  sink : ∀ k ∈ net.connections, ∃ n, net.nodes[k.sink]? = some n ∧ k.sinkPin < n.inputs.length
  single : ∀ k ∈ net.connections, ∀ l ∈ net.connections,
    k.sink = l.sink → k.sinkPin = l.sinkPin → k = l

theorem ofWire?_eq_some_iff {nodes : List (Node ε)} (hnodup : (nodes.map (·.id)).Nodup) {w : Wire}
    {number : Nat} {k : Connection} :
    Connection.ofWire? nodes w number = some k ↔ k.wire = number ∧
      (nodes.map (·.id))[k.source]? = some w.source.gate ∧ w.source.outputPin = k.sourcePin ∧
      (nodes.map (·.id))[k.sink]? = some w.sink.gate ∧ w.sink.inputPin? = some k.sinkPin := by
  obtain ⟨wire, source, sourcePin, sink, sinkPin⟩ := k
  simp only [Connection.ofWire?, Option.pure_def, Option.bind_eq_bind, Option.bind_eq_some_iff,
    findIdx?_id_eq_some_iff hnodup, Option.some.injEq, Connection.mk.injEq]
  constructor
  · intro hends
    obtain ⟨i, hi, j, hj, pin, hpin, rfl, rfl, rfl, rfl, rfl⟩ := hends
    exact ⟨rfl, hi, rfl, hj, hpin⟩
  · intro hends
    obtain ⟨rfl, hi, rfl, hj, hpin⟩ := hends
    exact ⟨source, hi, sink, hj, sinkPin, hpin, rfl, rfl, rfl, rfl, rfl⟩

theorem getElem?_assemble {compile : Definition → Except String ε} {c : Circuit Definition} {i : Nat}
    {g : Gate Definition} (hg : c.gates[i]? = some g) :
    (assemble compile c).nodes[i]? = some (Node.ofGate compile g) := by
  rw [assemble, List.getElem?_map, hg, Option.map_some]

theorem ids_assemble (compile : Definition → Except String ε) (c : Circuit Definition) :
    (assemble compile c).nodes.map (·.id) = c.gates.map (·.id) := by
  simp [assemble, Function.comp_def]

/-- **The netlist of a circuit stands for it.** -/
theorem realizes_assemble {compile : Definition → Except String ε} {c : Circuit Definition}
    (hc : c.Valid) : (assemble compile c).Realizes c := by
  refine ⟨ids_assemble compile c, fun k => ?_⟩
  have hids := ids_assemble compile c
  have hnodup : ((assemble compile c).nodes.map (·.id)).Nodup := hids ▸ hc.gateIds
  have hmem : k ∈ (assemble compile c).connections ↔ ∃ w number, c.wires[number]? = some w ∧
      Connection.ofWire? (assemble compile c).nodes w number = some k := by
    simp only [assemble, List.mem_filterMap, Prod.exists]
    constructor
    · intro hk
      obtain ⟨w, number, hw, hk⟩ := hk
      exact ⟨w, number, (List.mem_zipIdx_iff_getElem?.mp hw), hk⟩
    · intro hk
      obtain ⟨w, number, hw, hk⟩ := hk
      exact ⟨w, number, List.mem_zipIdx_iff_getElem?.mpr hw, hk⟩
  rw [hmem]
  simp only [ofWire?_eq_some_iff hnodup, hids]
  constructor
  · intro hk
    obtain ⟨w, number, hw, rfl, h⟩ := hk
    exact ⟨w, hw, h⟩
  · intro hk
    obtain ⟨w, hw, h⟩ := hk
    exact ⟨w, k.wire, hw, rfl, h⟩

/-- Every wire of a valid circuit has its connection, which bears its number. -/
theorem Realizes.exists_numbered {net : Netlist ε} {c : Circuit Definition} (h : net.Realizes c)
    (hc : c.Valid) {w : Wire} {number : Nat} (hnumber : c.wires[number]? = some w) :
    ∃ k ∈ net.connections, k.wire = number ∧
      (c.gates.map (·.id))[k.source]? = some w.source.gate ∧ w.source.outputPin = k.sourcePin ∧
      (c.gates.map (·.id))[k.sink]? = some w.sink.gate ∧ w.sink.inputPin? = some k.sinkPin := by
  have hw := List.mem_of_getElem? hnumber
  obtain ⟨g, hg, hsource, -⟩ := hc.source w hw
  obtain ⟨g', hg', hsink, pin, hpin, -⟩ := hc.sink w hw
  obtain ⟨i, hi⟩ := List.getElem?_of_mem hg
  obtain ⟨j, hj⟩ := List.getElem?_of_mem hg'
  have hi' : (c.gates.map (·.id))[i]? = some w.source.gate := by
    rw [List.getElem?_map, hi, Option.map_some, hsource]
  have hj' : (c.gates.map (·.id))[j]? = some w.sink.gate := by
    rw [List.getElem?_map, hj, Option.map_some, hsink]
  exact ⟨⟨number, i, w.source.outputPin, j, pin⟩,
    (h.connection _).mpr ⟨w, hnumber, hi', rfl, hj', hpin⟩, rfl, hi', rfl, hj', hpin⟩

theorem Realizes.exists_connection {net : Netlist ε} {c : Circuit Definition} (h : net.Realizes c)
    (hc : c.Valid) {w : Wire} (hw : w ∈ c.wires) :
    ∃ k ∈ net.connections, (c.gates.map (·.id))[k.source]? = some w.source.gate ∧
      w.source.outputPin = k.sourcePin ∧ (c.gates.map (·.id))[k.sink]? = some w.sink.gate ∧
      w.sink.inputPin? = some k.sinkPin := by
  obtain ⟨number, hnumber⟩ := List.getElem?_of_mem hw
  obtain ⟨k, hk, -, hends⟩ := h.exists_numbered hc hnumber
  exact ⟨k, hk, hends⟩

/-- A connection joins the nodes of two gates. -/
theorem Realizes.lt {net : Netlist ε} {c : Circuit Definition} (h : net.Realizes c) {k : Connection}
    (hk : k ∈ net.connections) : k.source < net.nodes.length ∧ k.sink < net.nodes.length := by
  obtain ⟨w, -, hsource, -, hsink, -⟩ := (h.connection k).mp hk
  rw [← h.ids] at hsource hsink
  obtain ⟨hsource, -⟩ := List.getElem?_eq_some_iff.mp hsource
  obtain ⟨hsink, -⟩ := List.getElem?_eq_some_iff.mp hsink
  rw [List.length_map] at hsource hsink
  exact ⟨hsource, hsink⟩

/-- Two connections that end at one pin are one. -/
theorem Realizes.single {net : Netlist ε} {c : Circuit Definition} (h : net.Realizes c)
    (hc : c.Valid) {k l : Connection} (hk : k ∈ net.connections) (hl : l ∈ net.connections)
    (hsink : k.sink = l.sink) (hpin : k.sinkPin = l.sinkPin) : k = l := by
  obtain ⟨w, hw, hsource, hout, hgate, hin⟩ := (h.connection k).mp hk
  obtain ⟨w', hw', hsource', hout', hgate', hin'⟩ := (h.connection l).mp hl
  have hgates : w.sink.gate = w'.sink.gate := by
    rw [hsink, hgate'] at hgate
    exact (Option.some.inj hgate).symm
  obtain rfl : w = w' := hc.eq_of_sink (List.mem_of_getElem? hw) (List.mem_of_getElem? hw') hgates
    (by rw [hin, hin', hpin])
  have hwire : k.wire = l.wire :=
    (List.getElem?_inj (List.getElem?_eq_some_iff.mp hw).1 (hc.wireIds.of_map _)).mp
      (hw.trans hw'.symm)
  have hnode : k.source = l.source :=
    (List.getElem?_inj (List.getElem?_eq_some_iff.mp hsource).1 hc.gateIds).mp
      (hsource.trans hsource'.symm)
  obtain ⟨wire, source, sourcePin, sink, sinkPin⟩ := k
  simp_all

/-- A netlist that stands for a valid circuit, with all its pins, is well-formed. -/
theorem Realizes.wellFormed {net : Netlist ε} {c : Circuit Definition} (h : net.Realizes c)
    (hc : c.Valid)
    (hpins : net.nodes.map (·.inputs.length) = c.gates.map (·.inputCount)) : net.WellFormed := by
  refine ⟨fun k hk => (h.lt hk).1, fun k hk => ?_, fun k hk l hl => h.single hc hk hl⟩
  have hlt := (h.lt hk).2
  refine ⟨net.nodes[k.sink], List.getElem?_eq_getElem hlt, ?_⟩
  obtain ⟨w, hw, -, -, hgate, hin⟩ := (h.connection k).mp hk
  obtain ⟨g, hg, hid, pin, hpin, hbound⟩ := hc.sink w (List.mem_of_getElem? hw)
  rw [List.getElem?_map, Option.map_eq_some_iff] at hgate
  obtain ⟨g', hg', hid'⟩ := hgate
  obtain rfl : g = g' :=
    List.inj_on_of_nodup_map hc.gateIds hg (List.mem_of_getElem? hg') (hid.trans hid'.symm)
  have hcount : net.nodes[k.sink].inputs.length = g.inputCount := by
    have := congrArg (·[k.sink]?) hpins
    simpa [hg', List.getElem?_eq_getElem hlt] using this
  rw [hcount, show k.sinkPin = pin from Option.some.inj (hin.symm.trans hpin)]
  exact hbound

/-- **The netlist of a valid circuit is well-formed.** -/
theorem wellFormed_assemble {compile : Definition → Except String ε} {c : Circuit Definition}
    (hc : c.Valid) : (assemble compile c).WellFormed := by
  refine (realizes_assemble hc).wellFormed hc ?_
  simp [assemble, Function.comp_def]

/-- A circuit with a netlist is valid. -/
theorem valid_of_ofCircuit {compile : Definition → Except String ε} {c : Circuit Definition}
    {net : Netlist ε} (h : ofCircuit compile c = .ok net) :
    c.Valid ∧ net = assemble compile c := by
  unfold ofCircuit at h
  split at h
  next hcheck => exact ⟨Circuit.check_eq_nil_iff.mp hcheck, (Except.ok.inj h).symm⟩
  next => cases h

/-- A valid circuit has a netlist. -/
theorem ofCircuit_of_valid (compile : Definition → Except String ε) {c : Circuit Definition}
    (hc : c.Valid) : ofCircuit compile c = .ok (assemble compile c) := by
  rw [ofCircuit, Circuit.check_eq_nil_iff.mpr hc]

/-! ## 4. Dependencies -/

/-- Whether a connection joins two nodes. -/
def Joins (net : Netlist ε) (a b : Nat) : Prop := ∃ k ∈ net.connections, k.source = a ∧ k.sink = b

/-- Reachability along connections. -/
def Reaches (net : Netlist ε) : Nat → Nat → Prop := Relation.ReflTransGen net.Joins

theorem mem_edges {net : Netlist ε} {a b : Nat} :
    (a, b) ∈ net.connections.map (fun k => (k.source, k.sink)) ↔ net.Joins a b := by
  simp [Joins]

@[simp] theorem size_dependencies (net : Netlist ε) : net.dependencies.size = net.nodes.length := by
  simp [dependencies, Dependencies.size_ofEdges]

theorem WellFormed.inRange {net : Netlist ε} (h : net.WellFormed) :
    Dependencies.InRange (net.nodes.map (·.element.isSequential)).toArray.size
      (net.connections.map fun k => (k.source, k.sink)) := by
  rintro ⟨a, b⟩ he
  obtain ⟨k, hk, rfl, rfl⟩ := mem_edges.mp he
  obtain ⟨n, hn, -⟩ := h.sink k hk
  have hsink := (List.getElem?_eq_some_iff.mp hn).1
  simpa using ⟨h.source_lt k hk, hsink⟩

/-- **Feedback leads into a sequential node from a node that it reaches.** -/
theorem isFeedback_iff {net : Netlist ε} (h : net.WellFormed) {a b : Nat} {n : Node ε}
    (ha : a < net.nodes.length) (hb : net.nodes[b]? = some n) :
    net.dependencies.isFeedback a b = true ↔
      n.element.isSequential = true ∧ net.Reaches a b ∧ net.Reaches b a := by
  have hlt := (List.getElem?_eq_some_iff.mp hb).1
  have hrel : Dependencies.Reaches (net.connections.map fun k => (k.source, k.sink)) =
      net.Reaches := by
    rw [Dependencies.Reaches, Reaches]
    congr 1
    funext a b
    exact propext mem_edges
  rw [dependencies, Dependencies.isFeedback_iff h.inRange (by simpa using ha) (by simpa using hlt),
    hrel]
  simp [Array.getD_eq_getD_getElem?, hb]

/-- **The dependencies of a node are the connections into it that are not feedback.** -/
theorem mem_of_dependencies {net : Netlist ε} (h : net.WellFormed) {a b : Nat} :
    a ∈ net.dependencies.of b ↔ net.Joins a b ∧ net.dependencies.isFeedback a b = false := by
  rw [dependencies, Dependencies.mem_of h.inRange, mem_edges]

theorem lt_of_mem_dependencies {net : Netlist ε} (h : net.WellFormed) {a b : Nat}
    (hab : a ∈ net.dependencies.of b) : a < net.dependencies.size := by
  rw [size_dependencies]
  obtain ⟨⟨k, hk, rfl, -⟩, -⟩ := (mem_of_dependencies h).mp hab
  exact h.source_lt k hk

/-- **The dependencies of a valid circuit are those of its netlist.** -/
theorem dependencies_assemble {compile : Definition → Except String ε} {c : Circuit Definition}
    (hc : c.Valid) : (assemble compile c).dependencies = c.dependencies := by
  have hsequential : (assemble compile c).nodes.map (·.element.isSequential) =
      c.gates.map (·.kind.isSequential) := by
    rw [assemble, List.map_map]
    exact List.map_congr_left fun g _ => Element.isSequential_ofGate compile g
  have hindex : ∀ id : GateId, (c.gates.map (Node.ofGate compile)).findIdx? (·.id = id) =
      c.gates.findIdx? (·.id = id) := by
    intro id
    rw [List.findIdx?_map]
    rfl
  have hedges : (assemble compile c).connections.map (fun k => (k.source, k.sink)) =
      c.wires.filterMap fun w => do
        return (← c.gates.findIdx? (·.id = w.source.gate),
          ← c.gates.findIdx? (·.id = w.sink.gate)) := by
    conv_rhs => rw [← List.zipIdx_map_fst 0 c.wires, List.filterMap_map]
    rw [assemble, List.map_filterMap]
    refine List.filterMap_congr fun (w, number) hw => ?_
    obtain ⟨g, hg, hid, pin, hpin, -⟩ := hc.sink w (List.fst_mem_of_mem_zipIdx hw)
    simp only [Connection.ofWire?, hindex, hpin, Function.comp]
    cases c.gates.findIdx? (·.id = w.source.gate) <;>
      cases c.gates.findIdx? (·.id = w.sink.gate) <;> rfl
  rw [dependencies, hsequential, hedges]
  rfl

end Netlist

end LogicSim
