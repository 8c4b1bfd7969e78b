import LogicSim.Evaluator
import LogicSim.Proofs.Netlist.Resolution
import LogicSim.Proofs.Netlist.Return

/-!
# The equations of a pass, gate by gate

A netlist names gates by number. Here the paths of wires, feedback and the equations of an immediate
pass are stated for the circuit itself, by identifier, so that circuits with different gates can be
compared.

* `Netlist.schedule_iff` -- a circuit has a schedule exactly if it has no combinational cycle;
* `Netlist.resolves_iff_solves` -- the equations of the netlist are those of the circuit;
* `Circuit.solves_immediate`, `Circuit.Solves.unique` -- without a combinational cycle they have one
  solution;
* `Evaluator.immediate_solves` -- and that is what an immediate evaluation returns;
* `Evaluator.immediate_perm` -- in whatever order gates and wires are written.
-/

namespace LogicSim

open Relation

variable {ε : Type} {run : ε → Reaction} {instant : Instant}

/-! ## 1. Paths of wires -/

namespace Circuit

/-- Whether a wire leads from one gate to another. -/
def Wired (c : Circuit Definition) (a b : GateId) : Prop :=
  ∃ w ∈ c.wires, w.source.gate = a ∧ w.sink.gate = b

/-- Whether an identifier belongs to a sequential gate. -/
def Sequential (c : Circuit Definition) (id : GateId) : Prop :=
  ∃ g ∈ c.gates, g.id = id ∧ g.kind.isSequential = true

/-- Whether a wire leads from one gate to another, and neither is sequential. -/
def Combinational (c : Circuit Definition) (a b : GateId) : Prop :=
  c.Wired a b ∧ ¬ c.Sequential a ∧ ¬ c.Sequential b

/-- **A cycle of wires between gates that are not sequential.** -/
def CombinationalCycle (c : Circuit Definition) : Prop := ∃ id, TransGen c.Combinational id id

/-- **A wire that carries the signal of the pass before**: it leads into a sequential gate, and both
    its ends lie on a loop of wires. -/
def Feedback (c : Circuit Definition) (a b : GateId) : Prop :=
  c.Sequential b ∧ ReflTransGen c.Wired a b ∧ ReflTransGen c.Wired b a

/-- The identifier at a place. -/
def nameAt (c : Circuit Definition) (i : Nat) : GateId := ((c.gates.map (·.id))[i]?).getD ""

/-- The place of an identifier. -/
def place (c : Circuit Definition) (id : GateId) : Nat := (c.gates.map (·.id)).idxOf id

variable {c : Circuit Definition}

theorem nameAt_eq {i : Nat} {id : GateId} (h : (c.gates.map (·.id))[i]? = some id) :
    c.nameAt i = id := by
  rw [nameAt, h, Option.getD_some]

theorem place_eq (hc : c.Valid) {i : Nat} {id : GateId} (h : (c.gates.map (·.id))[i]? = some id) :
    c.place id = i := by
  have hmem := List.mem_of_getElem? h
  refine (List.getElem?_inj (List.idxOf_lt_length_iff.mpr hmem) hc.gateIds).mp ?_
  rw [List.getElem?_idxOf hmem, h]

/-- A circuit whose wires all lead forward in its list of gates has no loop. -/
theorem no_loop_of_forward (h : ∀ w ∈ c.wires, c.place w.source.gate < c.place w.sink.gate)
    {a b : GateId} (hab : TransGen c.Wired a b) : c.place a < c.place b := by
  have hwire : ∀ {u v : GateId}, c.Wired u v → c.place u < c.place v := by
    intro u v huv
    obtain ⟨w, hw, rfl, rfl⟩ := huv
    exact h w hw
  induction hab with
  | single hab => exact hwire hab
  | tail _ hmb ih => exact ih.trans (hwire hmb)

theorem not_combinationalCycle_of_forward
    (h : ∀ w ∈ c.wires, c.place w.source.gate < c.place w.sink.gate) : ¬ c.CombinationalCycle := by
  intro hcycle
  obtain ⟨id, hid⟩ := hcycle
  exact Nat.lt_irrefl _ (no_loop_of_forward h (TransGen.mono (fun _ _ hab => hab.1) _ _ hid))

/-- In a valid circuit an identifier is sequential if its gate is. -/
theorem sequential_iff (hc : c.Valid) {g : Gate Definition} (hg : g ∈ c.gates) :
    c.Sequential g.id ↔ g.kind.isSequential = true := by
  constructor
  · intro hid
    obtain ⟨g', hg', hid, hseq⟩ := hid
    rwa [← List.inj_on_of_nodup_map hc.gateIds hg' hg hid]
  · exact fun h => ⟨g, hg, rfl, h⟩

end Circuit

namespace Netlist

variable {net : Netlist ε} {c : Circuit Definition}

theorem Realizes.wired (h : net.Realizes c) {i j : Nat} (hij : net.Joins i j) :
    c.Wired (c.nameAt i) (c.nameAt j) := by
  obtain ⟨k, hk, rfl, rfl⟩ := hij
  obtain ⟨w, hw, hsource, -, hsink, -⟩ := (h.connection k).mp hk
  exact ⟨w, List.mem_of_getElem? hw, (Circuit.nameAt_eq hsource).symm,
    (Circuit.nameAt_eq hsink).symm⟩

theorem Realizes.joins (h : net.Realizes c) (hc : c.Valid) {a b : GateId} (hab : c.Wired a b) :
    net.Joins (c.place a) (c.place b) := by
  obtain ⟨w, hw, rfl, rfl⟩ := hab
  obtain ⟨k, hk, hsource, -, hsink, -⟩ := h.exists_connection hc hw
  exact ⟨k, hk, (Circuit.place_eq hc hsource).symm, (Circuit.place_eq hc hsink).symm⟩

/-- **Paths of connections are paths of wires.** -/
theorem Realizes.reaches_iff (h : net.Realizes c) (hc : c.Valid) {i j : Nat} {a b : GateId}
    (hi : (c.gates.map (·.id))[i]? = some a) (hj : (c.gates.map (·.id))[j]? = some b) :
    net.Reaches i j ↔ ReflTransGen c.Wired a b := by
  constructor
  · intro hij
    have := ReflTransGen.lift c.nameAt (fun _ _ => h.wired) _ _ hij
    rwa [Function.onFun, Circuit.nameAt_eq hi, Circuit.nameAt_eq hj] at this
  · intro hab
    have := ReflTransGen.lift c.place (fun _ _ => h.joins hc) _ _ hab
    rwa [Function.onFun, Circuit.place_eq hc hi, Circuit.place_eq hc hj] at this

section Shape

variable {compile : Definition → Except String ε}

/-- A netlist of the shape of a circuit stands for it. -/
theorem realizes_of_shape (hc : c.Valid) (hshape : net.shape = (assemble compile c).shape) :
    net.Realizes c := (realizes_assemble hc).of_shape hshape

theorem length_of_assemble (hshape : net.shape = (assemble compile c).shape) :
    net.nodes.length = c.gates.length := by
  rw [length_of_shape hshape, assemble, List.length_map]

/-- The node of a gate is sequential if the gate is. -/
theorem isSequential_of_shape (hshape : net.shape = (assemble compile c).shape) {i : Nat}
    {g : Gate Definition} (hg : c.gates[i]? = some g) {n : Node ε} (hn : net.nodes[i]? = some n) :
    n.element.isSequential = g.kind.isSequential := by
  obtain ⟨n', hn', hs⟩ := exists_of_shape hshape (getElem?_assemble hg)
  obtain rfl : n = n' := Option.some.inj (hn.symm.trans hn')
  have : n.element.isSequential = (Node.ofGate compile g).element.isSequential :=
    congrArg Shape.sequential hs
  rw [this, Node.element_ofGate, Element.isSequential_ofGate]

/-- **Feedback in the netlist is feedback in the circuit.** -/
theorem isFeedback_iff_feedback (hc : c.Valid) (hshape : net.shape = (assemble compile c).shape)
    {i j : Nat} {g h : Gate Definition} (hg : c.gates[i]? = some g) (hh : c.gates[j]? = some h) :
    net.dependencies.isFeedback i j = true ↔ c.Feedback g.id h.id := by
  have hrealizes := realizes_of_shape hc hshape
  have hids : ∀ {i : Nat} {a : Gate Definition}, c.gates[i]? = some a →
      (c.gates.map (·.id))[i]? = some a.id := by
    intro i a ha
    rw [List.getElem?_map, ha, Option.map_some]
  have hlt : i < net.nodes.length := by
    rw [length_of_assemble hshape]
    exact (List.getElem?_eq_some_iff.mp hg).1
  obtain ⟨n, hn, -⟩ := exists_of_shape hshape (getElem?_assemble hh)
  rw [isFeedback_iff ((wellFormed_assemble hc).of_shape hshape) hlt hn,
    isSequential_of_shape hshape hh hn, hrealizes.reaches_iff hc (hids hg) (hids hh),
    hrealizes.reaches_iff hc (hids hh) (hids hg), Circuit.Feedback,
    Circuit.sequential_iff hc (List.mem_of_getElem? hh)]

theorem getD_sequential (hshape : net.shape = (assemble compile c).shape) {i : Nat}
    {g : Gate Definition} (hg : c.gates[i]? = some g) :
    (net.nodes.map (·.element.isSequential)).toArray.getD i false = g.kind.isSequential := by
  obtain ⟨n, hn, -⟩ := exists_of_shape hshape (getElem?_assemble hg)
  rw [← isSequential_of_shape hshape hg hn]
  simp [Array.getD_eq_getD_getElem?, hn]

/-- Whether a connection joins two nodes that are not sequential. -/
def CombinationalEdge (net : Netlist ε) (i j : Nat) : Prop :=
  (i, j) ∈ net.connections.map (fun k => (k.source, k.sink)) ∧
    (net.nodes.map (·.element.isSequential)).toArray.getD i false = false ∧
    (net.nodes.map (·.element.isSequential)).toArray.getD j false = false

theorem combinational_of_edge (hc : c.Valid) (hshape : net.shape = (assemble compile c).shape)
    {i j : Nat} (hij : net.CombinationalEdge i j) :
    c.Combinational (c.nameAt i) (c.nameAt j) := by
  have hrealizes := realizes_of_shape hc hshape
  obtain ⟨hedge, hi, hj⟩ := hij
  have hjoins := mem_edges.mp hedge
  have hsequential : ∀ {x : Nat}, x < net.nodes.length →
      (net.nodes.map (·.element.isSequential)).toArray.getD x false = false →
        ¬ c.Sequential (c.nameAt x) := by
    intro x hx hfalse
    have hg := List.getElem?_eq_getElem (length_of_assemble hshape ▸ hx)
    rw [getD_sequential hshape hg] at hfalse
    rw [Circuit.nameAt_eq (by rw [List.getElem?_map, hg, Option.map_some]),
      Circuit.sequential_iff hc (List.mem_of_getElem? hg), hfalse]
    exact Bool.false_ne_true
  obtain ⟨k, hk, rfl, rfl⟩ := id hjoins
  obtain ⟨hsource, hsink⟩ := hrealizes.lt hk
  exact ⟨hrealizes.wired hjoins, hsequential hsource hi, hsequential hsink hj⟩

theorem edge_of_combinational (hc : c.Valid) (hshape : net.shape = (assemble compile c).shape)
    {a b : GateId} (hab : c.Combinational a b) :
    net.CombinationalEdge (c.place a) (c.place b) := by
  obtain ⟨hwired, hna, hnb⟩ := hab
  have hsequential : ∀ {g : Gate Definition}, g ∈ c.gates → ¬ c.Sequential g.id →
      (net.nodes.map (·.element.isSequential)).toArray.getD (c.place g.id) false = false := by
    intro g hg hns
    obtain ⟨i, hi⟩ := List.getElem?_of_mem hg
    have hplace : c.place g.id = i :=
      Circuit.place_eq hc (by rw [List.getElem?_map, hi, Option.map_some])
    rw [hplace, getD_sequential hshape hi, ← Bool.not_eq_true, ← Circuit.sequential_iff hc hg]
    exact hns
  have hjoins := (realizes_of_shape hc hshape).joins hc hwired
  obtain ⟨w, hw, rfl, rfl⟩ := hwired
  obtain ⟨g, hg, hgid, -⟩ := hc.source w hw
  obtain ⟨g', hg', hgid', -⟩ := hc.sink w hw
  rw [← hgid] at hna hjoins ⊢
  rw [← hgid'] at hnb hjoins ⊢
  exact ⟨mem_edges.mpr hjoins, hsequential hg hna, hsequential hg' hnb⟩

/-- **A circuit has a schedule exactly if it has no combinational cycle.** -/
theorem schedule_iff (hc : c.Valid) (hshape : net.shape = (assemble compile c).shape) :
    (∃ s, net.dependencies.schedule = .ok s) ↔ ¬ c.CombinationalCycle := by
  have hwell := (wellFormed_assemble hc).of_shape hshape
  rw [dependencies, Dependencies.schedule_iff hwell.inRange]
  refine not_congr ⟨?_, ?_⟩
  · intro hcycle
    obtain ⟨v, hv⟩ := hcycle
    exact ⟨_, TransGen.lift c.nameAt (fun _ _ => combinational_of_edge hc hshape) v v hv⟩
  · intro hcycle
    obtain ⟨a, ha⟩ := hcycle
    exact ⟨_, TransGen.lift c.place (fun _ _ => edge_of_combinational hc hshape) a a ha⟩

end Shape

end Netlist

/-! ## 2. The equations -/

/-- **The equations of an immediate pass, gate by gate**, for the nodes before and after it. -/
structure Circuit.Solves (run : ε → Reaction) (instant : Instant) (c : Circuit Definition)
    (before after : GateId → Node ε) : Prop where
  follows : ∀ g ∈ c.gates, (before g.id).Follows run instant (after g.id)
  pins : ∀ g ∈ c.gates, (after g.id).inputs.length = (before g.id).inputs.length
  feedback : ∀ w ∈ c.wires, ∀ pin, w.sink.inputPin? = some pin →
    c.Feedback w.source.gate w.sink.gate → (after w.sink.gate).inputs[pin]? =
      some ((before w.source.gate).outputs.getD w.source.outputPin false)
  driven : ∀ w ∈ c.wires, ∀ pin, w.sink.inputPin? = some pin →
    ¬ c.Feedback w.source.gate w.sink.gate → (after w.sink.gate).inputs[pin]? =
      some ((after w.source.gate).outputs.getD w.source.outputPin false)
  free : ∀ g ∈ c.gates, ∀ pin, (∀ w ∈ c.wires, w.drives g.id pin = false) →
    (after g.id).inputs[pin]? = (before g.id).inputs[pin]?

namespace Netlist

/-- A netlist has the nodes that a state gives to the gates of a circuit. -/
def Has (net : Netlist ε) (c : Circuit Definition) (state : GateId → Node ε) : Prop :=
  net.nodes = c.gates.map fun g => state g.id

variable {net net' : Netlist ε} {c : Circuit Definition} {compile : Definition → Except String ε}
  {before after : GateId → Node ε}

theorem has_mk (c : Circuit Definition) (state : GateId → Node ε) (connections : List Connection) :
    Has ⟨c.gates.map fun g => state g.id, connections⟩ c state := rfl

theorem Has.node {state : GateId → Node ε} (h : net.Has c state) {i : Nat} {g : Gate Definition}
    (hg : c.gates[i]? = some g) : net.nodes[i]? = some (state g.id) := by
  rw [h, List.getElem?_map, hg, Option.map_some]

theorem Has.outputAt {state : GateId → Node ε} (h : net.Has c state) {i : Nat} {g : Gate Definition}
    (hg : c.gates[i]? = some g) (pin : Nat) :
    net.outputAt i pin = (state g.id).outputs.getD pin false := by
  rw [Netlist.outputAt, h.node hg, Option.bind_some, List.getD_eq_getElem?_getD]

/-- The gates that a connection joins, and its wire. -/
theorem Realizes.ends (h : net.Realizes c) {k : Connection} (hk : k ∈ net.connections) :
    ∃ w ∈ c.wires, ∃ g g', c.gates[k.source]? = some g ∧ g.id = w.source.gate ∧
      c.gates[k.sink]? = some g' ∧ g'.id = w.sink.gate ∧ w.source.outputPin = k.sourcePin ∧
      w.sink.inputPin? = some k.sinkPin := by
  obtain ⟨w, hw, hsource, hout, hsink, hin⟩ := (h.connection k).mp hk
  rw [List.getElem?_map, Option.map_eq_some_iff] at hsource hsink
  obtain ⟨g, hg, hgid⟩ := hsource
  obtain ⟨g', hg', hgid'⟩ := hsink
  exact ⟨w, List.mem_of_getElem? hw, g, g', hg, hgid, hg', hgid', hout, hin⟩

section Equations

variable (hc : c.Valid) (hshape : net.shape = (assemble compile c).shape)
  (hbefore : net.Has c before) (hafter : net'.Has c after)

include hc hshape hbefore hafter

/-- What the node of a gate reads from that of another. -/
theorem readResolved_eq {i j : Nat} {g g' : Gate Definition} (pin : Nat)
    (hg : c.gates[i]? = some g) (hg' : c.gates[j]? = some g') :
    (c.Feedback g.id g'.id →
      net.readResolved net' j i pin = (before g.id).outputs.getD pin false) ∧
    (¬ c.Feedback g.id g'.id →
      net.readResolved net' j i pin = (after g.id).outputs.getD pin false) := by
  unfold readResolved
  rw [← isFeedback_iff_feedback hc hshape hg hg']
  constructor
  · intro hfb
    rw [if_pos hfb, hbefore.outputAt hg]
  · intro hfb
    rw [if_neg hfb, hafter.outputAt hg]

theorem solves_of_resolves (h : net.Resolves run instant net') :
    c.Solves run instant before after := by
  have hrealizes := realizes_of_shape hc hshape
  have hnode : ∀ {i : Nat} {g : Gate Definition}, c.gates[i]? = some g →
      net.Sees i (before g.id).inputs (net.readResolved net' i) (after g.id).inputs ∧
        (before g.id).Follows run instant (after g.id) :=
    fun hg => h.node _ _ _ (hbefore.node hg) (hafter.node hg)
  have hwire : ∀ w ∈ c.wires, ∀ pin, w.sink.inputPin? = some pin →
      ∃ i j g g', c.gates[i]? = some g ∧ c.gates[j]? = some g' ∧ g.id = w.source.gate ∧
        g'.id = w.sink.gate ∧ (after w.sink.gate).inputs[pin]? =
          some (net.readResolved net' j i w.source.outputPin) := by
    intro w hw pin hpin
    obtain ⟨k, hk, hsource, hout, hsink, hin⟩ := hrealizes.exists_connection hc hw
    rw [List.getElem?_map, Option.map_eq_some_iff] at hsource hsink
    obtain ⟨g, hg, hgid⟩ := hsource
    obtain ⟨g', hg', hgid'⟩ := hsink
    refine ⟨k.source, k.sink, g, g', hg, hg', hgid, hgid', ?_⟩
    obtain rfl : k.sinkPin = pin := Option.some.inj (hin.symm.trans hpin)
    rw [← hgid', (hnode hg').1.driven k hk rfl, hout]
  refine ⟨fun g hg => ?_, fun g hg => ?_, fun w hw pin hpin hfb => ?_, fun w hw pin hpin hfb => ?_,
    fun g hg pin hfree => ?_⟩
  · obtain ⟨i, hi⟩ := List.getElem?_of_mem hg
    exact (hnode hi).2
  · obtain ⟨i, hi⟩ := List.getElem?_of_mem hg
    exact (hnode hi).1.length
  · obtain ⟨i, j, g, g', hg, hg', hgid, hgid', hin⟩ := hwire w hw pin hpin
    rw [← hgid, ← hgid'] at hfb
    rw [hin, (readResolved_eq hc hshape hbefore hafter _ hg hg').1 hfb, hgid]
  · obtain ⟨i, j, g, g', hg, hg', hgid, hgid', hin⟩ := hwire w hw pin hpin
    rw [← hgid, ← hgid'] at hfb
    rw [hin, (readResolved_eq hc hshape hbefore hafter _ hg hg').2 hfb, hgid]
  · obtain ⟨i, hi⟩ := List.getElem?_of_mem hg
    refine (hnode hi).1.free pin fun k hk hsink hpin => ?_
    obtain ⟨w, hw, -, g', -, -, hg', hgid', -, hin⟩ := hrealizes.ends hk
    rw [hsink] at hg'
    obtain rfl : g = g' := Option.some.inj (hi.symm.trans hg')
    exact Circuit.drives_eq_false_iff.mp (hfree w hw) ⟨hgid'.symm, hpin ▸ hin⟩

theorem resolves_of_solves (hconnections : net'.connections = net.connections)
    (h : c.Solves run instant before after) : net.Resolves run instant net' := by
  have hrealizes := realizes_of_shape hc hshape
  refine ⟨hconnections, ?_, fun i b a hb ha => ?_⟩
  · rw [hafter, hbefore, List.length_map, List.length_map]
  · have hi : i < c.gates.length := by
      rw [← length_of_assemble hshape]
      exact (List.getElem?_eq_some_iff.mp hb).1
    have hg := List.getElem?_eq_getElem hi
    generalize c.gates[i] = g at hg
    have hmem := List.mem_of_getElem? hg
    obtain rfl : before g.id = b := Option.some.inj ((hbefore.node hg).symm.trans hb)
    obtain rfl : after g.id = a := Option.some.inj ((hafter.node hg).symm.trans ha)
    refine ⟨⟨h.pins g hmem, fun k hk hsink => ?_, fun pin hfree => ?_⟩, h.follows g hmem⟩
    · obtain ⟨w, hw, g₁, g₂, hg₁, hid₁, hg₂, hid₂, hout, hin⟩ := hrealizes.ends hk
      rw [hsink] at hg₂
      obtain rfl : g = g₂ := Option.some.inj (hg.symm.trans hg₂)
      have hread := readResolved_eq hc hshape hbefore hafter k.sourcePin hg₁ hg
      by_cases hfb : c.Feedback g₁.id g.id
      · rw [hread.1 hfb]
        rw [hid₁, hid₂] at hfb
        rw [hid₁, hid₂, h.feedback w hw _ hin hfb, hout]
      · rw [hread.2 hfb]
        rw [hid₁, hid₂] at hfb
        rw [hid₁, hid₂, h.driven w hw _ hin hfb, hout]
    · refine h.free g hmem pin fun w hw => Circuit.drives_eq_false_iff.mpr ?_
      intro hends
      obtain ⟨hsink, hin⟩ := hends
      obtain ⟨k, hk, -, -, hksink, hkin⟩ := hrealizes.exists_connection hc hw
      rw [hsink] at hksink
      exact hfree k hk (hc.place_eq hg hksink) (Option.some.inj (hkin.symm.trans hin))

/-- **The equations of a netlist are those of its circuit.** -/
theorem resolves_iff_solves (hconnections : net'.connections = net.connections) :
    net.Resolves run instant net' ↔ c.Solves run instant before after :=
  ⟨solves_of_resolves hc hshape hbefore hafter,
    resolves_of_solves hc hshape hbefore hafter hconnections⟩

end Equations

end Netlist

/-! ## 3. The solution -/

namespace Netlist

variable {net : Netlist ε} {c : Circuit Definition}

/-- The nodes of a netlist, by the gates of its circuit. -/
def stateOf (net : Netlist ε) (c : Circuit Definition) (id : GateId) : Node ε :=
  (net.nodes[c.place id]?).getD { id, element := .output, inputs := [], outputs := [] }

theorem has_stateOf (hc : c.Valid) (hlength : net.nodes.length = c.gates.length) :
    net.Has c (net.stateOf c) := by
  refine List.ext_getElem? fun i => ?_
  rw [List.getElem?_map]
  cases hg : c.gates[i]? with
  | none =>
    rw [List.getElem?_eq_none_iff] at hg
    rw [List.getElem?_eq_none (hlength ▸ hg), Option.map_none]
  | some g =>
    have hi : i < net.nodes.length := hlength ▸ (List.getElem?_eq_some_iff.mp hg).1
    have hplace : c.place g.id = i :=
      Circuit.place_eq hc (by rw [List.getElem?_map, hg, Option.map_some])
    rw [Option.map_some, stateOf, hplace, List.getElem?_eq_getElem hi, Option.getD_some]

end Netlist

namespace Circuit

variable {c : Circuit Definition} {compile : Definition → Except String ε}

/-- The nodes that a circuit starts with, by gates. -/
def startState (compile : Definition → Except String ε) (c : Circuit Definition) :
    GateId → Node ε := (Netlist.assemble compile c).stateOf c

theorem has_startState (hc : c.Valid) : (Netlist.assemble compile c).Has c (c.startState compile) :=
  Netlist.has_stateOf hc (List.length_map _)

theorem startState_eq (hc : c.Valid) {g : Gate Definition} (hg : g ∈ c.gates) :
    c.startState compile g.id = Node.ofGate compile g := by
  obtain ⟨i, hi⟩ := List.getElem?_of_mem hg
  have hhas : (Netlist.assemble compile c).Has c (c.startState compile) := has_startState hc
  have hn := hhas.node hi
  rw [Netlist.getElem?_assemble hi] at hn
  exact (Option.some.inj hn).symm

/-- A netlist has the shape of its circuit if its nodes have that of their gates. -/
theorem shape_of_has {net : Netlist ε} {state : GateId → Node ε} (h : net.Has c state)
    (hconnections : net.connections = (Netlist.assemble compile c).connections)
    (hstate : ∀ g ∈ c.gates, (state g.id).shape = (Node.ofGate compile g).shape) :
    net.shape = (Netlist.assemble compile c).shape := by
  refine Netlist.shape_ext hconnections fun i => ?_
  rw [h, Netlist.assemble, List.getElem?_map, List.getElem?_map]
  cases hg : c.gates[i]? with
  | none => rfl
  | some g => exact congrArg some (hstate g (List.mem_of_getElem? hg))

/-- **Without a combinational cycle, an immediate pass finds a solution.** -/
theorem solves_immediate (hc : c.Valid) {net : Netlist ε}
    (hshape : net.shape = (Netlist.assemble compile c).shape) {before : GateId → Node ε}
    (hbefore : net.Has c before) {schedule : Schedule}
    (hs : net.dependencies.schedule = .ok schedule) :
    ∃ after, (net.immediate run schedule instant).netlist.Has c after ∧
      c.Solves run instant before after := by
  have hwell := (Netlist.wellFormed_assemble hc).of_shape hshape
  obtain ⟨hd, horder⟩ :=
    Dependencies.isOrder_of_schedule (fun v w => Netlist.lt_of_mem_dependencies hwell) hs
  have hresolves : net.Resolves run instant (net.immediate run schedule instant).netlist :=
    Netlist.resolves_immediate hwell hd horder
  have hhas : (net.immediate run schedule instant).netlist.Has c _ :=
    Netlist.has_stateOf hc (hresolves.length.trans (Netlist.length_of_assemble hshape))
  exact ⟨_, hhas, (Netlist.resolves_iff_solves hc hshape hbefore hhas hresolves.connections).mp
    hresolves⟩

/-- **There is only one solution.** -/
theorem Solves.unique (hc : c.Valid) (hcycle : ¬ c.CombinationalCycle)
    {before after after' : GateId → Node ε}
    (hbefore : ∀ g ∈ c.gates, (before g.id).shape = (Node.ofGate compile g).shape)
    (h : c.Solves run instant before after) (h' : c.Solves run instant before after') :
    ∀ g ∈ c.gates, after g.id = after' g.id := by
  obtain ⟨net, hhas, hconnections⟩ : ∃ net : Netlist ε, net.Has c before ∧
      net.connections = (Netlist.assemble compile c).connections :=
    ⟨⟨_, _⟩, Netlist.has_mk .., rfl⟩
  have hshape := shape_of_has hhas hconnections hbefore
  have hwell := (Netlist.wellFormed_assemble hc).of_shape hshape
  obtain ⟨schedule, hs⟩ := (Netlist.schedule_iff hc hshape).mpr hcycle
  obtain ⟨-, horder⟩ :=
    Dependencies.isOrder_of_schedule (fun v w => Netlist.lt_of_mem_dependencies hwell) hs
  have hresolves : ∀ {state : GateId → Node ε}, c.Solves run instant before state →
      net.Resolves run instant ⟨c.gates.map fun g => state g.id, net.connections⟩ :=
    fun hstate =>
      (Netlist.resolves_iff_solves hc hshape hhas (Netlist.has_mk ..) rfl).mpr hstate
  have hnodes := congrArg Netlist.nodes ((hresolves h).unique hwell horder (hresolves h'))
  exact List.map_inj_left.mp hnodes

end Circuit

namespace Evaluator

variable {c : Circuit Definition}

/-- The netlist of an evaluation. -/
def assemble (e : Evaluator) (c : Circuit Definition) : Netlist Expansion :=
  Netlist.assemble (Definition.compile e.deepest e.deepest) c

theorem delayed_of_valid (hc : c.Valid) (e : Evaluator) (now : UInt64) :
    e.delayed c now = finish c ((e.assemble c).delayed Expansion.react (e.instant now))
      (some ((e.assemble c).delayed Expansion.react (e.instant now)).changed) := by
  rw [delayed, Circuit.netlist, Netlist.ofCircuit_of_valid _ hc]
  rfl

theorem immediate_of_schedule (hc : c.Valid) (e : Evaluator) (now : UInt64) {schedule : Schedule}
    (hs : (e.assemble c).dependencies.schedule = .ok schedule) :
    e.immediate c now =
      finish c ((e.assemble c).immediate Expansion.react schedule (e.instant now)) none := by
  rw [assemble] at hs
  rw [immediate, Circuit.netlist, Netlist.ofCircuit_of_valid _ hc]
  dsimp only
  rw [hs]
  rfl

theorem immediate_of_cycle (hc : c.Valid) (e : Evaluator) (now : UInt64) {cycle : List Nat}
    (hs : (e.assemble c).dependencies.schedule = .error cycle) :
    e.immediate c now =
      { circuit := c, problems := [(e.assemble c).cycleProblem cycle],
        warnings := [cycleWarning] } := by
  rw [assemble] at hs
  rw [immediate, Circuit.netlist, Netlist.ofCircuit_of_valid _ hc]
  dsimp only
  rw [hs]
  rfl

/-- **An immediate evaluation returns the solution.** -/
theorem immediate_solves (hc : c.Valid) (hcycle : ¬ c.CombinationalCycle) (e : Evaluator)
    (now : UInt64) :
    (e.immediate c now).succeeded = true ∧
      ∃ after, c.Solves Expansion.react (e.instant now)
          (c.startState (Definition.compile e.deepest e.deepest)) after ∧
        ∀ g ∈ c.gates, (e.immediate c now).circuit.gate? g.id = some ((after g.id).store g) := by
  have hschedule : ∃ s, (e.assemble c).dependencies.schedule = .ok s :=
    (Netlist.schedule_iff hc rfl).mpr hcycle
  obtain ⟨schedule, hs⟩ := hschedule
  obtain ⟨after, hhas, hsolves⟩ := Circuit.solves_immediate hc rfl (Circuit.has_startState hc) hs
  rw [immediate_of_schedule hc e now hs]
  refine ⟨rfl, after, hsolves, fun g hg => ?_⟩
  obtain ⟨i, hi⟩ := List.getElem?_of_mem hg
  exact Netlist.gate?_writeBack hc.gateIds hi (hhas.node hi)

end Evaluator

/-! ## 4. The order of gates and wires -/

namespace Circuit

variable {c c' : Circuit Definition}

theorem Valid.perm (hc : c.Valid) (hgates : c.gates.Perm c'.gates) (hwires : c.wires.Perm c'.wires) :
    c'.Valid := by
  refine ⟨(hgates.map _).nodup_iff.mp hc.gateIds, (hwires.map _).nodup_iff.mp hc.wireIds,
    fun w hw => ?_, fun w hw => ?_, ?_⟩
  · obtain ⟨g, hg, hsource⟩ := hc.source w (hwires.mem_iff.mpr hw)
    exact ⟨g, hgates.mem_iff.mp hg, hsource⟩
  · obtain ⟨g, hg, hsink⟩ := hc.sink w (hwires.mem_iff.mpr hw)
    exact ⟨g, hgates.mem_iff.mp hg, hsink⟩
  · exact (hwires.pairwise_iff fun hne he => hne ⟨he.1.symm, he.2.symm⟩).mp hc.single

/-- Paths of wires do not depend on an order, nor does which gates are sequential. -/
theorem paths_perm (hgates : c.gates.Perm c'.gates) (hwires : c.wires.Perm c'.wires) :
    c'.Wired = c.Wired ∧ c'.Sequential = c.Sequential := by
  constructor
  · funext a b
    exact propext ⟨fun ⟨w, hw, h⟩ => ⟨w, hwires.mem_iff.mpr hw, h⟩,
      fun ⟨w, hw, h⟩ => ⟨w, hwires.mem_iff.mp hw, h⟩⟩
  · funext id
    exact propext ⟨fun ⟨g, hg, h⟩ => ⟨g, hgates.mem_iff.mpr hg, h⟩,
      fun ⟨g, hg, h⟩ => ⟨g, hgates.mem_iff.mp hg, h⟩⟩

theorem combinationalCycle_perm (hgates : c.gates.Perm c'.gates) (hwires : c.wires.Perm c'.wires) :
    c'.CombinationalCycle ↔ c.CombinationalCycle := by
  obtain ⟨hwired, hsequential⟩ := paths_perm hgates hwires
  have : c'.Combinational = c.Combinational := by
    funext a b
    rw [Combinational, Combinational, hwired, hsequential]
  rw [CombinationalCycle, CombinationalCycle, this]

/-- **The equations do not depend on an order.** -/
theorem Solves.perm {before before' after : GateId → Node ε}
    (hgates : c.gates.Perm c'.gates) (hwires : c.wires.Perm c'.wires)
    (hbefore : ∀ g ∈ c.gates, before' g.id = before g.id) (hc : c.Valid)
    (h : c.Solves run instant before after) : c'.Solves run instant before' after := by
  obtain ⟨hwired, hsequential⟩ := paths_perm hgates hwires
  have hfeedback : ∀ {a b : GateId}, c'.Feedback a b ↔ c.Feedback a b := by
    intro a b
    rw [Feedback, Feedback, hwired, hsequential]
  refine ⟨fun g hg => ?_, fun g hg => ?_, fun w hw pin hpin hfb => ?_, fun w hw pin hpin hfb => ?_,
    fun g hg pin hfree => ?_⟩
  · have hg := hgates.mem_iff.mpr hg
    rw [hbefore g hg]
    exact h.follows g hg
  · have hg := hgates.mem_iff.mpr hg
    rw [hbefore g hg]
    exact h.pins g hg
  · have hw := hwires.mem_iff.mpr hw
    obtain ⟨g, hg, hid, -⟩ := hc.source w hw
    rw [← hid, hbefore g hg, hid]
    exact h.feedback w hw pin hpin (hfeedback.mp hfb)
  · exact h.driven w (hwires.mem_iff.mpr hw) pin hpin fun hfb' => hfb (hfeedback.mpr hfb')
  · have hg := hgates.mem_iff.mpr hg
    rw [hbefore g hg]
    exact h.free g hg pin fun w hw => hfree w (hwires.mem_iff.mp hw)

end Circuit

/-- **The order of gates and wires does not matter to an immediate evaluation.** -/
theorem Evaluator.immediate_perm {c c' : Circuit Definition} (hc : c.Valid)
    (hcycle : ¬ c.CombinationalCycle) (hgates : c.gates.Perm c'.gates)
    (hwires : c.wires.Perm c'.wires) (e : Evaluator) (now : UInt64) :
    (e.immediate c' now).succeeded = true ∧ ∀ g ∈ c.gates,
      (e.immediate c' now).circuit.gate? g.id = (e.immediate c now).circuit.gate? g.id := by
  have hc' := hc.perm hgates hwires
  have hcycle' : ¬ c'.CombinationalCycle :=
    fun h => hcycle ((Circuit.combinationalCycle_perm hgates hwires).mp h)
  obtain ⟨-, after, hsolves, hgate⟩ := immediate_solves hc hcycle e now
  obtain ⟨hsucceeded, after', hsolves', hgate'⟩ := immediate_solves hc' hcycle' e now
  refine ⟨hsucceeded, fun g hg => ?_⟩
  have hg' := hgates.mem_iff.mp hg
  have hstart : ∀ h ∈ c.gates, c'.startState (Definition.compile e.deepest e.deepest) h.id =
      c.startState (Definition.compile e.deepest e.deepest) h.id := by
    intro h hh
    rw [Circuit.startState_eq hc hh, Circuit.startState_eq hc' (hgates.mem_iff.mp hh)]
  have hsame := Circuit.Solves.unique hc' hcycle'
    (fun h hh => by rw [Circuit.startState_eq hc' hh]) hsolves'
    (hsolves.perm hgates hwires hstart hc) g hg'
  rw [hgate g hg, hgate' g hg', hsame]

end LogicSim
