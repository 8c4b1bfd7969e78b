import LogicSim.Circuit.Samples
import LogicSim.Proofs.Strict.Passes

/-!
# Building a netlist loses nothing

A wire with an end that cannot be found has no connection, so that a netlist built from an unchecked
circuit may have fewer connections than the circuit has wires. `Netlist.Transcribes` says that a
netlist is the circuit itself, gate by gate and wire by wire, with the numbers of both kept, and that
the table of drivers, which is filled connection by connection, leads to each connection once.

* `Netlist.transcribes_assemble` -- the netlist of a valid circuit is of that kind;
* `Circuit.netlist_of_check` -- the check is exact, and exactly the circuits that pass it have a
  netlist.
-/

namespace LogicSim

/-- Where a function is defined on a whole list, what it gives keeps its place. -/
theorem getElem?_filterMap_of_isSome {α β : Type} {f : α → Option β} {l : List α}
    (h : ∀ a ∈ l, (f a).isSome) (i : Nat) : (l.filterMap f)[i]? = l[i]?.bind f := by
  induction l generalizing i with
  | nil => rfl
  | cons a l ih =>
    obtain ⟨b, hb⟩ := Option.isSome_iff_exists.mp (h a List.mem_cons_self)
    rw [List.filterMap_cons_some hb]
    cases i with
    | zero => exact hb.symm
    | succ i => exact ih (fun a ha => h a (List.mem_cons_of_mem _ ha)) i

namespace Netlist

variable {ε : Type} {compile : Definition → Except String ε} {c : Circuit Definition}

/-- **A netlist that has everything of its circuit**: node `i` is gate `i`, and connection `k` is
    wire `k`, from the node of the gate that its source names to the node of the gate that its
    destination names, with the pins that the two ends denote. -/
structure Transcribes (net : Netlist ε) (c : Circuit Definition) : Prop where
  ids : net.nodes.map (·.id) = c.gates.map (·.id)
  length : net.connections.length = c.wires.length
  connection : ∀ (k : Nat) w, c.wires[k]? = some w → ∃ source sink sinkPin,
    net.connections[k]? = some ⟨k, source, w.source.outputPin, sink, sinkPin⟩ ∧
      (c.gates.map (·.id))[source]? = some w.source.gate ∧
      (c.gates.map (·.id))[sink]? = some w.sink.gate ∧ w.sink.inputPin? = some sinkPin
  sink : ∀ k ∈ net.connections, ∃ n, net.nodes[k.sink]? = some n ∧ k.sinkPin < n.inputs.length
  /-- the table of drivers is filled and read in bounds -/
  strictDrivers : ∀ i < net.nodes.length, net.strictDrivers i = some (net.drivers i)
  /-- what the table leads to at a node are the connections into it -/
  mem_drivers : ∀ i < net.nodes.length, ∀ k,
    k ∈ net.drivers i ↔ k ∈ net.connections ∧ k.sink = i
  /-- no pin has two drivers -/
  drivers : ∀ i < net.nodes.length, ((net.drivers i).map (·.sinkPin)).Nodup

/-- Every wire of a valid circuit has a connection, with the number of the wire. -/
theorem exists_ofWire? (compile : Definition → Except String ε) (hc : c.Valid) {number : Nat}
    {w : Wire} (hw : c.wires[number]? = some w) :
    ∃ k, Connection.ofWire? (assemble compile c).nodes w number = some k := by
  have hids := ids_assemble compile c
  have hrealizes : (assemble compile c).Realizes c := realizes_assemble hc
  obtain ⟨k, -, hk⟩ := hrealizes.exists_numbered hc hw
  refine ⟨k, (ofWire?_eq_some_iff (hids ▸ hc.gateIds)).mpr ?_⟩
  rw [hids]
  exact hk

/-- Connection `k` is made from wire `k`. -/
theorem getElem?_connections_assemble (hc : c.Valid) (k : Nat) :
    (assemble compile c).connections[k]? =
      c.wires[k]?.bind fun w => Connection.ofWire? (assemble compile c).nodes w k := by
  have hsome : ∀ p ∈ c.wires.zipIdx,
      (Connection.ofWire? (assemble compile c).nodes p.1 p.2).isSome := by
    intro p hp
    exact Option.isSome_iff_exists.mpr (exists_ofWire? compile hc (List.mem_zipIdx_iff_getElem?.mp hp))
  refine (getElem?_filterMap_of_isSome hsome k).trans ?_
  rw [List.getElem?_zipIdx, Nat.zero_add]
  cases c.wires[k]? <;> rfl

theorem length_connections_assemble (hc : c.Valid) :
    (assemble compile c).connections.length = c.wires.length := by
  have hplace : ∀ k : Nat, (assemble compile c).connections[k]? = none ↔ c.wires[k]? = none := by
    intro k
    rw [getElem?_connections_assemble hc]
    cases hw : c.wires[k]? with
    | none => simp
    | some w =>
      obtain ⟨conn, hconn⟩ := exists_ofWire? compile hc hw
      simp [hconn]
  simp only [List.getElem?_eq_none_iff] at hplace
  exact Nat.le_antisymm ((hplace _).mpr (Nat.le_refl _)) ((hplace _).mp (Nat.le_refl _))

/-- **The numbers of the wires tell the connections apart.** -/
theorem nodup_wires_assemble (hc : c.Valid) :
    ((assemble compile c).connections.map (·.wire)).Nodup := by
  have hwires : (assemble compile c).connections.map (·.wire) = List.range c.wires.length := by
    refine List.ext_getElem? fun k => ?_
    rw [List.getElem?_map]
    cases hw : c.wires[k]? with
    | none =>
      have hlen : c.wires.length ≤ k := List.getElem?_eq_none_iff.mp hw
      rw [List.getElem?_eq_none (length_connections_assemble hc ▸ hlen),
        List.getElem?_eq_none (by rwa [List.length_range]), Option.map_none]
    | some w =>
      obtain ⟨conn, hconn⟩ := exists_ofWire? compile hc hw
      have hnumber : conn.wire = k :=
        ((ofWire?_eq_some_iff ((ids_assemble compile c) ▸ hc.gateIds)).mp hconn).1
      rw [getElem?_connections_assemble hc, hw, Option.bind_some, hconn,
        List.getElem?_range (List.getElem?_eq_some_iff.mp hw).1, Option.map_some, hnumber]
  exact hwires ▸ List.nodup_range

/-- In a well-formed netlist without repetitions no pin has two drivers. -/
theorem WellFormed.nodup_drivers {net : Netlist ε} (h : net.WellFormed)
    (hnodup : net.connections.Nodup) {i : Nat} (hi : i < net.nodes.length) :
    ((net.drivers i).map (·.sinkPin)).Nodup := by
  have hdrivers : (net.drivers i).Nodup := drivers_eq_filter hi ▸ hnodup.filter _
  refine List.Nodup.map_on (fun k hk l hl hpin => ?_) hdrivers
  obtain ⟨hk, hksink⟩ := (Netlist.mem_drivers hi).mp hk
  obtain ⟨hl, hlsink⟩ := (Netlist.mem_drivers hi).mp hl
  exact h.single k hk l hl (hksink.trans hlsink.symm) hpin

/-- **The netlist of a valid circuit has everything of it.** -/
theorem transcribes_assemble (hc : c.Valid) : (assemble compile c).Transcribes c := by
  have hids := ids_assemble compile c
  have hnumber : ∀ (k : Nat) w, c.wires[k]? = some w → ∃ source sink sinkPin,
      (assemble compile c).connections[k]? =
        some ⟨k, source, w.source.outputPin, sink, sinkPin⟩ ∧
      (c.gates.map (·.id))[source]? = some w.source.gate ∧
      (c.gates.map (·.id))[sink]? = some w.sink.gate ∧ w.sink.inputPin? = some sinkPin := by
    intro k w hw
    obtain ⟨conn, hconn⟩ := exists_ofWire? compile hc hw
    have hplace : (assemble compile c).connections[k]? = some conn := by
      rw [getElem?_connections_assemble hc, hw, Option.bind_some, hconn]
    obtain ⟨number, source, sourcePin, sink, sinkPin⟩ := conn
    rw [ofWire?_eq_some_iff (hids ▸ hc.gateIds), hids] at hconn
    obtain ⟨rfl, hsource, rfl, hsink, hpin⟩ := hconn
    exact ⟨source, sink, sinkPin, hplace, hsource, hsink, hpin⟩
  have hwell : (assemble compile c).WellFormed := wellFormed_assemble hc
  have hnodup : (assemble compile c).connections.Nodup := .of_map _ (nodup_wires_assemble hc)
  exact ⟨hids, length_connections_assemble hc, hnumber, hwell.sink,
    fun _ hi => hwell.strictDrivers_eq hi, fun _ hi _ => Netlist.mem_drivers hi,
    fun _ hi => hwell.nodup_drivers hnodup hi⟩

end Netlist

/-- **Validation is exact, and building loses nothing.** The check finds nothing exactly at valid
    circuits; exactly these have a netlist, however deep custom gates may nest and whatever their
    definitions contain; and the netlist has all their gates and wires. -/
theorem Circuit.netlist_of_check (c : Circuit Definition) (deepest : Nat) :
    (c.check = [] ↔ c.Valid) ∧ (c.Valid ↔ ∃ net, c.netlist deepest = .ok net) ∧
      ∀ net, c.netlist deepest = .ok net → net.Transcribes c := by
  refine ⟨Circuit.check_eq_nil_iff, ⟨fun hc => ⟨_, Netlist.ofCircuit_of_valid _ hc⟩, ?_⟩, ?_⟩
  · rintro ⟨net, hnet⟩
    exact (Netlist.valid_of_ofCircuit hnet).1
  · intro net hnet
    obtain ⟨hc, rfl⟩ := Netlist.valid_of_ofCircuit hnet
    exact Netlist.transcribes_assemble hc

/-- The netlist of the toggling flip-flop has its four wires. -/
theorem Circuit.toggle_transcribed :
    ∃ net, (Circuit.toggle 1).netlist 16 = .ok net ∧ net.Transcribes (Circuit.toggle 1) := by
  obtain ⟨-, hbuilt, hall⟩ := Circuit.netlist_of_check (Circuit.toggle 1) 16
  obtain ⟨net, hnet⟩ := hbuilt.mp (Circuit.check_eq_nil_iff.mp (by decide))
  exact ⟨net, hnet, hall net hnet⟩

end LogicSim
