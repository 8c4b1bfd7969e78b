import LogicSim.Circuit.Samples
import LogicSim.Proofs.Netlist.Edge
import LogicSim.Proofs.Netlist.Return
import LogicSim.Proofs.Service.Calls
import LogicSim.Service.ClockCycle

/-!
# A clock cycle is synchronous

`Service.cycle` drives a clock low, high and low. If the circuit settles with the clock low, every
flip-flop on that clock ends the cycle with what its data pin carried then, all of them at once
(`Service.cycle_synchronous`). Nothing is asked of the rest of the circuit, and it may still be
changing when the clock is high and when it is low again.
-/

namespace LogicSim

/-! ## 1. Calls -/

/-- An accepted call starts with the netlist of its circuit. -/
theorem Service.netlist_of_start {s s' : Service} {c : Circuit Definition} {call : Call}
    (h : s.start c = .ok (call, s')) : c.netlist s.config.deepest = .ok call.state.netlist := by
  obtain ⟨hcheck, -, rfl, -⟩ := start_eq_ok_iff.mp h
  exact Netlist.ofCircuit_of_valid _ (Circuit.check_eq_nil_iff.mp hcheck)

/-- **What an accepted cycle returns.** -/
theorem Service.cycle_of_start {s s' : Service} {c : Circuit Definition} {r : CycleRequest}
    {call : Call} {k : Nat} (hstart : s.start c = .ok (call, s'))
    (hclock : r.node? call.state.netlist = some k) :
    ∃ response, (s.cycle c r).1 = .ok response ∧
      response.circuit = (r.drive call.instant k call.state).netlist.writeBack c := by
  simp only [cycle, Service.call, hstart, hclock]
  exact ⟨_, rfl, rfl⟩

/-! ## 2. Phases -/

namespace CycleRequest

variable {r : CycleRequest} {instant : Instant} {k : Nat}

theorem netlist_phase (s : Settling Expansion) (level : Bool) :
    (r.phase instant k s level).netlist = (Settling.run Expansion.react instant r.passLimit
      { s with netlist := s.netlist.force k (some level) }).netlist := by
  rw [phase]
  split <;> rfl

theorem settled_phase (s : Settling Expansion) (level : Bool) :
    (r.phase instant k s level).settled = (Settling.run Expansion.react instant r.passLimit
      { s with netlist := s.netlist.force k (some level) }).settled := by
  rw [phase]
  split <;> rfl

theorem netlist_drive (s : Settling Expansion) :
    (r.drive instant k s).netlist = ((r.phase instant k (r.phase instant k
      (r.phase instant k s false) true) false).netlist.force k none) := rfl

open Netlist

/-- A low phase that settles ends with a quiet pass. -/
theorem low_of_settled {f : Nat} {stored : Bool} {s : Settling Expansion}
    (hs : Waiting k f stored (s.netlist.force k (some false)))
    (hsettled : (r.phase instant k s false).settled = true) :
    ∃ net, Waiting k f stored net ∧ net.shape = s.netlist.shape ∧
      (net.delayed Expansion.react instant).changed = false ∧
      (r.phase instant k s false).netlist = (net.delayed Expansion.react instant).netlist := by
  rw [settled_phase] at hsettled
  rw [netlist_phase]
  have hstep : ∀ net : Netlist Expansion,
      Waiting k f stored net ∧ net.shape = s.netlist.shape →
        Waiting k f stored (net.delayed Expansion.react instant).netlist ∧
          (net.delayed Expansion.react instant).netlist.shape = s.netlist.shape :=
    fun net h => ⟨h.1.delayed, (shape_delayed net).trans h.2⟩
  obtain ⟨net, ⟨hwaiting, hshape⟩, hquiet, hlow⟩ :=
    Settling.quiet_of_settled hstep ⟨hs, shape_force s.netlist k (some false)⟩ hsettled
  exact ⟨net, hwaiting, hshape, hquiet, hlow⟩

/-- **A flip-flop through a cycle**: if the low phase settles, the flip-flop ends with what its data
    pin had then. -/
theorem shows_drive {f : Nat} {stored : Bool} {s : Settling Expansion}
    (hs : Waiting k f stored (s.netlist.force k (some false))) (hlimit : 2 ≤ r.passLimit)
    (hsettled : (r.phase instant k s false).settled = true) :
    ∃ previous, (r.drive instant k s).netlist.Shows f
      ⟨previous, (r.phase instant k s false).netlist.inputAt f 0,
        !(r.phase instant k s false).netlist.inputAt f 0⟩ := by
  obtain ⟨net, hwaiting, -, hquiet, hlow⟩ := low_of_settled hs hsettled
  rw [netlist_drive]
  generalize r.phase instant k s false = low at *
  have hhigh : High k f (low.netlist.inputAt f 0) (r.phase instant k low true).netlist := by
    obtain ⟨limit, hlim⟩ := Nat.exists_eq_add_of_le' hlimit
    rw [netlist_phase, hlim]
    refine Settling.run_of_changed (fun _ h => High.delayed h) limit ?_ ?_
    · rw [hlow]
      exact hwaiting.changed_rise hquiet
    · rw [hlow]
      exact hwaiting.capture hquiet
  have hend : Low k f (low.netlist.inputAt f 0)
      (r.phase instant k (r.phase instant k low true) false).netlist := by
    rw [netlist_phase]
    exact Settling.run_keeps (fun _ h => Low.delayed h) r.passLimit hhigh.fall
  obtain ⟨previous, hm, -⟩ := hend.memory
  exact ⟨previous, hm.force (hm.ne hend.held)⟩

end CycleRequest

/-! ## 3. The flip-flops of a circuit -/

/-- **A flip-flop on a clock**: a gate with two inputs, the second of which is wired to the first
    output of the clock, while the first, its data pin, is not driven by the clock. -/
structure Circuit.Clocked (c : Circuit Definition) (clock : GateId) (g : Gate Definition) :
    Prop where
  mem : g ∈ c.gates
  kind : g.kind = .flipFlop
  pins : g.inputCount = 2
  wired : ∃ w ∈ c.wires, w.drives g.id 1 = true ∧ w.source.gate = clock ∧ w.source.outputPin = 0
  data : ∀ w ∈ c.wires, w.drives g.id 0 = true → w.source.gate ≠ clock

open Netlist

section Assembled

variable {ε : Type} {compile : Definition → Except String ε} {c : Circuit Definition}

/-- A flip-flop on a clock is one in the netlist. -/
theorem Circuit.Clocked.assemble (hc : c.Valid) {g clock : Gate Definition} {k f : Nat}
    (h : c.Clocked clock.id g) (hk : c.gates[k]? = some clock) (hf : c.gates[f]? = some g) :
    (Netlist.assemble compile c).Clocked k f := by
  refine ⟨wellFormed_assemble hc, ⟨_, getElem?_assemble hf, ?_⟩, ?_, ?_⟩
  · rw [Node.inputs_ofGate, Signal.length_resize, h.pins]
  · obtain ⟨w, hw, hdrives, hgate, hpin⟩ := h.wired
    obtain ⟨hsink, hin⟩ := Circuit.drives_iff.mp hdrives
    have hrealizes : (Netlist.assemble compile c).Realizes c := realizes_assemble hc
    obtain ⟨l, hl, hsource, hout, hlsink, hlin⟩ := hrealizes.exists_connection hc hw
    rw [hgate] at hsource
    rw [hsink] at hlsink
    rw [hin] at hlin
    exact ⟨l, hl, hc.place_eq hk hsource, hout.symm.trans hpin, hc.place_eq hf hlsink,
      (Option.some.inj hlin).symm⟩
  · rintro l hl rfl hpin rfl
    obtain ⟨w, hw, hsource, -, hsink, hin⟩ := ((realizes_assemble hc).connection l).mp hl
    rw [List.getElem?_map, hk, Option.map_some, Option.some.injEq] at hsource
    rw [List.getElem?_map, hf, Option.map_some, Option.some.injEq] at hsink
    refine h.data w (List.mem_of_getElem? hw) (Circuit.drives_iff.mpr ⟨hsink.symm, ?_⟩) hsource.symm
    rw [hin, hpin]

/-- The netlist of a circuit, its clock forced low, is ready for a cycle. -/
theorem Circuit.Clocked.waiting (hc : c.Valid) {g clock : Gate Definition} {k f : Nat}
    {id : GateId} (h : c.Clocked id g) (hk : c.gates[k]? = some clock) (hid : clock.id = id)
    (hclock : clock.kind = .clock) (hf : c.gates[f]? = some g) :
    Waiting k f (g.inputs.getD 0 false)
      ((Netlist.assemble compile c).force k (some false)) := by
  subst hid
  have hne : k ≠ f := by
    intro he
    subst he
    obtain rfl : clock = g := Option.some.inj (hk.symm.trans hf)
    rw [h.kind] at hclock
    cases hclock
  have hf' : (Netlist.assemble compile c).nodes[f]? = some (Node.ofGate compile g) :=
    getElem?_assemble hf
  refine ⟨(h.assemble hc hk hf).of_shape (shape_force ..),
    heldAt_force (getElem?_assemble hk) ?_ false, ?_, fun _ => ?_⟩
  · rw [Node.ofGate, Element.ofGate, hclock]
    show 0 < (Signal.resize clock.outputs clock.outputCount).length
    rw [Signal.length_resize, Gate.outputCount, hclock]
    exact Nat.lt_of_lt_of_le Nat.zero_lt_one (Nat.le_max_right _ _)
  · have helement : ∃ m, Element.ofGate compile g = .flipFlop m := by
      rw [Element.ofGate, h.kind]
      exact ⟨_, rfl⟩
    obtain ⟨m, hm⟩ := helement
    refine ⟨m, Shows.force ⟨_, hf', rfl, hm, ?_⟩ hne⟩
    rw [Node.ofGate, hm]
    rfl
  · rw [inputAt, Netlist.force, getElem?_updateNode, if_neg hne, hf', Option.bind_some,
      Node.inputs_ofGate, h.pins, Signal.getElem?_resize Nat.zero_lt_two, Option.getD_some]

/-- What the data pin of a flip-flop has recorded when the circuit is quiet is the signal that it
    carries in the circuit. -/
theorem Circuit.pinSignal_of_quiet (hc : c.Valid) {g : Gate Definition} {f : Nat}
    (hf : c.gates[f]? = some g) {run : ε → Reaction} {instant : Instant}
    {k : Nat} {net : Netlist ε} (hshape : net.shape = (Netlist.assemble compile c).shape)
    (hwaiting : Waiting k f (g.inputs.getD 0 false) net)
    (hquiet : (net.delayed run instant).changed = false) :
    (net.delayed run instant).netlist.inputAt f 0 =
      ((net.delayed run instant).netlist.writeBack c).pinSignal g 0 := by
  have hrealizes : (net.delayed run instant).netlist.Realizes c :=
    (realizes_assemble hc).of_shape ((shape_delayed net).trans hshape)
  by_cases hfree : ∀ l ∈ net.connections, l.sink = f → l.sinkPin ≠ 0
  · rw [hwaiting.delayed.data hfree]
    refine (Circuit.pinSignal_of_free fun w hw => ?_).symm
    rw [← Bool.not_eq_true]
    intro hdrives
    obtain ⟨w', hw', he⟩ := mem_wires_writeBack hw
    rw [← Wire.drives_of_ends he] at hdrives
    obtain ⟨hsink, hin⟩ := Circuit.drives_iff.mp hdrives
    obtain ⟨l, hl, -, -, hlsink, hlin⟩ := hrealizes.exists_connection hc hw'
    rw [hsink] at hlsink
    exact hfree l hl (hc.place_eq hf hlsink) (Option.some.inj (hlin.symm.trans hin))
  · push Not at hfree
    obtain ⟨l, hl, rfl, hpin⟩ := hfree
    rw [← hpin, inputAt_delayed_of_driven _ _ hwaiting.clocked.wellFormed hl,
      pinSignal_writeBack hrealizes hc hl hf, outputAt_of_quiet hquiet]

end Assembled

/-- A clock of a circuit is found in its netlist. -/
theorem CycleRequest.node?_of_clock {deepest levels : Nat} {c : Circuit Definition} (hc : c.Valid)
    {r : CycleRequest} {clock : Gate Definition} {k : Nat} (hk : c.gates[k]? = some clock)
    (hid : clock.id = r.clock) (hclock : clock.kind = .clock) :
    r.node? (assemble (Definition.compile deepest levels) c) = some k := by
  have hindex : (assemble (Definition.compile deepest levels) c).index? r.clock = some k := by
    rw [index?, findIdx?_id_eq_some_iff ((ids_assemble _ c) ▸ hc.gateIds), ids_assemble,
      List.getElem?_map, hk, Option.map_some, hid]
  have helement : ∃ m, Element.ofGate (Definition.compile deepest levels) clock = .clock m := by
    rw [Element.ofGate, hclock]
    exact ⟨_, rfl⟩
  obtain ⟨m, hm⟩ := helement
  simp [node?, hindex, getElem?_assemble hk, hm]

/-! ## 4. The cycle -/

/-- **A clock cycle is synchronous.** Every flip-flop on the clock ends the cycle with outputs `d`
    and `!d`, where `d` is what its data pin carried in the circuit settled with the clock low. -/
theorem Service.cycle_synchronous {s s' : Service} {c : Circuit Definition} {r : CycleRequest}
    {call : Call} (hstart : s.start c = .ok (call, s'))
    (hclock : ∃ clock ∈ c.gates, clock.id = r.clock ∧ clock.kind = .clock)
    (hlimit : 2 ≤ r.passLimit) :
    ∃ k, r.node? call.state.netlist = some k ∧
      ((r.phase call.instant k call.state false).settled = true →
        ∃ response, (s.cycle c r).1 = .ok response ∧ ∀ g, c.Clocked r.clock g →
          ∃ g', response.circuit.gate? g.id = some g' ∧ g'.outputs =
            [((r.phase call.instant k call.state false).netlist.writeBack c).pinSignal g 0,
              !((r.phase call.instant k call.state false).netlist.writeBack c).pinSignal g 0]) := by
  have hnet := netlist_of_start hstart
  unfold Circuit.netlist at hnet
  obtain ⟨hc, hassemble⟩ := valid_of_ofCircuit hnet
  obtain ⟨clock, hmem, hid, hkind⟩ := hclock
  obtain ⟨k, hk⟩ := List.getElem?_of_mem hmem
  have hnode : r.node? call.state.netlist = some k :=
    hassemble ▸ CycleRequest.node?_of_clock hc hk hid hkind
  refine ⟨k, hnode, fun hsettled => ?_⟩
  obtain ⟨response, hresponse, hcircuit⟩ := cycle_of_start hstart hnode
  refine ⟨response, hresponse, fun g hg => ?_⟩
  obtain ⟨f, hf⟩ := List.getElem?_of_mem hg.mem
  have hwaiting : Waiting k f (g.inputs.getD 0 false) (call.state.netlist.force k (some false)) :=
    hassemble ▸ hg.waiting hc hk hid hkind hf
  obtain ⟨net, hquietWaiting, hshape, hquiet, hlow⟩ := CycleRequest.low_of_settled hwaiting hsettled
  have hdata := Circuit.pinSignal_of_quiet hc hf (hassemble ▸ hshape) hquietWaiting hquiet
  rw [← hlow] at hdata
  obtain ⟨previous, n, hn, -, -, houtputs⟩ := CycleRequest.shows_drive hwaiting hlimit hsettled
  refine ⟨n.store g, ?_, ?_⟩
  · rw [hcircuit]
    exact gate?_writeBack hc.gateIds hf hn
  · rw [← hdata]
    exact houtputs

/-- A flip-flop that toggles takes over the complement that its inverter shows. -/
theorem Service.cycle_toggle :
    ∃ response, (Service.cycle { time := .fixed 0 } (Circuit.toggle 1) ⟨"CLK", 10⟩).1 = .ok response ∧
      ∃ g', response.circuit.gate? "FF" = some g' ∧ g'.outputs = [true, false] := by
  have hstart : Service.start { time := .fixed 0 } (Circuit.toggle 1) = .ok
      (⟨⟨0, 50⟩, { netlist := assemble (Definition.compile 16 16) (Circuit.toggle 1) }⟩,
        { time := .fixed 0 }) := rfl
  obtain ⟨k, hk, hcycle⟩ := cycle_synchronous (r := ⟨"CLK", 10⟩) hstart
    ⟨_, List.mem_of_getElem? (i := 0) rfl, rfl, rfl⟩ (by decide)
  obtain rfl : 0 = k := Option.some.inj hk
  obtain ⟨response, hresponse, hflipFlops⟩ := hcycle rfl
  have hflipFlop : (Circuit.toggle 1).Clocked "CLK" (.new "FF" .flipFlop) :=
    ⟨List.mem_of_getElem? (i := 1) rfl, rfl, rfl,
      ⟨_, List.mem_of_getElem? (i := 2) rfl, rfl, rfl, rfl⟩, by decide⟩
  obtain ⟨g', hg', houtputs⟩ := hflipFlops _ hflipFlop
  exact ⟨response, hresponse, g', hg', houtputs⟩

end LogicSim
