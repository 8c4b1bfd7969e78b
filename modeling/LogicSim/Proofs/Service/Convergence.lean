import LogicSim.Circuit.Complexity
import LogicSim.Circuit.Samples
import LogicSim.Proofs.Netlist.Convergence
import LogicSim.Proofs.Service.Calls

/-!
# Settling agrees with immediate evaluation

A circuit whose only sequential gates are inputs and clocks, and which has no combinational cycle,
settles within two passes more than it is deep, and shows then what an immediate evaluation of it
shows (`Service.settle_eq_immediate`). The signals stored in the circuit may be anything, custom
gates and gates that fail are like others, and loops through inputs or clocks are no cycles.
-/

namespace LogicSim

open Netlist

variable {ε : Type} {c : Circuit Definition} {compile : Definition → Except String ε}

/-- An element remembers what it saw if its gate is a flip-flop or a latch. -/
theorem Element.remembers_ofGate (g : Gate Definition) (hflipFlop : g.kind ≠ .flipFlop)
    (hlatch : g.kind ≠ .latch) : (Element.ofGate compile g).remembers = false := by
  unfold Element.ofGate
  cases hk : g.kind with
  | flipFlop => exact absurd hk hflipFlop
  | latch => exact absurd hk hlatch
  | custom =>
    dsimp only
    split
    · rfl
    · split <;> rfl
  | _ => rfl

theorem Netlist.forgetful_assemble (hkinds : ∀ g ∈ c.gates, g.kind.isSequential = true →
    g.kind = .input ∨ g.kind = .clock) : (Netlist.assemble compile c).Forgetful := by
  intro n hn
  obtain ⟨g, hg, rfl⟩ := List.mem_map.mp hn
  have hkind := hkinds g hg
  refine Element.remembers_ofGate g (fun hk => ?_) fun hk => ?_
  · rw [hk] at hkind
    rcases hkind rfl with h | h <;> cases h
  · rw [hk] at hkind
    rcases hkind rfl with h | h <;> cases h

/-- Netlists that show the same return the same outputs and the same wires. -/
theorem Netlist.writeBack_agrees {net net' : Netlist ε} (hc : c.Valid) (hrealizes : net.Realizes c)
    (hrealizes' : net'.Realizes c) (hlength : net.nodes.length = c.gates.length)
    (hlength' : net'.nodes.length = c.gates.length)
    (houtputs : ∀ i : Nat, net.nodes[i]?.map (·.outputs) = net'.nodes[i]?.map (·.outputs)) :
    (∀ g ∈ c.gates, ∃ a b, (net.writeBack c).gate? g.id = some a ∧
      (net'.writeBack c).gate? g.id = some b ∧ a.outputs = b.outputs) ∧
    ∀ w ∈ c.wires, ∃ u, (net.writeBack c).wire? w.id = some u ∧
      (net'.writeBack c).wire? w.id = some u := by
  have hhas := has_stateOf hc hlength
  have hhas' := has_stateOf hc hlength'
  have hsame : ∀ g ∈ c.gates, (net.stateOf c g.id).outputs = (net'.stateOf c g.id).outputs := by
    intro g hg
    obtain ⟨i, hi⟩ := List.getElem?_of_mem hg
    have ho := houtputs i
    rw [hhas.node hi, hhas'.node hi] at ho
    exact Option.some.inj ho
  constructor
  · intro g hg
    obtain ⟨i, hi⟩ := List.getElem?_of_mem hg
    exact ⟨_, _, gate?_writeBack hc.gateIds hi (hhas.node hi),
      gate?_writeBack hc.gateIds hi (hhas'.node hi), hsame g hg⟩
  · intro w hw
    obtain ⟨g, hg, hid, -⟩ := hc.source w hw
    refine ⟨_, wire?_writeBack hc hrealizes hhas hw, ?_⟩
    rw [wire?_writeBack hc hrealizes' hhas' hw, ← hid, shown, shown, hsame g hg]

/-- **Settling agrees with immediate evaluation** on circuits without memory. -/
theorem Service.settle_eq_immediate {s : Service} (hcheck : c.check = [])
    (hsize : ∀ net, c.netlist s.config.deepest = .ok net → net.size ≤ s.config.gateLimit)
    (hcycle : ¬ c.CombinationalCycle)
    (hkinds : ∀ g ∈ c.gates, g.kind.isSequential = true → g.kind = .input ∨ g.kind = .clock)
    (hlimit : (Complexity.ofCircuit c).depth + 2 ≤ s.config.settleLimit) :
    ∃ r, (s.settle c).1 = .ok r ∧ r.info.passes ≤ (Complexity.ofCircuit c).depth + 2 ∧
      (s.evaluator.immediate c s.time.read.1).succeeded = true ∧
      (∀ g ∈ c.gates, ∃ a b, r.circuit.gate? g.id = some a ∧
        (s.evaluator.immediate c s.time.read.1).circuit.gate? g.id = some b ∧
        a.outputs = b.outputs) ∧
      ∀ w ∈ c.wires, ∃ u, r.circuit.wire? w.id = some u ∧
        (s.evaluator.immediate c s.time.read.1).circuit.wire? w.id = some u := by
  have hc := Circuit.check_eq_nil_iff.mp hcheck
  have hwell : (s.evaluator.assemble c).WellFormed := wellFormed_assemble hc
  have hforgetful : (s.evaluator.assemble c).Forgetful := forgetful_assemble hkinds
  have hdependencies : (s.evaluator.assemble c).dependencies = c.dependencies :=
    dependencies_assemble hc
  have hdepth : (s.evaluator.assemble c).dependencies.depth = (Complexity.ofCircuit c).depth := by
    rw [hdependencies, Complexity.ofCircuit]
  have hshape := s.evaluator.shape_assemble c
  obtain ⟨schedule, hs⟩ := (Netlist.schedule_iff hc hshape).mpr hcycle
  have hlt : ∀ v, ∀ w ∈ (s.evaluator.assemble c).dependencies.of v,
      w < (s.evaluator.assemble c).dependencies.size := fun v w => lt_of_mem_dependencies hwell
  obtain ⟨hd, horder⟩ := Dependencies.isOrder_of_schedule hlt hs
  have hfinal : (s.evaluator.assemble c).Resolves Expansion.react
      (s.evaluator.instant s.time.read.1) _ := resolves_immediate hwell hd horder
  obtain ⟨hsettled, hpasses, houtputs⟩ := settle_converges hwell hforgetful hfinal
    (Dependencies.isOrder_search_of_schedule hlt hs) (hdepth ▸ hlimit)
  have hstart : s.start c = .ok (s.callOf c, { s with time := s.time.read.2 }) :=
    start_eq_ok_iff.mpr ⟨hcheck, hsize _ (Netlist.ofCircuit_of_valid _ hc), rfl, rfl⟩
  obtain ⟨r, hr, hpasses', -, hcircuit⟩ := settle_of_settled hstart hsettled
  refine ⟨r, hr, ?_, ?_, ?_⟩
  · rw [hpasses', ← hdepth]
    exact hpasses
  · rw [Evaluator.immediate_of_schedule hc _ _ hs]
    rfl
  · rw [Evaluator.immediate_of_schedule hc _ _ hs, hcircuit]
    have hshape' : ((s.callOf c).state.netlist.settle Expansion.react (s.callOf c).instant
        s.config.settleLimit).netlist.shape = (s.evaluator.assemble c).shape :=
      Settling.shape_run ..
    exact writeBack_agrees hc (realizes_of_shape hc (hshape'.trans hshape))
      (realizes_of_shape hc ((shape_immediate ..).trans hshape))
      (length_of_assemble (hshape'.trans hshape))
      (length_of_assemble ((shape_immediate ..).trans hshape)) houtputs

/-- An adder settles on what an immediate evaluation of it shows. -/
theorem Service.settle_eq_immediate_halfAdder :
    ∃ r, (Service.settle { time := .fixed 0 } (Circuit.halfAdder true true)).1 = .ok r ∧
      r.info.passes ≤ 4 ∧ ∀ g ∈ (Circuit.halfAdder true true).gates, ∃ a b,
        r.circuit.gate? g.id = some a ∧
        (Evaluator.immediate {} (Circuit.halfAdder true true) 0).circuit.gate? g.id = some b ∧
        a.outputs = b.outputs := by
  have hcycle : ¬ (Circuit.halfAdder true true).CombinationalCycle :=
    Circuit.not_combinationalCycle_of_forward (by decide)
  have hsize : ∀ net, (Circuit.halfAdder true true).netlist Definition.defaultDepth = .ok net →
      net.size ≤ 100000 := by
    intro net hnet
    obtain rfl := Except.ok.inj hnet
    exact of_decide_eq_true rfl
  have hdepth : (Complexity.ofCircuit (Circuit.halfAdder true true)).depth = 2 := rfl
  have hlimit : (Complexity.ofCircuit (Circuit.halfAdder true true)).depth + 2 ≤ 50 := by
    rw [hdepth]
    decide
  obtain ⟨r, hr, hpasses, -, hgates, -⟩ := settle_eq_immediate (s := { time := .fixed 0 })
    rfl hsize hcycle (by decide) hlimit
  rw [hdepth] at hpasses
  exact ⟨r, hr, hpasses, hgates⟩

end LogicSim
