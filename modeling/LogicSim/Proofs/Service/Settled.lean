import LogicSim.Proofs.Netlist.Rest
import LogicSim.Proofs.Service.Outcome

/-!
# Settled circuits

Settling ends with a quiet pass, which leaves its netlist at rest. The next evaluation starts from a
netlist rebuilt from the circuit, which is the same one but for what flip-flops and latches show: they
are rebuilt with the signals of their memory. A flip-flop or latch that is evaluated shows them anyway,
but one with more than two inputs fails in every pass, and then its outputs are low. If its memory is
not low too, it shows it again at the beginning of the next evaluation, and the pass that takes it
back counts as a change (`Gate.Relapses`). Otherwise a settled circuit is settled
(`Service.settled_again`).
-/

namespace LogicSim

open Netlist

variable {ε : Type} {run : ε → Reaction} {instant : Instant}
  {compile : Definition → Except String ε} {g : Gate Definition} {c : Circuit Definition}

/-! ## 1. Flip-flops and latches that always fail -/

/-- A flip-flop or latch with more inputs than it has a meaning for. -/
def Gate.Overfull (g : Gate Definition) : Prop :=
  (g.kind = .flipFlop ∨ g.kind = .latch) ∧ 2 < g.inputs.length

instance (g : Gate Definition) : Decidable g.Overfull :=
  inferInstanceAs (Decidable ((g.kind = .flipFlop ∨ g.kind = .latch) ∧ 2 < g.inputs.length))

/-- The signals of the memory of a flip-flop or latch. -/
def Gate.remembered (g : Gate Definition) : List Bool :=
  let q := g.metadata.q.getD g.output
  [q, g.metadata.qBar.getD !q]

/-- **A gate that relapses**: it fails in every pass, and is rebuilt with signals that are not low. -/
def Gate.Relapses (g : Gate Definition) : Prop :=
  g.Overfull ∧ g.remembered ≠ [false, false]

instance (g : Gate Definition) : Decidable g.Relapses :=
  inferInstanceAs (Decidable (g.Overfull ∧ g.remembered ≠ [false, false]))

theorem Gate.inputCount_eq_two_iff (hk : g.kind = .flipFlop ∨ g.kind = .latch) :
    g.inputCount = 2 ↔ ¬ g.Overfull := by
  have hcount : g.inputCount = max g.inputs.length 2 := by
    rw [Gate.inputCount]
    rcases hk with hk | hk <;> rw [hk] <;> rfl
  rw [hcount, Overfull]
  constructor
  · intro h hover
    have := hover.2
    omega
  · intro h
    have hle : ¬ 2 < g.inputs.length := fun hlt => h ⟨hk, hlt⟩
    omega

namespace Element

/-- A flip-flop or latch fails unless it has two inputs. -/
theorem evaluate_of_length_ne {e : Element ε} (hk : e.kind = .flipFlop ∨ e.kind = .latch)
    {inputs : List Bool} (hinputs : inputs.length ≠ 2) :
    ∃ fault, e.evaluate run instant inputs = .error fault := by
  cases e with
  | flipFlop m | latch m =>
    simp only [evaluate]
    split
    · exact absurd rfl hinputs
    · exact ⟨_, rfl⟩
  | invalid kind reason => exact ⟨_, rfl⟩
  | reduce r => cases r <;> simp [kind, Reduction.kind] at hk
  | _ => simp [kind] at hk

theorem recorded_ofGate (hk : g.kind = .flipFlop ∨ g.kind = .latch) :
    (ofGate compile g).recorded = some g.remembered := by
  rw [ofGate]
  rcases hk with hk | hk <;> rw [hk] <;> rfl

end Element

/-! ## 2. What is read back after a pass -/

namespace Node

/-- **The node of a gate in the course of passes**, which has not changed its element if it always
    fails. -/
structure Lasting (compile : Definition → Except String ε) (g : Gate Definition) (n : Node ε) :
    Prop where
  kept : n.Kept compile g
  element : g.Overfull → n.element = Element.ofGate compile g

theorem lasting_ofGate (compile : Definition → Except String ε) (g : Gate Definition) :
    (ofGate compile g).Lasting compile g := ⟨kept_ofGate compile g, fun _ => rfl⟩

/-- An overfull node fails. -/
theorem Lasting.evaluate {n : Node ε} (h : n.Lasting compile g) (hover : g.Overfull)
    {inputs : List Bool} (hinputs : inputs.length = n.inputs.length) :
    ∃ fault, n.element.evaluate run instant inputs = .error fault := by
  refine Element.evaluate_of_length_ne (h.kept.fits.kind_eq ▸ hover.1) fun hlength => ?_
  rw [hinputs, h.kept.length_inputs] at hlength
  exact (Gate.inputCount_eq_two_iff hover.1).mp hlength hover

/-- **A pass keeps it.** -/
theorem Lasting.react {n : Node ε} (h : n.Lasting compile g) {inputs : List Bool}
    (hinputs : inputs.length = n.inputs.length) :
    (n.react run instant inputs).1.Lasting compile g := by
  refine ⟨h.kept.react hinputs, fun hover => ?_⟩
  obtain ⟨fault, hfault⟩ : ∃ fault, n.element.evaluate run instant inputs = .error fault :=
    h.evaluate hover hinputs
  rw [react_of_error h.kept.forced hfault]
  exact h.element hover

/-- **What is read back after a pass** is what was there, unless the gate relapses. -/
theorem Lasting.reseed_react {n : Node ε} (h : n.Lasting compile g) (hstays : ¬ g.Relapses)
    {inputs : List Bool} (hinputs : inputs.length = n.inputs.length) :
    (n.react run instant inputs).1.reseed = (n.react run instant inputs).1 := by
  refine reseed_of_shows fun signals hrecorded => ?_
  by_cases hover : g.Overfull
  · -- it shows low signals, and this is what it remembers
    obtain ⟨fault, hfault⟩ : ∃ fault, n.element.evaluate run instant inputs = .error fault :=
      h.evaluate hover hinputs
    have hlow : g.remembered = [false, false] := not_not.mp fun hne => hstays ⟨hover, hne⟩
    have hlength : n.outputs.length = signals.length := by
      rw [h.kept.length_outputs, (h.react hinputs).kept.fits.length_recorded hrecorded]
    rw [(h.react hinputs).element hover, Element.recorded_ofGate hover.1, hlow] at hrecorded
    obtain rfl := Option.some.inj hrecorded
    rw [react_of_error h.kept.forced hfault, hlength]
    rfl
  · exact h.kept.shows_react (fun hk => (Gate.inputCount_eq_two_iff hk).mpr hover) hinputs signals
      hrecorded

/-- **A gate that relapses** is read back with other signals than it fails with. -/
theorem Lasting.outputs_react_reseed {n : Node ε} (h : n.Lasting compile g) (hrelapses : g.Relapses)
    {inputs : List Bool} (hinputs : inputs.length = n.inputs.length) :
    (n.reseed.react run instant inputs).1.outputs ≠ n.reseed.outputs := by
  obtain ⟨hover, hne⟩ := hrelapses
  obtain ⟨fault, hfault⟩ : ∃ fault, n.element.evaluate run instant inputs = .error fault :=
    h.evaluate hover hinputs
  have hshown : n.reseed.outputs = g.remembered := by
    rw [reseed, h.element hover, Element.recorded_ofGate hover.1, Option.getD_some]
  rw [react_of_error (n := n.reseed) h.kept.forced hfault, hshown]
  exact fun hlow => hne hlow.symm

end Node

namespace Netlist

variable {net : Netlist ε}

/-- The netlist of a circuit in the course of passes. -/
structure Lasting (compile : Definition → Except String ε) (c : Circuit Definition)
    (net : Netlist ε) : Prop where
  kept : net.Kept compile c
  node : net.Each (Node.Lasting compile) c

theorem lasting_assemble (compile : Definition → Except String ε) (c : Circuit Definition) :
    (assemble compile c).Lasting compile c :=
  ⟨kept_assemble compile c, each_assemble (Node.lasting_ofGate compile)⟩

theorem Lasting.delayed (h : net.Lasting compile c) :
    (net.delayed run instant).netlist.Lasting compile c :=
  ⟨h.kept.delayed, h.node.delayed fun _ _ _ _ hn => hn.react⟩

/-- **Without a gate that relapses, a netlist is read back as a pass has left it.** -/
theorem Lasting.reseed_delayed (h : net.Lasting compile c) (hstays : ∀ g ∈ c.gates, ¬ g.Relapses) :
    (net.delayed run instant).netlist.reseed = (net.delayed run instant).netlist := by
  refine reseed_eq_self fun n hn => ?_
  obtain ⟨i, hi⟩ := List.getElem?_of_mem hn
  rw [getElem?_delayed, Option.map_eq_some_iff] at hi
  obtain ⟨n', hn', rfl⟩ := hi
  obtain ⟨g, hg, -⟩ := h.kept.exists_gate hn'
  exact (h.node i g n' hg hn').reseed_react (hstays g (List.mem_of_getElem? hg))
    (length_gather hn' _)

/-- **A pass over what is read back takes back every relapse.** -/
theorem Lasting.changed_reseed (h : net.Lasting compile c) (hg : g ∈ c.gates)
    (hrelapses : g.Relapses) : (net.reseed.delayed run instant).changed = true := by
  obtain ⟨i, hi⟩ := List.getElem?_of_mem hg
  obtain ⟨n, hn, -⟩ := h.kept.exists_node hi
  refine eq_true_of_ne_false fun hquiet => ?_
  have hsame := changed_eq_false_iff.mp hquiet i
  have hn' : net.reseed.nodes[i]? = some n.reseed := by
    rw [reseed, List.getElem?_map, hn, Option.map_some]
  rw [getElem?_delayed, hn', Option.map_some, Option.map_some, Option.map_some] at hsame
  exact (h.node i g n hi hn).outputs_react_reseed hrelapses (length_gather hn' _)
    (Option.some.inj hsame)

end Netlist

/-! ## 3. Settled circuits -/

namespace Service

variable {s : Service} {r : Response}

/-- **Where a call has settled**: the netlist that a quiet pass has left. -/
theorem exists_quiet_of_settle (h : (s.settle c).1 = .ok r) :
    c.Valid ∧ ∃ net : Netlist Expansion,
      net.Lasting (Definition.compile s.config.deepest s.config.deepest) c ∧
      (net.delayed Expansion.react (s.evaluator.instant s.now)).changed = false ∧
      r.circuit = (net.delayed Expansion.react (s.evaluator.instant s.now)).netlist.writeBack c := by
  have haccepts : s.Accepts c := accepts_of_call h
  have hc := Circuit.check_eq_nil_iff.mp haccepts.check
  cases hsettled : ((s.callOf c).state.run Expansion.react (s.callOf c).instant
    s.config.settleLimit).settled with
  | false =>
    rw [settle_of_unsettled haccepts.start hsettled] at h
    cases h
  | true =>
    obtain ⟨r', hr', -, -, hcircuit⟩ := settle_of_settled haccepts.start hsettled
    rw [h] at hr'
    obtain rfl := Except.ok.inj hr'
    obtain ⟨net, hnet, hquiet, hend⟩ := Settling.quiet_of_settled
      (P := Netlist.Lasting (Definition.compile s.config.deepest s.config.deepest) c)
      (fun _ h => h.delayed) (lasting_assemble _ c) hsettled
    exact ⟨hc, net, hnet, hquiet, hcircuit.trans (congrArg (·.writeBack c) hend)⟩

/-- **A settled circuit is settled, unless one of its gates relapses.** A delayed evaluation of what
    settling has returned reports no change exactly if no gate does, and then it returns the same
    circuit. -/
theorem settled_again (h : (s.settle c).1 = .ok r) (hcheck : r.circuit.check = []) :
    (s.evaluator.delayed r.circuit s.now).succeeded = true ∧
      ((s.evaluator.delayed r.circuit s.now).changed = some false ↔
        ∀ g ∈ c.gates, ¬ g.Relapses) ∧
      ((∀ g ∈ c.gates, ¬ g.Relapses) →
        (s.evaluator.delayed r.circuit s.now).circuit = r.circuit) := by
  obtain ⟨hc, net, hnet, hquiet, hcircuit⟩ := exists_quiet_of_settle h
  have hkept : (net.delayed Expansion.react (s.evaluator.instant s.now)).netlist.Lasting
      (Definition.compile s.config.deepest s.config.deepest) c := hnet.delayed
  have hrest := atRest_of_quiet ((wellFormed_assemble hc).of_shape hnet.kept.shape) hquiet
  have hread : s.evaluator.assemble r.circuit =
      (net.delayed Expansion.react (s.evaluator.instant s.now)).netlist.reseed := by
    rw [hcircuit, Evaluator.assemble]
    exact hkept.kept.assemble_writeBack
  rw [Evaluator.delayed_of_valid (Circuit.check_eq_nil_iff.mp hcheck), hread]
  refine ⟨rfl, ⟨fun hsame g hg hrelapses => ?_, fun hstays => ?_⟩, fun hstays => ?_⟩
  · rw [Evaluator.finish, hkept.changed_reseed hg hrelapses] at hsame
    cases hsame
  · rw [hnet.reseed_delayed hstays, Evaluator.finish, hrest.changed_eq]
  · rw [hnet.reseed_delayed hstays, Evaluator.finish, hrest, hcircuit]
    exact hkept.kept.writeBack_writeBack hkept.kept

/-- A latch has settled when it is set. -/
theorem latch_settled :
    ∃ r, (Service.settle { time := .fixed 0 } (Circuit.latch true false)).1 = .ok r ∧
      r.circuit.check = [] ∧ (Evaluator.delayed {} r.circuit 0).changed = some false ∧
      (Evaluator.delayed {} r.circuit 0).circuit = r.circuit := by
  have hsettles : ∃ r, (Service.settle { time := .fixed 0 } (Circuit.latch true false)).1 = .ok r ∧
      r.circuit.check = [] := ⟨_, rfl, rfl⟩
  obtain ⟨r, hr, hcheck⟩ := hsettles
  have hstays : ∀ g ∈ (Circuit.latch true false).gates, ¬ g.Relapses := by decide
  obtain ⟨-, hchanged, hsame⟩ := settled_again hr hcheck
  exact ⟨r, hr, hcheck, hchanged.mpr hstays, hsame hstays⟩

end Service

/-- A flip-flop with three stored inputs, the second output of which is inverted by `N`. -/
def Circuit.overfull : Circuit Definition :=
  Circuit.connectAll
    { gates := [{ Gate.new "FF" .flipFlop with inputs := [false, false, false] }, .new "N" .not] }
    [("FF", 1, "N", 0)]

/-- It settles with a low flip-flop, and yet the next pass reports a change and inverts a high one. -/
theorem Service.overfull_settled :
    Circuit.overfull.check = [] ∧
    ∃ r, (Service.settle { time := .fixed 0 } Circuit.overfull).1 = .ok r ∧ r.circuit.check = [] ∧
      r.circuit.gates.map (·.outputs) = [[false, false], [true]] ∧
      (Evaluator.delayed {} r.circuit 0).changed = some true ∧
      (Evaluator.delayed {} r.circuit 0).circuit.gates.map (·.outputs) =
        [[false, false], [false]] :=
  ⟨rfl, _, rfl, rfl, rfl, rfl, rfl⟩

end LogicSim
