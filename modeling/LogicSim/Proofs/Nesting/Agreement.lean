import LogicSim.Proofs.Nesting.Supply
import LogicSim.Proofs.Netlist.Mapping
import LogicSim.Proofs.Service.Outcome

/-!
# A circuit inside a gate and on its own

A custom gate given by a circuit answers as the circuit does on its own, with the signals at the inputs
of the gate put in (`Definition.react_eq_standalone`): without a combinational cycle as an immediate
evaluation, otherwise as a call that settles the circuit, and it fails exactly if the call finds that
the circuit oscillates. The outputs are read from the circuit that comes back (`Pin.shown`).

The circuit on its own is one level higher, so that the custom gates in it may nest deeper. This is
why enough levels are required for both.
-/

namespace LogicSim

variable {ε : Type} {compile : Definition → Except String ε} {c c' : Circuit Definition}

/-! ## 1. Outputs -/

/-- **The signal at an output pin**, as a circuit shows it: an output gate by the first input that it
    has recorded, another gate by an output if the index is negative, and by a recorded input
    otherwise. -/
def Pin.shown (c : Circuit Definition) (p : Pin) : Bool :=
  match p.gate.bind c.gate? with
  | none => false
  | some g =>
    if g.kind = .output then g.inputs.getD 0 false
    else if p.index < 0 then g.outputs.getD (-(p.index.toInt + 1)).toNat false
    else g.inputs.getD p.index.toInt.toNat false

/-- What a custom gate answers if its circuit has come to a state, with some warnings. -/
def Definition.answer (d : Definition) (c : Circuit Definition) (warnings : List Warning) : Answer :=
  { outputs := d.outputs.map (·.shown c)
    notes := warnings.map fun w => s!"in {d.name}, {w.text}" }

/-- **Where an output pin is tapped**, in terms of the circuit. -/
def Pin.Taps (c : Circuit Definition) (p : Pin) : OutputTap → Prop
  | .gate i => ∃ x, c.gates[i]? = some x ∧ p.gate = some x.id ∧ x.kind = .output
  | .output i k => ∃ x, c.gates[i]? = some x ∧ p.gate = some x.id ∧ x.kind ≠ .output ∧
      p.index < 0 ∧ k = (-(p.index.toInt + 1)).toNat
  | .input i k => ∃ x, c.gates[i]? = some x ∧ p.gate = some x.id ∧ x.kind ≠ .output ∧
      ¬ p.index < 0 ∧ k = p.index.toInt.toNat

theorem Pin.Taps.similar {p : Pin} {tap : OutputTap} (ht : p.Taps c tap) (h : c.Similar c') :
    p.Taps c' tap := by
  cases tap with
  | gate i =>
    obtain ⟨x, hx, hid, hk⟩ := ht
    obtain ⟨x', hx', he⟩ := h.exists_gate hx
    exact ⟨x', hx', hid.trans (congrArg (some ·.id) he).symm, (congrArg Outline.kind he).trans hk⟩
  | output i k | input i k =>
    obtain ⟨x, hx, hid, hk, hpin⟩ := ht
    obtain ⟨x', hx', he⟩ := h.exists_gate hx
    have hkind : x'.kind = x.kind := congrArg Outline.kind he
    exact ⟨x', hx', hid.trans (congrArg (some ·.id) he).symm, hkind ▸ hk, hpin⟩

theorem Definition.taps_of_tapOutput {d : Definition} {p : Pin} {tap : OutputTap}
    (h : d.tapOutput (Netlist.assemble compile c) p = .ok tap) : p.Taps c tap := by
  unfold tapOutput at h
  cases hbound : d.boundNode (Netlist.assemble compile c) p with
  | error reason => rw [hbound] at h; cases h
  | ok found =>
    obtain ⟨i, n⟩ := found
    obtain ⟨x, hx, hid, rfl⟩ := boundNode_eq_ok hbound
    have hkind : (Node.ofGate compile x).element.kind = x.kind := Element.kind_ofGate compile x
    rw [hbound] at h
    simp only [bind, Except.bind, hkind] at h
    split at h
    next hk =>
      obtain rfl := Except.ok.inj h
      exact ⟨x, hx, hid, hk⟩
    next hk =>
      split at h
      next hindex =>
        split at h
        · obtain rfl := Except.ok.inj h
          exact ⟨x, hx, hid, hk, hindex, rfl⟩
        · cases h
      next hindex =>
        split at h
        · obtain rfl := Except.ok.inj h
          exact ⟨x, hx, hid, hk, hindex, rfl⟩
        · cases h

/-- What a circuit shows once a netlist has been written into it. -/
theorem Pin.shown_writeBack (hc : c.Valid) {net : Netlist ε}
    (hshape : net.shape = (Netlist.assemble compile c).shape) {p : Pin} {i : Nat}
    {x : Gate Definition} (hx : c.gates[i]? = some x) (hid : p.gate = some x.id) :
    p.shown (net.writeBack c) =
      if x.kind = .output then net.inputAt i 0
      else if p.index < 0 then net.outputAt i (-(p.index.toInt + 1)).toNat
      else net.inputAt i p.index.toInt.toNat := by
  obtain ⟨n, hn, -⟩ := Netlist.exists_of_shape hshape (Netlist.getElem?_assemble hx)
  rw [shown, hid, Option.bind_some, Netlist.gate?_writeBack hc.gateIds hx hn]
  simp only [Netlist.inputAt, Netlist.outputAt, hn, List.getD_eq_getElem?_getD, Option.bind_some]
  rfl

/-- **A tap reads what the circuit shows** once the netlist has been written into it. -/
theorem Pin.Taps.read_eq (hc : c.Valid) {net : Netlist ε}
    (hshape : net.shape = (Netlist.assemble compile c).shape) {p : Pin} {tap : OutputTap}
    (ht : p.Taps c tap) : tap.read net = p.shown (net.writeBack c) := by
  cases tap with
  | gate i =>
    obtain ⟨x, hx, hid, hk⟩ := ht
    rw [shown_writeBack hc hshape hx hid, if_pos hk]
    rfl
  | output i k =>
    obtain ⟨x, hx, hid, hk, hindex, rfl⟩ := ht
    rw [shown_writeBack hc hshape hx hid, if_neg hk, if_pos hindex]
    rfl
  | input i k =>
    obtain ⟨x, hx, hid, hk, hindex, rfl⟩ := ht
    rw [shown_writeBack hc hshape hx hid, if_neg hk, if_neg hindex]
    rfl

/-! ## 2. Evaluation inside a gate -/

namespace Definition

variable {d : Definition} {inner : Circuit Definition} {sub : SubCircuit ε} {values : List Bool}
  {run : ε → Reaction} {instant : Instant}

/-- The outputs are read as the circuit shows them. -/
theorem read_outputs (hvalid : inner.Valid)
    (hlink : d.linkCircuit (Netlist.assemble compile inner) = .ok sub) {net : Netlist ε}
    (hshape : net.shape = (Netlist.assemble compile (d.supplied inner values)).shape) :
    sub.outputs.map (·.read net) =
      d.outputs.map (·.shown (net.writeBack (d.supplied inner values))) := by
  obtain ⟨-, -, -, houtputs, -⟩ := linkCircuit_eq_ok hlink
  have hsimilar : inner.Similar (d.supplied inner values) := inner.similar_supplyAll _
  have hvalid' : (d.supplied inner values).Valid := hsimilar.valid hvalid
  have hread : List.Forall₂ (fun p tap => OutputTap.read net tap =
      p.shown (net.writeBack (d.supplied inner values))) d.outputs sub.outputs :=
    (forall₂_of_mapM_ok houtputs).imp fun _ _ h =>
      ((taps_of_tapOutput h).similar hsimilar).read_eq hvalid' hshape
  have hsame : List.Forall₂ Eq (sub.outputs.map (·.read net))
      (d.outputs.map (·.shown (net.writeBack (d.supplied inner values)))) :=
    List.forall₂_map_left_iff.mpr (List.forall₂_map_right_iff.mpr hread.flip)
  rwa [List.forall₂_eq_eq_eq] at hsame

/-- Signals of the right number are accepted. -/
theorem checkArity_of_link (hlink : d.linkCircuit (Netlist.assemble compile inner) = .ok sub)
    (hvalues : values.length = d.inputs.length) : checkArity sub.inputs.length values = .ok () := by
  obtain ⟨-, -, hinputs, -⟩ := linkCircuit_eq_ok hlink
  rw [checkArity, (getElem?_of_mapM_ok hinputs).1, if_pos hvalues]

/-- **A custom gate answers what its circuit shows** where it has come to. -/
theorem evaluate_of_simulate (hvalid : inner.Valid)
    (hlink : d.linkCircuit (Netlist.assemble compile inner) = .ok sub)
    (hvalues : values.length = d.inputs.length) {net : Netlist ε} {warnings : List Warning}
    (hsimulate : sub.simulate run instant values = .ok (net, warnings))
    (hshape : net.shape = (Netlist.assemble compile (d.supplied inner values)).shape) :
    sub.evaluate run instant values =
      .ok (d.answer (net.writeBack (d.supplied inner values)) warnings) := by
  obtain ⟨-, -, -, -, hname⟩ := linkCircuit_eq_ok hlink
  rw [SubCircuit.evaluate, checkArity_of_link hlink hvalues, hsimulate]
  show Except.ok _ = Except.ok _
  rw [answer, ← read_outputs hvalid hlink hshape, hname]

/-- Without a cycle inside, a custom gate makes one immediate pass. -/
theorem simulate_of_schedule (hvalid : inner.Valid)
    (hlink : d.linkCircuit (Netlist.assemble compile inner) = .ok sub) {schedule : Schedule}
    (hs : (Netlist.assemble compile inner).dependencies.schedule = .ok schedule) :
    let sweep := (Netlist.assemble compile (d.supplied inner values)).immediate run schedule instant
    sub.simulate run instant values = .ok (sweep.netlist, sweep.warnings) := by
  obtain ⟨-, hschedule, -⟩ := linkCircuit_eq_ok hlink
  have hsub : sub.schedule = some schedule := by
    rw [hschedule, hs]
    rfl
  rw [SubCircuit.simulate, hsub, load_eq_assemble hvalid hlink]

/-- With a cycle inside, it makes delayed passes until the circuit settles. -/
theorem simulate_of_cycle (hvalid : inner.Valid)
    (hlink : d.linkCircuit (Netlist.assemble compile inner) = .ok sub) {cycle : List Nat}
    (hs : (Netlist.assemble compile inner).dependencies.schedule = .error cycle) :
    let state := (Netlist.assemble compile (d.supplied inner values)).settle run instant
      instant.settleLimit
    sub.simulate run instant values =
      if state.settled then .ok (state.netlist, state.warnings)
      else .error (.custom d.name (SubCircuit.unsettled instant.settleLimit)) := by
  obtain ⟨-, hschedule, -, -, hname⟩ := linkCircuit_eq_ok hlink
  have hsub : sub.schedule = none := by
    rw [hschedule, hs]
    rfl
  rw [SubCircuit.simulate, hsub, load_eq_assemble hvalid hlink, hname]

end Definition

/-! ## 3. The circuit on its own -/

section Standalone

variable {d : Definition} {inner : Circuit Definition} {deepest levels : Nat} {x : Expansion}
  {s : Service} {values : List Bool}

/-- **A definition as a service evaluates its circuit**: with the same custom gates inside. -/
theorem Definition.exists_link (hcompile : d.compile deepest levels = .ok x)
    (hcircuit : d.body.circuit = some inner) (hlevels : inner.nesting < levels)
    (hdeepest : inner.nesting ≤ s.config.deepest) :
    ∃ sub, x = .circuit sub ∧ inner.Valid ∧ d.linkCircuit (s.evaluator.assemble inner) = .ok sub := by
  obtain ⟨levels, sub, rfl, rfl, hvalid, hlink⟩ := compile_eq_ok hcompile hcircuit
  have hsame : Netlist.assemble (compile deepest levels) inner = s.evaluator.assemble inner :=
    Netlist.assemble_of_nesting (Nat.le_of_lt_succ hlevels) hdeepest
  exact ⟨sub, rfl, hvalid, hsame ▸ hlink⟩

/-- Without a cycle a custom gate answers like an immediate evaluation. -/
theorem Definition.react_of_acyclic {sub : SubCircuit Expansion} (hvalid : inner.Valid)
    (hlink : d.linkCircuit (s.evaluator.assemble inner) = .ok sub)
    (hvalues : values.length = d.inputs.length) (hcycle : ¬ inner.CombinationalCycle) :
    let evaluation := s.evaluator.immediate (d.supplied inner values) s.now
    evaluation.succeeded = true ∧
      (Expansion.circuit sub).react (s.evaluator.instant s.now) values =
        .ok (d.answer evaluation.circuit evaluation.warnings) := by
  have hsimilar : inner.Similar (d.supplied inner values) := inner.similar_supplyAll _
  obtain ⟨schedule, hs⟩ : ∃ schedule,
      (s.evaluator.assemble inner).dependencies.schedule = .ok schedule :=
    (Netlist.schedule_iff hvalid rfl).mpr hcycle
  have hs' : (s.evaluator.assemble (d.supplied inner values)).dependencies.schedule =
      .ok schedule := by
    rw [← hs]
    exact congrArg Dependencies.schedule (Netlist.dependencies_of_shape hsimilar.shape_assemble)
  rw [Evaluator.immediate_of_schedule (hsimilar.valid hvalid) _ _ hs', Expansion.react_circuit,
    evaluate_of_simulate hvalid hlink hvalues (simulate_of_schedule hvalid hlink hs)
      (Netlist.shape_immediate ..)]
  exact ⟨rfl, rfl⟩

/-- With a cycle it answers like a call that settles the circuit, or fails as the call does. -/
theorem Definition.react_of_cycle {sub : SubCircuit Expansion} (hvalid : inner.Valid)
    (hlink : d.linkCircuit (s.evaluator.assemble inner) = .ok sub)
    (hvalues : values.length = d.inputs.length) (hcycle : inner.CombinationalCycle)
    (hsize : (s.evaluator.assemble (d.supplied inner values)).size ≤ s.config.gateLimit) :
    (∃ r, (s.settle (d.supplied inner values)).1 = .ok r ∧
      (Expansion.circuit sub).react (s.evaluator.instant s.now) values =
        .ok (d.answer r.circuit r.warnings)) ∨
    ((s.settle (d.supplied inner values)).1 = .error (.oscillation s.config.settleLimit) ∧
      (Expansion.circuit sub).react (s.evaluator.instant s.now) values =
        .error (.custom d.name (SubCircuit.unsettled s.config.settleLimit))) := by
  have hsimilar : inner.Similar (d.supplied inner values) := inner.similar_supplyAll _
  have haccepts : s.Accepts (d.supplied inner values) :=
    ⟨Circuit.check_eq_nil_iff.mpr (hsimilar.valid hvalid), hsize⟩
  cases hs : (s.evaluator.assemble inner).dependencies.schedule with
  | ok schedule => exact absurd hcycle ((Netlist.schedule_iff hvalid rfl).mp ⟨schedule, hs⟩)
  | error cycle =>
    have hsimulate : sub.simulate Expansion.react (s.evaluator.instant s.now) values = _ :=
      simulate_of_cycle hvalid hlink hs
    -- the state of the call is the one inside the gate
    cases hsettled : ((s.callOf (d.supplied inner values)).state.run Expansion.react
      (s.evaluator.instant s.now) s.config.settleLimit).settled with
    | true =>
      obtain ⟨r, hr, -, hwarnings, hcircuit⟩ := Service.settle_of_settled haccepts.start hsettled
      refine .inl ⟨r, hr, ?_⟩
      rw [Expansion.react_circuit, evaluate_of_simulate hvalid hlink hvalues
        (hsimulate.trans (if_pos hsettled)) (Settling.shape_run ..), hcircuit, hwarnings]
      rfl
    | false =>
      refine .inr ⟨Service.settle_of_unsettled haccepts.start hsettled, ?_⟩
      rw [Expansion.react_circuit, SubCircuit.evaluate, checkArity_of_link hlink hvalues,
        hsimulate.trans (if_neg (ne_true_of_eq_false hsettled))]
      rfl

/-- **A custom gate answers as its circuit does on its own.** Without a combinational cycle it shows
    what an immediate evaluation returns. With one it fails exactly if a call to settle the circuit
    finds that it oscillates, and otherwise shows what the call returns. (The call has a bound on the
    number of gates, which the circuit has to keep; inside a gate there is none.) -/
theorem Definition.react_eq_standalone (hcompile : d.compile deepest levels = .ok x)
    (hcircuit : d.body.circuit = some inner) (hlevels : inner.nesting < levels)
    (hdeepest : inner.nesting ≤ s.config.deepest) (hvalues : values.length = d.inputs.length) :
    let given := d.supplied inner values
    let outcome := x.react (s.evaluator.instant s.now) values
    (¬ inner.CombinationalCycle →
      (s.evaluator.immediate given s.now).succeeded = true ∧
        outcome = .ok (d.answer (s.evaluator.immediate given s.now).circuit
          (s.evaluator.immediate given s.now).warnings)) ∧
    (inner.CombinationalCycle → (s.evaluator.assemble given).size ≤ s.config.gateLimit →
      ((∃ name message, outcome = .error (.custom name message)) ↔
        (s.settle given).1 = .error (.oscillation s.config.settleLimit)) ∧
      ((¬ ∃ name message, outcome = .error (.custom name message)) →
        ∃ r, (s.settle given).1 = .ok r ∧ outcome = .ok (d.answer r.circuit r.warnings))) := by
  obtain ⟨sub, rfl, hvalid, hlink⟩ := exists_link hcompile hcircuit hlevels hdeepest
  refine ⟨react_of_acyclic hvalid hlink hvalues, fun hcycle hsize => ?_⟩
  rcases react_of_cycle hvalid hlink hvalues hcycle hsize with ⟨r, hr, houtcome⟩ | ⟨hr, houtcome⟩
  · rw [hr, houtcome]
    refine ⟨⟨?_, fun h => by cases h⟩, fun _ => ⟨r, rfl, rfl⟩⟩
    rintro ⟨name, message, h⟩
    cases h
  · rw [hr, houtcome]
    exact ⟨⟨fun _ => rfl, fun _ => ⟨_, _, rfl⟩⟩, fun h => absurd ⟨_, _, rfl⟩ h⟩

end Standalone

/-- A latch of two gates that inhibit each other as a custom gate. It shows what `N1` shows, and what
    `N2` sees of it. -/
def Definition.crossed : Definition :=
  .ofCircuit "SR" [.bound "s" "S", .bound "r" "R"] [.bound "q" "N1", .boundTo "seen" "N2" 1]
    (Circuit.crossedLatch false false)

theorem Circuit.crossedLatch_cycle : (crossedLatch false false).CombinationalCycle := by
  refine Classical.byContradiction fun hacyclic => ?_
  have hvalid : (crossedLatch false false).Valid := check_eq_nil_iff.mp rfl
  obtain ⟨schedule, hs⟩ : ∃ schedule,
      (Evaluator.assemble {} (crossedLatch false false)).dependencies.schedule = .ok schedule :=
    (Netlist.schedule_iff hvalid rfl).mpr hacyclic
  obtain ⟨cycle, hcycle⟩ : ∃ cycle,
      (Evaluator.assemble {} (crossedLatch false false)).dependencies.schedule = .error cycle :=
    ⟨_, rfl⟩
  rw [hcycle] at hs
  cases hs

/-- Set, it settles inside as on its own. With both inputs low it oscillates. -/
theorem Definition.crossed_standalone :
    (∃ x r, crossed.compile 16 16 = .ok x ∧
      (Service.settle { time := .fixed 0 }
        (crossed.supplied (Circuit.crossedLatch false false) [true, false])).1 = .ok r ∧
      x.react ⟨0, 50⟩ [true, false] = .ok (crossed.answer r.circuit r.warnings) ∧
      (crossed.answer r.circuit r.warnings).outputs = [true, true]) ∧
    ∃ x name message, crossed.compile 16 16 = .ok x ∧
      x.react ⟨0, 4⟩ [false, false] = .error (.custom name message) ∧
      (Service.settle { config := { settleLimit := 4 }, time := .fixed 0 }
        (crossed.supplied (Circuit.crossedLatch false false) [false, false])).1 =
          .error (.oscillation 4) := by
  have hnesting : (Circuit.crossedLatch false false).nesting < 16 := by decide
  constructor
  · obtain ⟨x, answer, hx, hanswer, houtputs⟩ : ∃ x answer, crossed.compile 16 16 = .ok x ∧
        x.react ⟨0, 50⟩ [true, false] = .ok answer ∧ answer.outputs = [true, true] :=
      ⟨_, _, rfl, rfl, rfl⟩
    obtain ⟨-, hsettles⟩ := react_eq_standalone (s := { time := .fixed 0 }) hx rfl hnesting
      hnesting.le (show [true, false].length = crossed.inputs.length from rfl)
    obtain ⟨-, hagrees⟩ := hsettles Circuit.crossedLatch_cycle (by decide)
    obtain ⟨r, hr, hsame⟩ := hagrees fun hfault => by
      obtain ⟨name, message, hfault⟩ := hfault
      cases hanswer.symm.trans hfault
    refine ⟨x, r, hx, hr, hsame, ?_⟩
    rw [← Except.ok.inj (hanswer.symm.trans hsame), houtputs]
  · obtain ⟨x, name, message, hx, hfault⟩ : ∃ x name message, crossed.compile 16 16 = .ok x ∧
        x.react ⟨0, 4⟩ [false, false] = .error (.custom name message) := ⟨_, _, _, rfl, rfl⟩
    obtain ⟨-, hsettles⟩ := react_eq_standalone
      (s := { config := { settleLimit := 4 }, time := .fixed 0 }) hx rfl hnesting hnesting.le
      (show [false, false].length = crossed.inputs.length from rfl)
    obtain ⟨hiff, -⟩ := hsettles Circuit.crossedLatch_cycle (by decide)
    exact ⟨x, name, message, hx, hfault, hiff.mp ⟨name, message, hfault⟩⟩

end LogicSim
