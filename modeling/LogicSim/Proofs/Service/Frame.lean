import LogicSim.Proofs.Evaluation.Cone
import LogicSim.Proofs.Service.Cycle
import LogicSim.Proofs.Service.Outcome

/-!
# What evaluations write

An evaluation writes the signals of the gates, the memory of those that have one, and what the wires
show. Everything else of the circuit that comes back is as it was, and so is the signal of an input
gate and the start of a clock that has one (`Circuit.Retains`).

* `Netlist.Steady`, `Returned.exists_netlist` -- what every operation keeps holds of the netlist from
  which a circuit comes back;
* `Node.Tended` -- what is true of the node of a gate in all operations, forced or not;
* `returned_retains` -- the frame of every operation.
-/

namespace LogicSim

/-! ## 1. Gates and circuits -/

/-- **What evaluations leave of a gate.** Only a clock, a flip-flop and a latch have their memory
    written, and a start that is present stays. -/
structure Gate.Retains (g g' : Gate Definition) : Prop where
  id : g'.id = g.id
  kind : g'.kind = g.kind
  position : g'.position = g.position
  label : g'.metadata.label = g.metadata.label
  definition : g'.metadata.definition = g.metadata.definition
  /-- an input gate keeps its signal -/
  value : g.kind = .input → g'.output = g.output
  clock : g.kind ≠ .clock → g'.metadata.isRunning = g.metadata.isRunning ∧
    g'.metadata.frequency = g.metadata.frequency ∧ g'.metadata.startTime = g.metadata.startTime
  start : ∀ t, g.metadata.startTime = some t → g'.metadata.startTime = some t
  previousClock : g.kind ≠ .flipFlop → g'.metadata.previousClock = g.metadata.previousClock
  stored : g.kind ≠ .flipFlop → g.kind ≠ .latch →
    g'.metadata.q = g.metadata.q ∧ g'.metadata.qBar = g.metadata.qBar

/-- The output signal at the source of a wire; it is low if there is no such pin. -/
def Circuit.signalAt {δ : Type} (c : Circuit δ) (source : Endpoint) : Bool :=
  ((c.gate? source.gate).bind (·.outputs[source.outputPin]?)).getD false

/-- **What evaluations leave of a circuit**: the gates in their order, and the wires in theirs with
    the same ends, each of which shows the output at its source. -/
structure Circuit.Retains (c r : Circuit Definition) : Prop where
  gates : List.Forall₂ Gate.Retains c.gates r.gates
  wires : List.Forall₂ (fun w w' => w'.id = w.id ∧ w'.source = w.source ∧ w'.sink = w.sink ∧
    w'.isActive = r.signalAt w.source) c.wires r.wires

/-! ## 2. What all operations keep -/

/-- **A property of netlists that every operation keeps**: passes of both modes, and forcing a
    clock. -/
structure Netlist.Steady (c : Circuit Definition) (P : Netlist Expansion → Prop) : Prop where
  delayed : ∀ instant net, P net → P (net.delayed Expansion.react instant).netlist
  immediate : ∀ schedule instant net, P net →
    P (net.immediate Expansion.react schedule instant).netlist
  force : ∀ k g value net, c.gates[k]? = some g → g.kind = .clock → P net → P (net.force k value)

section Steady

variable {c : Circuit Definition} {P : Netlist Expansion → Prop} {q : CycleRequest}
  {instant : Instant} {k : Nat}

/-- The node of a cycle is that of a clock. -/
theorem CycleRequest.exists_clock_of_node? {compile : Definition → Except String Expansion}
    (hk : q.node? (Netlist.assemble compile c) = some k) :
    ∃ g, c.gates[k]? = some g ∧ g.kind = .clock := by
  rw [node?, Option.filter_eq_some_iff] at hk
  obtain ⟨-, hclock⟩ := hk
  rw [Netlist.assemble, List.getElem?_map] at hclock
  cases hg : c.gates[k]? with
  | none => rw [hg] at hclock; cases hclock
  | some g =>
    rw [hg, Option.map_some] at hclock
    dsimp only at hclock
    refine ⟨g, rfl, ?_⟩
    rw [← Element.kind_ofGate compile g]
    rw [Node.element_ofGate] at hclock
    cases he : Element.ofGate compile g with
    | clock m => rfl
    | _ => rw [he] at hclock; cases hclock

/-- A phase of a cycle keeps what operations keep. -/
theorem Netlist.Steady.phase (hP : Netlist.Steady c P) {g : Gate Definition}
    (hg : c.gates[k]? = some g) (hclock : g.kind = .clock) {s : Settling Expansion}
    (hs : P s.netlist) (level : Bool) : P (q.phase instant k s level).netlist := by
  rw [CycleRequest.netlist_phase]
  exact Settling.run_keeps (fun net h => hP.delayed instant net h) _
    (hP.force k g (some level) s.netlist hg hclock hs)

/-- So does a whole cycle. -/
theorem Netlist.Steady.drive (hP : Netlist.Steady c P) {g : Gate Definition}
    (hg : c.gates[k]? = some g) (hclock : g.kind = .clock) {s : Settling Expansion}
    (hs : P s.netlist) : P (q.drive instant k s).netlist := by
  rw [CycleRequest.netlist_drive]
  refine hP.force k g none _ hg hclock ?_
  exact hP.phase hg hclock (hP.phase hg hclock (hP.phase hg hclock hs false) true) false

end Steady

section Returned

variable {c r : Circuit Definition}

/-- Only a valid circuit comes back. -/
theorem Returned.valid (h : Returned c r) : c.Valid := by
  have hservice : ∀ {s : Service}, s.Accepts c → c.Valid :=
    fun haccepts => Circuit.check_eq_nil_iff.mp haccepts.check
  cases h with
  | immediate e now h => exact Evaluator.valid_of_succeeded (p := .immediate now) h
  | delayed e now h => exact Evaluator.valid_of_succeeded (p := .delayed now) h
  | evaluate s h => exact hservice (Service.accepts_of_call h)
  | step s h => exact hservice (Service.accepts_of_call h)
  | settle s h => exact hservice (Service.accepts_of_call h)
  | cycle s request h => exact hservice (Service.accepts_of_call h)

/-- **What operations keep holds of the netlist from which a circuit comes back**, if it holds of the
    one with which they begin. -/
theorem Returned.exists_netlist {P : Nat → Netlist Expansion → Prop}
    (hP : ∀ deepest, Netlist.Steady c (P deepest))
    (hstart : ∀ deepest, P deepest (Netlist.assemble (Definition.compile deepest deepest) c))
    (h : Returned c r) : ∃ deepest net, P deepest net ∧ r = net.writeBack c := by
  have hc := h.valid
  cases h with
  | immediate e now h =>
    rw [Evaluator.immediate, Circuit.netlist, Netlist.ofCircuit_of_valid _ hc] at h ⊢
    dsimp only at h ⊢
    split at h
    · cases h
    · exact ⟨e.deepest, _, (hP e.deepest).immediate _ _ _ (hstart e.deepest), rfl⟩
  | delayed e now h =>
    rw [Evaluator.delayed, Circuit.netlist, Netlist.ofCircuit_of_valid _ hc]
    exact ⟨e.deepest, _, (hP e.deepest).delayed _ _ (hstart e.deepest), rfl⟩
  | evaluate s h =>
    obtain ⟨call, s', s'', hnet, hbody⟩ := Service.exists_of_call hc h
    have hcall := hnet ▸ hstart s.config.deepest
    refine ⟨s.config.deepest, ?_⟩
    dsimp only at hbody
    split at hbody
    · obtain ⟨rfl, -⟩ := Prod.ext_iff.mp (Except.ok.inj hbody)
      exact ⟨_, (hP _).delayed _ _ hcall, rfl⟩
    · obtain ⟨rfl, -⟩ := Prod.ext_iff.mp (Except.ok.inj hbody)
      exact ⟨_, (hP _).delayed _ _ hcall, rfl⟩
    · obtain ⟨rfl, -⟩ := Prod.ext_iff.mp (Except.ok.inj hbody)
      exact ⟨_, (hP _).immediate _ _ _ hcall, rfl⟩
    · obtain ⟨rfl, -⟩ := Prod.ext_iff.mp (Except.ok.inj hbody)
      exact ⟨_, (hP _).immediate _ _ _ hcall, rfl⟩
    · cases hbody
  | step s h =>
    obtain ⟨call, s', s'', hnet, hbody⟩ := Service.exists_of_call hc h
    obtain ⟨rfl, -⟩ := Prod.ext_iff.mp (Except.ok.inj hbody)
    exact ⟨s.config.deepest, _, (hP _).delayed _ _ (hnet ▸ hstart _), rfl⟩
  | settle s h =>
    obtain ⟨call, s', s'', hnet, hbody⟩ := Service.exists_of_call hc h
    dsimp only at hbody
    split at hbody
    · obtain ⟨rfl, -⟩ := Prod.ext_iff.mp (Except.ok.inj hbody)
      refine ⟨s.config.deepest, _, ?_, rfl⟩
      exact Settling.run_keeps (fun net h => (hP _).delayed call.instant net h) _ (hnet ▸ hstart _)
    · cases hbody
  | cycle s request h =>
    obtain ⟨call, s', s'', hnet, hbody⟩ := Service.exists_of_call hc h
    dsimp only at hbody
    split at hbody
    · cases hbody
    · rename_i k hk
      obtain ⟨rfl, -⟩ := Prod.ext_iff.mp (Except.ok.inj hbody)
      obtain ⟨g, hg, hclock⟩ := CycleRequest.exists_clock_of_node? (hnet ▸ hk)
      exact ⟨s.config.deepest, _, (hP _).drive hg hclock (hnet ▸ hstart _), rfl⟩

end Returned

/-! ## 3. Nodes -/

/-- A clock that has a start keeps it. -/
theorem ClockMemory.start_tick {m m' : ClockMemory} {now : UInt64} {level : Bool}
    (h : m.tick now = .ok (m', level)) {t : UInt64} (ht : m.start = some t) :
    m'.start = some t := by
  unfold tick at h
  split at h
  · obtain ⟨rfl, -⟩ := Prod.ext_iff.mp (Except.ok.inj h)
    exact ht
  · split at h
    · cases h
    · obtain ⟨rfl, -⟩ := Prod.ext_iff.mp (Except.ok.inj h)
      rw [ht]
      rfl

namespace Node

variable {ε : Type} {run : ε → Reaction} {instant : Instant}
  {compile : Definition → Except String ε} {g : Gate Definition} {n : Node ε}

/-- **The node of a gate in the course of all operations**, where a clock may be forced: what of the
    gate its memory still holds. -/
structure Tended (compile : Definition → Except String ε) (g : Gate Definition) (n : Node ε) :
    Prop where
  id : n.id = g.id
  fits : n.element.Fits compile g
  released : g.kind ≠ .clock → n.forced = none
  start : ∀ m t, n.element = .clock m → g.metadata.startTime = some t → m.start = some t
  value : ∀ value, n.element = .input value → value = g.output ∧ n.outputs = [value]

theorem tended_ofGate (compile : Definition → Except String ε) (g : Gate Definition) :
    (ofGate compile g).Tended compile g := by
  refine ⟨rfl, Element.fits_ofGate compile g, fun _ => rfl, fun m t hm ht => ?_, fun value hv => ?_⟩
  · rw [element_ofGate] at hm
    have hk : g.kind = .clock := (Element.kind_ofGate compile g).symm.trans (congrArg Element.kind hm)
    rw [Element.ofGate, hk] at hm
    obtain rfl := Element.clock.inj hm
    exact ht
  · have hshows := (kept_ofGate compile g).value value hv
    rw [element_ofGate] at hv
    have hk : g.kind = .input := (Element.kind_ofGate compile g).symm.trans (congrArg Element.kind hv)
    rw [Element.ofGate, hk] at hv
    exact ⟨(Element.input.inj hv).symm, hshows⟩

/-- **A reaction keeps it**, forced or not. -/
theorem Tended.react (h : n.Tended compile g) (inputs : List Bool) :
    (n.react run instant inputs).1.Tended compile g := by
  cases hforced : n.forced with
  | some value =>
    have hclock : g.kind = .clock := by
      by_contra hne
      rw [h.released hne] at hforced
      cases hforced
    rw [react_of_forced hforced]
    refine ⟨h.id, h.fits, h.released, h.start, fun value hvalue => ?_⟩
    have hinput : g.kind = .input := h.fits.kind_eq.symm.trans (congrArg Element.kind hvalue)
    rw [hclock] at hinput
    cases hinput
  | none =>
    cases he : n.element.evaluate run instant inputs with
    | ok result =>
      obtain ⟨element, answer⟩ := result
      rw [react_of_ok hforced he]
      refine ⟨h.id, h.fits.evaluate he, h.released, fun m' t hm ht => ?_, fun value hvalue => ?_⟩
      · obtain rfl : element = .clock m' := hm
        rcases Element.evaluate_cases he with hsame | ⟨m, m'', level, hm, htick, hclock, -⟩ |
          ⟨_, _, _, -, -, hflipFlop, -⟩ | ⟨_, _, _, -, -, hlatch, -⟩
        · exact h.start m' t hsame.symm ht
        · obtain rfl := Element.clock.inj hclock
          exact ClockMemory.start_tick htick (h.start m t hm ht)
        · cases hflipFlop
        · cases hlatch
      · obtain rfl : element = .input value := hvalue
        obtain ⟨hinput, hanswer⟩ := Element.input_of_evaluate he
        obtain ⟨rfl, houtputs⟩ := h.value value hinput
        rw [hanswer, houtputs]
        exact ⟨rfl, rfl⟩
    | error fault =>
      rw [react_of_error hforced he]
      refine ⟨h.id, h.fits, h.released, h.start, fun value hvalue => ?_⟩
      rw [show n.element = .input value from hvalue] at he
      cases he

/-- Forcing a clock keeps it. -/
theorem Tended.force (h : n.Tended compile g) (hclock : g.kind = .clock) (value : Option Bool) :
    ({ n with forced := value } : Node ε).Tended compile g :=
  ⟨h.id, h.fits, fun hne => absurd hclock hne, h.start, h.value⟩

/-- **What is written into a gate.** -/
theorem Tended.retains_store (h : n.Tended compile g) : g.Retains (n.store g) := by
  have hkind := h.fits.kind_eq
  obtain ⟨id, element, inputs, outputs, forced⟩ := n
  cases element with
  | input value =>
    refine ⟨rfl, rfl, rfl, rfl, rfl, fun _ => ?_, fun _ => ⟨rfl, rfl, rfl⟩, fun _ ht => ht,
      fun _ => rfl, fun _ _ => ⟨rfl, rfl⟩⟩
    obtain ⟨rfl, houtputs⟩ := h.value value rfl
    exact congrArg (·.headD false) houtputs
  | clock m =>
    refine ⟨rfl, rfl, rfl, rfl, rfl, fun hinput => ?_, fun hne => absurd hkind.symm hne,
      fun t ht => h.start m t rfl ht, fun _ => rfl, fun _ _ => ⟨rfl, rfl⟩⟩
    cases hkind.trans hinput
  | flipFlop m =>
    refine ⟨rfl, rfl, rfl, rfl, rfl, fun hinput => ?_, fun _ => ⟨rfl, rfl, rfl⟩, fun _ ht => ht,
      fun hne => absurd hkind.symm hne, fun hne _ => absurd hkind.symm hne⟩
    cases hkind.trans hinput
  | latch m =>
    refine ⟨rfl, rfl, rfl, rfl, rfl, fun hinput => ?_, fun _ => ⟨rfl, rfl, rfl⟩, fun _ ht => ht,
      fun _ => rfl, fun _ hne => absurd hkind.symm hne⟩
    cases hkind.trans hinput
  | _ =>
    refine ⟨rfl, rfl, rfl, rfl, rfl, fun hinput => ?_, fun _ => ⟨rfl, rfl, rfl⟩, fun _ ht => ht,
      fun _ => rfl, fun _ _ => ⟨rfl, rfl⟩⟩
    -- an input gate is made into an input
    have he := Eq.symm h.fits
    rw [Element.ofGate, hinput] at he
    cases he

end Node

/-! ## 4. Netlists -/

namespace Netlist

variable {ε : Type} {run : ε → Reaction} {instant : Instant}
  {compile : Definition → Except String ε} {c : Circuit Definition} {net : Netlist ε}

/-- **The netlist of a circuit in the course of all operations.** -/
structure Tended (compile : Definition → Except String ε) (c : Circuit Definition)
    (net : Netlist ε) : Prop where
  shape : net.shape = (assemble compile c).shape
  node : net.Each (Node.Tended compile) c

theorem tended_assemble (compile : Definition → Except String ε) (c : Circuit Definition) :
    (assemble compile c).Tended compile c := ⟨rfl, each_assemble (Node.tended_ofGate compile)⟩

/-- **All operations keep it.** -/
theorem steady_tended (compile : Definition → Except String Expansion) (c : Circuit Definition) :
    Steady c (Netlist.Tended compile c) where
  delayed := fun _ net h =>
    ⟨(shape_delayed net).trans h.shape, h.node.delayed fun _ _ _ inputs hn _ => hn.react inputs⟩
  immediate := fun schedule _ _ h =>
    ⟨(shape_immediate ..).trans h.shape,
      h.node.immediate (fun _ _ _ inputs hn _ => hn.react inputs) schedule⟩
  force := fun k g value net hg hclock h => by
    refine ⟨(shape_force net k value).trans h.shape, fun i g' n hg' hn => ?_⟩
    rw [force, getElem?_updateNode] at hn
    split at hn
    · rename_i hki
      subst hki
      obtain rfl : g = g' := Option.some.inj (hg.symm.trans hg')
      obtain ⟨n', hn', rfl⟩ := Option.map_eq_some_iff.mp hn
      exact (h.node k g n' hg hn').force hclock value
    · exact h.node i g' n hg' hn

/-- **The circuit that comes back retains what is not evaluated.** -/
theorem Tended.retains (h : net.Tended compile c) (hc : c.Valid) : c.Retains (net.writeBack c) := by
  have hhas := has_stateOf hc (length_of_assemble h.shape)
  have hgates := gates_writeBack hhas
  refine ⟨?_, ?_⟩
  · rw [hgates, List.forall₂_map_right_iff, List.forall₂_same]
    intro g hg
    obtain ⟨i, hi⟩ := List.getElem?_of_mem hg
    exact (h.node i g _ hi (hhas.node hi)).retains_store
  · rw [wires_writeBack hc (realizes_of_shape hc h.shape) hhas, List.forall₂_map_right_iff,
      List.forall₂_same]
    intro w hw
    refine ⟨rfl, rfl, rfl, ?_⟩
    obtain ⟨g, hg, hid, -⟩ := hc.source w hw
    obtain ⟨i, hi⟩ := List.getElem?_of_mem hg
    rw [Circuit.signalAt, ← hid, gate?_writeBack hc.gateIds hi (hhas.node hi), shown,
      List.getD_eq_getElem?_getD]
    rfl

end Netlist

/-! ## 5. Operations -/

/-- An evaluation that is not possible returns the circuit as it was. -/
theorem Evaluator.circuit_of_problems (e : Evaluator) (c : Circuit Definition) (p : Pass)
    (h : (e.evaluate c p).problems ≠ []) : (e.evaluate c p).circuit = c := by
  cases p with
  | immediate now =>
    rw [evaluate, immediate] at h ⊢
    cases hnet : c.netlist e.deepest with
    | error problems => rfl
    | ok net =>
      rw [hnet] at h
      dsimp only at h ⊢
      cases hs : net.dependencies.schedule with
      | error cycle => rfl
      | ok schedule =>
        rw [hs] at h
        exact absurd rfl h
  | delayed now =>
    rw [evaluate, delayed] at h ⊢
    cases hnet : c.netlist e.deepest with
    | error problems => rfl
    | ok net =>
      rw [hnet] at h
      exact absurd rfl h

/-- **The frame of every operation.** What comes back from a call that succeeds retains all but
    signals and memory, and what comes back with problems is the circuit itself. -/
theorem returned_retains (c : Circuit Definition) :
    (∀ r, Returned c r → c.Retains r) ∧
      ∀ (e : Evaluator) (p : Pass), (e.evaluate c p).problems ≠ [] →
        (e.evaluate c p).circuit = c := by
  refine ⟨fun r h => ?_, fun e p => e.circuit_of_problems c p⟩
  obtain ⟨deepest, net, hnet, rfl⟩ := h.exists_netlist
    (P := fun deepest => Netlist.Tended (Definition.compile deepest deepest) c)
    (fun deepest => Netlist.steady_tended _ c) (fun deepest => Netlist.tended_assemble _ c)
  exact hnet.retains h.valid

/-- What a clock cycle returns of a flip-flop that toggles, and an immediate evaluation of a circuit
    with a combinational cycle. -/
theorem toggle_retained :
    (∃ r, (Service.cycle { time := .fixed 0 } (Circuit.toggle 1) ⟨"CLK", 10⟩).1 = .ok r ∧
      (Circuit.toggle 1).Retains r.circuit) ∧
    ((Evaluator.evaluate {} (Circuit.crossedLatch true false) (.immediate 0)).problems ≠ [] ∧
      (Evaluator.evaluate {} (Circuit.crossedLatch true false) (.immediate 0)).circuit =
        Circuit.crossedLatch true false) := by
  have hanswer : ∃ r, (Service.cycle { time := .fixed 0 } (Circuit.toggle 1) ⟨"CLK", 10⟩).1 = .ok r :=
    ⟨_, rfl⟩
  obtain ⟨r, hr⟩ := hanswer
  have hproblems :
      (Evaluator.evaluate {} (Circuit.crossedLatch true false) (.immediate 0)).problems ≠ [] :=
    fun h => by cases h
  exact ⟨⟨r, hr, (returned_retains (Circuit.toggle 1)).1 _ (.cycle _ _ hr)⟩, hproblems,
    (returned_retains (Circuit.crossedLatch true false)).2 _ _ hproblems⟩

end LogicSim
