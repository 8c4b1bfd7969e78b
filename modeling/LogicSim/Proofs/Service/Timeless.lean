import LogicSim.Proofs.Nesting.Clocks
import LogicSim.Proofs.Service.Outcome
import LogicSim.Proofs.Service.Phases

/-!
# A clock cycle does not depend on time

The clock of a cycle is forced, so a cycle on the only clock of a circuit has the same outcome at every
time. It takes the clock back, whose start it has not touched, and it says how many of its phases have
not settled (`Service.cycle_timeless`).
-/

namespace LogicSim

open Netlist

/-! ## 1. Cycles at two times -/

namespace CycleRequest

variable {q : CycleRequest} {i i' : Instant} {k : Nat}

/-- The phases of a cycle at two times, when the first of them begins without the time. -/
theorem phases_eq (hi : i.settleLimit = i'.settleLimit) (levels : List Bool)
    {s : Settling Expansion}
    (hs : ∀ level, (s.netlist.force k (some level)).Timeless Expansion.react) :
    levels.foldl (q.phase i k) s = levels.foldl (q.phase i' k) s := by
  induction levels generalizing s with
  | nil => rw [List.foldl_nil, List.foldl_nil]
  | cons level levels ih =>
    have hrun : Settling.run Expansion.react i q.passLimit
          { s with netlist := s.netlist.force k (some level) } =
        Settling.run Expansion.react i' q.passLimit
          { s with netlist := s.netlist.force k (some level) } :=
      Settling.run_eq_of_timeless (hs level) hi
    have hphase : q.phase i k s level = q.phase i' k s level := by
      rw [phase, phase, hrun]
    have hkept : (q.phase i k s level).netlist.Timeless Expansion.react := by
      rw [netlist_phase]
      exact Settling.run_keeps (fun _ h => h.delayed i) _ (hs level)
    rw [List.foldl_cons, List.foldl_cons, ← hphase]
    exact ih fun level => hkept.force k level

theorem drive_eq (hi : i.settleLimit = i'.settleLimit) {s : Settling Expansion}
    (hs : ∀ level, (s.netlist.force k (some level)).Timeless Expansion.react) :
    q.drive i k s = q.drive i' k s := by
  rw [drive, drive, phases_eq hi levels hs]

/-- The node of a cycle is that of the gate with the name asked for. -/
theorem id_of_node? {net : Netlist Expansion} (hk : q.node? net = some k) :
    (net.nodes.map (·.id))[k]? = some q.clock := by
  rw [node?, Option.filter_eq_some_iff] at hk
  obtain ⟨hlt, hid, -⟩ := List.findIdx?_eq_some_iff_getElem.mp hk.1
  rw [List.getElem?_map, List.getElem?_eq_getElem hlt, Option.map_some, of_decide_eq_true hid]

end CycleRequest

namespace Service

variable {s s' : Service} {c : Circuit Definition} {q : CycleRequest}

/-- **Two services with the same configuration agree about a cycle** on the only clock of a circuit,
    whatever time it is for them. -/
theorem cycle_eq (hconfig : s'.config = s.config) (honly : c.OnlyClock q.clock) :
    (s'.cycle c q).1 = (s.cycle c q).1 := by
  have hevaluator : s'.evaluator = s.evaluator := by rw [evaluator, evaluator, hconfig]
  rcases s.refused_or_accepts c with hcheck | ⟨hcheck, hlarge⟩ | haccepts
  · rw [cycle, cycle, call_of_refused (start_of_invalid hcheck),
      call_of_refused (start_of_invalid hcheck)]
  · have hlarge' : s'.config.gateLimit < (s'.evaluator.assemble c).size := by
      rwa [hevaluator, hconfig]
    rw [cycle, cycle, call_of_refused (start_of_large hcheck hlarge),
      call_of_refused (start_of_large hcheck hlarge'), hevaluator, hconfig]
  · have haccepts' : s'.Accepts c := ⟨haccepts.check, by rw [hevaluator, hconfig]; exact haccepts.size⟩
    have hstate : (s'.callOf c).state = (s.callOf c).state := by rw [callOf, callOf, hevaluator]
    have hlimit : (s'.callOf c).instant.settleLimit = (s.callOf c).instant.settleLimit := by
      rw [callOf, callOf, hevaluator]
      rfl
    rw [cycle, cycle, call_of_start haccepts.start, call_of_start haccepts'.start]
    dsimp only
    rw [hstate]
    cases hk : q.node? (s.callOf c).state.netlist with
    | none => rfl
    | some k =>
      have hplace : (c.gates.map (·.id))[k]? = some q.clock := by
        have hid := CycleRequest.id_of_node? hk
        rwa [callOf, Evaluator.assemble, ids_assemble] at hid
      have hdrive : q.drive (s'.callOf c).instant k (s.callOf c).state =
          q.drive (s.callOf c).instant k (s.callOf c).state :=
        CycleRequest.drive_eq hlimit
          (honly.timeless (Circuit.check_eq_nil_iff.mp haccepts.check) hplace _ _)
      dsimp only
      rw [hdrive]
      rfl

end Service

/-! ## 2. The clock -/

variable {ε : Type} {run : ε → Reaction} {instant : Instant}

namespace Netlist

/-- Node `k` is a clock with some memory, forced or not. -/
def ClockAt (k : Nat) (m : ClockMemory) (forced : Option Bool) (net : Netlist ε) : Prop :=
  ∃ n, net.nodes[k]? = some n ∧ n.forced = forced ∧ n.element = .clock m ∧ 0 < n.outputs.length

theorem ClockAt.force {k : Nat} {m : ClockMemory} {forced : Option Bool} {net : Netlist ε}
    (h : net.ClockAt k m forced) (value : Option Bool) :
    (net.force k value).ClockAt k m value := by
  obtain ⟨n, hn, -, helement, hlength⟩ := h
  refine ⟨{ n with forced := value }, ?_, rfl, helement, hlength⟩
  rw [Netlist.force, getElem?_updateNode, if_pos rfl, hn, Option.map_some]

/-- **In a pass a clock that is forced shows its level**, and its memory is not touched. -/
theorem ClockAt.delayed {k : Nat} {m : ClockMemory} {level : Bool} {net : Netlist ε}
    (h : net.ClockAt k m (some level)) :
    (net.delayed run instant).netlist.ClockAt k m (some level) ∧
      (net.delayed run instant).netlist.outputAt k 0 = level := by
  obtain ⟨n, hn, hforced, helement, hlength⟩ := h
  have hheld : net.HeldAt k level := ⟨n, hn, hforced, hlength⟩
  refine ⟨⟨_, by rw [getElem?_delayed, hn, Option.map_some], ?_, ?_, ?_⟩,
    (hheld.delayed run instant).2⟩
  · rw [Node.react, hforced]
  · rw [Node.react, hforced]
    exact helement
  · rw [Node.length_outputs_react]
    exact hlength

/-- The memory that a clock starts with. -/
def clockMemory (g : Gate Definition) : ClockMemory :=
  ⟨g.metadata.isRunning.getD true, g.metadata.frequency.getD 1, g.metadata.startTime⟩

theorem clockAt_assemble {compile : Definition → Except String ε} {c : Circuit Definition} {k : Nat}
    {clock : Gate Definition} (hk : c.gates[k]? = some clock) (hclock : clock.kind = .clock) :
    (assemble compile c).ClockAt k (clockMemory clock) none := by
  have helement : Element.ofGate compile clock = .clock (clockMemory clock) := by
    rw [Element.ofGate, hclock]
    rfl
  refine ⟨_, getElem?_assemble hk, rfl, helement, ?_⟩
  rw [Node.ofGate, helement]
  show 0 < (Signal.resize clock.outputs clock.outputCount).length
  rw [Signal.length_resize, Gate.outputCount, hclock]
  exact Nat.lt_of_lt_of_le Nat.zero_lt_one (Nat.le_max_right _ _)

end Netlist

namespace CycleRequest

variable {q : CycleRequest} {k : Nat} {m : ClockMemory}

/-- **At the end of a phase the clock shows its level.** -/
theorem clockAt_phase (hlimit : 1 ≤ q.passLimit) {forced : Option Bool} {s : Settling Expansion}
    (hs : s.netlist.ClockAt k m forced) (level : Bool) :
    (q.phase instant k s level).netlist.ClockAt k m (some level) ∧
      (q.phase instant k s level).netlist.outputAt k 0 = level := by
  rw [netlist_phase]
  exact Settling.run_of_pos
    (Q := fun net => net.ClockAt k m (some level) ∧ net.outputAt k 0 = level)
    (fun _ h => ClockAt.delayed h) (fun _ h => h.1) hlimit (hs.force (some level))

/-- **A cycle ends with the clock low and released.** -/
theorem clockAt_drive (hlimit : 1 ≤ q.passLimit) {s : Settling Expansion}
    (hs : s.netlist.ClockAt k m none) :
    (q.drive instant k s).netlist.ClockAt k m none ∧
      (q.drive instant k s).netlist.outputAt k 0 = false := by
  rw [netlist_drive]
  generalize hlow : q.phase instant k s false = low
  generalize hhigh : q.phase instant k low true = high
  have hclockLow : low.netlist.ClockAt k m (some false) := hlow ▸ (clockAt_phase hlimit hs false).1
  have hclockHigh : high.netlist.ClockAt k m (some true) :=
    hhigh ▸ (clockAt_phase hlimit hclockLow true).1
  obtain ⟨hend, hshown⟩ := clockAt_phase (q := q) hlimit hclockHigh false
  exact ⟨hend.force none, by rw [outputAt_force, hshown]⟩

end CycleRequest

/-- **The gate that comes back for a clock** shows what its node shows, and has its start. -/
theorem Netlist.ClockAt.gate?_writeBack {k : Nat} {m : ClockMemory} {forced : Option Bool}
    {net : Netlist ε} (h : net.ClockAt k m forced) {c : Circuit Definition} (hc : c.Valid)
    {clock : Gate Definition} (hk : c.gates[k]? = some clock) :
    ∃ g, (net.writeBack c).gate? clock.id = some g ∧ g.output = net.outputAt k 0 ∧
      g.metadata.startTime = m.start := by
  obtain ⟨n, hn, -, helement, -⟩ := h
  refine ⟨n.store clock, Netlist.gate?_writeBack hc.gateIds hk hn, ?_, ?_⟩
  · rw [outputAt, hn, Option.bind_some, Gate.output, List.headD_eq_head?_getD, List.head?_eq_getElem?]
    rfl
  · rw [Node.store, helement]
    rfl

/-! ## 3. The outcome of a cycle -/

namespace Service

variable {s : Service} {c : Circuit Definition} {q : CycleRequest}

/-- **What a cycle on a clock answers.** -/
theorem Accepts.cycle_of_node (h : s.Accepts c) {k : Nat}
    (hk : q.node? (s.evaluator.assemble c) = some k) :
    ∃ r, (s.cycle c q).1 = .ok r ∧
      r.circuit = (q.drive (s.callOf c).instant k (s.callOf c).state).netlist.writeBack c ∧
      r.info.passes = (q.drive (s.callOf c).instant k (s.callOf c).state).passes ∧
      r.warnings = (q.drive (s.callOf c).instant k (s.callOf c).state).warnings := by
  have hk' : q.node? (s.callOf c).state.netlist = some k := hk
  rw [cycle, call_of_start h.start]
  dsimp only
  rw [hk']
  exact ⟨_, rfl, rfl, rfl, rfl⟩

/-- **A cycle on the only clock of a circuit does not depend on time.** And a cycle on a clock of a
    circuit that is accepted succeeds: it brings the clock back low, with its start, makes at least
    one pass a phase and at most as many as are allowed, and warns of the circuit once for each phase
    that does not settle. -/
theorem cycle_timeless (s : Service) (c : Circuit Definition) (q : CycleRequest) :
    (c.OnlyClock q.clock → ∀ s' : Service, s'.config = s.config →
      (s'.cycle c q).1 = (s.cycle c q).1) ∧
    (s.Accepts c → 1 ≤ q.passLimit →
      ∀ clock ∈ c.gates, clock.id = q.clock → clock.kind = .clock →
        ∃ k r, q.node? (s.evaluator.assemble c) = some k ∧ (s.cycle c q).1 = .ok r ∧
          (∃ g, r.circuit.gate? q.clock = some g ∧ g.output = false ∧
            g.metadata.startTime = clock.metadata.startTime) ∧
          3 ≤ r.info.passes ∧ r.info.passes ≤ 3 * q.passLimit ∧
          r.warnings.countP (·.gate.isNone) =
            (q.begins (s.callOf c).instant k CycleRequest.levels (s.callOf c).state).countP
              fun net => net.Restless Expansion.react (s.callOf c).instant q.passLimit) := by
  refine ⟨fun honly s' hconfig => cycle_eq hconfig honly,
    fun haccepts hlimit clock hmem hid hkind => ?_⟩
  have hc := Circuit.check_eq_nil_iff.mp haccepts.check
  obtain ⟨k, hk⟩ := List.getElem?_of_mem hmem
  have hnode : q.node? (s.evaluator.assemble c) = some k :=
    CycleRequest.node?_of_clock hc hk hid hkind
  obtain ⟨r, hr, hcircuit, hpasses, hwarnings⟩ := haccepts.cycle_of_node hnode
  refine ⟨k, r, hnode, hr, ?_, ?_⟩
  · obtain ⟨hclock, hlow⟩ : (q.drive (s.callOf c).instant k (s.callOf c).state).netlist.ClockAt k
          (clockMemory clock) none ∧
        (q.drive (s.callOf c).instant k (s.callOf c).state).netlist.outputAt k 0 = false :=
      CycleRequest.clockAt_drive hlimit (clockAt_assemble hk hkind)
    obtain ⟨g, hg, houtput, hstart⟩ := hclock.gate?_writeBack hc hk
    rw [hcircuit, ← hid]
    exact ⟨g, hg, houtput.trans hlow, hstart⟩
  · have hcount : r.info.passes =
        (q.starts (s.callOf c).instant k CycleRequest.levels (s.callOf c).state).length := by
      rw [hpasses]
      exact (CycleRequest.passes_phases _ _).trans (Nat.zero_add _)
    have hbounds : 3 ≤ r.info.passes ∧ r.info.passes ≤ 3 * q.passLimit :=
      hcount ▸ CycleRequest.length_starts hlimit CycleRequest.levels _
    refine ⟨hbounds.1, hbounds.2, ?_⟩
    rw [hwarnings]
    exact (CycleRequest.general_phases _ _).trans (Nat.zero_add _)

end Service

/-- A flip-flop that toggles, and next to it an adder of two bits as a custom gate. -/
def Circuit.toggleBesideAdder : Circuit Definition :=
  (Circuit.toggle 1).add <| .custom "HA" <|
    .ofCircuit "HA" [.bound "a" "A", .bound "b" "B"] [.bound "sum" "S"]
      (Circuit.halfAdder false false)

/-- At noon it cycles as at midnight. With one pass a phase none of its phases settles. -/
theorem Service.toggleBesideAdder_timeless :
    (Service.cycle { time := .fixed 43200000 } Circuit.toggleBesideAdder ⟨"CLK", 1⟩).1 =
      (Service.cycle { time := .fixed 0 } Circuit.toggleBesideAdder ⟨"CLK", 1⟩).1 ∧
    ∃ r, (Service.cycle { time := .fixed 0 } Circuit.toggleBesideAdder ⟨"CLK", 1⟩).1 = .ok r ∧
      (∃ g, r.circuit.gate? "CLK" = some g ∧ g.output = false ∧ g.metadata.startTime = none) ∧
      r.info.passes = 3 ∧ r.warnings.countP (·.gate.isNone) = 3 := by
  obtain ⟨htimeless, hanswer⟩ :=
    cycle_timeless { time := .fixed 0 } Circuit.toggleBesideAdder ⟨"CLK", 1⟩
  constructor
  · exact htimeless (by decide) _ rfl
  · obtain ⟨k, r, hk, hr, hclock, hleast, hmost, hwarnings⟩ := hanswer
      ⟨rfl, by decide⟩ (Nat.le_refl 1) _ (List.mem_of_getElem? (i := 0) rfl) rfl rfl
    obtain rfl : 0 = k := Option.some.inj hk
    refine ⟨r, hr, hclock, Nat.le_antisymm hmost hleast, ?_⟩
    rw [hwarnings]
    decide

end LogicSim
