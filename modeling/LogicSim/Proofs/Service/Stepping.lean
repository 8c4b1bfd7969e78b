import LogicSim.Circuit.Samples
import LogicSim.Proofs.Evaluation.Continuation
import LogicSim.Proofs.Service.Calls

/-!
# No state outside the circuit

A service that stands still in time can be asked to settle a circuit, or to step it again and again,
each time with the circuit that the step before returned, until a step changes nothing. Both come to
the same circuit after the same number of passes, and both give up alike (`Service.settle_iff_steps`).
Together with the runs of passes of both modes this says that a simulation has no state but the circuit
(`stateless`).

Two things are not the same, and neither is a matter of state: a netlist is written back even if no pass
was made, and a circuit that is too large does not settle even if no step is allowed
(`halfAdder_unstepped`).
-/

namespace LogicSim

open Netlist

namespace Service

/-! ## 1. Steps until nothing changes -/

/-- Steps, each from the circuit that the one before returned, until one changes nothing, but at most
    `limit` of them: the last circuit and the number of steps, or nothing if every step changed
    something. -/
def stepsUntilQuiet : Nat → Service → Circuit Definition →
    Except Failure (Option (Circuit Definition × Nat))
  | 0, _, _ => .ok none
  | limit + 1, s, c =>
    match s.step c with
    | (.error failure, _) => .error failure
    | (.ok r, s) =>
      if r.info.changed then
        (s.stepsUntilQuiet limit r.circuit).map (Option.map fun (d, steps) => (d, steps + 1))
      else .ok (some (r.circuit, 1))

/-- A service that stands still at a time, and whose bounds admit a circuit. -/
structure Admits (s : Service) (e : Evaluator) (now : UInt64) (c : Circuit Definition) : Prop where
  evaluator : s.evaluator = e
  time : s.time = .fixed now
  size : (e.assemble c).size ≤ s.config.gateLimit

variable {s : Service} {e : Evaluator} {now : UInt64} {c d : Circuit Definition}
  {net : Netlist Expansion}

/-- **A step from a circuit that holds a netlist** is a pass over the netlist, and the circuit that it
    returns holds the netlist after the pass. -/
theorem step_of_holds (hc : c.Valid) (hstandard : c.Standard) (hs : s.Admits e now c)
    (h : e.Holds c net d) :
    ∃ r s', s.step d = (.ok r, s') ∧ s'.Admits e now c ∧
      (r.info.changed = false ↔ net.QuietAfter Expansion.react (e.instant now) 0) ∧
      r.circuit = (net.after Expansion.react (e.instant now) 1).writeBack c ∧
      e.Holds c (net.delayed Expansion.react (e.instant now)).netlist r.circuit := by
  obtain ⟨rfl, htime, hsize⟩ := hs
  have hstart : s.start d = .ok (s.callOf d, { s with time := s.time.read.2 }) := by
    refine start_eq_ok_iff.mpr ⟨Circuit.check_eq_nil_iff.mpr h.valid, ?_, rfl, rfl⟩
    rw [h.read, Netlist.size, h.carried.kept.expandedSize_eq]
    exact hsize
  obtain ⟨r, hr, hcircuit, hchanged⟩ := step_of_start hstart
  have hnow : (s.callOf d).instant = s.evaluator.instant now := by
    rw [callOf, htime]
    rfl
  have hnet : (s.callOf d).state.netlist = net := h.read
  have hcarried : (net.delayed Expansion.react (s.evaluator.instant now)).netlist.Carried
      (Definition.compile s.evaluator.deepest s.evaluator.deepest) c := h.carried.delayed hstandard
  rw [hnow, hnet] at hcircuit hchanged
  rw [h.written _ hcarried] at hcircuit
  refine ⟨r, _, hr, ⟨rfl, ?_, hsize⟩, ?_, hcircuit, ?_⟩
  · show s.time.read.2 = .fixed now
    rw [htime]
    rfl
  · rw [hchanged]
    rfl
  · rw [hcircuit]
    exact Evaluator.holds_writeBack hc hstandard hcarried

/-- **Steps end with the first quiet pass.** -/
theorem stepsUntilQuiet_of_quiet (hc : c.Valid) (hstandard : c.Standard) {limit k : Nat}
    (hs : s.Admits e now c) (h : e.Holds c net d) (hk : k < limit)
    (hquiet : net.QuietAfter Expansion.react (e.instant now) k)
    (hearlier : ∀ j < k, ¬ net.QuietAfter Expansion.react (e.instant now) j) :
    s.stepsUntilQuiet limit d = .ok (some
      ((net.after Expansion.react (e.instant now) (k + 1)).writeBack c, k + 1)) := by
  induction limit generalizing s net d k with
  | zero => exact absurd hk (Nat.not_lt_zero k)
  | succ limit ih =>
    obtain ⟨r, s', hstep, hs', hchanged, hcircuit, hholds⟩ := step_of_holds hc hstandard hs h
    rw [stepsUntilQuiet, hstep]
    dsimp only
    cases k with
    | zero =>
      rw [if_neg (ne_true_of_eq_false (hchanged.mpr hquiet)), hcircuit]
    | succ k =>
      have hrestless : r.info.changed = true := by
        rw [← Bool.not_eq_false, hchanged]
        exact hearlier 0 (Nat.succ_pos k)
      rw [if_pos hrestless, ih hs' hholds (Nat.lt_of_succ_lt_succ hk) (quietAfter_succ.mpr hquiet)
        fun j hj hq => hearlier (j + 1) (Nat.succ_lt_succ hj) (quietAfter_succ.mp hq), after_delayed]
      rfl

/-- **Without a quiet pass every step changes something.** -/
theorem stepsUntilQuiet_of_restless (hc : c.Valid) (hstandard : c.Standard) {limit : Nat}
    (hs : s.Admits e now c) (h : e.Holds c net d)
    (hrestless : ∀ j < limit, ¬ net.QuietAfter Expansion.react (e.instant now) j) :
    s.stepsUntilQuiet limit d = .ok none := by
  induction limit generalizing s net d with
  | zero => rfl
  | succ limit ih =>
    obtain ⟨r, s', hstep, hs', hchanged, -, hholds⟩ := step_of_holds hc hstandard hs h
    have hfirst : r.info.changed = true := by
      rw [← Bool.not_eq_false, hchanged]
      exact hrestless 0 (Nat.succ_pos limit)
    rw [stepsUntilQuiet, hstep]
    dsimp only
    rw [if_pos hfirst, ih hs' hholds fun j hj hq =>
      hrestless (j + 1) (Nat.succ_lt_succ hj) (quietAfter_succ.mp hq)]
    rfl

/-! ## 2. Settling -/

/-- A circuit that is refused neither settles nor steps. -/
theorem settle_of_large (hcheck : c.check = [])
    (hsize : s.config.gateLimit < (s.evaluator.assemble c).size) (limit : Nat) :
    (∀ r, (s.settle c).1 ≠ .ok r) ∧ (s.settle c).1 ≠ .error (.oscillation limit) ∧
      ∀ d k, s.stepsUntilQuiet limit c ≠ .ok (some (d, k)) := by
  have hstart := start_of_large hcheck hsize
  refine ⟨fun r h => ?_, fun h => ?_, fun d k h => ?_⟩
  · rw [settle, call_of_refused hstart] at h
    cases h
  · rw [settle, call_of_refused hstart] at h
    cases h
  · cases limit with
    | zero => cases h
    | succ limit =>
      rw [stepsUntilQuiet, step, call_of_refused hstart] at h
      cases h

/-- A circuit that is accepted settles in as many steps as it takes until nothing changes, or neither
    settles nor stops changing. -/
theorem settle_of_accepted (hc : c.Valid) (hstandard : c.Standard) (htime : s.time = .fixed now)
    (hsize : (s.evaluator.assemble c).size ≤ s.config.gateLimit) :
    (∃ r, (s.settle c).1 = .ok r ∧ s.stepsUntilQuiet s.config.settleLimit c =
      .ok (some (r.circuit, r.info.passes))) ∨
    ((s.settle c).1 = .error (.oscillation s.config.settleLimit) ∧
      (∃ accepted, s.start c = .ok accepted) ∧
      s.stepsUntilQuiet s.config.settleLimit c = .ok none) := by
  have hstart : s.start c = .ok (s.callOf c, { s with time := s.time.read.2 }) :=
    start_eq_ok_iff.mpr ⟨Circuit.check_eq_nil_iff.mpr hc, hsize, rfl, rfl⟩
  have hnow : (s.callOf c).instant = s.evaluator.instant now := by
    rw [callOf, htime]
    rfl
  have hadmits : s.Admits s.evaluator now c := ⟨rfl, htime, hsize⟩
  have hholds : s.evaluator.Holds c (s.evaluator.assemble c) c := Evaluator.holds_assemble hc
  rcases Settling.first_quiet Expansion.react (s.evaluator.instant now) (s.evaluator.assemble c)
    s.config.settleLimit with ⟨k, hk, hquiet, hearlier⟩ | hrestless
  · obtain ⟨r, hr, hpasses, hcircuit⟩ :=
      settle_of_quiet hstart hk (hnow ▸ hquiet) (hnow ▸ hearlier)
    refine .inl ⟨r, hr, ?_⟩
    rw [stepsUntilQuiet_of_quiet hc hstandard hadmits hholds hk hquiet hearlier, hpasses, hcircuit,
      hnow]
    rfl
  · exact .inr ⟨settle_of_restless hstart (hnow ▸ hrestless), ⟨_, hstart⟩,
      stepsUntilQuiet_of_restless hc hstandard hadmits hholds hrestless⟩

/-- **Settling is stepping until nothing changes.** It fails to settle if the circuit is accepted and
    each of as many steps as are allowed changes something. -/
theorem settle_iff_steps (hc : c.Valid) (hstandard : c.Standard) (htime : s.time = .fixed now) :
    (∀ d k, (∃ r, (s.settle c).1 = .ok r ∧ r.circuit = d ∧ r.info.passes = k) ↔
      s.stepsUntilQuiet s.config.settleLimit c = .ok (some (d, k))) ∧
    ((s.settle c).1 = .error (.oscillation s.config.settleLimit) ↔
      (∃ accepted, s.start c = .ok accepted) ∧
        s.stepsUntilQuiet s.config.settleLimit c = .ok none) := by
  by_cases hsize : (s.evaluator.assemble c).size ≤ s.config.gateLimit
  · rcases settle_of_accepted hc hstandard htime hsize with
      ⟨r, hr, hsteps⟩ | ⟨hr, haccepted, hsteps⟩
    · rw [hr, hsteps]
      refine ⟨fun d k => ⟨?_, ?_⟩, fun h => (by cases h), fun h => (by cases h.2)⟩
      · rintro ⟨r, hr, rfl, rfl⟩
        rw [Except.ok.inj hr]
      · intro h
        obtain ⟨rfl, rfl⟩ := Prod.ext_iff.mp (Option.some.inj (Except.ok.inj h))
        exact ⟨r, rfl, rfl, rfl⟩
    · rw [hr, hsteps]
      refine ⟨fun d k => ⟨?_, fun h => (by cases h)⟩, fun _ => ⟨haccepted, rfl⟩, fun _ => rfl⟩
      rintro ⟨r, hr, -⟩
      cases hr
  · have hcheck := Circuit.check_eq_nil_iff.mpr hc
    have hlarge := Nat.lt_of_not_le hsize
    obtain ⟨hsettled, hunsettled, hsteps⟩ :=
      settle_of_large hcheck hlarge s.config.settleLimit
    refine ⟨fun d k => ⟨?_, fun h => absurd h (hsteps d k)⟩, fun h => absurd h hunsettled, ?_⟩
    · rintro ⟨r, hr, -⟩
      exact absurd hr (hsettled r)
    · rintro ⟨⟨accepted, h⟩, -⟩
      rw [start_of_large hcheck hlarge] at h
      cases h

end Service

/-! ## 3. No state outside the circuit -/

/-- **A simulation has no state but the circuit.** Passes of both modes made one call at a time tell
    the same about changes, warn alike and return the same circuit as when they are all made on one
    netlist; and settling a circuit is stepping it until a step changes nothing. -/
theorem stateless {c : Circuit Definition} (hcheck : c.check = []) (hstandard : c.Standard) :
    (∀ (e : Evaluator) (ps : List Pass),
      ((∃ now, .immediate now ∈ ps) → ¬ c.CombinationalCycle) →
      ∃ net whole calls, c.netlist e.deepest = .ok net ∧ e.runOn? ps net = some whole ∧
        e.callEach? ps c = some calls ∧ calls.changed = whole.changed ∧
        calls.warnings = whole.warnings ∧ calls.state.netlist e.deepest = .ok whole.state ∧
        (ps ≠ [] → calls.state = whole.state.writeBack c)) ∧
    ∀ (s : Service) (now : UInt64), s.time = .fixed now →
      (∀ d k, (∃ r, (s.settle c).1 = .ok r ∧ r.circuit = d ∧ r.info.passes = k) ↔
        s.stepsUntilQuiet s.config.settleLimit c = .ok (some (d, k))) ∧
      ((s.settle c).1 = .error (.oscillation s.config.settleLimit) ↔
        (∃ accepted, s.start c = .ok accepted) ∧
          s.stepsUntilQuiet s.config.settleLimit c = .ok none) := by
  have hc := Circuit.check_eq_nil_iff.mp hcheck
  refine ⟨fun e ps hcycle => ?_, fun s now htime => Service.settle_iff_steps hc hstandard htime⟩
  obtain ⟨whole, calls, hwhole, hcalls, hchanged, hwarnings, hholds, hcircuit⟩ :=
    Evaluator.callEach_of_holds hc hstandard (Evaluator.holds_assemble hc) ps hcycle
  exact ⟨_, whole, calls, Netlist.ofCircuit_of_valid _ hc, hwhole, hcalls, hchanged, hwarnings,
    hholds.netlist, hcircuit⟩

/-- A latch is set in two steps, and the third one changes nothing. -/
theorem stateless_latch :
    (∃ whole calls, Evaluator.runOn? {} [.delayed 0, .immediate 1, .delayed 2]
        (Evaluator.assemble {} (Circuit.latch true false)) = some whole ∧
      Evaluator.callEach? {} [.delayed 0, .immediate 1, .delayed 2] (Circuit.latch true false) =
        some calls ∧
      calls.changed = [true, true, false] ∧ whole.changed = [true, true, false] ∧
      calls.state = whole.state.writeBack (Circuit.latch true false)) ∧
    ∃ r, (Service.settle { time := .fixed 0 } (Circuit.latch true false)).1 = .ok r ∧
      r.info.passes = 3 ∧
      Service.stepsUntilQuiet 50 { time := .fixed 0 } (Circuit.latch true false) =
        .ok (some (r.circuit, 3)) := by
  obtain ⟨hruns, hcalls⟩ := stateless (c := Circuit.latch true false) rfl (by decide)
  constructor
  · obtain ⟨net, whole, calls, hnet, hwhole, heach, hchanged, -, -, hcircuit⟩ :=
      hruns {} [.delayed 0, .immediate 1, .delayed 2]
        fun _ => Circuit.not_combinationalCycle_of_forward (by decide)
    obtain rfl := Except.ok.inj hnet
    have htold : calls.changed = [true, true, false] := by
      obtain rfl := Option.some.inj heach
      rfl
    exact ⟨whole, calls, hwhole, heach, htold, hchanged ▸ htold, hcircuit (List.cons_ne_nil _ _)⟩
  · have hsettles : ∃ r, (Service.settle { time := .fixed 0 } (Circuit.latch true false)).1 =
        .ok r ∧ r.info.passes = 3 := ⟨_, rfl, rfl⟩
    obtain ⟨r, hr, hpasses⟩ := hsettles
    have hsteps := ((hcalls { time := .fixed 0 } 0 rfl).1 r.circuit 3).mp ⟨r, hr, rfl, hpasses⟩
    exact ⟨r, hr, hpasses, hsteps⟩

/-- Without a pass the wires of an adder come back as they are, or as its gates drive them; without a
    step it does not settle, but for another reason if it is too large. -/
theorem halfAdder_unstepped :
    (Circuit.halfAdder true true).check = [] ∧ (Circuit.halfAdder true true).Standard ∧
    (∃ net whole calls, (Circuit.halfAdder true true).netlist Definition.defaultDepth = .ok net ∧
      Evaluator.runOn? {} [] net = some whole ∧
      Evaluator.callEach? {} [] (Circuit.halfAdder true true) = some calls ∧
      calls.state ≠ whole.state.writeBack (Circuit.halfAdder true true)) ∧
    Service.stepsUntilQuiet 0 { config := { settleLimit := 0, gateLimit := 0 }, time := .fixed 0 }
      (Circuit.halfAdder true true) = .ok none ∧
    (Service.settle { config := { settleLimit := 0, gateLimit := 0 }, time := .fixed 0 }
      (Circuit.halfAdder true true)).1 = .error (.tooLarge 6 0) := by
  refine ⟨rfl, by decide, ⟨_, _, _, rfl, rfl, rfl, fun h => ?_⟩, rfl, rfl⟩
  have hactive := congrArg (fun c => c.wires.map (·.isActive)) h
  exact absurd hactive (by decide)

end LogicSim
