import LogicSim.Proofs.Evaluation.Reseeding

/-!
# Passes in several calls

The passes of a simulation can be made one call at a time, each of them building a netlist from the
circuit that the call before returned, or all of them on one netlist that is written back at the end.
Both come to the same (`Evaluator.callEach_of_holds`), because between two calls the circuit holds
the netlist: it is read back from the circuit, and what is written into the circuit later does not
depend on what was written before (`Evaluator.Holds`).
-/

namespace LogicSim

open Netlist

/-! ## 1. Runs of passes -/

/-- A pass in one of the two modes, at a time. -/
inductive Pass where
  | immediate (now : UInt64)
  | delayed (now : UInt64)
  deriving DecidableEq, Repr

/-- Where several passes lead, with what each of them told about changes and all their warnings. -/
structure Trace (α : Type) where
  state : α
  changed : List Bool := []
  warnings : List Warning := []

/-- A trace with a pass before it. -/
def Trace.after {α : Type} (sweep : Sweep Expansion) (t : Trace α) : Trace α :=
  { t with changed := sweep.changed :: t.changed, warnings := sweep.warnings ++ t.warnings }

namespace Evaluator

/-- One pass over a netlist. An immediate one is possible only if there is a schedule. -/
def sweep? (e : Evaluator) (net : Netlist Expansion) : Pass → Option (Sweep Expansion)
  | .immediate now => net.dependencies.schedule.toOption.map fun schedule =>
      net.immediate Expansion.react schedule (e.instant now)
  | .delayed now => some (net.delayed Expansion.react (e.instant now))

/-- Several passes over one netlist. -/
def runOn? (e : Evaluator) : List Pass → Netlist Expansion → Option (Trace (Netlist Expansion))
  | [], net => some { state := net }
  | p :: ps, net => do
    let sweep ← e.sweep? net p
    return (← e.runOn? ps sweep.netlist).after sweep

/-- Several passes, each in a call of its own: the netlist is built from the circuit, and written
    back after the pass. -/
def callEach? (e : Evaluator) : List Pass → Circuit Definition → Option (Trace (Circuit Definition))
  | [], c => some { state := c }
  | p :: ps, c => do
    let net ← (c.netlist e.deepest).toOption
    let sweep ← e.sweep? net p
    return (← e.callEach? ps (sweep.netlist.writeBack c)).after sweep

/-- A call in the mode of a pass. -/
def evaluate (e : Evaluator) (c : Circuit Definition) : Pass → Evaluation
  | .immediate now => e.immediate c now
  | .delayed now => e.delayed c now

variable {e : Evaluator} {c d : Circuit Definition} {net : Netlist Expansion}

/-- **A call of its own is an evaluation.** -/
theorem evaluate_eq {p : Pass} {sweep : Sweep Expansion} (hnet : c.netlist e.deepest = .ok net)
    (hsweep : e.sweep? net p = some sweep) :
    (e.evaluate c p).succeeded = true ∧ (e.evaluate c p).circuit = sweep.netlist.writeBack c ∧
      (e.evaluate c p).warnings = sweep.warnings ∧
      ∀ changed, (e.evaluate c p).changed = some changed → changed = sweep.changed := by
  cases p with
  | immediate now =>
    rw [sweep?] at hsweep
    cases hs : net.dependencies.schedule with
    | error cycle => rw [hs] at hsweep; cases hsweep
    | ok schedule =>
      rw [hs] at hsweep
      obtain rfl := Option.some.inj hsweep
      have hfinish : e.evaluate c (.immediate now) = finish c
          (net.immediate Expansion.react schedule (e.instant now)) none := by
        rw [evaluate, immediate, hnet]
        dsimp only
        rw [hs]
      rw [hfinish]
      exact ⟨rfl, rfl, rfl, fun changed h => by cases h⟩
  | delayed now =>
    obtain rfl := Option.some.inj hsweep
    have hfinish : e.evaluate c (.delayed now) = finish c
        (net.delayed Expansion.react (e.instant now))
        (some (net.delayed Expansion.react (e.instant now)).changed) := by
      rw [evaluate, delayed, hnet]
    rw [hfinish]
    exact ⟨rfl, rfl, rfl, fun changed h => (Option.some.inj h).symm⟩

/-! ## 2. Between two calls -/

/-- **A circuit holds a netlist** of the circuit that a simulation began with: the netlist is read
    back from it, and what is written into it does not depend on what was there. -/
structure Holds (e : Evaluator) (c : Circuit Definition) (net : Netlist Expansion)
    (d : Circuit Definition) : Prop where
  valid : d.Valid
  read : e.assemble d = net
  carried : net.Carried (Definition.compile e.deepest e.deepest) c
  written : ∀ net' : Netlist Expansion, net'.Carried (Definition.compile e.deepest e.deepest) c →
    net'.writeBack d = net'.writeBack c

/-- A circuit holds its own netlist. -/
theorem holds_assemble (hc : c.Valid) : e.Holds c (e.assemble c) c :=
  ⟨hc, rfl, carried_assemble _ c, fun _ _ => rfl⟩

/-- **A circuit holds what is written into it.** -/
theorem holds_writeBack (hc : c.Valid) (hstandard : c.Standard)
    (hcarried : net.Carried (Definition.compile e.deepest e.deepest) c) :
    e.Holds c net (net.writeBack c) :=
  ⟨hstandard.valid_writeBack hc hcarried.shape, hcarried.assemble_writeBack, hcarried,
    fun _ h => hcarried.kept.writeBack_writeBack h.kept⟩

theorem Holds.netlist (h : e.Holds c net d) : d.netlist e.deepest = .ok net := by
  rw [← h.read]
  exact ofCircuit_of_valid _ h.valid

/-- A pass over a netlist that a circuit holds is possible, unless a cycle stands in the way. -/
theorem Holds.exists_sweep (h : e.Holds c net d) (hc : c.Valid) (hstandard : c.Standard) {p : Pass}
    (hcycle : (∃ now, p = .immediate now) → ¬ c.CombinationalCycle) :
    ∃ sweep, e.sweep? net p = some sweep ∧
      sweep.netlist.Carried (Definition.compile e.deepest e.deepest) c := by
  cases p with
  | immediate now =>
    obtain ⟨schedule, hs⟩ := (Netlist.schedule_iff hc h.carried.shape).mpr (hcycle ⟨now, rfl⟩)
    have hsweep : e.sweep? net (.immediate now) =
        some (net.immediate Expansion.react schedule (e.instant now)) := by
      rw [sweep?, hs]
      rfl
    exact ⟨_, hsweep, h.carried.immediate hstandard schedule⟩
  | delayed now => exact ⟨_, rfl, h.carried.delayed hstandard⟩

/-- **One call at a time or all on one netlist**: the same word on changes, the same warnings and the
    same circuit. -/
theorem callEach_of_holds (hc : c.Valid) (hstandard : c.Standard) (h : e.Holds c net d)
    (ps : List Pass) (hcycle : (∃ now, .immediate now ∈ ps) → ¬ c.CombinationalCycle) :
    ∃ whole calls, e.runOn? ps net = some whole ∧ e.callEach? ps d = some calls ∧
      calls.changed = whole.changed ∧ calls.warnings = whole.warnings ∧
      e.Holds c whole.state calls.state ∧
      (ps ≠ [] → calls.state = whole.state.writeBack c) := by
  induction ps generalizing net d with
  | nil => exact ⟨_, _, rfl, rfl, rfl, rfl, h, fun hne => absurd rfl hne⟩
  | cons p ps ih =>
    obtain ⟨sweep, hsweep, hcarried⟩ := h.exists_sweep hc hstandard (p := p)
      fun ⟨now, hp⟩ => hcycle ⟨now, hp ▸ List.mem_cons_self⟩
    have hnext : e.Holds c sweep.netlist (sweep.netlist.writeBack d) := by
      rw [h.written _ hcarried]
      exact holds_writeBack hc hstandard hcarried
    obtain ⟨whole, calls, hwhole, hcalls, hchanged, hwarnings, hholds, hcircuit⟩ :=
      ih hnext fun ⟨now, hmem⟩ => hcycle ⟨now, List.mem_cons_of_mem p hmem⟩
    refine ⟨whole.after sweep, calls.after sweep, ?_, ?_, ?_, ?_, hholds, fun _ => ?_⟩
    · rw [runOn?, hsweep]
      simp only [Option.bind_eq_bind, Option.bind_some, hwhole]
      rfl
    · rw [callEach?, h.netlist]
      simp only [Except.toOption, Option.bind_eq_bind, Option.bind_some, hsweep, hcalls]
      rfl
    · exact congrArg (sweep.changed :: ·) hchanged
    · exact congrArg (sweep.warnings ++ ·) hwarnings
    · cases ps with
      | cons p ps => exact hcircuit (List.cons_ne_nil p ps)
      | nil =>
        obtain rfl := Option.some.inj hwhole
        obtain rfl := Option.some.inj hcalls
        exact h.written _ hcarried

end Evaluator

end LogicSim
