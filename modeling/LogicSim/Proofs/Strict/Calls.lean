import LogicSim.Circuit.Samples
import LogicSim.Proofs.Netlist.Transcription
import LogicSim.Proofs.Service.Phases
import LogicSim.Proofs.Strict.Compilation

/-!
# Strict evaluations and calls

The strict counterparts of evaluating a circuit and of the calls of a service: checking and building,
passes, the problem of a cycle, forcing a clock, comparing flip-flops, and returning signals to the
circuit.

* `Evaluator.strictImmediate_eq`, `Evaluator.strictDelayed_eq` -- passes over any circuit are in
  bounds;
* `Service.strictEvaluate_eq`, `Service.strictStep_eq`, `Service.strictSettle_eq`,
  `Service.strictCycle_eq` -- so are the calls of a service;
* `Service.calls_in_bounds` -- everything together, with bounds for what is counted.
-/

namespace LogicSim

/-! ## 1. Returning to the circuit -/

variable {ε δ : Type}

namespace Netlist

/-- A circuit with the signals and memory of its netlist. Wire after wire is changed in place, as the
    connections come. -/
def strictWriteBack (net : Netlist ε) (c : Circuit δ) : Option (Circuit δ) := do
  let wires ← net.connections.foldlM
    (fun wires k =>
      if k.wire < wires.length then do
        let n ← net.nodes[k.source]?
        let isActive := (n.outputs[k.sourcePin]?).getD false
        return wires.modify k.wire fun w => { w with isActive }
      else return wires)
    c.wires
  return { net.writeBack c with wires }

/-- The wires when the connections of a list have been written back. -/
def showAll (net : Netlist ε) (connections : List Connection) (wires : List Wire) : List Wire :=
  connections.foldl (fun wires k => wires.modify k.wire fun w =>
    { w with isActive := net.outputAt k.source k.sourcePin }) wires

/-- **Each wire shows the signal of its connection**, if no wire has two. -/
theorem getElem?_showAll (net : Netlist ε) {connections : List Connection}
    (hnodup : (connections.map (·.wire)).Nodup) (wires : List Wire) (i : Nat) :
    (net.showAll connections wires)[i]? = wires[i]?.map fun w =>
      (connections.find? (·.wire = i)).elim w fun k =>
        { w with isActive := net.outputAt k.source k.sourcePin } := by
  induction connections generalizing wires with
  | nil => simp [showAll]
  | cons k rest ih =>
    rw [List.map_cons, List.nodup_cons] at hnodup
    rw [showAll, List.foldl_cons, ← showAll, ih hnodup.2, List.getElem?_modify]
    cases wires[i]? with
    | none => rfl
    | some w =>
      rw [Option.map_eq_map, Option.map_some, Option.map_some, Option.map_some]
      by_cases hk : k.wire = i
      · have hrest : rest.find? (·.wire = i) = none := by
          refine List.find?_eq_none.mpr fun l hl hwire => hnodup.1 ?_
          rw [hk, ← of_decide_eq_true hwire]
          exact List.mem_map_of_mem hl
        have hfirst : (k :: rest).find? (·.wire = i) = some k :=
          List.find?_cons_of_pos (decide_eq_true hk)
        rw [if_pos hk, hfirst, hrest]
        rfl
      · have hlater : (k :: rest).find? (·.wire = i) = rest.find? (·.wire = i) :=
          List.find?_cons_of_neg (by simpa using hk)
        rw [if_neg hk, hlater]

/-- **Signals return to the circuit in bounds.** -/
theorem strictWriteBack_eq {net : Netlist ε} (h : net.WellFormed)
    (hnodup : (net.connections.map (·.wire)).Nodup) (c : Circuit δ) :
    net.strictWriteBack c = some (net.writeBack c) := by
  have hfold : net.connections.foldlM (fun wires k =>
      if k.wire < wires.length then do
        let n ← net.nodes[k.source]?
        let isActive := (n.outputs[k.sourcePin]?).getD false
        return wires.modify k.wire fun w => { w with isActive }
      else return wires) c.wires = some (net.showAll net.connections c.wires) := by
    refine foldlM_eq_some (P := fun _ => True) (fun wires _ k hk => ⟨?_, trivial⟩) trivial
    split
    · rw [outputAt, List.getElem?_eq_getElem (h.source_lt k hk)]
      rfl
    next hlt =>
      rw [List.modify_eq_self (Nat.le_of_not_lt hlt)]
      rfl
  have hwires : net.showAll net.connections c.wires = (net.writeBack c).wires := by
    refine List.ext_getElem? fun i => ?_
    rw [net.getElem?_showAll hnodup, writeBack, List.getElem?_mapIdx]
    cases c.wires[i]? with
    | none => rfl
    | some w =>
      refine congrArg some ?_
      cases net.connections.find? (·.wire = i) <;> rfl
  rw [strictWriteBack, hfold, hwires]
  rfl

/-- The problem of a cycle of nodes. -/
def strictCycleProblem (net : Netlist ε) (cycle : List Nat) : Option Problem := do
  let ids ← cycle.mapM fun i => net.nodes[i]?.map (·.id)
  return .circularDependency ids

/-- Forces the first output of a node, or releases it. -/
def strictForce (net : Netlist ε) (node : Nat) (value : Option Bool) : Option (Netlist ε) :=
  if node < net.nodes.length then some (net.force node value) else none

/-- **The problem of a cycle is told in bounds.** -/
theorem strictCycleProblem_eq {net : Netlist ε} {cycle : List Nat}
    (h : net.dependencies.schedule = .error cycle) :
    cycle ≠ [] ∧ net.strictCycleProblem cycle = some (net.cycleProblem cycle) := by
  have horder : net.dependencies.order = .error cycle := by
    rw [Dependencies.schedule] at h
    cases ho : net.dependencies.order with
    | ok order =>
      rw [ho] at h
      cases h
    | error cycle' =>
      rw [ho] at h
      exact congrArg _ (Except.error.inj h)
  have hloop := Dependencies.isLoop_of_order horder
  refine ⟨?_, ?_⟩
  · rintro rfl
    exact absurd hloop.long (by decide)
  · have hids := mapM_eq_filterMap (f := fun i => net.nodes[i]?.map (·.id)) (l := cycle)
      fun i hi => by
        have hlt : i < net.nodes.length := net.size_dependencies ▸ hloop.lt i hi
        rw [Option.isSome_map, List.getElem?_eq_getElem hlt]
        rfl
    rw [strictCycleProblem, hids]
    rfl

end Netlist

/-- **The signals of a circuit return to it in bounds**, after any number of passes. -/
theorem Circuit.strictWriteBack_eq {deepest : Nat} {c : Circuit Definition}
    {net net' : Netlist Expansion} (hnet : c.netlist deepest = .ok net)
    (hshape : net'.shape = net.shape) : net'.strictWriteBack c = some (net'.writeBack c) := by
  obtain ⟨hc, rfl⟩ := Netlist.valid_of_ofCircuit hnet
  refine Netlist.strictWriteBack_eq ((Netlist.wellFormed_assemble hc).of_shape hshape) ?_ c
  rw [Netlist.connections_of_shape hshape]
  exact Netlist.nodup_wires_assemble hc

/-! ## 2. Evaluating a circuit -/

namespace Evaluator

/-- The result of a pass that took place. -/
def strictFinish (c : Circuit Definition) (s : Sweep Expansion) (changed : Option Bool) :
    Option Evaluation := do
  let circuit ← s.netlist.strictWriteBack c
  return { circuit, warnings := s.warnings, changed }

/-- An immediate pass. A cycle is told with its length, which does not count its first node twice. -/
def strictImmediate (e : Evaluator) (c : Circuit Definition) (now : UInt64) : Option Evaluation := do
  match ← (c.strictNetlist e.deepest).run with
  | .error problems => return { circuit := c, problems }
  | .ok net =>
    let dependencies ← net.strictDependencies
    match ← dependencies.strictSchedule with
    | .error cycle =>
      let _ ← strictDropLast cycle
      let problem ← net.strictCycleProblem cycle
      return { circuit := c, problems := [problem], warnings := [cycleWarning] }
    | .ok schedule =>
      let sweep ← net.strictImmediate (Expansion.strictReact e.deepest) schedule (e.instant now)
      strictFinish c sweep none

/-- A delayed pass. -/
def strictDelayed (e : Evaluator) (c : Circuit Definition) (now : UInt64) : Option Evaluation := do
  match ← (c.strictNetlist e.deepest).run with
  | .error problems => return { circuit := c, problems }
  | .ok net =>
    let sweep ← net.strictDelayed (Expansion.strictReact e.deepest) (e.instant now)
    strictFinish c sweep (some sweep.changed)

theorem strictFinish_eq {deepest : Nat} {c : Circuit Definition} {net : Netlist Expansion}
    (hnet : c.netlist deepest = .ok net) {s : Sweep Expansion} (hshape : s.netlist.shape = net.shape)
    (changed : Option Bool) : strictFinish c s changed = some (finish c s changed) := by
  rw [strictFinish, Circuit.strictWriteBack_eq hnet hshape]
  rfl

/-- **An immediate pass over any circuit is in bounds.** -/
theorem strictImmediate_eq (e : Evaluator) (c : Circuit Definition) (now : UInt64) :
    e.strictImmediate c now = some (e.immediate c now) := by
  rw [strictImmediate, immediate, c.strictNetlist_eq, run_inBounds, some_bind]
  cases hnet : c.netlist e.deepest with
  | error problems => rfl
  | ok net =>
    have hrunnable := Circuit.runnable_netlist hnet
    obtain ⟨hdependencies, hbounded⟩ := hrunnable.wellFormed.strictDependencies_eq
    dsimp only
    rw [hdependencies, some_bind, hbounded.strictSchedule_eq, some_bind]
    cases hschedule : net.dependencies.schedule with
    | error cycle =>
      obtain ⟨hne, hproblem⟩ := Netlist.strictCycleProblem_eq hschedule
      dsimp only
      rw [strictDropLast, if_neg hne, some_bind, hproblem]
      rfl
    | ok schedule =>
      have hfits := net.size_dependencies ▸ hbounded.fits hschedule
      dsimp only
      rw [hrunnable.strictImmediate_eq hfits, some_bind]
      exact strictFinish_eq hnet (Netlist.shape_immediate ..) none

/-- **A delayed pass over any circuit is in bounds.** -/
theorem strictDelayed_eq (e : Evaluator) (c : Circuit Definition) (now : UInt64) :
    e.strictDelayed c now = some (e.delayed c now) := by
  rw [strictDelayed, delayed, c.strictNetlist_eq, run_inBounds, some_bind]
  cases hnet : c.netlist e.deepest with
  | error problems => rfl
  | ok net =>
    dsimp only
    rw [(Circuit.runnable_netlist hnet).strictDelayed_eq, some_bind]
    exact strictFinish_eq hnet (Netlist.shape_delayed net) _

end Evaluator

/-! ## 3. Calls of a service -/

namespace Service

/-- Accepts a circuit that is valid and not too large, and reads the time. -/
def strictStart (s : Service) (c : Circuit Definition) : ExceptT Failure Option (Call × Service) := do
  match ← (c.strictNetlist s.config.deepest).run with
  | .error problems => throw (.invalidCircuit problems)
  | .ok net =>
    let size := net.size
    if size > s.config.gateLimit then throw (.tooLarge size s.config.gateLimit)
    else
      let (now, time) := s.time.read
      return (⟨⟨now, s.config.settleLimit⟩, { netlist := net }⟩, { s with time })

/-- Ends a call: the state goes back to the circuit, and the call is counted. -/
def strictFinish (s : Service) (c : Circuit Definition) (state : Settling Expansion)
    (strategy : Strategy) (changed : Bool) : Option (Response × Service) := do
  let circuit ← state.netlist.strictWriteBack c
  let (response, s) := s.finish c state strategy changed
  return ({ response with circuit }, s)

/-- Carries out a call if the circuit is accepted. -/
def strictCall {α : Type} (s : Service) (c : Circuit Definition)
    (body : Call → Service → ExceptT Failure Option (α × Service)) :
    Option (Except Failure α × Service) := do
  match ← (s.strictStart c).run with
  | .error failure => return (.error failure, s)
  | .ok (call, s) => match ← (body call s).run with
    | .error failure => return (.error failure, s)
    | .ok (a, s) => return (.ok a, s)

/-- One pass in the mode of the configuration. A schedule is looked for in every mode. -/
def strictEvaluate (s : Service) (c : Circuit Definition) :
    Option (Except Failure Response × Service) :=
  s.strictCall c fun call s => do
    let net := call.state.netlist
    let react := Expansion.strictReact s.config.deepest
    let dependencies ← net.strictDependencies
    let scheduled ← dependencies.strictSchedule
    let delayed : ExceptT Failure Option (Response × Service) := do
      let sweep ← net.strictDelayed react call.instant
      s.strictFinish c (ofSweep sweep) .delayed sweep.changed
    let immediate (schedule : Schedule) : ExceptT Failure Option (Response × Service) := do
      let sweep ← net.strictImmediate react schedule call.instant
      s.strictFinish c (ofSweep sweep) .immediate sweep.changed
    match s.config.strategy, scheduled with
    | .delayed, _ => delayed
    | .auto, .error _ => delayed
    | .auto, .ok schedule => immediate schedule
    | .immediate, .ok schedule => immediate schedule
    | .immediate, .error cycle =>
      let problem ← net.strictCycleProblem cycle
      throw (.strategyFailed Strategy.immediate.name [problem])

/-- One delayed pass. -/
def strictStep (s : Service) (c : Circuit Definition) : Option (Except Failure Response × Service) :=
  s.strictCall c fun call s => do
    let sweep ← call.state.netlist.strictDelayed (Expansion.strictReact s.config.deepest) call.instant
    s.strictFinish c (ofSweep sweep) .delayed sweep.changed

/-- Delayed passes until nothing changes. -/
def strictSettle (s : Service) (c : Circuit Definition) :
    Option (Except Failure Response × Service) :=
  s.strictCall c fun call s => do
    let state ← Settling.strictRun (Expansion.strictReact s.config.deepest) call.instant
      s.config.settleLimit call.state
    if state.settled then s.strictFinish c state .delayed false
    else throw (.oscillation s.config.settleLimit)

variable {s : Service} {c : Circuit Definition}

theorem strictStart_eq (s : Service) (c : Circuit Definition) :
    s.strictStart c = inBounds (s.start c) := by
  rw [strictStart, start, c.strictNetlist_eq, run_inBounds, liftM_some, pure_bind]
  cases c.netlist s.config.deepest with
  | error problems => rfl
  | ok net =>
    dsimp only
    split <;> rfl

/-- **A call is in bounds if it is once its circuit has been accepted.** -/
theorem strictCall_eq {α : Type} {strict : Call → Service → ExceptT Failure Option (α × Service)}
    {body : Call → Service → Except Failure (α × Service)}
    (h : ∀ call s', s.start c = .ok (call, s') → strict call s' = inBounds (body call s')) :
    s.strictCall c strict = some (s.call c body) := by
  rw [strictCall, Service.call, strictStart_eq, run_inBounds, some_bind]
  cases hstart : s.start c with
  | error failure => rfl
  | ok result =>
    obtain ⟨call, s'⟩ := result
    dsimp only
    rw [h call s' hstart, run_inBounds, some_bind]
    cases body call s' <;> rfl

/-- **A call ends in bounds**, if its passes have kept the shape of the netlist. -/
theorem strictFinish_eq {deepest : Nat} {net : Netlist Expansion}
    (hnet : c.netlist deepest = .ok net) (s : Service) {state : Settling Expansion}
    (hshape : state.netlist.shape = net.shape) (strategy : Strategy) (changed : Bool) :
    s.strictFinish c state strategy changed = some (s.finish c state strategy changed) := by
  rw [strictFinish, Circuit.strictWriteBack_eq hnet hshape]
  rfl

/-- **An accepted call starts with a netlist that can be run in bounds.** -/
theorem runnable_of_start {s' : Service} {call : Call} (h : s.start c = .ok (call, s')) :
    c.netlist s'.config.deepest = .ok call.state.netlist ∧
      call.state.netlist.Runnable (Expansion.strictReact s'.config.deepest) Expansion.react := by
  have hnet := netlist_of_start h
  obtain ⟨-, -, rfl, rfl⟩ := start_eq_ok_iff.mp h
  exact ⟨hnet, Circuit.runnable_netlist hnet⟩

/-- **One pass is in bounds**, in every mode. -/
theorem strictEvaluate_eq (s : Service) (c : Circuit Definition) :
    s.strictEvaluate c = some (s.evaluate c) := by
  refine strictCall_eq fun call s' hstart => ?_
  obtain ⟨hnet, hrunnable⟩ := runnable_of_start hstart
  obtain ⟨hdependencies, hbounded⟩ := hrunnable.wellFormed.strictDependencies_eq
  dsimp only
  rw [hdependencies, liftM_some, pure_bind, hbounded.strictSchedule_eq, liftM_some, pure_bind,
    hrunnable.strictDelayed_eq, liftM_some, pure_bind,
    strictFinish_eq hnet s' (Netlist.shape_delayed call.state.netlist)]
  cases hschedule : call.state.netlist.dependencies.schedule with
  | error cycle =>
    cases s'.config.strategy with
    | auto | delayed => rfl
    | immediate =>
      dsimp only
      rw [(Netlist.strictCycleProblem_eq hschedule).2]
      rfl
  | ok schedule =>
    have hfits := call.state.netlist.size_dependencies ▸ hbounded.fits hschedule
    have himmediate := hrunnable.strictImmediate_eq hfits call.instant
    cases s'.config.strategy with
    | delayed => rfl
    | auto | immediate =>
      dsimp only
      rw [himmediate, liftM_some, pure_bind, strictFinish_eq hnet s' (Netlist.shape_immediate ..)]
      rfl

/-- **A step is in bounds.** -/
theorem strictStep_eq (s : Service) (c : Circuit Definition) : s.strictStep c = some (s.step c) := by
  refine strictCall_eq fun call s' hstart => ?_
  obtain ⟨hnet, hrunnable⟩ := runnable_of_start hstart
  rw [hrunnable.strictDelayed_eq, liftM_some, pure_bind,
    strictFinish_eq hnet s' (Netlist.shape_delayed call.state.netlist)]
  rfl

/-- **Settling is in bounds**, whatever the number of passes allowed. -/
theorem strictSettle_eq (s : Service) (c : Circuit Definition) :
    s.strictSettle c = some (s.settle c) := by
  refine strictCall_eq fun call s' hstart => ?_
  obtain ⟨hnet, hrunnable⟩ := runnable_of_start hstart
  rw [Settling.strictRun_eq call.instant s'.config.settleLimit hrunnable, liftM_some, pure_bind]
  dsimp only
  split
  · rw [strictFinish_eq hnet s' (Settling.shape_run ..)]
    rfl
  · rfl

end Service

/-! ## 4. Clock cycles -/

namespace CycleRequest

/-- The node of the clock. -/
def strictNode? (r : CycleRequest) (net : Netlist Expansion) : Option (Option Nat) :=
  match net.index? r.clock with
  | none => some none
  | some i => do
    let n ← net.nodes[i]?
    return match n.element with
      | .clock _ => some i
      | _ => none

/-- One phase of a cycle. -/
def strictPhase (r : CycleRequest) (react : Expansion → StrictReaction) (instant : Instant)
    (node : Nat) (s : Settling Expansion) (level : Bool) : Option (Settling Expansion) := do
  let net ← s.netlist.strictForce node (some level)
  let s ← Settling.strictRun react instant r.passLimit { s with netlist := net }
  return if s.settled then s else { s with warnings := s.warnings ++ [r.unsettledWarning level] }

/-- A cycle, after which the clock is released. -/
def strictDrive (r : CycleRequest) (react : Expansion → StrictReaction) (instant : Instant)
    (node : Nat) (s : Settling Expansion) : Option (Settling Expansion) := do
  let s ← levels.foldlM (r.strictPhase react instant node) s
  let net ← s.netlist.strictForce node none
  return { s with netlist := net }

/-- The nodes that are flip-flops, with their outputs. -/
def strictFlipFlops (net : Netlist Expansion) : Option (List (Nat × List Bool)) := do
  let flipFlops ← strictFilter (fun i => do return isFlipFlop (← net.nodes[i]?))
    (List.range net.nodes.length)
  flipFlops.mapM fun i => do return (i, (← net.nodes[i]?).outputs)

/-- Whether the outputs of any flip-flop differ between two states of a netlist. -/
def strictFlipFlopsDiffer (before after : Netlist Expansion) : Option Bool := do
  let flipFlops ← strictFlipFlops before
  flipFlops.anyM fun p => do return (← after.nodes[p.1]?).outputs != p.2

/-- **The clock is found in bounds**, and is a node. -/
theorem strictNode?_eq (r : CycleRequest) (net : Netlist Expansion) :
    r.strictNode? net = some (r.node? net) ∧ ∀ i, r.node? net = some i → i < net.nodes.length := by
  have hindex : ∀ i, net.index? r.clock = some i → i < net.nodes.length := fun i hi =>
    (List.findIdx?_eq_some_iff_findIdx_eq.mp hi).1
  refine ⟨?_, fun i hi => hindex i (Option.filter_eq_some_iff.mp hi).1⟩
  rw [strictNode?, node?]
  cases hi : net.index? r.clock with
  | none => rfl
  | some i =>
    obtain ⟨n, hn⟩ : ∃ n, net.nodes[i]? = some n := ⟨_, List.getElem?_eq_getElem (hindex i hi)⟩
    dsimp only
    rw [Option.filter_some, hn, some_bind]
    obtain ⟨id, element, inputs, outputs, forced⟩ := n
    cases element <;> rfl

section Phases

variable {r : CycleRequest} {strict : Expansion → StrictReaction} {node : Nat}
  {s : Settling Expansion}

/-- **A phase is in bounds.** -/
theorem strictPhase_eq (h : s.netlist.Runnable strict Expansion.react)
    (hnode : node < s.netlist.nodes.length) (instant : Instant) (level : Bool) :
    r.strictPhase strict instant node s level = some (r.phase instant node s level) := by
  have hforced := h.force node (some level)
  rw [strictPhase, Netlist.strictForce, if_pos hnode, some_bind,
    Settling.strictRun_eq (s := { s with netlist := s.netlist.force node (some level) }) instant
      r.passLimit hforced]
  rfl

/-- A phase keeps the shape of the netlist, which can still be run in bounds. -/
theorem runnable_phase (h : s.netlist.Runnable strict Expansion.react) (instant : Instant)
    (level : Bool) : (r.phase instant node s level).netlist.Runnable strict Expansion.react ∧
      (r.phase instant node s level).netlist.shape = s.netlist.shape := by
  rw [netlist_phase]
  exact ⟨Settling.runnable_run instant r.passLimit (h.force node (some level)),
    (Settling.shape_run ..).trans (Netlist.shape_force ..)⟩

/-- **A cycle is in bounds.** -/
theorem strictDrive_eq (h : s.netlist.Runnable strict Expansion.react)
    (hnode : node < s.netlist.nodes.length) (instant : Instant) :
    r.strictDrive strict instant node s = some (r.drive instant node s) ∧
      (r.drive instant node s).netlist.shape = s.netlist.shape := by
  have hkept : ∀ s' : Settling Expansion, s'.netlist.Runnable strict Expansion.react ∧
      s'.netlist.shape = s.netlist.shape → ∀ level,
        (r.phase instant node s' level).netlist.Runnable strict Expansion.react ∧
          (r.phase instant node s' level).netlist.shape = s.netlist.shape := fun s' hs' level =>
    (runnable_phase hs'.1 instant level).imp_right fun hshape => hshape.trans hs'.2
  have hphases : levels.foldlM (r.strictPhase strict instant node) s =
      some (levels.foldl (r.phase instant node) s) :=
    foldlM_eq_some (fun s' hs' level _ =>
      ⟨strictPhase_eq hs'.1 ((Netlist.length_of_shape hs'.2).symm ▸ hnode) instant level,
        hkept s' hs' level⟩) ⟨h, rfl⟩
  have hshape : (levels.foldl (r.phase instant node) s).netlist.shape = s.netlist.shape :=
    (List.foldlRecOn levels _ (motive := fun s' : Settling Expansion =>
      s'.netlist.Runnable strict Expansion.react ∧ s'.netlist.shape = s.netlist.shape) ⟨h, rfl⟩
      fun s' hs' level _ => hkept s' hs' level).2
  refine ⟨?_, (Netlist.shape_force ..).trans hshape⟩
  rw [strictDrive, hphases, some_bind, Netlist.strictForce,
    if_pos ((Netlist.length_of_shape hshape).symm ▸ hnode)]
  rfl

end Phases

/-- The flip-flops of a netlist are found in bounds. -/
theorem strictFlipFlops_eq (net : Netlist Expansion) : ∃ flipFlops,
    strictFlipFlops net = some flipFlops ∧ ∀ i outputs, (i, outputs) ∈ flipFlops ↔
      ∃ n, net.nodes[i]? = some n ∧ isFlipFlop n = true ∧ n.outputs = outputs := by
  have hget : ∀ i ∈ List.range net.nodes.length, ∃ n, net.nodes[i]? = some n := fun i hi =>
    ⟨_, List.getElem?_eq_getElem (List.mem_range.mp hi)⟩
  have hfilter : strictFilter (fun i => do return isFlipFlop (← net.nodes[i]?))
      (List.range net.nodes.length) = some ((List.range net.nodes.length).filter fun i =>
        (net.nodes[i]?.map isFlipFlop).getD false) := by
    refine strictFilter_eq fun i hi => ?_
    obtain ⟨n, hn⟩ := hget i hi
    rw [hn]
    rfl
  have houtputs := mapM_eq_some
    (f := fun i => do return (i, (← net.nodes[i]?).outputs))
    (g := fun i => (i, (net.nodes[i]?.map (·.outputs)).getD []))
    (l := (List.range net.nodes.length).filter fun i => (net.nodes[i]?.map isFlipFlop).getD false)
    fun i hi => by
      obtain ⟨n, hn⟩ := hget i (List.mem_filter.mp hi).1
      rw [hn]
      rfl
  refine ⟨_, by rw [strictFlipFlops, hfilter, some_bind, houtputs], fun i outputs => ?_⟩
  rw [List.mem_map]
  constructor
  · rintro ⟨j, hj, heq⟩
    obtain ⟨hj, hflipFlop⟩ := List.mem_filter.mp hj
    obtain ⟨n, hn⟩ := hget j hj
    rw [hn] at heq hflipFlop
    obtain ⟨rfl, rfl⟩ := Prod.ext_iff.mp heq
    exact ⟨n, hn, hflipFlop, rfl⟩
  · rintro ⟨n, hn, hflipFlop, rfl⟩
    have hlt : i < net.nodes.length := (List.getElem?_eq_some_iff.mp hn).1
    refine ⟨i, List.mem_filter.mpr ⟨List.mem_range.mpr hlt, ?_⟩, ?_⟩ <;> rw [hn]
    · exact hflipFlop
    · rfl

/-- **Flip-flops are compared in bounds**, position by position. -/
theorem strictFlipFlopsDiffer_eq {before after : Netlist Expansion}
    (h : after.nodes.length = before.nodes.length) :
    strictFlipFlopsDiffer before after = some (flipFlopsDiffer before after) := by
  obtain ⟨flipFlops, hflipFlops, hmem⟩ := strictFlipFlops_eq before
  have hany : flipFlops.anyM (fun p => do return (← after.nodes[p.1]?).outputs != p.2) =
      some (flipFlops.any fun p => (after.nodes[p.1]?.map (·.outputs)).getD [] != p.2) := by
    refine anyM_eq_some fun p hp => ?_
    obtain ⟨n, hn, -⟩ := (hmem p.1 p.2).mp hp
    have hlt : p.1 < after.nodes.length := h ▸ (List.getElem?_eq_some_iff.mp hn).1
    rw [List.getElem?_eq_getElem hlt]
    rfl
  rw [strictFlipFlopsDiffer, hflipFlops, some_bind, hany, flipFlopsDiffer]
  refine congrArg some (Bool.eq_iff_iff.mpr ?_)
  rw [List.any_eq_true, List.any_eq_true]
  constructor
  · rintro ⟨⟨i, outputs⟩, hp, hdiffer⟩
    obtain ⟨b, hb, hflipFlop, rfl⟩ := (hmem i outputs).mp hp
    have hlt : i < after.nodes.length := h ▸ (List.getElem?_eq_some_iff.mp hb).1
    have ha := List.getElem?_eq_getElem hlt
    rw [ha] at hdiffer
    have hzip : (before.nodes.zip after.nodes)[i]? = some (b, after.nodes[i]) :=
      List.getElem?_zip_eq_some.mpr ⟨hb, ha⟩
    exact ⟨_, List.mem_of_getElem? hzip, Bool.and_eq_true_iff.mpr ⟨hflipFlop, hdiffer⟩⟩
  · rintro ⟨⟨b, a⟩, hp, hdiffer⟩
    obtain ⟨i, hi⟩ := List.getElem?_of_mem hp
    obtain ⟨hb, ha⟩ := List.getElem?_zip_eq_some.mp hi
    obtain ⟨hflipFlop, hdiffer⟩ := Bool.and_eq_true_iff.mp hdiffer
    refine ⟨(i, b.outputs), (hmem i b.outputs).mpr ⟨b, hb, hflipFlop, rfl⟩, ?_⟩
    rw [ha]
    exact hdiffer

end CycleRequest

/-- Drives a clock through a cycle. -/
def Service.strictCycle (s : Service) (c : Circuit Definition) (r : CycleRequest) :
    Option (Except Failure CycleResponse × Service) :=
  s.strictCall c fun call s => do
    let net := call.state.netlist
    match ← r.strictNode? net with
    | none => throw (.invalidCircuit [.invalidGate r.clock "no clock gate with this id"])
    | some node =>
      let state ← r.strictDrive (Expansion.strictReact s.config.deepest) call.instant node call.state
      let flipFlopsChanged ← CycleRequest.strictFlipFlopsDiffer net state.netlist
      let (response, s) ← s.strictFinish c state .delayed false
      return ({ circuit := response.circuit
                flipFlopsChanged
                info := response.info
                warnings := response.warnings }, s)

/-- **A clock cycle is in bounds**, whatever it is asked for. -/
theorem Service.strictCycle_eq (s : Service) (c : Circuit Definition) (r : CycleRequest) :
    s.strictCycle c r = some (s.cycle c r) := by
  refine strictCall_eq fun call s' hstart => ?_
  obtain ⟨hnet, hrunnable⟩ := runnable_of_start hstart
  obtain ⟨hnode, hlt⟩ := r.strictNode?_eq call.state.netlist
  dsimp only
  rw [hnode, liftM_some, pure_bind]
  cases hclock : r.node? call.state.netlist with
  | none => rfl
  | some node =>
    obtain ⟨hdrive, hshape⟩ := CycleRequest.strictDrive_eq hrunnable (hlt node hclock) call.instant
      (r := r)
    dsimp only
    rw [hdrive, liftM_some, pure_bind,
      CycleRequest.strictFlipFlopsDiffer_eq (Netlist.length_of_shape hshape), liftM_some, pure_bind,
      strictFinish_eq hnet s' hshape, liftM_some, pure_bind]
    rfl

/-! ## 5. What is counted -/

/-- The number of gates of a circuit, where a definition counts for itself and for what it contains. -/
def Circuit.gatesWith {δ : Type} (inside : δ → Nat) (c : Circuit δ) : Nat :=
  (c.gates.map fun g => 1 + (g.metadata.definition.map inside).getD 0).sum

/-- The number of gates written in a definition, at all levels. -/
def Definition.written : Definition → Nat :=
  fold fun b => (b.circuit.map (·.gatesWith id)).getD 0

/-- **The number of gates written in a circuit**, at all levels. -/
def Circuit.written (c : Circuit Definition) : Nat := c.gatesWith Definition.written

theorem Definition.written_of_circuit {d : Definition} {c : Circuit Definition}
    (h : d.body.circuit = some c) : d.written = c.written := by
  obtain ⟨b⟩ := d
  rw [written, fold_mk, show b.circuit = some c from h]
  simp [Circuit.written, Circuit.gatesWith, Circuit.mapDefinitions, Gate.mapDefinition,
    Function.comp_def, written]

theorem Expansion.size_circuit (sub : SubCircuit Expansion) :
    size (.circuit sub) = sub.template.size := by
  rw [size, fold_circuit]
  simp only [SubCircuit.map, Netlist.map, Netlist.size, Netlist.expandedSize, List.map_map]
  congr 2
  funext n
  obtain ⟨id, element, inputs, outputs, forced⟩ := n
  cases element <;> rfl

/-- A netlist has as many gates as are written, if what comes of definitions has. -/
theorem Netlist.size_assemble_le {compile : Definition → Except String Expansion}
    {c : Circuit Definition} (h : ∀ d x, compile d = .ok x → x.size ≤ d.written) :
    (assemble compile c).size ≤ c.written := by
  rw [size, expandedSize, assemble, List.map_map]
  refine List.sum_le_sum fun g _ => ?_
  dsimp only [Function.comp, Node.element_ofGate]
  split
  next x hx =>
    obtain ⟨-, d, hd, hcompile⟩ := Element.ofGate_eq_custom_iff.mp hx
    rw [hd]
    exact Nat.add_le_add_left (h d x hcompile) 1
  next => exact Nat.le_add_right ..

theorem Definition.size_le_written {deepest levels : Nat} {d : Definition} {x : Expansion}
    (h : d.compile deepest levels = .ok x) : x.size ≤ d.written := by
  refine compile_induction (P := fun _ d x => x.size ≤ d.written) ?_ ?_ h
  · intro _ _ _ t _ _
    rw [Expansion.size, Expansion.fold_table]
    exact Nat.zero_le _
  · intro levels d inner sub hcircuit _ hlink ih
    rw [Expansion.size_circuit, (linkCircuit_eq_ok hlink).1, written_of_circuit hcircuit]
    exact Netlist.size_assemble_le ih

/-- **A netlist has no more gates than are written in its circuit**, at all levels. -/
theorem Circuit.size_netlist_le {deepest : Nat} {c : Circuit Definition} {net : Netlist Expansion}
    (h : c.netlist deepest = .ok net) : net.size ≤ c.written := by
  obtain ⟨-, rfl⟩ := Netlist.valid_of_ofCircuit h
  exact Netlist.size_assemble_le fun _ _ => Definition.size_le_written

/-- **A call counts no more passes than it allows.** -/
theorem Service.passes_le {s s' : Service} {c : Circuit Definition} {call : Call}
    (h : s.start c = .ok (call, s')) (r : CycleRequest) (node : Nat) :
    (call.state.run Expansion.react call.instant s.config.settleLimit).passes ≤ s.config.settleLimit ∧
      (r.drive call.instant node call.state).passes ≤ 3 * r.passLimit := by
  obtain ⟨-, -, rfl, rfl⟩ := start_eq_ok_iff.mp h
  refine ⟨?_, ?_⟩
  · rw [Settling.passes_run]
    exact (Nat.zero_add _).le.trans (Netlist.length_starts_le ..)
  · have hdrive : (r.drive (s.callOf c).instant node (s.callOf c).state).passes =
        (CycleRequest.levels.foldl (r.phase (s.callOf c).instant node) (s.callOf c).state).passes := rfl
    rw [hdrive, CycleRequest.passes_phases]
    exact (Nat.zero_add _).le.trans (CycleRequest.length_starts_le ..)

/-! ## 6. Everything together -/

/-- **No input makes the engine go out of bounds.** For every circuit, valid or not and with whatever
    gates, pins and definitions, every configuration, time and number of passes allowed, checking,
    analysing, evaluating in either mode and the calls of a service give what they give without ever
    reading or changing a position that does not exist, taking the last node of an empty cycle,
    shifting beyond a word, or computing a pin index that does not fit its width.

    What is counted is bounded by what is given: gates and depth by the gates written in the circuit,
    passes by the numbers allowed. -/
theorem Service.calls_in_bounds (s : Service) (e : Evaluator) (c : Circuit Definition) (now : UInt64)
    (r : CycleRequest) :
    c.strictCheck = some c.check ∧
      Complexity.strictOfCircuit c = some (Complexity.ofCircuit c) ∧
      e.strictImmediate c now = some (e.immediate c now) ∧
      e.strictDelayed c now = some (e.delayed c now) ∧
      s.strictEvaluate c = some (s.evaluate c) ∧
      s.strictStep c = some (s.step c) ∧
      s.strictSettle c = some (s.settle c) ∧
      s.strictCycle c r = some (s.cycle c r) ∧
      (Complexity.ofCircuit c).depth ≤ c.gates.length ∧
      (∀ deepest net, c.netlist deepest = .ok net → net.size ≤ c.written) ∧
      ∀ call s', s.start c = .ok (call, s') →
        (call.state.run Expansion.react call.instant s.config.settleLimit).passes ≤
            s.config.settleLimit ∧
          ∀ node, (r.drive call.instant node call.state).passes ≤ 3 * r.passLimit :=
  ⟨c.strictCheck_eq, Complexity.strictOfCircuit_eq c, e.strictImmediate_eq c now,
    e.strictDelayed_eq c now, s.strictEvaluate_eq c, s.strictStep_eq c, s.strictSettle_eq c,
    s.strictCycle_eq c r, Complexity.depth_le c, fun _ _ => Circuit.size_netlist_le,
    fun _ _ h => ⟨(passes_le h r 0).1, fun node => (passes_le h r node).2⟩⟩

/-- A cycle of a flip-flop that toggles is in bounds, and has at most ten passes for each level of the
    clock. -/
theorem Service.toggle_in_bounds :
    Service.strictCycle { time := .fixed 0 } (Circuit.toggle 1) ⟨"CLK", 10⟩ =
        some (Service.cycle { time := .fixed 0 } (Circuit.toggle 1) ⟨"CLK", 10⟩) ∧
      (∃ net, (Circuit.toggle 1).netlist 16 = .ok net ∧ net.size ≤ (Circuit.toggle 1).written) ∧
      ∃ call s', Service.start { time := .fixed 0 } (Circuit.toggle 1) = .ok (call, s') ∧
        ∀ node, (CycleRequest.drive ⟨"CLK", 10⟩ call.instant node call.state).passes ≤ 30 := by
  have hstart : Service.start { time := .fixed 0 } (Circuit.toggle 1) = .ok
      (⟨⟨0, 50⟩, { netlist := .assemble (Definition.compile 16 16) (Circuit.toggle 1) }⟩,
        { time := .fixed 0 }) := rfl
  obtain ⟨-, -, -, -, -, -, -, hcycle, -, hsize, hpasses⟩ :=
    calls_in_bounds { time := .fixed 0 } {} (Circuit.toggle 1) 0 ⟨"CLK", 10⟩
  have hnet : (Circuit.toggle 1).netlist 16 =
      .ok (.assemble (Definition.compile 16 16) (Circuit.toggle 1)) := rfl
  have hdrive := (hpasses _ _ hstart).2
  exact ⟨hcycle, ⟨_, hnet, hsize 16 _ hnet⟩, _, _, hstart, fun node => (hdrive node).trans (by decide)⟩

end LogicSim
