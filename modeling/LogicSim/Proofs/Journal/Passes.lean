import LogicSim.Proofs.Journal.Working
import LogicSim.Proofs.Strict.Passes

/-!
# Passes in place

A pass in place evaluates the nodes of a netlist one after the other over one journal. A custom gate
given by a circuit opens a journal of its own for the passes inside it, and in the end copies the
warnings of this journal as notes into that of the pass around it; if the circuit does not settle it
fails, and nothing is copied.

* `Netlist.workDelayed_eq`, `Netlist.workImmediate_eq` -- passes in place are passes as functions, and
  leave no notes behind, if the custom gates do what their reactions tell;
* `Expansion.does_react` -- they do, at all levels.
-/

namespace LogicSim

variable {ε : Type} {f : ε → Worker} {run : ε → Reaction} {instant : Instant}

/-! ## 1. One pass -/

/-- A netlist in the course of a pass in place. -/
structure Bench where
  netlist : Netlist Worker
  journal : Journal
  /-- whether the outputs of any node changed -/
  changed : Bool := false

/-- The pass goes on to a node, which reads outputs by `read`. -/
def Bench.visit (instant : Instant) (b : Bench) (node : Nat) (read : Nat → Nat → Bool) : Bench :=
  match b.netlist.nodes[node]? with
  | none => b
  | some n =>
    let (after, journal) := n.work instant (b.netlist.gather node read) b.journal
    { netlist := b.netlist.updateNode node fun _ => after
      journal
      changed := b.changed || n.outputs != after.outputs }

namespace Netlist

/-- A pass in which every node reads the outputs as they were before the pass. -/
def workDelayed (instant : Instant) (net : Netlist Worker) (j : Journal) : Bench :=
  (List.range net.nodes.length).foldl (fun b node => b.visit instant node net.outputAt)
    { netlist := net, journal := j }

/-- A pass in the order of a schedule. -/
def workImmediate (schedule : Schedule) (instant : Instant) (net : Netlist Worker) (j : Journal) :
    Bench :=
  schedule.order.foldl
    (fun b node => b.visit instant node (readScheduled schedule net b.netlist node))
    { netlist := net, journal := j }

/-- Delayed passes over one journal until one changes nothing; nothing if there is none among so
    many. -/
def workSettle (instant : Instant) : Nat → Netlist Worker → Journal →
    Option (Netlist Worker × Journal)
  | 0, _, _ => none
  | limit + 1, net, j =>
    let b := net.workDelayed instant j
    if b.changed then workSettle instant limit b.netlist b.journal
    else some (b.netlist, b.journal)

end Netlist

/-- The bench of a pass as a function, its warnings after earlier ones and no notes left. -/
def Sweep.inPlace (f : ε → Worker) (warnings : List Warning) (s : Sweep ε) : Bench :=
  { netlist := s.netlist.map f
    journal := { warnings := warnings ++ s.warnings }
    changed := s.changed }

/-- **One visit in place.** -/
theorem Bench.visit_inPlace (h : ∀ x, (f x).Does (run x)) (warnings : List Warning) (s : Sweep ε)
    (node : Nat) (read : Nat → Nat → Bool) :
    (s.inPlace f warnings).visit instant node read =
      (Netlist.visitReading run instant s node read).inPlace f warnings := by
  rw [visit, Netlist.visitReading, Sweep.inPlace]
  dsimp only
  rw [Netlist.getElem?_map, Netlist.gather_map]
  cases s.netlist.nodes[node]? with
  | none => rfl
  | some n =>
    dsimp only [Option.map_some]
    rw [Node.work_eq h, Netlist.updateNode_map f s.netlist node (fun _ => rfl), List.append_assoc]
    rfl

namespace Netlist

/-- **A delayed pass in place.** -/
theorem workDelayed_eq (h : ∀ x, (f x).Does (run x)) (net : Netlist ε) (warnings : List Warning) :
    (net.map f).workDelayed instant { warnings } = (net.delayed run instant).inPlace f warnings := by
  have hstart : ({ netlist := net.map f, journal := { warnings } } : Bench) =
      Sweep.inPlace f warnings { netlist := net } := by
    rw [Sweep.inPlace, List.append_nil]
  rw [workDelayed, delayed_eq_foldl, outputAt_map, hstart,
    show (net.map f).nodes.length = net.nodes.length from List.length_map _]
  exact List.foldl_hom _ fun s node => Bench.visit_inPlace h warnings s node net.outputAt

/-- **An immediate pass in place.** -/
theorem workImmediate_eq (h : ∀ x, (f x).Does (run x)) (schedule : Schedule) (net : Netlist ε)
    (warnings : List Warning) :
    (net.map f).workImmediate schedule instant { warnings } =
      (net.immediate run schedule instant).inPlace f warnings := by
  have hstart : ({ netlist := net.map f, journal := { warnings } } : Bench) =
      Sweep.inPlace f warnings { netlist := net } := by
    rw [Sweep.inPlace, List.append_nil]
  rw [workImmediate, immediate, hstart]
  refine List.foldl_hom _ fun s node => ?_
  rw [show (s.inPlace f warnings).netlist = s.netlist.map f from rfl, readScheduled_map]
  exact Bench.visit_inPlace h warnings s node _

/-- **Settling in place.** -/
theorem workSettle_eq (h : ∀ x, (f x).Does (run x)) (limit : Nat) (s : Settling ε) :
    (s.netlist.map f).workSettle instant limit { warnings := s.warnings } =
      if (Settling.run run instant limit s).settled then
        some ((Settling.run run instant limit s).netlist.map f,
          { warnings := (Settling.run run instant limit s).warnings })
      else none := by
  induction limit generalizing s with
  | zero => rfl
  | succ limit ih =>
    have hsettled : (s.pass run instant).settled = !(s.netlist.delayed run instant).changed := rfl
    rw [workSettle, workDelayed_eq h, Settling.run, hsettled]
    cases hchanged : (s.netlist.delayed run instant).changed with
    | true => exact (if_pos hchanged).trans (ih (s.pass run instant))
    | false =>
      have hquiet : (s.pass run instant).settled = true := by rw [hsettled, hchanged, Bool.not_false]
      rw [if_pos (show (!false) = true from rfl), if_pos hquiet]
      exact if_neg (show ¬ (s.netlist.delayed run instant).changed = true by simp [hchanged])

end Netlist

/-! ## 2. Custom gates -/

/-- Notes several texts, one after the other. -/
def Journal.noteAll (texts : List String) : Working Journal Unit :=
  texts.forM fun text => modify (·.note text)

theorem Journal.run_noteAll (j : Journal) (texts : List String) :
    (noteAll texts).run j = .ok () (j.add texts) := by
  rw [noteAll, List.forM_eq_forM]
  induction texts generalizing j with
  | nil => rw [add_nil]; rfl
  | cons text texts ih =>
    rw [List.forM_cons]
    refine (ih (j.note text)).trans ?_
    rw [add, add, note, List.append_assoc, List.singleton_append]

theorem Journal.run_noteAll_return (texts : List String) (outputs : List Bool) (j : Journal) :
    (do noteAll texts; return outputs : Working Journal (List Bool)).run j =
      .ok outputs (j.add texts) := by
  show EStateM.bind (noteAll texts) (fun _ => pure outputs) j = _
  rw [EStateM.bind, show noteAll texts j = .ok () (j.add texts) from j.run_noteAll texts]
  rfl

/-- A fault unless there are as many inputs as a custom gate has. -/
def checkInputs (expected : Nat) (inputs : List Bool) : Working Journal Unit :=
  if inputs.length = expected then return else throw (.arity .custom expected inputs.length)

namespace SubCircuit

/-- The passes inside a custom gate, over a journal of their own. -/
def workInside (sub : SubCircuit Worker) (instant : Instant) (inputs : List Bool) :
    Except Fault (Netlist Worker × Journal) :=
  let net := sub.load inputs
  match sub.schedule with
  | some schedule =>
    let b := net.workImmediate schedule instant {}
    .ok (b.netlist, b.journal)
  | none =>
    match net.workSettle instant instant.settleLimit {} with
    | some settled => .ok settled
    | none => .error (.custom sub.name (unsettled instant.settleLimit))

/-- A custom gate given by a circuit at work. -/
def work (sub : SubCircuit Worker) : Worker := fun instant inputs => do
  checkInputs sub.inputs.length inputs
  match sub.workInside instant inputs with
  | .error fault => throw fault
  | .ok (net, inside) =>
    Journal.noteAll (inside.warnings.map fun w => s!"in {sub.name}, {w.text}")
    return sub.outputs.map (·.read net)

theorem workInside_eq (h : ∀ x, (f x).Does (run x)) (sub : SubCircuit ε) (inputs : List Bool) :
    (sub.map f).workInside instant inputs =
      (sub.simulate run instant inputs).map fun r => (r.1.map f, { warnings := r.2 }) := by
  rw [workInside, simulate, load_map, show (sub.map f).schedule = sub.schedule from rfl]
  cases sub.schedule with
  | some schedule =>
    dsimp only
    rw [Netlist.workImmediate_eq h]
    exact congrArg (fun warnings => Except.ok (_, ({ warnings } : Journal))) (List.nil_append _)
  | none =>
    have hsettle := @Netlist.workSettle_eq ε f run instant h instant.settleLimit
      { netlist := sub.load inputs }
    dsimp only [Netlist.settle] at hsettle ⊢
    rw [hsettle]
    generalize Settling.run run instant instant.settleLimit _ = s
    obtain ⟨net, warnings, passes, settled⟩ := s
    cases settled <;> rfl

/-- **A circuit inside a gate does what its reaction tells**, if its custom gates do. -/
theorem does_evaluate (h : ∀ x, (f x).Does (run x)) (sub : SubCircuit ε) :
    (sub.map f).work.Does (sub.evaluate run) := by
  intro instant inputs j
  rw [work, evaluate, checkArity, checkInputs, workInside_eq h,
    show (sub.map f).inputs = sub.inputs from rfl]
  split
  · cases sub.simulate run instant inputs with
    | error fault => rfl
    | ok result =>
      have houtputs : sub.outputs.map (·.read (result.1.map f)) = sub.outputs.map (·.read result.1) :=
        List.map_congr_left fun t _ => OutputTap.read_map f t result.1
      exact (Journal.run_noteAll_return _ _ j).trans
        (congrArg (fun outputs => EStateM.Result.ok outputs _) houtputs)
  · rfl

end SubCircuit

namespace TruthTable

/-- A custom gate given by a truth table at work. -/
def work (t : TruthTable) : Worker := fun _ inputs => do
  checkInputs t.inputCount inputs
  Journal.noteAll (t.skipped.map fun reason => s!"in {t.name}, {reason}")
  return t.columns.map (·.testBit (inputNumber inputs))

theorem does_evaluate (t : TruthTable) : t.work.Does t.evaluate := by
  intro instant inputs j
  rw [work, evaluate, checkArity, checkInputs]
  split
  · exact Journal.run_noteAll_return _ _ j
  · rfl

end TruthTable

namespace Expansion

/-- A custom gate at work. -/
def work : Expansion → Worker := fold SubCircuit.work TruthTable.work

theorem work_circuit (sub : SubCircuit Expansion) : work (.circuit sub) = (sub.map work).work :=
  fold_circuit _ _ sub

/-- **Custom gates do what their reactions tell**, at all levels. -/
theorem does_react (x : Expansion) : x.work.Does x.react := by
  induction x using Expansion.induction with
  | circuit sub =>
    rw [work_circuit, SubCircuit.map_map, react_circuit, SubCircuit.evaluate_map]
    exact SubCircuit.does_evaluate (fun x => x.property) sub
  | table t =>
    show Worker.Does (fold SubCircuit.work TruthTable.work (.table t)) _
    rw [fold_table, react, fold_table]
    exact t.does_evaluate

end Expansion

end LogicSim
