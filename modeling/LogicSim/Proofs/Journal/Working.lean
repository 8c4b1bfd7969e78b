import LogicSim.Proofs.Netlist.Mapping

/-!
# Evaluation in place

A pass has a journal: while a gate is evaluated, its element is changed in place, what there is to be
said about it is written down as notes, and a fault cuts the evaluation short at any point and leaves
behind what has been done until then. Afterwards the notes are signed with the name of the gate. That
is the order of things in a machine; `Element.evaluate` and `Node.react` are functions, which return a
new memory with the notes, or a fault with nothing.

* `Element.work_eq` -- in place an element does what it does as a function: a fault comes before
  anything has been changed or written down, for every element and every number of inputs;
* `Node.work_eq` -- so does a node, whose notes are all signed when it is done.
-/

namespace LogicSim

/-! ## 1. Journals -/

/-- What is written down in the course of a pass. -/
structure Journal where
  /-- about the gate that is being evaluated -/
  notes : List String := []
  warnings : List Warning := []
  deriving DecidableEq, Repr

namespace Journal

/-- One more note. -/
def note (text : String) (j : Journal) : Journal := { j with notes := j.notes ++ [text] }

/-- One more warning. -/
def warn (w : Warning) (j : Journal) : Journal := { j with warnings := j.warnings ++ [w] }

/-- The notes are taken as warnings about a gate, one after the other. -/
def sign (id : GateId) (j : Journal) : Journal :=
  j.notes.foldl (fun j text => j.warn (.ofGate id text)) { j with notes := [] }

/-- A journal with several notes added. -/
def add (notes : List String) (j : Journal) : Journal := { j with notes := j.notes ++ notes }

@[simp] theorem add_nil (j : Journal) : j.add [] = j := by
  rw [add, List.append_nil]

theorem foldl_warn (id : GateId) (notes : List String) (j : Journal) :
    notes.foldl (fun j text => j.warn (.ofGate id text)) j =
      { j with warnings := j.warnings ++ notes.map (Warning.ofGate id) } := by
  induction notes generalizing j with
  | nil => rw [List.foldl_nil, List.map_nil, List.append_nil]
  | cons text notes ih =>
    rw [List.foldl_cons, ih, warn, List.map_cons, List.append_assoc, List.singleton_append]

/-- **Signing empties the notes.** -/
theorem sign_eq (id : GateId) (j : Journal) :
    j.sign id = { notes := [], warnings := j.warnings ++ j.notes.map (Warning.ofGate id) } := by
  rw [sign, foldl_warn]

end Journal

/-! ## 2. Work -/

/-- Work on a state that a fault may cut short. What has been done until then stays done. -/
abbrev Working (σ : Type) := EStateM Fault σ

/-- What a custom gate does in place: it writes notes into the journal of the pass. -/
abbrev Worker := Instant → List Bool → Working Journal (List Bool)

/-- The end of the work of a custom gate that reacts so. -/
def Journal.after (j : Journal) :
    Except Fault Answer → EStateM.Result Fault Journal (List Bool)
  | .ok answer => .ok answer.outputs (j.add answer.notes)
  | .error fault => .error fault j

/-- **A worker carries out a reaction**: it gives the same outputs and writes the same notes, or fails
    with the same fault and has written nothing. -/
def Worker.Does (worker : Worker) (reaction : Reaction) : Prop :=
  ∀ instant inputs j, (worker instant inputs).run j = j.after (reaction instant inputs)

/-! ## 3. Elements -/

/-- An element under evaluation, with the journal of the pass. -/
structure Workplace where
  element : Element Worker
  journal : Journal

namespace Workplace

/-- A fault unless there are as many inputs as required. -/
def require (kind : Kind) (expected : Nat) (inputs : List Bool) : Working Workplace Unit :=
  if inputs.length = expected then return else throw (.arity kind expected inputs.length)

/-- Changes the memory of the element. -/
def remember (element : Element Worker) : Working Workplace Unit :=
  modify fun place => { place with element }

/-- Writes a note. -/
def note (text : String) : Working Workplace Unit :=
  modify fun place => { place with journal := place.journal.note text }

/-- Has a custom gate work on the journal. -/
def employ (worker : Worker) (instant : Instant) (inputs : List Bool) :
    Working Workplace (List Bool) := fun place =>
  match (worker instant inputs).run place.journal with
  | .ok outputs journal => .ok outputs { place with journal }
  | .error fault journal => .error fault { place with journal }

end Workplace

open Workplace (require remember note employ)

/-- The signal of a reducing gate. -/
def Reduction.work (r : Reduction) (inputs : List Bool) : Working Workplace Bool := do
  match r with
  | .or => return inputs.any id
  | .nor => return !(inputs.any id)
  | .and =>
    require r.kind 2 inputs
    return inputs.getD 0 false && inputs.getD 1 false
  | .nand =>
    require r.kind 2 inputs
    return !(inputs.getD 0 false && inputs.getD 1 false)
  | .xor =>
    require r.kind 2 inputs
    return inputs.getD 0 false != inputs.getD 1 false

/-- A clock at a time. Its start is stored when it is first evaluated. -/
def ClockMemory.work (m : ClockMemory) (now : UInt64) : Working Workplace (List Bool) := do
  if !m.isRunning then return [false]
  if m.frequency ≤ 0 || !m.frequency.isFinite then throw (.frequency m.frequency)
  let start := m.start.getD now
  remember (.clock { m with start := some start })
  return [isHigh m.frequency (elapsed start now)]

/-- A flip-flop stores its input first, and then the level of the clock. -/
def FlipFlopMemory.work (m : FlipFlopMemory) (d level : Bool) :
    Working Workplace (List Bool) := do
  let mut m := m
  if !m.previousClock && level then
    m := { m with q := d, qBar := !d }
    remember (.flipFlop m)
  m := { m with previousClock := level }
  remember (.flipFlop m)
  return [m.q, m.qBar]

/-- A latch. -/
def LatchMemory.work (m : LatchMemory) (set reset : Bool) : Working Workplace (List Bool) := do
  let mut m := m
  match set, reset with
  | true, false =>
    m := ⟨true, false⟩
    remember (.latch m)
  | false, true =>
    m := ⟨false, true⟩
    remember (.latch m)
  | false, false => pure ()
  | true, true => note conflict
  return [m.q, m.qBar]

/-- Evaluates the element at a workplace: its memory is changed in place. -/
def Element.work (instant : Instant) (inputs : List Bool) : Working Workplace (List Bool) := do
  let e := (← get).element
  match e with
  | .input value => return [value]
  | .output =>
    require e.kind 1 inputs
    return [inputs.getD 0 false]
  | .not =>
    require e.kind 1 inputs
    return [!inputs.getD 0 false]
  | .reduce r => return [← r.work inputs]
  | .mux =>
    require e.kind 3 inputs
    return [if inputs.getD 2 false then inputs.getD 1 false else inputs.getD 0 false]
  | .clock m => m.work instant.now
  | .flipFlop m =>
    require e.kind 2 inputs
    m.work (inputs.getD 0 false) (inputs.getD 1 false)
  | .latch m =>
    require e.kind 2 inputs
    m.work (inputs.getD 0 false) (inputs.getD 1 false)
  | .custom worker => employ worker instant inputs
  | .invalid _ reason => throw (.unsupported reason)

/-- A clock fails before its start is stored. -/
theorem ClockMemory.work_eq (m : ClockMemory) (now : UInt64) (j : Journal) :
    (m.work now).run ⟨.clock m, j⟩ = match m.tick now with
      | .ok (m', level) => .ok [level] ⟨.clock m', j⟩
      | .error fault => .error fault ⟨.clock m, j⟩ := by
  rw [work, tick]
  split
  · rfl
  · split <;> rfl

theorem FlipFlopMemory.work_eq (m : FlipFlopMemory) (d level : Bool) (j : Journal) :
    (m.work d level).run ⟨.flipFlop m, j⟩ =
      .ok [(m.next d level).q, (m.next d level).qBar] ⟨.flipFlop (m.next d level), j⟩ := by
  obtain ⟨previousClock, q, qBar⟩ := m
  cases previousClock <;> cases level <;> rfl

/-- A latch writes a note if its inputs are both high. -/
theorem LatchMemory.work_eq (m : LatchMemory) (set reset : Bool) (j : Journal) :
    (m.work set reset).run ⟨.latch m, j⟩ =
      .ok [(m.next set reset).q, (m.next set reset).qBar]
        ⟨.latch (m.next set reset), if set && reset then j.note conflict else j⟩ := by
  cases set <;> cases reset <;> rfl

variable {ε : Type} {f : ε → Worker} {run : ε → Reaction}

/-- The end of an evaluation in place that has this outcome as a function. -/
def Workplace.after (f : ε → Worker) (e : Element ε) (j : Journal) :
    Except Fault (Element ε × Answer) → EStateM.Result Fault Workplace (List Bool)
  | .ok (e, answer) => .ok answer.outputs ⟨e.map f, j.add answer.notes⟩
  | .error fault => .error fault ⟨e.map f, j⟩

theorem Workplace.after_of_silent (e e' : Element ε) (j : Journal) (outputs : List Bool) :
    Workplace.after f e j (.ok (e', ⟨outputs, []⟩)) = .ok outputs ⟨e'.map f, j⟩ := by
  rw [after, Journal.add_nil]

/-- **An element in place is the element as a function**: after a fault its memory is exactly what it
    was, and nothing has been written. -/
theorem Element.work_eq (h : ∀ x, (f x).Does (run x)) (e : Element ε) (instant : Instant)
    (inputs : List Bool) (j : Journal) :
    (work instant inputs).run ⟨e.map f, j⟩ = Workplace.after f e j (e.evaluate run instant inputs) := by
  cases e with
  | input value => exact (Workplace.after_of_silent _ _ j _).symm
  | output | not =>
    rcases inputs with _ | ⟨a, _ | ⟨b, rest⟩⟩
    · rfl
    · exact (Workplace.after_of_silent _ _ j _).symm
    · rfl
  | reduce r =>
    cases r with
    | or | nor => exact (Workplace.after_of_silent _ _ j _).symm
    | and | nand | xor =>
      rcases inputs with _ | ⟨a, _ | ⟨b, _ | ⟨c, rest⟩⟩⟩
      · rfl
      · rfl
      · exact (Workplace.after_of_silent _ _ j _).symm
      · rfl
  | mux =>
    rcases inputs with _ | ⟨low, _ | ⟨high, _ | ⟨select, _ | ⟨d, rest⟩⟩⟩⟩
    · rfl
    · rfl
    · rfl
    · exact (Workplace.after_of_silent _ _ j _).symm
    · rfl
  | clock m =>
    refine (m.work_eq instant.now j).trans ?_
    rw [evaluate]
    cases m.tick instant.now with
    | ok result => exact (Workplace.after_of_silent _ (.clock result.1) j _).symm
    | error fault => rfl
  | flipFlop m =>
    rcases inputs with _ | ⟨d, _ | ⟨level, _ | ⟨c, rest⟩⟩⟩
    · rfl
    · rfl
    · exact (m.work_eq d level j).trans
        (Workplace.after_of_silent _ (.flipFlop (m.next d level)) j _).symm
    · rfl
  | latch m =>
    rcases inputs with _ | ⟨set, _ | ⟨reset, _ | ⟨c, rest⟩⟩⟩
    · rfl
    · rfl
    · refine (m.work_eq set reset j).trans ?_
      -- only the conflict leaves a note
      cases set <;> cases reset
      · exact (Workplace.after_of_silent _ (.latch (m.next false false)) j _).symm
      · exact (Workplace.after_of_silent _ (.latch (m.next false true)) j _).symm
      · exact (Workplace.after_of_silent _ (.latch (m.next true false)) j _).symm
      · rfl
    · rfl
  | custom x =>
    have hx : (f x instant inputs).run j = j.after (run x instant inputs) := h x instant inputs j
    show employ (f x) instant inputs ⟨.custom (f x), j⟩ = _
    rw [employ, hx, evaluate]
    cases run x instant inputs <;> rfl
  | invalid kind reason => rfl

/-! ## 4. Nodes -/

/-- The element and the outputs of a node after an attempt to evaluate it, with the journal. A node
    that is forced is not evaluated. -/
def Node.attempt (instant : Instant) (inputs : List Bool) (n : Node Worker) (j : Journal) :
    Element Worker × List Bool × Journal :=
  match n.forced with
  | some value => (n.element, forceFirst value n.outputs, j)
  | none =>
    match (Element.work instant inputs).run ⟨n.element, j⟩ with
    | .ok outputs place => (place.element, outputs, place.journal)
    | .error fault place =>
      (place.element, List.replicate n.outputs.length false,
        place.journal.warn (.ofProblem (.evaluationError n.id fault.text)))

/-- Evaluates a node in place. Whatever notes there are in the journal afterwards are signed with its
    name. -/
def Node.work (instant : Instant) (inputs : List Bool) (n : Node Worker) (j : Journal) :
    Node Worker × Journal :=
  let (element, outputs, j) := n.attempt instant inputs j
  ({ n with element, inputs, outputs := Signal.resize outputs n.outputs.length }, j.sign n.id)

/-- **A node in place is the node as a function**, if no notes have been left over by the node before
    it; and it leaves none. -/
theorem Node.work_eq (h : ∀ x, (f x).Does (run x)) (n : Node ε) (instant : Instant)
    (inputs : List Bool) (warnings : List Warning) :
    (n.map f).work instant inputs { warnings } =
      ((n.react run instant inputs).1.map f,
        { warnings := warnings ++ (n.react run instant inputs).2 }) := by
  obtain ⟨id, e, stored, outputs, forced⟩ := n
  rw [work, attempt, react]
  cases forced with
  | some value =>
    have hpins : Signal.resize (forceFirst value outputs) outputs.length =
        forceFirst value outputs := by
      rw [← length_forceFirst value outputs, Signal.resize_length]
    dsimp only [map]
    rw [hpins, Journal.sign_eq]
    rfl
  | none =>
    have hwork := Element.work_eq h e instant inputs { warnings }
    dsimp only [map]
    rw [hwork]
    cases e.evaluate run instant inputs with
    | ok result =>
      dsimp only [Workplace.after]
      rw [Journal.sign_eq]
      rfl
    | error fault =>
      have hpins : Signal.resize (List.replicate outputs.length false) outputs.length =
          List.replicate outputs.length false := by
        simp [Signal.resize]
      dsimp only [Workplace.after]
      rw [Journal.sign_eq, hpins]
      simp [Journal.warn]

end LogicSim
