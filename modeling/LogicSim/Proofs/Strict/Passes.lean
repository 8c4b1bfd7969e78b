import LogicSim.Proofs.Netlist.Resolution
import LogicSim.Proofs.Strict.Dependencies

/-!
# Strict passes

The strict counterparts of evaluating elements and of passes over a netlist.

* `Element.strictEvaluate` reads an input only after the number of inputs has been checked.
* `Netlist.strictDrivers` finds the connections into a node through a table of their numbers.
* `Netlist.strictVisit` evaluates one node in place. A delayed pass is a loop of such visits that read
  a copy of the outputs as they were (`Netlist.delayed_eq_foldl`), an immediate pass one that reads
  the copy along feedback only.

Passes over a well-formed netlist are in bounds if the evaluations of its custom gates are
(`Netlist.Runnable`): `Netlist.Runnable.strictDelayed_eq`, `Netlist.Runnable.strictImmediate_eq`,
`Settling.strictRun_eq`.
-/

namespace LogicSim

variable {ε : Type}

/-! ## 1. Elements -/

/-- The strict counterpart of a reaction. -/
abbrev StrictReaction := Instant → List Bool → Option (Except Fault Answer)

/-- Reads inputs once there are as many as required. -/
def strictInputs {α : Type} (kind : Kind) (expected : Nat) (inputs : List Bool) (read : Option α) :
    Option (Except Fault α) :=
  if inputs.length = expected then read.map .ok
  else some (.error (.arity kind expected inputs.length))

/-- The signal of a reducing gate. -/
def Reduction.strictApply (r : Reduction) (inputs : List Bool) : Option (Except Fault Bool) :=
  match r with
  | .and => strictInputs r.kind 2 inputs do return (← inputs[0]?) && (← inputs[1]?)
  | .nand => strictInputs r.kind 2 inputs do return !((← inputs[0]?) && (← inputs[1]?))
  | .xor => strictInputs r.kind 2 inputs do return (← inputs[0]?) != (← inputs[1]?)
  | .or => some (.ok (inputs.any id))
  | .nor => some (.ok !(inputs.any id))

namespace Element

/-- Evaluates an element on the signals at its inputs. -/
def strictEvaluate (run : ε → StrictReaction) (instant : Instant) (inputs : List Bool)
    (e : Element ε) : Option (Except Fault (Element ε × Answer)) :=
  match e with
  | .input value => some (.ok (e, ⟨[value], []⟩))
  | .output => strictInputs e.kind 1 inputs do return (e, ⟨[← inputs[0]?], []⟩)
  | .not => strictInputs e.kind 1 inputs do return (e, ⟨[!(← inputs[0]?)], []⟩)
  | .reduce r => do return (← r.strictApply inputs).map fun value => (e, ⟨[value], []⟩)
  | .mux => strictInputs e.kind 3 inputs do
    let select ← inputs[2]?
    let chosen ← if select then inputs[1]? else inputs[0]?
    return (e, ⟨[chosen], []⟩)
  | .clock m => some ((m.tick instant.now).map fun (m, level) => (.clock m, ⟨[level], []⟩))
  | .flipFlop m => strictInputs e.kind 2 inputs do
    let m := m.next (← inputs[0]?) (← inputs[1]?)
    return (.flipFlop m, ⟨[m.q, m.qBar], []⟩)
  | .latch m => strictInputs e.kind 2 inputs do
    let set ← inputs[0]?
    let reset ← inputs[1]?
    let m := m.next set reset
    return (.latch m, ⟨[m.q, m.qBar], if set && reset then [LatchMemory.conflict] else []⟩)
  | .custom expansion => do return (← run expansion instant inputs).map fun answer => (e, answer)
  | .invalid _ reason => some (.error (.unsupported reason))

/-- Whether what a custom gate does stays in bounds. -/
def Strict (strict : ε → StrictReaction) (run : ε → Reaction) : Element ε → Prop
  | .custom e => ∀ instant inputs, strict e instant inputs = some (run e instant inputs)
  | _ => True

end Element

variable {strict : ε → StrictReaction} {run : ε → Reaction}

theorem Reduction.strictApply_eq (r : Reduction) (inputs : List Bool) :
    r.strictApply inputs = some (r.apply inputs) := by
  cases r with
  | or | nor => rfl
  | and | nand | xor =>
    rcases inputs with _ | ⟨a, _ | ⟨b, _ | ⟨c, rest⟩⟩⟩
    · rfl
    · rfl
    · rfl
    · simp [strictApply, strictInputs, apply]

/-- **An element is evaluated in bounds**, whatever the number of its inputs. -/
theorem Element.strictEvaluate_eq {e : Element ε} (h : e.Strict strict run) (instant : Instant)
    (inputs : List Bool) :
    e.strictEvaluate strict instant inputs = some (e.evaluate run instant inputs) := by
  cases e with
  | input value | invalid kind reason => rfl
  | reduce r =>
    rw [strictEvaluate, r.strictApply_eq]
    dsimp only [evaluate]
    cases r.apply inputs <;> rfl
  | clock m =>
    rw [strictEvaluate]
    dsimp only [evaluate]
    cases m.tick instant.now <;> rfl
  | custom expansion =>
    rw [strictEvaluate, h instant inputs]
    dsimp only [evaluate]
    cases run expansion instant inputs <;> rfl
  | output | not =>
    rcases inputs with _ | ⟨a, _ | ⟨b, rest⟩⟩
    · rfl
    · rfl
    · simp [strictEvaluate, strictInputs, evaluate]
  | flipFlop m | latch m =>
    rcases inputs with _ | ⟨a, _ | ⟨b, _ | ⟨c, rest⟩⟩⟩
    · rfl
    · rfl
    · rfl
    · simp [strictEvaluate, strictInputs, evaluate]
  | mux =>
    rcases inputs with _ | ⟨low, _ | ⟨high, _ | ⟨select, _ | ⟨d, rest⟩⟩⟩⟩
    · rfl
    · rfl
    · rfl
    · cases select <;> rfl
    · simp [strictEvaluate, strictInputs, evaluate]

/-- An evaluation leaves what a custom gate does alone. -/
theorem Element.Strict.evaluate {e e' : Element ε} (h : e.Strict strict run) {instant : Instant}
    {inputs : List Bool} {answer : Answer}
    (he : e.evaluate run instant inputs = .ok (e', answer)) : e'.Strict strict run := by
  rcases evaluate_cases he with
    rfl | ⟨m, m', level, rfl, -, rfl, -⟩ | ⟨m, d, level, rfl, -, rfl, -⟩ |
      ⟨m, set, reset, rfl, -, rfl, -⟩
  · exact h
  all_goals exact trivial

/-! ## 2. Nodes -/

/-- A node after a pass in which it sees the given signals at its inputs. -/
def Node.strictReact (run : ε → StrictReaction) (instant : Instant) (inputs : List Bool)
    (n : Node ε) : Option (Node ε × List Warning) :=
  match n.forced with
  | some value => some ({ n with inputs, outputs := forceFirst value n.outputs }, [])
  | none => do
    match ← n.element.strictEvaluate run instant inputs with
    | .ok (element, answer) =>
      return ({ n with element, inputs, outputs := Signal.resize answer.outputs n.outputs.length },
        answer.notes.map (Warning.ofGate n.id))
    | .error fault =>
      return ({ n with inputs, outputs := List.replicate n.outputs.length false },
        [.ofProblem (.evaluationError n.id fault.text)])

theorem Node.strictReact_eq {n : Node ε} (h : n.element.Strict strict run) (instant : Instant)
    (inputs : List Bool) :
    n.strictReact strict instant inputs = some (n.react run instant inputs) := by
  rw [strictReact, react]
  cases n.forced with
  | some value => rfl
  | none =>
    dsimp only
    rw [Element.strictEvaluate_eq h]
    cases n.element.evaluate run instant inputs <;> rfl

theorem Node.strict_react {n : Node ε} (h : n.element.Strict strict run) (instant : Instant)
    (inputs : List Bool) : (n.react run instant inputs).1.element.Strict strict run := by
  unfold react
  split
  · exact h
  · split
    next he => exact h.evaluate he
    next => exact h

namespace Netlist

/-! ## 3. Drivers -/

/-- For each node the numbers of the connections into it. -/
def strictDriverTable (net : Netlist ε) : Option (Array (List Nat)) :=
  net.connections.zipIdx.foldlM
    (fun table (k, number) => strictModify table k.sink (· ++ [number]))
    (Array.replicate net.nodes.length [])

/-- The connections into a node. -/
def strictDrivers (net : Netlist ε) (node : Nat) : Option (List Connection) := do
  let table ← net.strictDriverTable
  let numbers ← table[node]?
  numbers.mapM (net.connections[·]?)

/-- The signals at the inputs of a node when outputs are read by `read`. A pin that the node does
    not have is left out. -/
def strictGather (net : Netlist ε) (node : Nat) (read : Nat → Nat → Option Bool) :
    Option (List Bool) := do
  let n ← net.nodes[node]?
  let drivers ← net.strictDrivers node
  drivers.foldlM
    (fun signals k =>
      if k.sinkPin < signals.length then do
        return signals.set k.sinkPin (← read k.source k.sourcePin)
      else return signals)
    n.inputs

theorem WellFormed.sink_lt {net : Netlist ε} (h : net.WellFormed) {k : Connection}
    (hk : k ∈ net.connections) : k.sink < net.nodes.length := by
  obtain ⟨n, hn, -⟩ := h.sink k hk
  exact (List.getElem?_eq_some_iff.mp hn).1

/-- The table is filled in bounds. -/
theorem WellFormed.strictDriverTable_eq {net : Netlist ε} (h : net.WellFormed) :
    net.strictDriverTable = some (driverTable net.nodes.length net.connections.zipIdx) := by
  refine foldlM_eq_some (P := fun table => table.size = net.nodes.length)
    (fun table ht p hp => ?_) (Array.size_replicate ..)
  have hlt := h.sink_lt (List.fst_mem_of_mem_zipIdx hp)
  exact ⟨strictModify_eq (ht.symm ▸ hlt) _, (Array.size_modify ..).trans ht⟩

/-- **The connections into a node are found in bounds.** -/
theorem WellFormed.strictDrivers_eq {net : Netlist ε} (h : net.WellFormed) {node : Nat}
    (hnode : node < net.nodes.length) : net.strictDrivers node = some (net.drivers node) := by
  have hnumbers : (driverTable net.nodes.length net.connections.zipIdx)[node]? =
      some ((net.connections.zipIdx.filter (·.1.sink = node)).map (·.2)) := by
    rw [getElem?_eq_getD (by rw [size_driverTable]; exact hnode) [], getD_driverTable hnode]
  have hget : ∀ number ∈ (net.connections.zipIdx.filter (·.1.sink = node)).map (·.2),
      (net.connections[number]?).isSome := by
    intro number hnumber
    obtain ⟨p, hp, rfl⟩ := List.mem_map.mp hnumber
    exact Option.isSome_iff_exists.mpr ⟨p.1, getElem?_of_mem_filter_zipIdx hp⟩
  rw [strictDrivers, h.strictDriverTable_eq, drivers, getD_driverTable hnode]
  simp only [Option.bind_eq_bind, Option.bind_some, hnumbers]
  exact mapM_eq_filterMap hget

/-- **The signals at a node are gathered in bounds**, where outputs of nodes are read in bounds. -/
theorem WellFormed.strictGather_eq {net : Netlist ε} (h : net.WellFormed) {node : Nat}
    (hnode : node < net.nodes.length) {read' : Nat → Nat → Option Bool} {read : Nat → Nat → Bool}
    (hread : ∀ source < net.nodes.length, ∀ pin, read' source pin = some (read source pin)) :
    net.strictGather node read' = some (net.gather node read) := by
  have hn : net.nodes[node]? = some net.nodes[node] := List.getElem?_eq_getElem hnode
  rw [strictGather, gather, h.strictDrivers_eq hnode, hn]
  refine foldlM_eq_some (P := fun _ => True) (fun signals _ k hk => ⟨?_, trivial⟩) trivial
  have hsource := h.source_lt k ((mem_drivers hnode).mp hk).1
  split
  · rw [hread k.source hsource]
    rfl
  next hpin => rw [List.set_eq_of_length_le (Nat.le_of_not_lt hpin)]; rfl

/-! ## 4. Visits -/

/-- The signal at an output pin in a list of outputs, node by node. A pin that the node does not have
    is low. -/
def strictOutput (outputs : List (List Bool)) (node pin : Nat) : Option Bool := do
  return ((← outputs[node]?)[pin]?).getD false

theorem strictOutput_eq {net : Netlist ε} {node : Nat} (h : node < net.nodes.length) (pin : Nat) :
    strictOutput (net.nodes.map (·.outputs)) node pin = some (net.outputAt node pin) := by
  rw [strictOutput, outputAt, List.getElem?_map, List.getElem?_eq_getElem h]
  rfl

/-- A pass goes on to a node, which is evaluated in place and reads outputs by `read`. -/
def strictVisit (run : ε → StrictReaction) (instant : Instant) (s : Sweep ε) (node : Nat)
    (read : Nat → Nat → Option Bool) : Option (Sweep ε) := do
  let n ← s.netlist.nodes[node]?
  let inputs ← s.netlist.strictGather node read
  let (after, warnings) ← n.strictReact run instant inputs
  return {
    netlist := s.netlist.updateNode node fun _ => after
    warnings := s.warnings ++ warnings
    changed := s.changed || n.outputs != after.outputs }

/-- A pass in which every node reads a copy of the outputs made before the pass. -/
def strictDelayed (run : ε → StrictReaction) (instant : Instant) (net : Netlist ε) :
    Option (Sweep ε) :=
  let snapshot := net.nodes.map (·.outputs)
  (List.range net.nodes.length).foldlM
    (fun s node => strictVisit run instant s node (strictOutput snapshot)) { netlist := net }

/-- A pass in the order of a schedule. Along feedback the copy made before the pass is read. -/
def strictImmediate (run : ε → StrictReaction) (schedule : Schedule) (instant : Instant)
    (net : Netlist ε) : Option (Sweep ε) :=
  let snapshot := net.nodes.map (·.outputs)
  schedule.order.foldlM
    (fun s node => strictVisit run instant s node fun source pin => do
      if ← schedule.dependencies.strictIsFeedback source node then strictOutput snapshot source pin
      else strictOutput (s.netlist.nodes.map (·.outputs)) source pin)
    { netlist := net }

/-- A visit to a node that reads outputs by `read`. -/
def visitReading (run : ε → Reaction) (instant : Instant) (s : Sweep ε) (node : Nat)
    (read : Nat → Nat → Bool) : Sweep ε :=
  match s.netlist.nodes[node]? with
  | none => s
  | some n =>
    let (after, warnings) := n.react run instant (s.netlist.gather node read)
    { netlist := s.netlist.updateNode node fun _ => after
      warnings := s.warnings ++ warnings
      changed := s.changed || n.outputs != after.outputs }

/-! ## 5. Passes in bounds -/

/-- **A netlist that can be run in bounds.** -/
structure Runnable (strict : ε → StrictReaction) (run : ε → Reaction) (net : Netlist ε) : Prop where
  wellFormed : net.WellFormed
  elements : ∀ n ∈ net.nodes, n.element.Strict strict run

@[simp] theorem length_updateNode (net : Netlist ε) (node : Nat) (f : Node ε → Node ε) :
    (net.updateNode node f).nodes.length = net.nodes.length := List.length_modify ..

/-- A change of one node that keeps the number of its inputs and what custom gates do. -/
theorem Runnable.updateNode {net : Netlist ε} (h : net.Runnable strict run) {node : Nat}
    {f : Node ε → Node ε} (hf : ∀ n, net.nodes[node]? = some n →
      (f n).inputs.length = n.inputs.length ∧ (f n).element.Strict strict run) :
    (net.updateNode node f).Runnable strict run := by
  refine ⟨⟨?_, fun k hk => ?_, h.wellFormed.single⟩, fun n hn => ?_⟩
  · rw [length_updateNode]
    exact h.wellFormed.source_lt
  · obtain ⟨n, hn, hpin⟩ := h.wellFormed.sink k hk
    rw [getElem?_updateNode, hn]
    split
    next hnode =>
      subst hnode
      exact ⟨f n, rfl, (hf n hn).1.symm ▸ hpin⟩
    next => exact ⟨n, rfl, hpin⟩
  · obtain ⟨i, hi⟩ := List.getElem?_of_mem hn
    rw [getElem?_updateNode] at hi
    split at hi
    next hnode =>
      subst hnode
      obtain ⟨n', hn', rfl⟩ := Option.map_eq_some_iff.mp hi
      exact (hf n' hn').2
    next => exact h.elements n (List.mem_of_getElem? hi)

theorem Runnable.force {net : Netlist ε} (h : net.Runnable strict run) (node : Nat)
    (value : Option Bool) : (net.force node value).Runnable strict run :=
  h.updateNode fun n hn => ⟨rfl, h.elements n (List.mem_of_getElem? hn)⟩

section Visits

variable {s : Sweep ε} {node : Nat} {instant : Instant} {read : Nat → Nat → Bool}

theorem length_visitReading :
    (visitReading run instant s node read).netlist.nodes.length = s.netlist.nodes.length := by
  unfold visitReading
  split
  · rfl
  · exact length_updateNode ..

theorem Runnable.visitReading (h : s.netlist.Runnable strict run) :
    (visitReading run instant s node read).netlist.Runnable strict run := by
  unfold Netlist.visitReading
  split
  · exact h
  next n hn =>
    refine h.updateNode fun n' hn' => ?_
    obtain rfl : n = n' := Option.some.inj (hn.symm.trans hn')
    rw [Node.inputs_react, length_gather hn]
    exact ⟨rfl, Node.strict_react (h.elements n (List.mem_of_getElem? hn)) instant _⟩

/-- **A visit is in bounds**, where outputs of nodes are read in bounds. -/
theorem Runnable.strictVisit_eq (h : s.netlist.Runnable strict run)
    (hnode : node < s.netlist.nodes.length) {read' : Nat → Nat → Option Bool}
    (hread : ∀ source < s.netlist.nodes.length, ∀ pin,
      read' source pin = some (read source pin)) :
    strictVisit strict instant s node read' = some (Netlist.visitReading run instant s node read) := by
  have hn := List.getElem?_eq_getElem hnode
  have helement := h.elements _ (List.mem_of_getElem? hn)
  rw [strictVisit, Netlist.visitReading, hn, h.wellFormed.strictGather_eq hnode hread]
  simp only [Option.bind_eq_bind, Option.bind_some, Node.strictReact_eq helement]
  rfl

end Visits

/-- What each node comes to in a delayed pass. -/
def results (run : ε → Reaction) (instant : Instant) (net : Netlist ε) :
    List (Node ε × List Warning) :=
  net.nodes.mapIdx fun i n => n.react run instant (net.gather i net.outputAt)

/-- A delayed pass in place when it comes to a node: only the nodes before it have been evaluated. -/
def delayedUpTo (run : ε → Reaction) (instant : Instant) (net : Netlist ε) (node : Nat) : Sweep ε :=
  { netlist := { net with
      nodes := net.nodes.mapIdx fun i n =>
        if i < node then (n.react run instant (net.gather i net.outputAt)).1 else n }
    warnings := ((net.results run instant).take node).flatMap (·.2)
    changed := ((net.nodes.zip (net.results run instant)).take node).any fun (before, after) =>
      before.outputs != after.1.outputs }

theorem getElem?_delayedUpTo (instant : Instant) (net : Netlist ε) (node i : Nat) :
    (net.delayedUpTo run instant node).netlist.nodes[i]? = net.nodes[i]?.map fun n =>
      if i < node then (n.react run instant (net.gather i net.outputAt)).1 else n :=
  List.getElem?_mapIdx

/-- **A node sees in place what it would see before the pass**: the outputs are read from the copy,
    and its own inputs have not been touched. -/
theorem visitReading_delayedUpTo (instant : Instant) (net : Netlist ε) {node : Nat}
    (hnode : node < net.nodes.length) :
    visitReading run instant (net.delayedUpTo run instant node) node net.outputAt =
      net.delayedUpTo run instant (node + 1) := by
  obtain ⟨n, hn⟩ : ∃ n, net.nodes[node]? = some n := ⟨_, List.getElem?_eq_getElem hnode⟩
  have hself : (net.delayedUpTo run instant node).netlist.nodes[node]? = some n := by
    simp [getElem?_delayedUpTo, hn]
  have hgather : (net.delayedUpTo run instant node).netlist.gather node net.outputAt =
      net.gather node net.outputAt := by
    refine gather_eq ?_ (congrArg _ (hself.trans hn.symm)) _
    rfl
  have hresult : (net.results run instant)[node]? =
      some (n.react run instant (net.gather node net.outputAt)) := by
    rw [results, List.getElem?_mapIdx, hn]
    rfl
  have hpair : (net.nodes.zip (net.results run instant))[node]? =
      some (n, n.react run instant (net.gather node net.outputAt)) :=
    List.getElem?_zip_eq_some.mpr ⟨hn, hresult⟩
  rw [visitReading, hself]
  dsimp only
  rw [hgather]
  have hnodes : (net.delayedUpTo run instant node).netlist.nodes.modify node
      (fun _ => (n.react run instant (net.gather node net.outputAt)).1) =
      (net.delayedUpTo run instant (node + 1)).netlist.nodes := by
    refine List.ext_getElem? fun i => ?_
    rw [List.getElem?_modify, getElem?_delayedUpTo, getElem?_delayedUpTo]
    by_cases hi : node = i
    · subst hi
      simp [hn]
    · have hlt : i < node + 1 ↔ i < node := by omega
      simp [hi, hlt]
  have hwarnings : (net.delayedUpTo run instant node).warnings ++
      (n.react run instant (net.gather node net.outputAt)).2 =
      (net.delayedUpTo run instant (node + 1)).warnings := by
    simp [delayedUpTo, List.take_add_one, hresult]
  have hchanged : ((net.delayedUpTo run instant node).changed || n.outputs !=
      (n.react run instant (net.gather node net.outputAt)).1.outputs) =
      (net.delayedUpTo run instant (node + 1)).changed := by
    simp [delayedUpTo, List.take_add_one, hpair]
  rw [updateNode, hnodes, hwarnings, hchanged]
  rfl

/-- **A delayed pass in place.** -/
theorem delayed_eq_foldl (instant : Instant) (net : Netlist ε) :
    net.delayed run instant = (List.range net.nodes.length).foldl
      (fun s node => visitReading run instant s node net.outputAt) { netlist := net } := by
  have hupTo : ∀ k ≤ net.nodes.length, (List.range k).foldl
      (fun s node => visitReading run instant s node net.outputAt) { netlist := net } =
      net.delayedUpTo run instant k := by
    intro k
    induction k with
    | zero =>
      intro _
      have hnodes : (net.nodes.mapIdx fun i n =>
          if i < 0 then (n.react run instant (net.gather i net.outputAt)).1 else n) = net.nodes :=
        List.ext_getElem? fun i => by simp
      rw [delayedUpTo, hnodes]
      rfl
    | succ k ih =>
      intro hk
      rw [List.range_succ, List.foldl_append, ih (Nat.le_of_succ_le hk)]
      exact visitReading_delayedUpTo instant net hk
  have hlength : (net.results run instant).length = net.nodes.length := List.length_mapIdx
  have hnodes : (net.nodes.mapIdx fun i n =>
      if i < net.nodes.length then (n.react run instant (net.gather i net.outputAt)).1 else n) =
      (net.results run instant).map (·.1) := by
    refine List.ext_getElem (by simp [hlength]) fun i hi _ => ?_
    rw [List.length_mapIdx] at hi
    simp [results, hi]
  rw [hupTo _ le_rfl, delayedUpTo, hnodes, List.take_of_length_le hlength.le,
    List.take_of_length_le (by simp)]
  rfl

/-- **A delayed pass is in bounds.** -/
theorem Runnable.strictDelayed_eq {net : Netlist ε} (h : net.Runnable strict run)
    (instant : Instant) : net.strictDelayed strict instant = some (net.delayed run instant) := by
  rw [delayed_eq_foldl]
  refine foldlM_eq_some
    (P := fun s => s.netlist.Runnable strict run ∧ s.netlist.nodes.length = net.nodes.length)
    (fun s hs node hnode => ⟨?_, hs.1.visitReading, length_visitReading.trans hs.2⟩) ⟨h, rfl⟩
  refine hs.1.strictVisit_eq (hs.2.symm ▸ List.mem_range.mp hnode) fun source hsource pin => ?_
  exact strictOutput_eq (hs.2 ▸ hsource) pin

/-- **An immediate pass is in bounds.** -/
theorem Runnable.strictImmediate_eq {net : Netlist ε} (h : net.Runnable strict run)
    {schedule : Schedule} (hschedule : Dependencies.Fits schedule net.nodes.length)
    (instant : Instant) :
    net.strictImmediate strict schedule instant = some (net.immediate run schedule instant) := by
  refine foldlM_eq_some
    (P := fun s => s.netlist.Runnable strict run ∧ s.netlist.nodes.length = net.nodes.length)
    (fun s hs node hnode => ⟨?_, hs.1.visitReading, length_visitReading.trans hs.2⟩) ⟨h, rfl⟩
  have hlt := hschedule.order node hnode
  refine hs.1.strictVisit_eq (hs.2.symm ▸ hlt) fun source hsource pin => ?_
  rw [hs.2] at hsource
  rw [hschedule.bounded.strictIsFeedback_eq (hschedule.size_eq.symm ▸ hsource)
    (hschedule.size_eq.symm ▸ hlt), strictOutput_eq hsource, strictOutput_eq (hs.2.symm ▸ hsource),
    readScheduled, Schedule.isFeedback]
  cases schedule.dependencies.isFeedback source node <;> rfl

theorem Runnable.delayed {net : Netlist ε} (h : net.Runnable strict run) (instant : Instant) :
    (net.delayed run instant).netlist.Runnable strict run := by
  refine ⟨h.wellFormed.of_shape (shape_delayed net), fun n hn => ?_⟩
  obtain ⟨i, hi⟩ := List.getElem?_of_mem hn
  rw [getElem?_delayed] at hi
  obtain ⟨n', hn', rfl⟩ := Option.map_eq_some_iff.mp hi
  exact Node.strict_react (h.elements n' (List.mem_of_getElem? hn')) instant _

end Netlist

/-! ## 6. Settling -/

namespace Settling

/-- Delayed passes until one changes nothing, but at most `limit` of them. -/
def strictRun (run : ε → StrictReaction) (instant : Instant) : Nat → Settling ε → Option (Settling ε)
  | 0, s => some { s with settled := false }
  | limit + 1, s => do
    let sweep ← s.netlist.strictDelayed run instant
    let s : Settling ε :=
      { netlist := sweep.netlist
        warnings := s.warnings ++ sweep.warnings
        passes := s.passes + 1
        settled := !sweep.changed }
    if s.settled then return s else strictRun run instant limit s

/-- **Passes until a netlist settles are in bounds**, whatever their limit. -/
theorem strictRun_eq (instant : Instant) (limit : Nat) {s : Settling ε}
    (h : s.netlist.Runnable strict run) :
    strictRun strict instant limit s = some (Settling.run run instant limit s) := by
  induction limit generalizing s with
  | zero => rfl
  | succ limit ih =>
    rw [strictRun, Settling.run, h.strictDelayed_eq]
    show (if (s.pass run instant).settled then some (s.pass run instant)
      else strictRun strict instant limit (s.pass run instant)) = _
    split
    · rfl
    · exact ih (s := s.pass run instant) (h.delayed instant)

/-- After the passes the netlist can still be run in bounds. -/
theorem runnable_run (instant : Instant) (limit : Nat) {s : Settling ε}
    (h : s.netlist.Runnable strict run) :
    (Settling.run run instant limit s).netlist.Runnable strict run := by
  induction limit generalizing s with
  | zero => exact h
  | succ limit ih =>
    rw [Settling.run]
    split
    · exact h.delayed instant
    · exact ih (s := s.pass run instant) (h.delayed instant)

end Settling

end LogicSim
