import LogicSim.Proofs.Netlist.Wiring

/-!
# What passes leave alone

Passes change signals and memory. What they leave alone is the *shape* of a netlist: the identifiers
of its nodes, their numbers of pins, which of them are sequential, and the connections.

* `Element.evaluate_cases` -- all that an evaluation can do to an element;
* `Netlist.shape_delayed`, `Netlist.shape_immediate`, `Netlist.shape_force`, `Settling.shape_run` --
  every step of a simulation keeps the shape;
* `Netlist.WellFormed.of_shape`, `Netlist.dependencies_of_shape` -- what follows from a shape.
-/

namespace LogicSim

variable {ε : Type} {run : ε → Reaction} {instant : Instant}

/-! ## 1. Elements -/

namespace Element

/-- **All that an evaluation can do to an element**: nothing, or a step of its memory. -/
theorem evaluate_cases {e e' : Element ε} {inputs : List Bool} {answer : Answer}
    (h : e.evaluate run instant inputs = .ok (e', answer)) :
    e' = e ∨
    (∃ m m' level, e = .clock m ∧ m.tick instant.now = .ok (m', level) ∧ e' = .clock m' ∧
      answer = ⟨[level], []⟩) ∨
    (∃ m d level, e = .flipFlop m ∧ inputs = [d, level] ∧ e' = .flipFlop (m.next d level) ∧
      answer = ⟨[(m.next d level).q, (m.next d level).qBar], []⟩) ∨
    ∃ m set reset, e = .latch m ∧ inputs = [set, reset] ∧ e' = .latch (m.next set reset) ∧
      answer = ⟨[(m.next set reset).q, (m.next set reset).qBar],
        if set && reset then [LatchMemory.conflict] else []⟩ := by
  cases e with
  | input value => exact .inl (Prod.ext_iff.mp (Except.ok.inj h)).1.symm
  | output | not | mux =>
    simp only [evaluate] at h
    split at h
    · exact .inl (Prod.ext_iff.mp (Except.ok.inj h)).1.symm
    · cases h
  | reduce r =>
    simp only [evaluate] at h
    cases hr : r.apply inputs with
    | error fault => rw [hr] at h; cases h
    | ok value =>
      rw [hr] at h
      exact .inl (Prod.ext_iff.mp (Except.ok.inj h)).1.symm
  | clock m =>
    simp only [evaluate] at h
    cases ht : m.tick instant.now with
    | error fault => rw [ht] at h; cases h
    | ok result =>
      rw [ht] at h
      obtain ⟨rfl, rfl⟩ := Prod.ext_iff.mp (Except.ok.inj h)
      exact .inr (.inl ⟨m, result.1, result.2, rfl, ht, rfl, rfl⟩)
  | flipFlop m =>
    simp only [evaluate] at h
    split at h
    · obtain ⟨rfl, rfl⟩ := Prod.ext_iff.mp (Except.ok.inj h)
      exact .inr (.inr (.inl ⟨m, _, _, rfl, rfl, rfl, rfl⟩))
    · cases h
  | latch m =>
    simp only [evaluate] at h
    split at h
    · obtain ⟨rfl, rfl⟩ := Prod.ext_iff.mp (Except.ok.inj h)
      exact .inr (.inr (.inr ⟨m, _, _, rfl, rfl, rfl, rfl⟩))
    · cases h
  | custom expansion =>
    simp only [evaluate] at h
    cases hr : run expansion instant inputs with
    | error fault => rw [hr] at h; cases h
    | ok answer' =>
      rw [hr] at h
      exact .inl (Prod.ext_iff.mp (Except.ok.inj h)).1.symm
  | invalid kind reason => cases h

theorem isSequential_evaluate {e e' : Element ε} {inputs : List Bool} {answer : Answer}
    (h : e.evaluate run instant inputs = .ok (e', answer)) : e'.isSequential = e.isSequential := by
  rcases evaluate_cases h with
    rfl | ⟨m, m', level, rfl, -, rfl, -⟩ | ⟨m, d, level, rfl, -, rfl, -⟩ |
      ⟨m, set, reset, rfl, -, rfl, -⟩ <;> rfl

end Element

/-! ## 2. Nodes -/

/-- What a pass leaves alone of a node. -/
structure Shape where
  id : GateId
  inputs : Nat
  outputs : Nat
  sequential : Bool
  deriving DecidableEq

/-- The shape of a node. -/
def Node.shape (n : Node ε) : Shape :=
  ⟨n.id, n.inputs.length, n.outputs.length, n.element.isSequential⟩

/-- **A reaction keeps the shape.** -/
theorem Node.shape_react (n : Node ε) {inputs : List Bool} (h : inputs.length = n.inputs.length) :
    (n.react run instant inputs).1.shape = n.shape := by
  have hseq : (n.react run instant inputs).1.element.isSequential = n.element.isSequential := by
    unfold react
    split
    · rfl
    · split
      next he => exact Element.isSequential_evaluate he
      next => rfl
  rw [shape, shape, id_react, inputs_react, length_outputs_react, hseq, h]

/-! ## 3. Netlists -/

namespace Netlist

/-- The shape of a netlist. -/
def shape (net : Netlist ε) : List Shape × List Connection :=
  (net.nodes.map Node.shape, net.connections)

theorem shape_ext {net net' : Netlist ε} (hconnections : net'.connections = net.connections)
    (hnodes : ∀ i : Nat, net'.nodes[i]?.map Node.shape = net.nodes[i]?.map Node.shape) :
    net'.shape = net.shape := by
  refine Prod.ext (List.ext_getElem? fun i => ?_) hconnections
  show (net'.nodes.map Node.shape)[i]? = (net.nodes.map Node.shape)[i]?
  rw [List.getElem?_map, List.getElem?_map, hnodes]

theorem connections_of_shape {net net' : Netlist ε} (h : net'.shape = net.shape) :
    net'.connections = net.connections := (Prod.ext_iff.mp h).2

theorem nodes_of_shape {net net' : Netlist ε} (h : net'.shape = net.shape) (i : Nat) :
    net'.nodes[i]?.map Node.shape = net.nodes[i]?.map Node.shape := by
  rw [← List.getElem?_map, ← List.getElem?_map]
  exact congrArg (·[i]?) (Prod.ext_iff.mp h).1

theorem length_of_shape {net net' : Netlist ε} (h : net'.shape = net.shape) :
    net'.nodes.length = net.nodes.length := by
  have := congrArg List.length (Prod.ext_iff.mp h).1
  rwa [shape, shape, List.length_map, List.length_map] at this

/-- A node of one netlist has its like in every netlist of the same shape. -/
theorem exists_of_shape {net net' : Netlist ε} (h : net'.shape = net.shape) {i : Nat} {n : Node ε}
    (hn : net.nodes[i]? = some n) : ∃ n', net'.nodes[i]? = some n' ∧ n'.shape = n.shape := by
  have hi := nodes_of_shape h i
  rw [hn, Option.map_some, Option.map_eq_some_iff] at hi
  exact hi

/-- **Being well-formed is a matter of shape.** -/
theorem WellFormed.of_shape {net net' : Netlist ε} (h : net.WellFormed)
    (hshape : net'.shape = net.shape) : net'.WellFormed := by
  have hconnections := connections_of_shape hshape
  refine ⟨?_, fun k hk => ?_, hconnections ▸ h.single⟩
  · rw [hconnections, length_of_shape hshape]
    exact h.source_lt
  · obtain ⟨n, hn, hpin⟩ := h.sink k (hconnections ▸ hk)
    obtain ⟨n', hn', hs⟩ := exists_of_shape hshape hn
    have hlength : n'.inputs.length = n.inputs.length := congrArg Shape.inputs hs
    exact ⟨n', hn', hlength ▸ hpin⟩

/-- So is standing for a circuit. -/
theorem Realizes.of_shape {net net' : Netlist ε} {c : Circuit Definition} (h : net.Realizes c)
    (hshape : net'.shape = net.shape) : net'.Realizes c := by
  have hids : net'.nodes.map (·.id) = net.nodes.map (·.id) := by
    have := congrArg (·.map Shape.id) (Prod.ext_iff.mp hshape).1
    simp only [shape, List.map_map] at this
    exact this
  exact ⟨hids.trans h.ids, connections_of_shape hshape ▸ h.connection⟩

/-- **So are the dependencies.** -/
theorem dependencies_of_shape {net net' : Netlist ε} (h : net'.shape = net.shape) :
    net'.dependencies = net.dependencies := by
  have hseq : net'.nodes.map (·.element.isSequential) = net.nodes.map (·.element.isSequential) := by
    have := congrArg (·.map Shape.sequential) (Prod.ext_iff.mp h).1
    simp only [shape, List.map_map] at this
    exact this
  rw [dependencies, dependencies, hseq, connections_of_shape h]

/-! ## 4. Steps of a simulation -/

theorem length_gather {net : Netlist ε} {i : Nat} {n : Node ε} (hn : net.nodes[i]? = some n)
    (read : Nat → Nat → Bool) : (net.gather i read).length = n.inputs.length := by
  rw [gather, hn]
  exact length_overwrite ..

/-- A change of one node that keeps its shape. -/
theorem shape_updateNode {net : Netlist ε} {i : Nat} {f : Node ε → Node ε}
    (h : ∀ n, net.nodes[i]? = some n → (f n).shape = n.shape) :
    (net.updateNode i f).shape = net.shape := by
  refine shape_ext rfl fun j => ?_
  rw [getElem?_updateNode]
  split
  · rename_i hij
    subst hij
    cases hn : net.nodes[i]? with
    | none => rfl
    | some n => exact congrArg some (h n hn)
  · rfl

@[simp] theorem shape_force (net : Netlist ε) (i : Nat) (value : Option Bool) :
    (net.force i value).shape = net.shape := shape_updateNode fun _ _ => rfl

@[simp] theorem shape_delayed (net : Netlist ε) :
    (net.delayed run instant).netlist.shape = net.shape := by
  refine shape_ext rfl fun i => ?_
  rw [getElem?_delayed]
  cases hn : net.nodes[i]? with
  | none => rfl
  | some n => exact congrArg some (n.shape_react (length_gather hn _))

@[simp] theorem shape_visit (schedule : Schedule) (before : Netlist ε) (s : Sweep ε) (i : Nat) :
    (visit run schedule instant before s i).netlist.shape = s.netlist.shape := by
  unfold visit
  split
  · rfl
  · rename_i n hn
    refine shape_updateNode fun n' hn' => ?_
    obtain rfl : n = n' := Option.some.inj (hn.symm.trans hn')
    exact n.shape_react (length_gather hn _)

/-- **An immediate pass keeps what each visit keeps.** -/
theorem immediate_keeps {P : Netlist ε → Prop} {schedule : Schedule} {net : Netlist ε}
    (hvisit : ∀ (s : Sweep ε) i, P s.netlist → P (visit run schedule instant net s i).netlist)
    (h : P net) : P (net.immediate run schedule instant).netlist := by
  unfold immediate
  suffices hfold : ∀ (order : List Nat) (s : Sweep ε), P s.netlist →
      P (order.foldl (visit run schedule instant net) s).netlist from
    hfold schedule.order { netlist := net } h
  intro order
  induction order with
  | nil => exact fun _ hs => hs
  | cons i order ih => exact fun s hs => ih _ (hvisit s i hs)

@[simp] theorem shape_immediate (schedule : Schedule) (net : Netlist ε) :
    (net.immediate run schedule instant).netlist.shape = net.shape :=
  immediate_keeps (P := fun now => now.shape = net.shape)
    (fun _ _ hs => (shape_visit ..).trans hs) rfl

end Netlist

namespace Settling

/-- **Delayed passes keep what one of them keeps.** -/
theorem run_keeps {P : Netlist ε → Prop}
    (hpass : ∀ net, P net → P (net.delayed run instant).netlist) (limit : Nat) {s : Settling ε}
    (hs : P s.netlist) : P (Settling.run run instant limit s).netlist := by
  induction limit generalizing s with
  | zero => exact hs
  | succ limit ih =>
    rw [Settling.run]
    split
    · exact hpass _ hs
    · exact ih (hpass _ hs)

@[simp] theorem shape_run (limit : Nat) (s : Settling ε) :
    (Settling.run run instant limit s).netlist.shape = s.netlist.shape :=
  run_keeps (P := fun net => net.shape = s.netlist.shape) (fun net h => (net.shape_delayed).trans h)
    limit rfl

end Settling

end LogicSim
