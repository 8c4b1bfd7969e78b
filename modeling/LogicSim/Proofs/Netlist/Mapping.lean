import LogicSim.Netlist.Expansion

/-!
# Custom gates inside custom gates

What a custom gate does is a parameter of the netlist, and passes use it through its reaction only.
So it makes no difference whether custom gates are first replaced by their reactions, or kept as
they are and asked to react in the pass.

* `SubCircuit.evaluate_map` -- evaluation after a replacement;
* `Expansion.react_circuit` -- a custom gate given by a circuit reacts as the circuit is evaluated;
* `Expansion.induction` -- what holds of a circuit as soon as it holds of its custom gates, holds of
  all expansions.
-/

namespace LogicSim

variable {ε ε' : Type} (f : ε → ε') (run : ε' → Reaction) (instant : Instant)

/-! ## 1. Elements and nodes -/

namespace Element

theorem evaluate_map (inputs : List Bool) (e : Element ε) :
    (e.map f).evaluate run instant inputs =
      (e.evaluate (fun a => run (f a)) instant inputs).map fun r => (r.1.map f, r.2) := by
  cases e with
  | input value => rfl
  | output | not | mux | flipFlop m | latch m =>
    simp only [map, evaluate]
    split <;> rfl
  | reduce r =>
    simp only [map, evaluate]
    cases r.apply inputs <;> rfl
  | clock m =>
    simp only [map, evaluate]
    cases m.tick instant.now <;> rfl
  | custom a =>
    simp only [map, evaluate]
    cases run (f a) instant inputs <;> rfl
  | invalid kind reason => rfl

end Element

theorem Element.map_map {ε'' : Type} (g : ε' → ε'') (e : Element ε) :
    (e.map f).map g = e.map fun x => g (f x) := by
  cases e <;> rfl

theorem Node.map_map {ε'' : Type} (g : ε' → ε'') (n : Node ε) :
    (n.map f).map g = n.map fun x => g (f x) := by
  rw [map, map, map, Element.map_map]

theorem Node.react_map (inputs : List Bool) (n : Node ε) :
    (n.map f).react run instant inputs =
      ((n.react (fun a => run (f a)) instant inputs).1.map f,
        (n.react (fun a => run (f a)) instant inputs).2) := by
  obtain ⟨id, e, stored, outputs, forced⟩ := n
  cases forced with
  | some value => rfl
  | none =>
    simp only [react, map, Element.evaluate_map]
    cases e.evaluate (fun a => run (f a)) instant inputs <;> rfl

/-! ## 2. Netlists -/

namespace Netlist

theorem getElem?_map (net : Netlist ε) (i : Nat) :
    (net.map f).nodes[i]? = net.nodes[i]?.map (Node.map f) := List.getElem?_map

@[simp] theorem outputAt_map (net : Netlist ε) : (net.map f).outputAt = net.outputAt := by
  funext i pin
  rw [outputAt, outputAt, getElem?_map]
  cases net.nodes[i]? <;> rfl

@[simp] theorem inputAt_map (net : Netlist ε) : (net.map f).inputAt = net.inputAt := by
  funext i pin
  rw [inputAt, inputAt, getElem?_map]
  cases net.nodes[i]? <;> rfl

@[simp] theorem gather_map (net : Netlist ε) (i : Nat) (read : Nat → Nat → Bool) :
    (net.map f).gather i read = net.gather i read := by
  have hdrivers : (net.map f).drivers i = net.drivers i := drivers_congr (List.length_map ..) rfl
  rw [gather, gather, getElem?_map, hdrivers]
  cases net.nodes[i]? <;> rfl

theorem updateNode_map (net : Netlist ε) (i : Nat) {u : Node ε → Node ε} {u' : Node ε' → Node ε'}
    (h : ∀ n, u' (n.map f) = (u n).map f) :
    (net.map f).updateNode i u' = (net.updateNode i u).map f := by
  have hnodes : ∀ j : Nat, ((net.map f).updateNode i u').nodes[j]? =
      ((net.updateNode i u).map f).nodes[j]? := by
    intro j
    rw [getElem?_updateNode, getElem?_map, getElem?_map, getElem?_updateNode]
    cases net.nodes[j]? with
    | none => split <;> rfl
    | some n =>
      split
      · exact congrArg some (h n)
      · rfl
  exact congrArg (Netlist.mk · net.connections) (List.ext_getElem? hnodes)

end Netlist

/-- A pass with what custom gates do mapped to another type. -/
def Sweep.map (s : Sweep ε) : Sweep ε' := ⟨s.netlist.map f, s.warnings, s.changed⟩

/-- A run of passes with what custom gates do mapped to another type. -/
def Settling.map (s : Settling ε) : Settling ε' :=
  ⟨s.netlist.map f, s.warnings, s.passes, s.settled⟩

namespace Netlist

theorem delayed_map (net : Netlist ε) :
    (net.map f).delayed run instant = (net.delayed (fun a => run (f a)) instant).map f := by
  have hresults : (net.map f).nodes.mapIdx
        (fun i n => n.react run instant ((net.map f).gather i (net.map f).outputAt)) =
      (net.nodes.mapIdx fun i n => n.react (fun a => run (f a)) instant
        (net.gather i net.outputAt)).map fun r => (r.1.map f, r.2) := by
    refine List.ext_getElem? fun i => ?_
    rw [List.getElem?_mapIdx, getElem?_map, List.getElem?_map, List.getElem?_mapIdx, gather_map,
      outputAt_map]
    cases net.nodes[i]? with
    | none => rfl
    | some n => exact congrArg some (Node.react_map ..)
  rw [delayed, hresults]
  simp only [delayed, Sweep.map, map, List.map_map, List.flatMap_map, List.zip_map, List.any_map]
  rfl

@[simp] theorem readScheduled_map (schedule : Schedule) (before now : Netlist ε) (i : Nat) :
    readScheduled schedule (before.map f) (now.map f) i = readScheduled schedule before now i := by
  funext source pin
  rw [readScheduled, readScheduled, outputAt_map, outputAt_map]

theorem visit_map (schedule : Schedule) (before : Netlist ε) (s : Sweep ε) (i : Nat) :
    visit run schedule instant (before.map f) (s.map f) i =
      (visit (fun a => run (f a)) schedule instant before s i).map f := by
  unfold visit
  rw [show (s.map f).netlist = s.netlist.map f from rfl, getElem?_map, readScheduled_map, gather_map]
  cases s.netlist.nodes[i]? with
  | none => rfl
  | some n =>
    simp only [Option.map_some, Node.react_map, Sweep.map]
    rw [updateNode_map f s.netlist i (fun _ => rfl)]
    rfl

/-- **An immediate pass after a replacement.** -/
theorem immediate_map (schedule : Schedule) (net : Netlist ε) :
    (net.map f).immediate run schedule instant =
      (net.immediate (fun a => run (f a)) schedule instant).map f := by
  unfold immediate
  suffices h : ∀ (order : List Nat) (s : Sweep ε),
      order.foldl (visit run schedule instant (net.map f)) (s.map f) =
        (order.foldl (visit (fun a => run (f a)) schedule instant net) s).map f from
    h schedule.order { netlist := net }
  intro order
  induction order with
  | nil => exact fun _ => rfl
  | cons i order ih =>
    intro s
    rw [List.foldl_cons, List.foldl_cons, visit_map, ih]

end Netlist

theorem Settling.run_map (limit : Nat) (s : Settling ε) :
    Settling.run run instant limit (s.map f) =
      (Settling.run (fun a => run (f a)) instant limit s).map f := by
  induction limit generalizing s with
  | zero => rfl
  | succ limit ih =>
    have hpass : (s.map f).pass run instant = (s.pass (fun a => run (f a)) instant).map f := by
      unfold pass
      rw [show (s.map f).netlist = s.netlist.map f from rfl, Netlist.delayed_map]
      rfl
    unfold Settling.run
    rw [hpass]
    dsimp only [map]
    split
    · rfl
    · exact ih _

/-! ## 3. Circuits inside a gate -/

theorem InputBinding.write_map (value : Bool) (b : InputBinding) (net : Netlist ε) :
    b.write value (net.map f) = (b.write value net).map f := by
  cases b <;> exact Netlist.updateNode_map f net _ fun _ => rfl

theorem OutputTap.read_map (t : OutputTap) (net : Netlist ε) : t.read (net.map f) = t.read net := by
  cases t <;> simp only [read, Netlist.inputAt_map, Netlist.outputAt_map]

namespace SubCircuit

theorem map_map {ε'' : Type} (g : ε' → ε'') (sub : SubCircuit ε) :
    (sub.map f).map g = sub.map fun x => g (f x) := by
  have hnodes : (sub.template.nodes.map (Node.map f)).map (Node.map g) =
      sub.template.nodes.map (Node.map fun x => g (f x)) := by
    rw [List.map_map]
    exact List.map_congr_left fun n _ => n.map_map f g
  rw [map, map, map, Netlist.map, Netlist.map, Netlist.map, hnodes]

theorem load_map (sub : SubCircuit ε) (inputs : List Bool) :
    (sub.map f).load inputs = (sub.load inputs).map f := by
  unfold load
  rw [show (sub.map f).template = sub.template.map f from rfl,
    show (sub.map f).inputs = sub.inputs from rfl]
  generalize sub.template = net
  induction sub.inputs.zip inputs generalizing net with
  | nil => rfl
  | cons p pairs ih =>
    obtain ⟨b, value⟩ := p
    rw [List.foldl_cons, List.foldl_cons]
    dsimp only
    rw [InputBinding.write_map, ih]

theorem simulate_map (sub : SubCircuit ε) (inputs : List Bool) :
    (sub.map f).simulate run instant inputs =
      (sub.simulate (fun a => run (f a)) instant inputs).map fun r => (r.1.map f, r.2) := by
  unfold simulate
  rw [load_map, show (sub.map f).schedule = sub.schedule from rfl]
  cases sub.schedule with
  | some schedule =>
    dsimp only
    rw [Netlist.immediate_map]
    rfl
  | none =>
    dsimp only [Netlist.settle]
    rw [show ({ netlist := (sub.load inputs).map f } : Settling ε') =
      Settling.map f { netlist := sub.load inputs } from rfl, Settling.run_map]
    generalize Settling.run (fun a => run (f a)) instant instant.settleLimit _ = s
    obtain ⟨net, warnings, passes, settled⟩ := s
    cases settled <;> rfl

/-- **Evaluation after a replacement.** -/
theorem evaluate_map (sub : SubCircuit ε) :
    (sub.map f).evaluate run = sub.evaluate fun a => run (f a) := by
  funext instant inputs
  unfold evaluate
  rw [simulate_map, show (sub.map f).inputs = sub.inputs from rfl]
  cases checkArity sub.inputs.length inputs with
  | error fault => rfl
  | ok u =>
    cases sub.simulate (fun a => run (f a)) instant inputs with
    | error fault => rfl
    | ok result =>
      have houtputs : sub.outputs.map (·.read (result.1.map f)) = sub.outputs.map (·.read result.1) :=
        List.map_congr_left fun t _ => OutputTap.read_map f t result.1
      exact congrArg (fun outputs => Except.ok (⟨outputs, _⟩ : Answer)) houtputs

end SubCircuit

/-- **A custom gate given by a circuit reacts as the circuit is evaluated.** -/
theorem Expansion.react_circuit (sub : SubCircuit Expansion) :
    react (.circuit sub) = sub.evaluate react := by
  unfold react
  rw [fold_circuit, SubCircuit.evaluate_map]
  rfl

/-! ## 4. Induction over expansions -/

namespace Expansion

variable {P : Expansion → Prop}

mutual

/-- **Induction over expansions**: what holds of every table, and of every circuit whose custom gates
    have the property, holds of every expansion. -/
theorem induction
    (circuit : ∀ sub : SubCircuit {x : Expansion // P x}, P (.circuit (sub.map Subtype.val)))
    (table : ∀ t, P (.table t)) : ∀ x : Expansion, P x
  | .circuit ⟨name, ⟨nodes, connections⟩, schedule, inputs, outputs⟩ => by
    obtain ⟨nodes, rfl⟩ := exists_nodes circuit table nodes
    exact circuit ⟨name, ⟨nodes, connections⟩, schedule, inputs, outputs⟩
  | .table t => table t

theorem exists_nodes
    (circuit : ∀ sub : SubCircuit {x : Expansion // P x}, P (.circuit (sub.map Subtype.val)))
    (table : ∀ t, P (.table t)) : ∀ nodes : List (Node Expansion),
      ∃ nodes' : List (Node {x : Expansion // P x}), nodes'.map (Node.map Subtype.val) = nodes
  | [] => ⟨[], rfl⟩
  | ⟨id, element, inputs, outputs, forced⟩ :: rest => by
    obtain ⟨element, rfl⟩ := exists_element circuit table element
    obtain ⟨rest, rfl⟩ := exists_nodes circuit table rest
    exact ⟨⟨id, element, inputs, outputs, forced⟩ :: rest, rfl⟩

theorem exists_element
    (circuit : ∀ sub : SubCircuit {x : Expansion // P x}, P (.circuit (sub.map Subtype.val)))
    (table : ∀ t, P (.table t)) : ∀ e : Element Expansion,
      ∃ e' : Element {x : Expansion // P x}, e'.map Subtype.val = e
  | .custom x => ⟨.custom ⟨x, induction circuit table x⟩, rfl⟩
  | .input value => ⟨.input value, rfl⟩
  | .output => ⟨.output, rfl⟩
  | .reduce r => ⟨.reduce r, rfl⟩
  | .not => ⟨.not, rfl⟩
  | .clock m => ⟨.clock m, rfl⟩
  | .flipFlop m => ⟨.flipFlop m, rfl⟩
  | .latch m => ⟨.latch m, rfl⟩
  | .mux => ⟨.mux, rfl⟩
  | .invalid kind reason => ⟨.invalid kind reason, rfl⟩

end

end Expansion

end LogicSim
