import LogicSim.Proofs.Netlist.Resolution

/-!
# Quiet passes

A delayed pass that changes no output leaves a netlist that a further pass leaves as it is: not only
outputs but memory and recorded inputs are at rest. If one node is then forced, the next pass moves
that node and nothing else.

* `Element.evaluate_idem` -- on the same inputs an element does the same a second time;
* `Netlist.delayed_force_of_quiet` -- the pass after a quiet one, with one node forced.
-/

namespace LogicSim

variable {ε : Type} {run : ε → Reaction} {instant : Instant}

/-! ## 1. Memory -/

/-- A clock that was evaluated has its start, and shows the same at the same time. -/
theorem ClockMemory.tick_idem {m m' : ClockMemory} {now : UInt64} {level : Bool}
    (h : m.tick now = .ok (m', level)) : m'.tick now = .ok (m', level) := by
  unfold tick at h
  split at h
  next hstopped =>
    obtain ⟨rfl, rfl⟩ := Prod.ext_iff.mp (Except.ok.inj h)
    rw [tick, if_pos hstopped]
  next hrunning =>
    split at h
    · cases h
    next hfrequency =>
      obtain ⟨rfl, rfl⟩ := Prod.ext_iff.mp (Except.ok.inj h)
      rw [tick, if_neg hrunning, if_neg hfrequency]
      rfl

/-- Without a change of the clock there is no edge. -/
theorem FlipFlopMemory.next_idem (m : FlipFlopMemory) (d level : Bool) :
    (m.next d level).next d level = m.next d level := by
  obtain ⟨previous, q, qBar⟩ := m
  cases previous <;> cases level <;> rfl

theorem LatchMemory.next_idem (m : LatchMemory) (set reset : Bool) :
    (m.next set reset).next set reset = m.next set reset := by
  cases set <;> cases reset <;> rfl

/-- **On the same inputs an element does the same a second time.** -/
theorem Element.evaluate_idem {e e' : Element ε} {inputs : List Bool} {answer : Answer}
    (h : e.evaluate run instant inputs = .ok (e', answer)) :
    e'.evaluate run instant inputs = .ok (e', answer) := by
  rcases evaluate_cases h with
    rfl | ⟨m, m', level, rfl, ht, rfl, rfl⟩ | ⟨m, d, level, rfl, rfl, rfl, rfl⟩ |
      ⟨m, set, reset, rfl, rfl, rfl, rfl⟩
  · exact h
  · simp only [evaluate]
    rw [ClockMemory.tick_idem ht]
    rfl
  · simp only [evaluate]
    rw [FlipFlopMemory.next_idem]
  · simp only [evaluate]
    rw [LatchMemory.next_idem]

/-! ## 2. Nodes -/

theorem forceFirst_idem (value : Bool) (outputs : List Bool) :
    forceFirst value (forceFirst value outputs) = forceFirst value outputs := by
  cases outputs <;> rfl

/-- **A node that sees the same twice stays as it is.** -/
theorem Node.react_idem (n : Node ε) (inputs : List Bool) :
    ((n.react run instant inputs).1.react run instant inputs).1 =
      (n.react run instant inputs).1 := by
  obtain ⟨id, e, stored, outputs, forced⟩ := n
  cases forced with
  | some value => simp only [react, forceFirst_idem]
  | none =>
    cases he : e.evaluate run instant inputs with
    | ok result =>
      obtain ⟨e', answer⟩ := result
      simp only [react, he, Element.evaluate_idem he, Signal.length_resize]
    | error fault => simp only [react, he, List.length_replicate]

/-! ## 3. Netlists -/

namespace Netlist

/-- **A pass is quiet if every node shows after it what it showed before.** -/
theorem changed_eq_false_iff {net : Netlist ε} : (net.delayed run instant).changed = false ↔
    ∀ i : Nat, (net.delayed run instant).netlist.nodes[i]?.map (·.outputs) =
      net.nodes[i]?.map (·.outputs) := by
  rw [delayed, List.any_eq_false]
  constructor
  · intro hquiet i
    rw [List.getElem?_map, List.getElem?_mapIdx]
    cases hn : net.nodes[i]? with
    | none => rfl
    | some n =>
      have hmem : (n, n.react run instant (net.gather i net.outputAt)) ∈ net.nodes.zip
          (net.nodes.mapIdx fun i n => n.react run instant (net.gather i net.outputAt)) := by
        refine List.mem_of_getElem? (i := i) ?_
        rw [List.getElem?_zip_eq_some, List.getElem?_mapIdx, hn]
        exact ⟨rfl, rfl⟩
      have := hquiet _ hmem
      simp only [bne_iff_ne, ne_eq, not_not] at this
      exact congrArg some this.symm
  · rintro hquiet ⟨n, after⟩ hmem
    obtain ⟨i, hi⟩ := List.getElem?_of_mem hmem
    obtain ⟨hn, hafter⟩ := List.getElem?_zip_eq_some.mp hi
    have hi := hquiet i
    rw [List.getElem?_map, hafter, hn] at hi
    simpa using (Option.some.inj hi).symm

/-- What a netlist shows is read from the outputs of its nodes. -/
theorem outputAt_of_outputs {net net' : Netlist ε} {i : Nat}
    (h : net'.nodes[i]?.map (·.outputs) = net.nodes[i]?.map (·.outputs)) (pin : Nat) :
    net'.outputAt i pin = net.outputAt i pin := by
  have hread : ∀ net : Netlist ε, net.outputAt i pin =
      ((net.nodes[i]?.map (·.outputs)).bind (·[pin]?)).getD false := by
    intro net
    rw [outputAt]
    cases net.nodes[i]? <;> rfl
  rw [hread, hread, h]

/-- In a quiet pass what is read does not change. -/
theorem outputAt_of_quiet {net : Netlist ε} (hquiet : (net.delayed run instant).changed = false) :
    (net.delayed run instant).netlist.outputAt = net.outputAt := by
  funext i pin
  exact outputAt_of_outputs (changed_eq_false_iff.mp hquiet i) pin

/-- A node that has recorded what it sees sees it again. -/
theorem gather_of_recorded {net net' : Netlist ε} (h : net.WellFormed)
    (hshape : net'.shape = net.shape) {i : Nat} {n n' : Node ε} (hn : net.nodes[i]? = some n)
    (hn' : net'.nodes[i]? = some n') {read : Nat → Nat → Bool}
    (hrecorded : n'.inputs = net.gather i read) : net'.gather i read = n'.inputs := by
  have hsees := sees_gather h hn read
  rw [← hrecorded] at hsees
  refine ((sees_iff (h.of_shape hshape) hn').mp ⟨rfl, fun k hk => ?_, fun _ _ => rfl⟩).symm
  exact hsees.driven k (connections_of_shape hshape ▸ hk)

@[simp] theorem outputAt_force (net : Netlist ε) (i : Nat) (value : Option Bool) :
    (net.force i value).outputAt = net.outputAt := by
  funext j pin
  rw [outputAt, outputAt, force, getElem?_updateNode]
  split
  · cases net.nodes[j]? <;> rfl
  · rfl

theorem gather_force (net : Netlist ε) (i j : Nat) (value : Option Bool)
    (read : Nat → Nat → Bool) : (net.force i value).gather j read = net.gather j read := by
  refine gather_eq (connections_of_shape (shape_force net i value)) ?_ read
  rw [force, getElem?_updateNode]
  split
  · cases net.nodes[j]? <;> rfl
  · rfl

/-- **After a quiet pass, forcing a node moves that node and nothing else.** -/
theorem delayed_force_of_quiet {net : Netlist ε} (h : net.WellFormed)
    (hquiet : (net.delayed run instant).changed = false) (i : Nat) (value : Bool) :
    (((net.delayed run instant).netlist.force i (some value)).delayed run instant).netlist =
      (net.delayed run instant).netlist.updateNode i fun n =>
        { n with forced := some value, outputs := forceFirst value n.outputs } := by
  have hnodes : ∀ j : Nat,
      (((net.delayed run instant).netlist.force i (some value)).delayed run instant).netlist.nodes[j]? =
        ((net.delayed run instant).netlist.updateNode i fun n =>
          { n with forced := some value, outputs := forceFirst value n.outputs }).nodes[j]? := by
    intro j
    rw [getElem?_delayed, outputAt_force, gather_force, outputAt_of_quiet hquiet, force,
      getElem?_updateNode, getElem?_updateNode]
    cases hn : net.nodes[j]? with
    | none =>
      rw [getElem?_delayed, hn]
      split <;> rfl
    | some n =>
      have hn' : (net.delayed run instant).netlist.nodes[j]? =
          some (n.react run instant (net.gather j net.outputAt)).1 := by
        rw [getElem?_delayed, hn, Option.map_some]
      rw [gather_of_recorded h (shape_delayed net) hn hn' (Node.inputs_react ..), hn',
        Node.inputs_react]
      split
      · rw [Option.map_some, Option.map_some, Option.map_some, Node.react]
        exact congrArg some (by rw [Node.inputs_react])
      · rw [Option.map_some, Node.react_idem]
  exact congrArg (Netlist.mk · net.connections) (List.ext_getElem? hnodes)

end Netlist

end LogicSim
