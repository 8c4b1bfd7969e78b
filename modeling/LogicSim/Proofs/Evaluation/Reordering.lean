import LogicSim.Circuit.Samples
import LogicSim.Proofs.Netlist.Signals

/-!
# The order of gates and wires

Evaluating a circuit whose gates and wires are written in another order gives the same, by
identifier: the same gates and wires, the same word on changes, and the same warnings in some order
(`Evaluator.agrees_of_perm`).

The order of the list of gates shows in the numbers of the nodes, in the components and in the
schedule. None of them is compared here. A gate sees what its wires carry (`Circuit.seen_perm`), so
that a delayed pass makes the same of it; and an immediate pass arrives at the only solution of
equations that mention no order (`Circuit.Solves`).
-/

namespace LogicSim

open Netlist

variable {ε : Type} {run : ε → Reaction} {instant : Instant} {c c' : Circuit Definition}
  {compile : Definition → Except String ε}

/-! ## 1. Gates -/

namespace Circuit

/-- What a gate sees does not depend on an order. -/
theorem seen_perm (hc : c.Valid) (hwires : c.wires.Perm c'.wires) (read : GateId → Nat → Bool)
    (id : GateId) (stored : List Bool) : c'.seen read id stored = c.seen read id stored := by
  refine List.ext_getElem? fun pin => ?_
  have hfind : c'.wires.find? (·.drives id pin) = c.wires.find? (·.drives id pin) :=
    (find?_perm hwires fun u hu w hw => hc.eq_of_drives hu hw).symm
  rw [getElem?_seen, getElem?_seen, hfind]

theorem startState_perm (hc : c.Valid) (hgates : c.gates.Perm c'.gates)
    (hwires : c.wires.Perm c'.wires) {g : Gate Definition} (hg : g ∈ c.gates) :
    c'.startState compile g.id = c.startState compile g.id := by
  rw [startState_eq hc hg, startState_eq (hc.perm hgates hwires) (hgates.mem_iff.mp hg)]

/-- **A delayed pass makes the same of a gate.** -/
theorem reaction_perm (hc : c.Valid) (hgates : c.gates.Perm c'.gates)
    (hwires : c.wires.Perm c'.wires) {g : Gate Definition} (hg : g ∈ c.gates) :
    c'.reaction run instant (c'.startState compile) g.id =
      c.reaction run instant (c.startState compile) g.id := by
  have hread : ∀ w ∈ c.wires,
      shown (c'.startState compile) w.source.gate w.source.outputPin =
        shown (c.startState compile) w.source.gate w.source.outputPin := by
    intro w hw
    obtain ⟨g', hg', hid, -⟩ := hc.source w hw
    rw [← hid, shown, shown, startState_perm hc hgates hwires hg']
  rw [reaction, reaction, startState_perm hc hgates hwires hg, seen_perm hc hwires,
    seen_congr hread]

end Circuit

/-! ## 2. The circuits that come back -/

/-- **Two evaluations of a circuit agree**: on each gate and each wire, by identifier, on whether
    anything changed and, up to their order, on the warnings. -/
structure Evaluation.Agrees (c : Circuit Definition) (a b : Evaluation) : Prop where
  gate : ∀ g ∈ c.gates, ∃ r, a.circuit.gate? g.id = some r ∧ b.circuit.gate? g.id = some r
  wire : ∀ w ∈ c.wires, ∃ r, a.circuit.wire? w.id = some r ∧ b.circuit.wire? w.id = some r
  changed : a.changed = b.changed
  warnings : a.warnings.Perm b.warnings

/-- Netlists with the same node for each gate return the same gates and wires. -/
theorem Evaluator.agrees_finish (hc : c.Valid) (hgates : c.gates.Perm c'.gates)
    (hwires : c.wires.Perm c'.wires) {s s' : Sweep Expansion} {changed changed' : Option Bool}
    (hrealizes : s.netlist.Realizes c) (hrealizes' : s'.netlist.Realizes c')
    {after after' : GateId → Node Expansion} (hhas : s.netlist.Has c after)
    (hhas' : s'.netlist.Has c' after') (hsame : ∀ g ∈ c.gates, after' g.id = after g.id)
    (hchanged : changed = changed') (hwarnings : s.warnings.Perm s'.warnings) :
    (finish c s changed).Agrees c (finish c' s' changed') := by
  have hc' := hc.perm hgates hwires
  refine ⟨fun g hg => ?_, fun w hw => ?_, hchanged, hwarnings⟩
  · obtain ⟨i, hi⟩ := List.getElem?_of_mem hg
    obtain ⟨j, hj⟩ := List.getElem?_of_mem (hgates.mem_iff.mp hg)
    refine ⟨_, gate?_writeBack hc.gateIds hi (hhas.node hi), ?_⟩
    rw [← hsame g hg]
    exact gate?_writeBack hc'.gateIds hj (hhas'.node hj)
  · obtain ⟨g, hg, hid, -⟩ := hc.source w hw
    refine ⟨_, wire?_writeBack hc hrealizes hhas hw, ?_⟩
    rw [finish, wire?_writeBack hc' hrealizes' hhas' (hwires.mem_iff.mp hw), ← hid, shown, shown,
      hsame g hg]

/-! ## 3. Evaluations -/

namespace Evaluator

/-- **The order does not matter to a delayed evaluation.** -/
theorem delayed_agrees (hc : c.Valid) (hgates : c.gates.Perm c'.gates)
    (hwires : c.wires.Perm c'.wires) (e : Evaluator) (now : UInt64) :
    (e.delayed c now).Agrees c (e.delayed c' now) := by
  have hc' := hc.perm hgates hwires
  have hreaction : ∀ g ∈ c.gates, c'.reaction Expansion.react (e.instant now)
      (c'.startState (Definition.compile e.deepest e.deepest)) g.id =
        c.reaction Expansion.react (e.instant now)
          (c.startState (Definition.compile e.deepest e.deepest)) g.id :=
    fun g hg => Circuit.reaction_perm hc hgates hwires hg
  rw [delayed_of_valid hc, delayed_of_valid hc']
  refine agrees_finish hc hgates hwires ((realizes_assemble hc).of_shape (shape_delayed _))
    ((realizes_assemble hc').of_shape (shape_delayed _))
    (has_delayed hc (e.shape_assemble c) (Circuit.has_startState hc))
    (has_delayed hc' (e.shape_assemble c') (Circuit.has_startState hc'))
    (fun g hg => congrArg Prod.fst (hreaction g hg)) (congrArg some ?_) ?_
  · rw [changed_delayed hc (e.shape_assemble c) (Circuit.has_startState hc),
      changed_delayed hc' (e.shape_assemble c') (Circuit.has_startState hc'), ← hgates.any_eq,
      Bool.eq_iff_iff, List.any_eq_true, List.any_eq_true]
    refine exists_congr fun g => and_congr_right fun hg => ?_
    rw [hreaction g hg, Circuit.startState_perm hc hgates hwires hg]
  · rw [warnings_delayed hc (e.shape_assemble c) (Circuit.has_startState hc),
      warnings_delayed hc' (e.shape_assemble c') (Circuit.has_startState hc')]
    refine List.Perm.trans (.of_eq ?_) (hgates.flatMap_right _)
    exact List.flatMap_congr fun g hg => congrArg Prod.snd (hreaction g hg).symm

/-- **The order does not matter to an immediate evaluation** that takes place. -/
theorem immediate_agrees (hc : c.Valid) (hcycle : ¬ c.CombinationalCycle)
    (hgates : c.gates.Perm c'.gates) (hwires : c.wires.Perm c'.wires) (e : Evaluator)
    (now : UInt64) : (e.immediate c now).Agrees c (e.immediate c' now) := by
  have hc' := hc.perm hgates hwires
  have hcycle' : ¬ c'.CombinationalCycle :=
    fun h => hcycle ((Circuit.combinationalCycle_perm hgates hwires).mp h)
  obtain ⟨s, after, hs, hrealizes, hhas, hsolves, hwarnings⟩ := exists_immediate hc hcycle e now
  obtain ⟨s', after', hs', hrealizes', hhas', hsolves', hwarnings'⟩ :=
    exists_immediate hc' hcycle' e now
  have hstart : ∀ g ∈ c.gates, c'.startState (Definition.compile e.deepest e.deepest) g.id =
      c.startState (Definition.compile e.deepest e.deepest) g.id :=
    fun g hg => Circuit.startState_perm hc hgates hwires hg
  -- both states solve the equations of `c'`
  have hsame : ∀ g ∈ c.gates, after' g.id = after g.id := by
    intro g hg
    have hshape : ∀ g ∈ c'.gates, (c'.startState (Definition.compile e.deepest e.deepest)
        g.id).shape = (Node.ofGate (Definition.compile e.deepest e.deepest) g).shape :=
      fun g hg => by rw [Circuit.startState_eq hc' hg]
    exact Circuit.Solves.unique hc' hcycle' hshape hsolves'
      (hsolves.perm hgates hwires hstart hc) g (hgates.mem_iff.mp hg)
  rw [hs, hs']
  refine agrees_finish hc hgates hwires hrealizes hrealizes' hhas hhas' hsame rfl ?_
  refine hwarnings.trans (List.Perm.trans ?_ hwarnings'.symm)
  refine List.Perm.trans (.of_eq ?_) (hgates.flatMap_right _)
  refine List.flatMap_congr fun g hg => ?_
  rw [hstart g hg, hsame g hg]

/-- An immediate evaluation of a valid circuit fails only at a combinational cycle. -/
theorem immediate_fails_iff (hc : c.Valid) (e : Evaluator) (now : UInt64) :
    ((e.immediate c now).problems.map (·.kind) = [.circularDependency] ↔ c.CombinationalCycle) ∧
      ((e.immediate c now).succeeded = true ↔ ¬ c.CombinationalCycle) := by
  have hiff := Netlist.schedule_iff hc (e.shape_assemble c)
  cases hs : (e.assemble c).dependencies.schedule with
  | ok schedule =>
    have hcycle := hiff.mp ⟨schedule, hs⟩
    rw [immediate_of_schedule hc e now hs]
    exact ⟨⟨fun h => (by cases h), fun h => absurd h hcycle⟩, fun _ => hcycle, fun _ => rfl⟩
  | error cycle =>
    have hcycle : c.CombinationalCycle := by
      by_contra h
      obtain ⟨schedule, hs'⟩ := hiff.mpr h
      rw [hs] at hs'
      cases hs'
    rw [immediate_of_cycle hc e now hs]
    exact ⟨⟨fun _ => hcycle, fun _ => rfl⟩, fun h => (by cases h), fun h => absurd hcycle h⟩

/-- **Results do not depend on the order of gates and wires.** An immediate evaluation stops at a
    cycle in both orders or in none; if it succeeds, and in a delayed evaluation anyway, the results
    agree gate by gate and wire by wire. -/
theorem agrees_of_perm (hcheck : c.check = []) (hgates : c.gates.Perm c'.gates)
    (hwires : c.wires.Perm c'.wires) (e : Evaluator) (now : UInt64) :
    ((e.immediate c now).problems.map (·.kind) = [.circularDependency] ↔
      (e.immediate c' now).problems.map (·.kind) = [.circularDependency]) ∧
    ((e.immediate c now).succeeded = true ↔ (e.immediate c' now).succeeded = true) ∧
    ((e.immediate c now).succeeded = true → (e.immediate c now).Agrees c (e.immediate c' now)) ∧
    (e.delayed c now).succeeded = true ∧ (e.delayed c' now).succeeded = true ∧
    (e.delayed c now).Agrees c (e.delayed c' now) := by
  have hc := Circuit.check_eq_nil_iff.mp hcheck
  have hc' := hc.perm hgates hwires
  have hcycle := Circuit.combinationalCycle_perm hgates hwires
  obtain ⟨hcircular, hsucceeded⟩ := immediate_fails_iff hc e now
  obtain ⟨hcircular', hsucceeded'⟩ := immediate_fails_iff hc' e now
  refine ⟨by rw [hcircular, hcircular', hcycle], by rw [hsucceeded, hsucceeded', hcycle],
    fun h => immediate_agrees hc (hsucceeded.mp h) hgates hwires e now, ?_, ?_,
    delayed_agrees hc hgates hwires e now⟩
  · rw [delayed_of_valid hc]
    rfl
  · rw [delayed_of_valid hc']
    rfl

/-- A circuit with a loop through its flip-flop gives the same when it is written backwards. -/
theorem agrees_toggle_reverse :
    ∃ c : Circuit Definition, c.gates = (Circuit.toggle 1).gates.reverse ∧
      c.wires = (Circuit.toggle 1).wires.reverse ∧
      (Evaluator.immediate {} (Circuit.toggle 1) 1500).Agrees (Circuit.toggle 1)
        (Evaluator.immediate {} c 1500) ∧
      (Evaluator.delayed {} (Circuit.toggle 1) 1500).Agrees (Circuit.toggle 1)
        (Evaluator.delayed {} c 1500) := by
  have hreversed : ∃ c : Circuit Definition, c.gates = (Circuit.toggle 1).gates.reverse ∧
      c.wires = (Circuit.toggle 1).wires.reverse := ⟨⟨_, _⟩, rfl, rfl⟩
  obtain ⟨c, hgates, hwires⟩ := hreversed
  have hcheck : (Circuit.toggle 1).check = [] := rfl
  obtain ⟨-, -, himmediate, -, -, hdelayed⟩ := agrees_of_perm hcheck
    (hgates ▸ (List.reverse_perm _).symm) (hwires ▸ (List.reverse_perm _).symm) {} 1500
  exact ⟨c, hgates, hwires, himmediate rfl, hdelayed⟩

end Evaluator

end LogicSim
