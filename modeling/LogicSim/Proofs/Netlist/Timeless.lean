import LogicSim.Netlist.Expansion
import LogicSim.Proofs.Netlist.Shape

/-!
# Passes that do not depend on time

Only a clock reads the time. A netlist is *timeless* if it has no clock that is not forced, and no
custom gate with one inside: then passes at two times are the same, and leave a timeless netlist
(`Netlist.Timeless`).

* `Netlist.Timeless.delayed_eq`, `Netlist.Timeless.immediate_eq`, `Settling.run_eq_of_timeless` --
  passes at two times are the same;
* `SubCircuit.timeless_evaluate` -- so is a custom gate given by a timeless circuit.
-/

namespace LogicSim

variable {ε : Type} {run : ε → Reaction} {i i' : Instant}

/-! ## 1. Reactions and elements -/

/-- **A reaction that does not depend on time.** -/
def Reaction.Timeless (ρ : Reaction) : Prop :=
  ∀ ⦃i i' : Instant⦄, i.settleLimit = i'.settleLimit → ρ i = ρ i'

/-- An element that does not depend on time, custom gates being run in a given way. -/
def Element.Timeless (run : ε → Reaction) : Element ε → Prop
  | .clock _ => False
  | .custom e => (run e).Timeless
  | _ => True

theorem Element.Timeless.evaluate_eq {e : Element ε} (h : e.Timeless run)
    (hi : i.settleLimit = i'.settleLimit) (inputs : List Bool) :
    e.evaluate run i inputs = e.evaluate run i' inputs := by
  cases e with
  | clock m => exact h.elim
  | custom e =>
    have he : run e i = run e i' := h hi
    simp only [evaluate, he]
  | _ => rfl

/-- **An evaluation leaves an element that does not depend on time.** -/
theorem Element.Timeless.evaluate {e e' : Element ε} (h : e.Timeless run) {inputs : List Bool}
    {answer : Answer} (he : e.evaluate run i inputs = .ok (e', answer)) : e'.Timeless run := by
  rcases evaluate_cases he with
    rfl | ⟨m, m', level, rfl, -, rfl, -⟩ | ⟨m, d, level, rfl, -, rfl, -⟩ |
      ⟨m, set, reset, rfl, -, rfl, -⟩
  · exact h
  · exact h.elim
  · trivial
  · trivial

/-! ## 2. Nodes -/

/-- **A node that does not depend on time**: it is forced, or its element does not. -/
def Node.Timeless (run : ε → Reaction) (n : Node ε) : Prop :=
  n.forced = none → n.element.Timeless run

theorem Node.Timeless.react_eq {n : Node ε} (h : n.Timeless run)
    (hi : i.settleLimit = i'.settleLimit) (inputs : List Bool) :
    n.react run i inputs = n.react run i' inputs := by
  unfold react
  cases hforced : n.forced with
  | some value => rfl
  | none =>
    dsimp only
    rw [(h hforced).evaluate_eq hi]

theorem Node.Timeless.react {n : Node ε} (h : n.Timeless run) (i : Instant) (inputs : List Bool) :
    (n.react run i inputs).1.Timeless run := by
  unfold Node.react
  cases hforced : n.forced with
  | some value =>
    intro hfree
    cases hfree
  | none =>
    dsimp only
    split
    next he => exact fun _ => (h hforced).evaluate he
    next => exact fun _ => h hforced

/-! ## 3. Netlists -/

/-- **A netlist that does not depend on time.** -/
def Netlist.Timeless (run : ε → Reaction) (net : Netlist ε) : Prop :=
  ∀ n ∈ net.nodes, n.Timeless run

namespace Netlist

theorem Timeless.node {net : Netlist ε} (h : net.Timeless run) {v : Nat} {n : Node ε}
    (hn : net.nodes[v]? = some n) : n.Timeless run := h n (List.mem_of_getElem? hn)

theorem timeless_iff {net : Netlist ε} :
    net.Timeless run ↔ ∀ (v : Nat) n, net.nodes[v]? = some n → n.Timeless run := by
  constructor
  · exact fun h v n hn => h.node hn
  · intro h n hn
    obtain ⟨v, hv⟩ := List.getElem?_of_mem hn
    exact h v n hv

/-- A change of one node. -/
theorem Timeless.updateNode {net : Netlist ε} (h : net.Timeless run) (v : Nat)
    {f : Node ε → Node ε} (hf : ∀ n, n.Timeless run → (f n).Timeless run) :
    (net.updateNode v f).Timeless run := by
  refine timeless_iff.mpr fun u n hn => ?_
  rw [getElem?_updateNode] at hn
  split at hn
  · obtain ⟨n', hn', rfl⟩ := Option.map_eq_some_iff.mp hn
    exact hf n' (h.node hn')
  · exact h.node hn

/-- Forcing a node keeps the others, and takes the time from that one. -/
theorem timeless_force {net : Netlist ε} {k : Nat}
    (h : ∀ (v : Nat) n, v ≠ k → net.nodes[v]? = some n → n.Timeless run) (level : Bool) :
    (net.force k (some level)).Timeless run := by
  refine timeless_iff.mpr fun v n hn => ?_
  rw [force, getElem?_updateNode] at hn
  split at hn
  · obtain ⟨n', -, rfl⟩ := Option.map_eq_some_iff.mp hn
    intro hfree
    cases hfree
  next hne => exact h v n (Ne.symm hne) hn

theorem Timeless.force {net : Netlist ε} (h : net.Timeless run) (k : Nat) (level : Bool) :
    (net.force k (some level)).Timeless run := timeless_force (fun _ _ _ hn => h.node hn) level

/-- **Delayed passes at two times are the same.** -/
theorem Timeless.delayed_eq {net : Netlist ε} (h : net.Timeless run)
    (hi : i.settleLimit = i'.settleLimit) : net.delayed run i = net.delayed run i' := by
  have hresults : (net.nodes.mapIdx fun v n => n.react run i (net.gather v net.outputAt)) =
      net.nodes.mapIdx fun v n => n.react run i' (net.gather v net.outputAt) := by
    refine List.ext_getElem? fun v => ?_
    rw [List.getElem?_mapIdx, List.getElem?_mapIdx]
    cases hn : net.nodes[v]? with
    | none => rfl
    | some n => exact congrArg some ((h.node hn).react_eq hi _)
  rw [delayed, delayed, hresults]

theorem Timeless.delayed {net : Netlist ε} (h : net.Timeless run) (i : Instant) :
    (net.delayed run i).netlist.Timeless run := by
  refine timeless_iff.mpr fun v n hn => ?_
  rw [getElem?_delayed] at hn
  obtain ⟨n', hn', rfl⟩ := Option.map_eq_some_iff.mp hn
  exact (h.node hn').react i _

theorem visit_eq_of_timeless {schedule : Schedule} {before : Netlist ε} {s : Sweep ε}
    (h : s.netlist.Timeless run) (hi : i.settleLimit = i'.settleLimit) (v : Nat) :
    visit run schedule i before s v = visit run schedule i' before s v := by
  unfold visit
  split
  · rfl
  next n hn =>
    dsimp only
    rw [(h.node hn).react_eq hi]

theorem timeless_visit {schedule : Schedule} {before : Netlist ε} {s : Sweep ε}
    (h : s.netlist.Timeless run) (i : Instant) (v : Nat) :
    (visit run schedule i before s v).netlist.Timeless run := by
  unfold visit
  split
  · exact h
  next n hn => exact h.updateNode v fun _ _ => (h.node hn).react i _

/-- **Immediate passes at two times are the same.** -/
theorem Timeless.immediate_eq {net : Netlist ε} (h : net.Timeless run) (schedule : Schedule)
    (hi : i.settleLimit = i'.settleLimit) :
    net.immediate run schedule i = net.immediate run schedule i' := by
  unfold immediate
  suffices hfold : ∀ (order : List Nat) (s : Sweep ε), s.netlist.Timeless run →
      order.foldl (visit run schedule i net) s = order.foldl (visit run schedule i' net) s from
    hfold schedule.order { netlist := net } h
  intro order
  induction order with
  | nil => exact fun _ _ => rfl
  | cons v order ih =>
    intro s hs
    rw [List.foldl_cons, List.foldl_cons, ← visit_eq_of_timeless hs hi]
    exact ih _ (timeless_visit hs i v)

end Netlist

/-- **Runs of passes at two times are the same.** -/
theorem Settling.run_eq_of_timeless {limit : Nat} {s : Settling ε} (h : s.netlist.Timeless run)
    (hi : i.settleLimit = i'.settleLimit) :
    Settling.run run i limit s = Settling.run run i' limit s := by
  induction limit generalizing s with
  | zero => rfl
  | succ limit ih =>
    have hpass : s.pass run i = s.pass run i' := by
      rw [pass, pass, h.delayed_eq hi]
    have hkept : (s.pass run i).netlist.Timeless run := h.delayed i
    rw [Settling.run, Settling.run, ← hpass, ih hkept]

/-! ## 4. Circuits inside a gate -/

namespace SubCircuit

/-- Putting in signals keeps a circuit timeless. -/
theorem timeless_load {sub : SubCircuit ε} (h : sub.template.Timeless run) (inputs : List Bool) :
    (sub.load inputs).Timeless run := by
  refine List.foldlRecOn (sub.inputs.zip inputs) _
    (motive := fun net : Netlist ε => net.Timeless run) h fun net hnet p _ => ?_
  obtain ⟨binding, value⟩ := p
  cases binding with
  | gate v => exact hnet.updateNode v fun _ _ _ => trivial
  | pin v pin => exact hnet.updateNode v fun _ hn => hn

/-- **A custom gate given by a timeless circuit does not depend on time.** -/
theorem timeless_evaluate {sub : SubCircuit ε} (h : sub.template.Timeless run) :
    (sub.evaluate run).Timeless := by
  intro i i' hi
  funext inputs
  have hload := timeless_load h inputs
  have hsimulate : sub.simulate run i inputs = sub.simulate run i' inputs := by
    unfold simulate
    cases sub.schedule with
    | some schedule =>
      dsimp only
      rw [hload.immediate_eq schedule hi]
    | none =>
      dsimp only [Netlist.settle]
      rw [← hi, Settling.run_eq_of_timeless hload hi]
  rw [evaluate, evaluate, hsimulate]

end SubCircuit

end LogicSim
