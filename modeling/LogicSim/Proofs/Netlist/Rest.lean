import LogicSim.Proofs.Netlist.Quiet

/-!
# Netlists at rest

A netlist is at rest if a delayed pass leaves it as it is, memory and recorded inputs included
(`Netlist.AtRest`). There are two ways to get there:

* by a quiet pass: what it leaves behind is at rest (`Netlist.atRest_of_quiet`);
* by one immediate pass, if no connection is feedback (`Netlist.Resolves.atRest`).

A netlist at rest solves its own equations, so that an immediate pass leaves it as it is too
(`Netlist.AtRest.immediate_eq`).
-/

namespace LogicSim.Netlist

open Dependencies

variable {ε : Type} {run : ε → Reaction} {instant : Instant} {net final : Netlist ε}

/-- **A netlist at rest**: a delayed pass leaves it as it is. -/
def AtRest (run : ε → Reaction) (instant : Instant) (net : Netlist ε) : Prop :=
  (net.delayed run instant).netlist = net

/-- A pass over a netlist at rest is quiet. -/
theorem AtRest.changed_eq (h : net.AtRest run instant) :
    (net.delayed run instant).changed = false :=
  changed_eq_false_iff.mpr fun i => by rw [h]

/-- A netlist is at rest if each of its nodes has reacted to what the netlist shows. -/
theorem atRest_of_reacted (h : net.WellFormed) (hshape : final.shape = net.shape)
    (hnodes : ∀ i : Nat, final.nodes[i]? = net.reactAt run instant i final.outputAt) :
    final.AtRest run instant := by
  have hstays : ∀ i : Nat, (final.delayed run instant).netlist.nodes[i]? = final.nodes[i]? := by
    intro i
    rw [getElem?_delayed]
    cases hn : net.nodes[i]? with
    | none => rw [hnodes, reactAt, hn, Option.map_none, Option.map_none]
    | some n =>
      have hn' : final.nodes[i]? = some (n.react run instant (net.gather i final.outputAt)).1 := by
        rw [hnodes, reactAt, hn, Option.map_some]
      rw [gather_of_recorded h hshape hn hn' (Node.inputs_react ..), hn', Option.map_some,
        Node.inputs_react, Node.react_idem]
  exact congrArg (Netlist.mk · final.connections) (List.ext_getElem? hstays)

/-- **What a quiet pass leaves behind is at rest.** -/
theorem atRest_of_quiet (h : net.WellFormed) (hquiet : (net.delayed run instant).changed = false) :
    (net.delayed run instant).netlist.AtRest run instant := by
  refine atRest_of_reacted h (shape_delayed net) fun i => ?_
  rw [getElem?_delayed, outputAt_of_quiet hquiet, reactAt]

/-- **An immediate pass without feedback comes to rest.** -/
theorem Resolves.atRest (hr : net.Resolves run instant final) (h : net.WellFormed)
    (hshape : final.shape = net.shape)
    (hforward : ∀ k ∈ net.connections, net.dependencies.isFeedback k.source k.sink = false) :
    final.AtRest run instant := by
  refine atRest_of_reacted h hshape fun i => ?_
  rw [((resolves_iff_react h).mp hr).2]
  refine reactAt_congr fun k hk hsink => ?_
  rw [readResolved, ← hsink, hforward k hk]
  rfl

/-- A netlist at rest solves its own equations. -/
theorem AtRest.resolves (h : net.AtRest run instant) (hwell : net.WellFormed) :
    net.Resolves run instant net := by
  refine (resolves_iff_react hwell).mpr ⟨rfl, fun i => ?_⟩
  have hread : net.readResolved net i = net.outputAt := by
    funext source pin
    exact ite_self _
  rw [hread, reactAt, ← getElem?_delayed, h]

/-- **An immediate pass leaves a netlist at rest as it is.** -/
theorem AtRest.immediate_eq (h : net.AtRest run instant) (hwell : net.WellFormed)
    {schedule : Schedule} (hs : net.dependencies.schedule = .ok schedule) :
    (net.immediate run schedule instant).netlist = net := by
  obtain ⟨hd, horder⟩ := isOrder_of_schedule (fun v w => lt_of_mem_dependencies hwell) hs
  exact (resolves_immediate hwell hd horder).unique hwell horder (h.resolves hwell)

end LogicSim.Netlist
