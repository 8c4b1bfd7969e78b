import LogicSim.Proofs.Service.Changes
import LogicSim.Proofs.Service.Settled

/-!
# What a delayed pass compares with

A delayed pass reports whether it has changed any output. It compares the outputs that it ends with
to those that its netlist starts from, and these are not always the outputs stored in the circuit:
an input gate starts from one signal, a flip-flop or latch from its memory, and a gate that stores
fewer outputs than it has pins from low signals at the others (`Gate.startOutputs`). So the report is
about the circuit given exactly if that circuit stores what the pass starts from
(`Evaluator.delayed_compares`). A new flip-flop does not: its memory has a high complement, its
outputs are low.
-/

namespace LogicSim

open Netlist

variable {ε : Type} {run : ε → Reaction} {instant : Instant}
  {compile : Definition → Except String ε} {c : Circuit Definition} {net : Netlist ε}

/-! ## 1. The outputs that a pass starts from -/

/-- The outputs that a pass starts from. -/
def Gate.startOutputs (g : Gate Definition) : List Bool :=
  match g.kind with
  | .input => [g.output]
  | .flipFlop | .latch => g.remembered
  | _ => Signal.resize g.outputs g.outputCount

namespace Circuit

/-- The outputs stored in a circuit, gate by gate. -/
def shown (c : Circuit Definition) : List (List Bool) := c.gates.map (·.outputs)

/-- The outputs that a pass over a circuit starts from, gate by gate. -/
def starts (c : Circuit Definition) : List (List Bool) := c.gates.map Gate.startOutputs

/-- **A circuit that stores what a pass starts from.** -/
def Seeded (c : Circuit Definition) : Prop := c.shown = c.starts

instance (c : Circuit Definition) : Decidable c.Seeded :=
  inferInstanceAs (Decidable (c.shown = c.starts))

end Circuit

theorem Element.startOutputs_ofGate (compile : Definition → Except String ε) (g : Gate Definition) :
    (ofGate compile g).startOutputs g = g.startOutputs := by
  rw [startOutputs_eq, Gate.startOutputs]
  cases hk : g.kind with
  | flipFlop => rw [recorded_ofGate (.inl hk)]; rfl
  | latch => rw [recorded_ofGate (.inr hk)]; rfl
  | custom =>
    rw [ofGate, hk]
    dsimp only
    cases g.metadata.definition with
    | none => rfl
    | some d =>
      dsimp only
      cases compile d <;> rfl
  | _ => rw [ofGate, hk]; rfl

/-- **A gate that relapses** is read back with other signals than a pass has left. -/
theorem Node.Lasting.outputs_reseed_react {g : Gate Definition} {n : Node ε}
    (h : n.Lasting compile g) (hrelapses : g.Relapses) {inputs : List Bool}
    (hinputs : inputs.length = n.inputs.length) :
    (n.react run instant inputs).1.reseed.outputs ≠ (n.react run instant inputs).1.outputs := by
  obtain ⟨hover, hne⟩ := hrelapses
  obtain ⟨fault, hfault⟩ : ∃ fault, n.element.evaluate run instant inputs = .error fault :=
    h.evaluate hover hinputs
  have hread : (n.react run instant inputs).1.reseed.outputs = g.remembered := by
    rw [reseed, (h.react hinputs).element hover, Element.recorded_ofGate hover.1, Option.getD_some]
  rw [hread, react_of_error h.kept.forced hfault]
  intro hlow
  have hlength : n.outputs.length = 2 :=
    List.length_replicate.symm.trans (congrArg List.length hlow).symm
  exact hne (hlow.trans (by rw [hlength]; rfl))

namespace Netlist

/-- What the nodes show, in order. -/
def shown (net : Netlist ε) : List (List Bool) := net.nodes.map (·.outputs)

/-- **A netlist starts from the start outputs of the gates.** -/
theorem shown_assemble (compile : Definition → Except String ε) (c : Circuit Definition) :
    (assemble compile c).shown = c.starts := by
  rw [shown, assemble, Circuit.starts, List.map_map]
  exact List.map_congr_left fun g _ => Element.startOutputs_ofGate compile g

/-- The circuit that comes back stores what the netlist shows. -/
theorem shown_writeBack (hlength : net.nodes.length = c.gates.length) :
    (net.writeBack c).shown = net.shown := by
  refine List.ext_getElem? fun i => ?_
  rw [Circuit.shown, List.getElem?_map, outputs_writeBack hlength, shown, List.getElem?_map]
  rfl

/-- **A delayed pass reports no change if its netlist shows what it has shown before.** -/
theorem changed_delayed_eq_false_iff :
    (net.delayed run instant).changed = false ↔
      (net.delayed run instant).netlist.shown = net.shown := by
  rw [changed_eq_false_iff, List.ext_getElem?_iff]
  simp only [shown, List.getElem?_map]

/-- What a pass over the circuit that comes back starts from. -/
theorem Kept.starts_writeBack (h : net.Kept compile c) :
    (net.writeBack c).starts = net.reseed.shown := by
  rw [← shown_assemble compile, h.assemble_writeBack]

/-- **A circuit that a pass returns stores what the next one starts from**, unless a gate relapses. -/
theorem Lasting.seeded_delayed_iff (h : net.Lasting compile c) :
    ((net.delayed run instant).netlist.writeBack c).Seeded ↔ ∀ g ∈ c.gates, ¬ g.Relapses := by
  have hkept : (net.delayed run instant).netlist.Kept compile c := h.kept.delayed
  rw [Circuit.Seeded, shown_writeBack (length_of_assemble hkept.shape), hkept.starts_writeBack]
  refine ⟨fun heq g hg hrelapses => ?_, fun hstays => by rw [h.reseed_delayed hstays]⟩
  obtain ⟨i, hi⟩ := List.getElem?_of_mem hg
  obtain ⟨n, hn, -⟩ := h.kept.exists_node hi
  have hne : (n.react run instant (net.gather i net.outputAt)).1.reseed.outputs ≠
      (n.react run instant (net.gather i net.outputAt)).1.outputs :=
    (h.node i g n hi hn).outputs_reseed_react hrelapses (length_gather hn _)
  have hread := congrArg (·[i]?) heq
  simp only [shown, reseed, List.getElem?_map, getElem?_delayed, hn, Option.map_some,
    Option.some.injEq] at hread
  exact hne hread.symm

end Netlist

/-! ## 2. The report of a delayed evaluation -/

namespace Evaluator

/-- **What the report of a delayed evaluation says.** It compares the circuit that comes back with
what the pass starts from. This tells whether that circuit differs from the one given exactly if the
given one stores what the pass starts from, or differs from it anyway; and the circuit that comes back
stores it unless it has a gate that relapses. -/
theorem delayed_compares (e : Evaluator) (c : Circuit Definition) (now : UInt64)
    (hcheck : c.check = []) :
    let r := e.delayed c now
    r.succeeded = true ∧
    r.changed = some (decide (r.circuit.shown ≠ c.starts)) ∧
    ((r.changed = some false ↔ r.circuit.shown = c.shown) ↔
      c.Seeded ∨ (r.circuit.shown ≠ c.starts ∧ r.circuit.shown ≠ c.shown)) ∧
    (r.circuit.Seeded ↔ ∀ g ∈ c.gates, ¬ g.Relapses) := by
  intro r
  have hc := Circuit.check_eq_nil_iff.mp hcheck
  have hr : r = finish c ((e.assemble c).delayed Expansion.react (e.instant now))
      (some ((e.assemble c).delayed Expansion.react (e.instant now)).changed) :=
    delayed_of_valid hc e now
  have hlasting : (e.assemble c).Lasting (Definition.compile e.deepest e.deepest) c :=
    lasting_assemble _ c
  have hshown : r.circuit.shown =
      ((e.assemble c).delayed Expansion.react (e.instant now)).netlist.shown := by
    rw [hr]
    exact shown_writeBack (length_of_assemble hlasting.delayed.kept.shape)
  have hchanged : r.changed = some (decide (r.circuit.shown ≠ c.starts)) := by
    rw [hshown, ← shown_assemble (Definition.compile e.deepest e.deepest), hr]
    refine congrArg some (Bool.eq_iff_iff.mpr ?_)
    rw [decide_eq_true_iff, Ne, ← Bool.not_eq_false, changed_delayed_eq_false_iff]
    rfl
  refine ⟨hr ▸ rfl, hchanged, ?_, ?_⟩
  · rw [hchanged, Option.some.injEq, decide_eq_false_iff_not, not_not, Circuit.Seeded]
    constructor
    · intro h
      by_cases hsame : r.circuit.shown = c.starts
      · exact .inl ((h.mp hsame).symm.trans hsame)
      · exact .inr ⟨hsame, mt h.mpr hsame⟩
    · rintro (h | ⟨hstarts, hgiven⟩)
      · rw [h]
      · exact iff_of_false hstarts hgiven
  · rw [hr]
    exact hlasting.seeded_delayed_iff

/-- A half adder stores what a pass starts from, so that the report compares it with what comes
back. -/
theorem delayed_compares_halfAdder :
    let c := Circuit.halfAdder true true
    let r := ({} : Evaluator).delayed c 0
    c.check = [] ∧ c.Seeded ∧ (r.changed = some false ↔ r.circuit.shown = c.shown) ∧
      r.circuit.Seeded := by
  obtain ⟨-, -, hgiven, hseeded⟩ := delayed_compares {} (Circuit.halfAdder true true) 0 (by decide)
  exact ⟨by decide, by decide, hgiven.mpr (.inl (by decide)), hseeded.mpr (by decide)⟩

/-- **A new flip-flop** comes back with a high complement, which a delayed evaluation does not report
as a change. -/
theorem delayed_new_flipFlop :
    let c : Circuit Definition := { gates := [.new "FF" .flipFlop] }
    let r := ({} : Evaluator).delayed c 0
    c.check = [] ∧ r.changed = some false ∧ c.shown = [[false, false]] ∧
      r.circuit.shown = [[false, true]] := by
  exact ⟨by decide, rfl, rfl, rfl⟩

end Evaluator

end LogicSim
