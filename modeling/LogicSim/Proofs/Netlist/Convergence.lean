import LogicSim.Proofs.Graph.Depth
import LogicSim.Proofs.Netlist.Settling

/-!
# Delayed passes converge to an immediate pass

In a netlist without flip-flops and latches what a node shows after a delayed pass depends only on
what it sees in that pass (`Netlist.respond_after`): a clock that has found its start shows the same
at the same time. An immediate pass shows what such responses agree on (`Netlist.Resolves.outputs`).
A node of depth `k` has come to show it after `k + 1` passes, whatever was stored
(`Netlist.outputs_after`), because its drivers have one pass earlier; loops through inputs or clocks
do not matter, as these look at nothing.
-/

namespace LogicSim

variable {ε : Type} {run : ε → Reaction} {instant : Instant}

/-! ## 1. Elements without a memory of their inputs -/

namespace Element

/-- Whether an element remembers what it saw. -/
def remembers : Element ε → Bool
  | .flipFlop _ | .latch _ => true
  | _ => false

/-- **An element that does not remember its inputs answers as if it had not been evaluated.** -/
theorem answer_of_evaluate {e e' : Element ε} {inputs : List Bool} {answer : Answer}
    (h : e.evaluate run instant inputs = .ok (e', answer)) (he : e.remembers = false) :
    e'.remembers = false ∧ ∀ inputs' : List Bool,
      (e'.evaluate run instant inputs').map (·.2) = (e.evaluate run instant inputs').map (·.2) := by
  rcases evaluate_cases h with
    rfl | ⟨m, m', level, rfl, ht, rfl, -⟩ | ⟨m, d, level, rfl, -⟩ | ⟨m, set, reset, rfl, -⟩
  · exact ⟨he, fun _ => rfl⟩
  · refine ⟨rfl, fun inputs' => ?_⟩
    simp only [evaluate]
    rw [ht, ClockMemory.tick_idem ht]
  · cases he
  · cases he

/-- Inputs and clocks do not look at what they see. -/
theorem evaluate_of_source {e : Element ε} (hseq : e.isSequential = true)
    (he : e.remembers = false) (inputs inputs' : List Bool) :
    e.evaluate run instant inputs = e.evaluate run instant inputs' := by
  cases e with
  | input value => rfl
  | clock m => rfl
  | flipFlop m => cases he
  | latch m => cases he
  | _ => cases hseq

end Element

/-! ## 2. Nodes -/

namespace Node

/-- What a node shows after a pass in which it sees the given signals. -/
def response (run : ε → Reaction) (instant : Instant) (n : Node ε) (inputs : List Bool) :
    List Bool := (n.react run instant inputs).1.outputs

/-- What a node shows is decided by what its element answers. -/
theorem response_eq (n : Node ε) (inputs : List Bool) : n.response run instant inputs =
    match n.forced with
    | some value => forceFirst value n.outputs
    | none => match (n.element.evaluate run instant inputs).map (·.2) with
      | .ok answer => Signal.resize answer.outputs n.outputs.length
      | .error _ => List.replicate n.outputs.length false := by
  rw [response, react]
  cases n.forced with
  | some value => rfl
  | none => cases n.element.evaluate run instant inputs <;> rfl

/-- Inputs and clocks show the same whatever they see. -/
theorem response_of_source {n : Node ε} (hseq : n.element.isSequential = true)
    (hn : n.element.remembers = false) (inputs inputs' : List Bool) :
    n.response run instant inputs = n.response run instant inputs' := by
  rw [response_eq, response_eq, Element.evaluate_of_source hseq hn inputs inputs']

theorem remembers_react {n : Node ε} (hn : n.element.remembers = false) (inputs : List Bool) :
    (n.react run instant inputs).1.element.remembers = false := by
  unfold react
  split
  · exact hn
  · split
    next he => exact (Element.answer_of_evaluate he hn).1
    next => exact hn

/-- **A pass does not change what a node would show in the next one.** -/
theorem response_react {n : Node ε} (hn : n.element.remembers = false) (inputs inputs' : List Bool) :
    (n.react run instant inputs).1.response run instant inputs' = n.response run instant inputs' := by
  obtain ⟨id, e, stored, outputs, forced⟩ := n
  rw [response_eq, response_eq]
  cases forced with
  | some value => exact forceFirst_idem value outputs
  | none =>
    cases he : e.evaluate run instant inputs with
    | ok result =>
      obtain ⟨e', answer⟩ := result
      simp only [react, he, Signal.length_resize, (Element.answer_of_evaluate he hn).2 inputs']
    | error fault => simp only [react, he, List.length_replicate]

end Node

/-! ## 3. Responses in a netlist -/

namespace Netlist

/-- What a node shows after a pass in which outputs are read by `read`. -/
def respond (run : ε → Reaction) (instant : Instant) (net : Netlist ε) (i : Nat)
    (read : Nat → Nat → Bool) : Option (List Bool) :=
  net.nodes[i]?.map fun n => n.response run instant (net.gather i read)

theorem outputs_reactAt (net : Netlist ε) (i : Nat) (read : Nat → Nat → Bool) :
    (net.reactAt run instant i read).map (·.outputs) = net.respond run instant i read := by
  rw [reactAt, respond, Option.map_map]
  rfl

theorem respond_congr {net : Netlist ε} {i : Nat} {read read' : Nat → Nat → Bool}
    (h : ∀ k ∈ net.connections, k.sink = i →
      read k.source k.sourcePin = read' k.source k.sourcePin) :
    net.respond run instant i read = net.respond run instant i read' := by
  rw [respond, respond, gather_congr h]

/-- No node of a netlist remembers what it saw. -/
def Forgetful (net : Netlist ε) : Prop := ∀ n ∈ net.nodes, n.element.remembers = false

/-- A pass does not change what a node would see. -/
theorem gather_delayed {net : Netlist ε} (h : net.WellFormed) (i : Nat) (read : Nat → Nat → Bool) :
    (net.delayed run instant).netlist.gather i read = net.gather i read := by
  cases hn : net.nodes[i]? with
  | none =>
    rw [gather, gather, getElem?_delayed, hn]
    rfl
  | some n =>
    have hn' : (net.delayed run instant).netlist.nodes[i]? =
        some (n.react run instant (net.gather i net.outputAt)).1 := by
      rw [getElem?_delayed, hn, Option.map_some]
    refine ((sees_iff (h.of_shape (shape_delayed net)) hn').mp ?_).symm
    have hsees := sees_gather h hn read
    refine ⟨?_, hsees.driven, fun pin hfree => ?_⟩
    · rw [Node.inputs_react, length_gather hn, length_gather hn]
    · -- a free pin has its stored signal before and after the pass
      rw [Node.inputs_react, hsees.free pin hfree, (sees_gather h hn net.outputAt).free pin hfree]

theorem forgetful_delayed {net : Netlist ε} (h : net.Forgetful) :
    (net.delayed run instant).netlist.Forgetful := by
  intro n' hn'
  obtain ⟨i, hi⟩ := List.getElem?_of_mem hn'
  rw [getElem?_delayed, Option.map_eq_some_iff] at hi
  obtain ⟨n, hn, rfl⟩ := hi
  exact Node.remembers_react (h n (List.mem_of_getElem? hn)) _

theorem respond_delayed {net : Netlist ε} (h : net.WellFormed) (hforgetful : net.Forgetful)
    (i : Nat) (read : Nat → Nat → Bool) :
    (net.delayed run instant).netlist.respond run instant i read =
      net.respond run instant i read := by
  rw [respond, respond, gather_delayed h, getElem?_delayed, Option.map_map]
  cases hn : net.nodes[i]? with
  | none => rfl
  | some n =>
    exact congrArg some (Node.response_react (hforgetful n (List.mem_of_getElem? hn)) _ _)

/-- **Passes do not change what nodes would show.** -/
theorem respond_after {net : Netlist ε} (h : net.WellFormed) (hforgetful : net.Forgetful)
    (passes i : Nat) (read : Nat → Nat → Bool) :
    (net.after run instant passes).respond run instant i read =
      net.respond run instant i read := by
  induction passes with
  | zero => rfl
  | succ passes ih =>
    rw [after_succ, respond_delayed (h.of_shape (shape_after net passes))
      (after_keeps (fun _ => forgetful_delayed) hforgetful passes), ih]

/-- What a node shows after a pass is its response to what all showed before. -/
theorem outputs_after_succ {net : Netlist ε} (h : net.WellFormed) (hforgetful : net.Forgetful)
    (passes i : Nat) : (net.after run instant (passes + 1)).nodes[i]?.map (·.outputs) =
      net.respond run instant i (net.after run instant passes).outputAt := by
  rw [after_succ, getElem?_delayed, ← respond_after h hforgetful passes, respond, Option.map_map]
  rfl

/-! ## 4. Convergence -/

theorem getD_sequential_dependencies {net : Netlist ε} {i : Nat} {n : Node ε}
    (hn : net.nodes[i]? = some n) :
    net.dependencies.sequential.getD i false = n.element.isSequential := by
  simp [dependencies, Dependencies.ofEdges, Array.getD_eq_getD_getElem?, hn]

/-- Feedback leads into sequential nodes only. -/
theorem isFeedback_of_combinational {net : Netlist ε} {i : Nat} {n : Node ε}
    (hn : net.nodes[i]? = some n) (hseq : n.element.isSequential = false) (j : Nat) :
    net.dependencies.isFeedback j i = false := by
  rw [Dependencies.isFeedback, getD_sequential_dependencies hn, hseq]
  rfl

/-- **What an immediate pass shows is agreed**: each node shows its response to what all show. -/
theorem Resolves.outputs {net final : Netlist ε} (h : net.WellFormed) (hforgetful : net.Forgetful)
    (hfinal : net.Resolves run instant final) (i : Nat) :
    final.nodes[i]?.map (·.outputs) = net.respond run instant i final.outputAt := by
  rw [((resolves_iff_react h).mp hfinal).2, outputs_reactAt]
  cases hn : net.nodes[i]? with
  | none => rw [respond, respond, hn, Option.map_none, Option.map_none]
  | some n =>
    cases hseq : n.element.isSequential with
    | true =>
      rw [respond, respond, hn, Option.map_some, Option.map_some,
        Node.response_of_source hseq (hforgetful n (List.mem_of_getElem? hn))]
    | false =>
      refine respond_congr fun k _ _ => ?_
      rw [readResolved, isFeedback_of_combinational hn hseq]
      rfl

/-- After a quiet pass nothing is shown that was not shown before, however many passes follow. -/
theorem outputs_after_quiet {net : Netlist ε} (h : net.WellFormed) (hforgetful : net.Forgetful)
    {passes : Nat} (hquiet : net.QuietAfter run instant passes) (more i : Nat) :
    (net.after run instant (passes + more)).nodes[i]?.map (·.outputs) =
      (net.after run instant passes).nodes[i]?.map (·.outputs) := by
  have hfirst := changed_eq_false_iff.mp hquiet
  rw [← after_succ] at hfirst
  induction more generalizing i with
  | zero => rfl
  | succ more ih =>
    rw [← Nat.add_assoc, outputs_after_succ h hforgetful, ← hfirst, outputs_after_succ h hforgetful]
    exact respond_congr fun k _ _ => outputAt_of_outputs (ih k.source) _

variable {net final : Netlist ε} (h : net.WellFormed) (hforgetful : net.Forgetful)
  (hfinal : net.Resolves run instant final)

include h hforgetful hfinal

/-- **A node of depth `k` has come to show the final signals after `k + 1` passes.** -/
theorem outputs_after (horder : Dependencies.IsOrder net.dependencies net.dependencies.search.order)
    {passes i : Nat} (hdepth : net.dependencies.depths.getD i 0 < passes) :
    (net.after run instant passes).nodes[i]?.map (·.outputs) =
      final.nodes[i]?.map (·.outputs) := by
  induction passes generalizing i with
  | zero => exact absurd hdepth (Nat.not_lt_zero _)
  | succ passes ih =>
    rw [outputs_after_succ h hforgetful, hfinal.outputs h hforgetful]
    cases hn : net.nodes[i]? with
    | none => rw [respond, respond, hn, Option.map_none, Option.map_none]
    | some n =>
      cases hseq : n.element.isSequential with
      | true =>
        rw [respond, respond, hn, Option.map_some, Option.map_some,
          Node.response_of_source hseq (hforgetful n (List.mem_of_getElem? hn))]
      | false =>
        refine respond_congr fun k hk hsink => outputAt_of_outputs (ih ?_) _
        have hlt := (List.getElem?_eq_some_iff.mp hn).1
        have hmem : k.source ∈ net.dependencies.of i := by
          exact (mem_of_dependencies h).mpr
            ⟨⟨k, hk, rfl, hsink⟩, isFeedback_of_combinational hn hseq _⟩
        have hdeeper := Dependencies.depth_lt_of_mem horder (by rwa [size_dependencies])
          ((getD_sequential_dependencies hn).trans hseq) hmem
        omega

/-- **Delayed passes converge to an immediate pass**, two passes later than the netlist is deep at
    the latest. -/
theorem settle_converges
    (horder : Dependencies.IsOrder net.dependencies net.dependencies.search.order) {limit : Nat}
    (hlimit : net.dependencies.depth + 2 ≤ limit) :
    (net.settle run instant limit).settled = true ∧
      (net.settle run instant limit).passes ≤ net.dependencies.depth + 2 ∧
      ∀ i : Nat, (net.settle run instant limit).netlist.nodes[i]?.map (·.outputs) =
        final.nodes[i]?.map (·.outputs) := by
  have hfinal_after : ∀ {passes : Nat}, net.dependencies.depth < passes → ∀ i : Nat,
      (net.after run instant passes).nodes[i]?.map (·.outputs) =
        final.nodes[i]?.map (·.outputs) := by
    intro passes hlt i
    have hle := Dependencies.getD_depths_le (d := net.dependencies) i
    exact outputs_after h hforgetful hfinal horder (by omega)
  have hlast : net.QuietAfter run instant (net.dependencies.depth + 1) := by
    refine changed_eq_false_iff.mpr fun i => ?_
    rw [← after_succ, hfinal_after (by omega), hfinal_after (by omega)]
  rcases Settling.first_quiet run instant net limit with ⟨k, hk, hquiet, hearlier⟩ | hrestless
  · have hle : k ≤ net.dependencies.depth + 1 := by
      by_contra hlt
      exact hearlier _ (by omega) hlast
    obtain ⟨hsettled, hnetlist, hpasses⟩ :=
      Settling.run_of_quiet (s := { netlist := net }) hk hquiet hearlier
    refine ⟨hsettled, ?_, fun i => ?_⟩
    · have : (net.settle run instant limit).passes = 0 + (k + 1) := hpasses
      omega
    · have hstays := outputs_after_quiet h hforgetful hquiet
      rw [settle, hnetlist, hstays 1, ← hstays (net.dependencies.depth + 1 - k)]
      exact hfinal_after (by omega) i
  · exact absurd hlast (hrestless _ (by omega))

end Netlist

end LogicSim
