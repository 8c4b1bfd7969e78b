import LogicSim.Circuit.Samples
import LogicSim.Proofs.Journal.Origins
import LogicSim.Proofs.Journal.Passes

/-!
# Which gate is to blame

A pass warns of failures, with a category, and passes on what gates have noted, without one. Each
warning names a gate. It names the right one: all that a pass says under the name of a gate comes
from the evaluation of that gate in this pass, or of what is inside it.

* `Node.accounted_react` -- what is said about a single node;
* `Netlist.Blames` -- what is said in a pass;
* `Netlist.blames_of_turns` -- a pass in which each node has its turn once blames the right gates;
* `Netlist.faults_contained` -- so do immediate and delayed passes, in place as well.
-/

namespace LogicSim

variable {instant : Instant}

/-! ## 1. One node -/

/-- **What a pass does with a node, and what it says about it.** A node that fails is low and keeps
    the memory it had, and is warned of once. What there is to say about any other node is what its
    evaluation noted. -/
structure Node.Accounted (instant : Instant) (before after : Node Expansion)
    (about : List Warning) : Prop where
  id : after.id = before.id
  forced : before.forced ≠ none → after.element = before.element ∧ about = []
  failed : before.forced = none → ∀ fault,
    before.element.evaluate Expansion.react instant after.inputs = .error fault →
      after.element = before.element ∧
        after.outputs = List.replicate before.outputs.length false ∧
        about = [{ gate := some before.id, kind := some .evaluationError
                   message := s!"evaluation of {before.id} failed: {fault.text}" }]
  answered : before.forced = none → ∀ element answer,
    before.element.evaluate Expansion.react instant after.inputs = .ok (element, answer) →
      after.element = element ∧ about = answer.notes.map (Warning.ofGate before.id)

/-- **A reaction accounts for its node.** -/
theorem Node.accounted_react (n : Node Expansion) (seen : List Bool) :
    n.Accounted instant (n.react Expansion.react instant seen).1
      (n.react Expansion.react instant seen).2 := by
  refine ⟨n.id_react .., fun hf => ?_, fun hf fault he => ?_, fun hf element answer he => ?_⟩
  · obtain ⟨value, hvalue⟩ := Option.ne_none_iff_exists'.mp hf
    rw [react, hvalue]
    exact ⟨rfl, rfl⟩
  · rw [inputs_react] at he
    rw [react, hf, he]
    exact ⟨rfl, rfl, rfl⟩
  · rw [inputs_react] at he
    rw [react, hf, he]
    exact ⟨rfl, rfl⟩

/-- All that is said about a node names it. -/
theorem Node.gate_of_mem_react {ε : Type} {run : ε → Reaction} {n : Node ε} {seen : List Bool}
    {w : Warning} (h : w ∈ (n.react run instant seen).2) : w.gate = some n.id := by
  obtain ⟨-, ⟨fault, -, rfl⟩ | ⟨result, -, note, -, rfl⟩⟩ := mem_warnings_react.mp h <;> rfl

/-! ## 2. What is said under a name -/

/-- In a list without repetition, the one member at which there is something. -/
theorem flatMap_eq_of_single {α β : Type} {l : List α} {f : α → List β} {a : α} (hl : l.Nodup)
    (ha : a ∈ l) (hothers : ∀ b ∈ l, b ≠ a → f b = []) : l.flatMap f = f a := by
  obtain ⟨before, after, rfl⟩ := List.append_of_mem ha
  obtain ⟨-, hafter, hdisjoint⟩ := List.nodup_append.mp hl
  have hnone : ∀ b, b ∈ before ∨ b ∈ after → b ≠ a := by
    rintro b (hb | hb) rfl
    · exact hdisjoint b hb b List.mem_cons_self rfl
    · exact (List.nodup_cons.mp hafter).1 hb
  have hbefore : before.flatMap f = [] := List.flatMap_eq_nil_iff.mpr fun b hb =>
    hothers b (List.mem_append_left _ hb) (hnone b (.inl hb))
  have hrest : after.flatMap f = [] := List.flatMap_eq_nil_iff.mpr fun b hb =>
    hothers b (List.mem_append_right _ (List.mem_cons_of_mem a hb)) (hnone b (.inr hb))
  rw [List.flatMap_append, List.flatMap_cons, hbefore, hrest, List.nil_append, List.append_nil]

namespace Netlist

section Turns

variable {net : Netlist Expansion} {s : Sweep Expansion} {order : List Nat}
  (read : Nat → Nat → Nat → Bool)

/-- **The warnings that name a node are those of its turn.** -/
theorem filter_warnings (hnames : (net.nodes.map (·.id)).Nodup) (horder : order.Nodup)
    (hwarnings : s.warnings = order.flatMap fun i =>
      net.warningsAt Expansion.react instant i (read i))
    {i : Nat} {n : Node Expansion} (hi : i ∈ order) (hn : net.nodes[i]? = some n) :
    s.warnings.filter (·.gate = some n.id) =
      (n.react Expansion.react instant (net.gather i (read i))).2 := by
  have hsaid : net.warningsAt Expansion.react instant i (read i) =
      (n.react Expansion.react instant (net.gather i (read i))).2 := by
    rw [warningsAt, hn, Option.map_some, Option.getD_some]
  rw [hwarnings, List.filter_flatMap, flatMap_eq_of_single horder hi, hsaid, List.filter_eq_self]
  · intro w hw
    exact decide_eq_true (Node.gate_of_mem_react hw)
  · intro j _ hji
    refine List.filter_eq_nil_iff.mpr fun w hw hgate => hji ?_
    -- then the node at `j` would have the same name
    obtain ⟨m, hm, hw⟩ := mem_warningsAt.mp hw
    have hid : m.id = n.id := Option.some.inj
      ((Node.gate_of_mem_react hw).symm.trans (of_decide_eq_true hgate))
    have hj : (net.nodes.map (·.id))[j]? = some n.id := by
      rw [List.getElem?_map, hm, Option.map_some, hid]
    have hi : (net.nodes.map (·.id))[i]? = some n.id := by
      rw [List.getElem?_map, hn, Option.map_some]
    obtain ⟨hlt, -⟩ := List.getElem?_eq_some_iff.mp hj
    exact (List.getElem?_inj hlt hnames).mp (hj.trans hi.symm)

/-! ## 3. A whole pass -/

/-- **A pass blames the right gates**, if it leads from a netlist to this result. -/
structure Blames (instant : Instant) (before : Netlist Expansion) (s : Sweep Expansion) : Prop where
  /-- a name stands for one node -/
  names : (before.nodes.map (·.id)).Nodup
  length : s.netlist.nodes.length = before.nodes.length
  /-- the warnings that name a node are those about it, and nothing else -/
  node : ∀ (i : Nat) (b a : Node Expansion), before.nodes[i]? = some b →
    s.netlist.nodes[i]? = some a →
      b.Accounted instant a (s.warnings.filter (·.gate = some b.id))
  /-- a warning with a category names a node that has failed -/
  coded : ∀ w ∈ s.warnings, w.kind ≠ none → w.kind = some .evaluationError ∧
    ∃ (i : Nat) (b a : Node Expansion), before.nodes[i]? = some b ∧
      s.netlist.nodes[i]? = some a ∧ w.gate = some b.id ∧ b.forced = none ∧
      ∃ fault, b.element.evaluate Expansion.react instant a.inputs = .error fault
  /-- any other one names a node whose evaluation raised the note -/
  uncoded : ∀ w ∈ s.warnings, w.kind = none →
    ∃ (i : Nat) (b a : Node Expansion), before.nodes[i]? = some b ∧
      s.netlist.nodes[i]? = some a ∧ w.gate = some b.id ∧ b.forced = none ∧
      (∃ result, b.element.evaluate Expansion.react instant a.inputs = .ok result) ∧
      Raises instant b.element a.inputs w.message

/-- **A pass in which each node has its turn once blames the right gates**, in whatever order the
    turns are, and whatever outputs are read. -/
theorem blames_of_turns (hnames : (net.nodes.map (·.id)).Nodup) (horder : order.Nodup)
    (hall : ∀ i, i < net.nodes.length → i ∈ order)
    (hnodes : ∀ i, s.netlist.nodes[i]? = net.reactAt Expansion.react instant i (read i))
    (hwarnings : s.warnings = order.flatMap fun i =>
      net.warningsAt Expansion.react instant i (read i)) : net.Blames instant s := by
  -- every warning is one of the turn of a node
  have horigin : ∀ w ∈ s.warnings, ∃ (i : Nat) (b : Node Expansion), net.nodes[i]? = some b ∧
      s.netlist.nodes[i]? = some (b.react Expansion.react instant (net.gather i (read i))).1 ∧
      w ∈ (b.react Expansion.react instant (net.gather i (read i))).2 := by
    intro w hw
    rw [hwarnings, List.mem_flatMap] at hw
    obtain ⟨i, -, hw⟩ := hw
    obtain ⟨b, hb, hw⟩ := mem_warningsAt.mp hw
    exact ⟨i, b, hb, by rw [hnodes, reactAt, hb, Option.map_some], hw⟩
  refine ⟨hnames, length_of_reactAt hnodes, fun i b a hb ha => ?_, fun w hw hkind => ?_,
    fun w hw hkind => ?_⟩
  · rw [hnodes, reactAt, hb, Option.map_some, Option.some.injEq] at ha
    obtain ⟨hlt, -⟩ := List.getElem?_eq_some_iff.mp hb
    rw [filter_warnings read hnames horder hwarnings (hall i hlt) hb, ← ha]
    exact b.accounted_react _
  · obtain ⟨i, b, hb, ha, hsaid⟩ := horigin w hw
    obtain ⟨hfree, ⟨fault, he, rfl⟩ | ⟨result, he, note, -, rfl⟩⟩ := Node.mem_warnings_react.mp hsaid
    · exact ⟨rfl, i, b, _, hb, ha, rfl, hfree, fault, by rwa [Node.inputs_react]⟩
    · exact absurd rfl hkind
  · obtain ⟨i, b, hb, ha, hsaid⟩ := horigin w hw
    obtain ⟨hfree, ⟨fault, he, rfl⟩ | ⟨result, he, note, hnote, rfl⟩⟩ :=
      Node.mem_warnings_react.mp hsaid
    · cases hkind
    · refine ⟨i, b, _, hb, ha, rfl, hfree, ⟨result, by rwa [Node.inputs_react]⟩, ?_⟩
      rw [Node.inputs_react]
      exact (Element.mem_notes_iff he).mp hnote

end Turns

/-! ## 4. Immediate and delayed passes -/

theorem blames_delayed {net : Netlist Expansion} (hnames : (net.nodes.map (·.id)).Nodup) :
    net.Blames instant (net.delayed Expansion.react instant) :=
  blames_of_turns (fun _ => net.outputAt) hnames List.nodup_range
    (fun _ hi => List.mem_range.mpr hi) (fun _ => getElem?_delayed ..) (warnings_delayed_eq net)

theorem blames_immediate {net : Netlist Expansion} {schedule : Schedule} (h : net.WellFormed)
    (hnames : (net.nodes.map (·.id)).Nodup) (hs : net.dependencies.schedule = .ok schedule) :
    net.Blames instant (net.immediate Expansion.react schedule instant) := by
  obtain ⟨hd, horder⟩ := Dependencies.isOrder_of_schedule (fun v w => lt_of_mem_dependencies h) hs
  have hresolves : net.Resolves Expansion.react instant
      (net.immediate Expansion.react schedule instant).netlist := resolves_immediate h hd horder
  refine blames_of_turns _ hnames horder.nodup (fun i hi => ?_)
    ((resolves_iff_react h).mp hresolves).2 (warnings_immediate hd h horder)
  rwa [horder.mem, size_dependencies]

/-- **Faults are contained and blamed on the right gates.** Take a netlist built from a circuit,
    whatever its nodes have come to remember and to show since, and whichever of them are forced: any
    of this keeps the shape. A delayed pass in place, and an immediate one if there is a schedule,
    changes the memory of the nodes and adds to the warnings as the pass does as a function, whatever
    has been written into the journal before, and leaves no notes behind; and the pass blames the right
    gates. -/
theorem faults_contained {deepest levels : Nat} {c : Circuit Definition}
    {built net : Netlist Expansion}
    (hbuilt : ofCircuit (Definition.compile deepest levels) c = .ok built)
    (hshape : net.shape = built.shape) (instant : Instant) :
    (∀ earlier, (net.map Expansion.work).workDelayed instant { warnings := earlier } =
        (net.delayed Expansion.react instant).inPlace Expansion.work earlier) ∧
      net.Blames instant (net.delayed Expansion.react instant) ∧
      ∀ schedule, net.dependencies.schedule = .ok schedule →
        (∀ earlier, (net.map Expansion.work).workImmediate schedule instant { warnings := earlier } =
            (net.immediate Expansion.react schedule instant).inPlace Expansion.work earlier) ∧
          net.Blames instant (net.immediate Expansion.react schedule instant) := by
  obtain ⟨hc, rfl⟩ := valid_of_ofCircuit hbuilt
  have hwell : net.WellFormed := (wellFormed_assemble hc).of_shape hshape
  have hnames : (net.nodes.map (·.id)).Nodup := (realizes_of_shape hc hshape).ids ▸ hc.gateIds
  exact ⟨workDelayed_eq Expansion.does_react net, blames_delayed hnames, fun schedule hs =>
    ⟨workImmediate_eq Expansion.does_react schedule net, blames_immediate hwell hnames hs⟩⟩

end Netlist

/-- A latch as a custom gate. -/
def Definition.cell : Definition :=
  .ofCircuit "cell" [.bound "S" "S", .bound "R" "R"] [.bound "Q" "Q"] (Circuit.latch false false)

/-- A circuit with a conflict inside `X`, and two gates of unknown kind. -/
def Circuit.flawed : Circuit Definition :=
  Circuit.connectAll
    { gates := [.input "A" true, .custom "X" .cell, .new "U" .unknown, .new "V" .unknown,
        .new "O" .output] }
    [("A", 0, "X", 0), ("A", 0, "X", 1), ("U", 0, "O", 0)]

namespace Netlist

/-- With `V` forced, the pass warns of `X` and of `U`, each of its own. -/
theorem immediate_flawed :
    ∃ net schedule,
      net = (assemble (Definition.compile 16 16) Circuit.flawed).forceAll [(3, some true)] ∧
      net.dependencies.schedule = .ok schedule ∧
      net.Blames ⟨0, 50⟩ (net.immediate Expansion.react schedule ⟨0, 50⟩) ∧
      (net.immediate Expansion.react schedule ⟨0, 50⟩).warnings =
        [.ofGate "X" "in cell, L: S and R both set; latch holds its previous state",
          .ofProblem (.evaluationError "U" "unknown gate kind")] := by
  refine ⟨_, _, rfl, rfl, ?_, rfl⟩
  have hbuilt : ofCircuit (Definition.compile 16 16) Circuit.flawed =
      .ok (assemble (Definition.compile 16 16) Circuit.flawed) := rfl
  exact ((faults_contained hbuilt (shape_forceAll _ [(3, some true)]) ⟨0, 50⟩).2.2 _ rfl).2

end Netlist

end LogicSim
