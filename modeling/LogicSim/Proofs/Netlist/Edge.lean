import LogicSim.Proofs.Netlist.Quiet

/-!
# A flip-flop on a forced clock

The clock `k` of a flip-flop `f` is forced low until a pass is quiet, then high, then low again, with
delayed passes after each change.

* `Netlist.Waiting.rise` -- in the first pass after the rise only the clock moves;
* `Netlist.Waiting.capture` -- in the second the flip-flop takes over what was at its data pin;
* `Netlist.High.delayed`, `Netlist.Low.delayed` -- after that it holds: there is no second edge while
  the clock is high, and none once it is low again.
-/

namespace LogicSim

variable {ε : Type} {run : ε → Reaction} {instant : Instant}

/-! ## 1. Steps of the memory -/

@[simp] theorem FlipFlopMemory.previousClock_next (m : FlipFlopMemory) (d level : Bool) :
    (m.next d level).previousClock = level := by
  obtain ⟨previous, q, qBar⟩ := m
  cases previous <;> cases level <;> rfl

/-- At an edge the flip-flop takes over its input. -/
theorem FlipFlopMemory.next_of_edge {m : FlipFlopMemory} (h : m.previousClock = false) (d : Bool) :
    m.next d true = ⟨true, d, !d⟩ := by
  rw [next, h]
  rfl

/-- Without an edge it holds. -/
theorem FlipFlopMemory.next_of_no_edge {previous q qBar level : Bool}
    (h : previous = true ∨ level = false) (d : Bool) :
    (FlipFlopMemory.mk previous q qBar).next d level = ⟨level, q, qBar⟩ := by
  rcases h with rfl | rfl
  · rfl
  · cases previous <;> rfl

namespace Netlist

/-! ## 2. The clock -/

/-- Node `k` is forced to a level. -/
def HeldAt (net : Netlist ε) (k : Nat) (level : Bool) : Prop :=
  ∃ n, net.nodes[k]? = some n ∧ n.forced = some level ∧ 0 < n.outputs.length

theorem outputAt_forceFirst {net : Netlist ε} {k : Nat} {n : Node ε} {level : Bool}
    {outputs : List Bool} (hn : net.nodes[k]? = some n) (h : n.outputs = forceFirst level outputs)
    (hlength : 0 < outputs.length) : net.outputAt k 0 = level := by
  rw [outputAt, hn, Option.bind_some, h, (forceFirst_pins level outputs).1 hlength, Option.getD_some]

/-- In a pass a forced node shows its level, and it stays forced. -/
theorem HeldAt.delayed (run : ε → Reaction) (instant : Instant) {net : Netlist ε} {k : Nat}
    {level : Bool} (h : net.HeldAt k level) :
    (net.delayed run instant).netlist.HeldAt k level ∧
      (net.delayed run instant).netlist.outputAt k 0 = level := by
  obtain ⟨n, hn, hforced, hlength⟩ := h
  have hreact : (n.react run instant (net.gather k net.outputAt)).1 =
      { n with inputs := net.gather k net.outputAt, outputs := forceFirst level n.outputs } := by
    rw [Node.react, hforced]
  have hn' : (net.delayed run instant).netlist.nodes[k]? =
      some { n with inputs := net.gather k net.outputAt, outputs := forceFirst level n.outputs } := by
    rw [getElem?_delayed, hn, Option.map_some, hreact]
  refine ⟨⟨_, hn', hforced, ?_⟩, outputAt_forceFirst hn' rfl hlength⟩
  rw [length_forceFirst]
  exact hlength

/-- Forcing a node with an output holds it. -/
theorem heldAt_force {net : Netlist ε} {k : Nat} {n : Node ε} (hn : net.nodes[k]? = some n)
    (hlength : 0 < n.outputs.length) (level : Bool) : (net.force k (some level)).HeldAt k level := by
  refine ⟨{ n with forced := some level }, ?_, rfl, hlength⟩
  rw [force, getElem?_updateNode, if_pos rfl, hn, Option.map_some]

theorem HeldAt.force {net : Netlist ε} {k : Nat} {level : Bool} (h : net.HeldAt k level)
    (level' : Bool) : (net.force k (some level')).HeldAt k level' := by
  obtain ⟨n, hn, -, hlength⟩ := h
  exact heldAt_force hn hlength level'

/-! ## 3. The flip-flop -/

/-- Node `f` is a flip-flop that shows its memory. -/
def Shows (net : Netlist ε) (f : Nat) (m : FlipFlopMemory) : Prop :=
  ∃ n, net.nodes[f]? = some n ∧ n.forced = none ∧ n.element = .flipFlop m ∧
    n.outputs = [m.q, m.qBar]

/-- A forced node is another one than an unforced flip-flop. -/
theorem Shows.ne {net : Netlist ε} {k f : Nat} {m : FlipFlopMemory} {level : Bool}
    (h : net.Shows f m) (hk : net.HeldAt k level) : k ≠ f := by
  intro he
  subst he
  obtain ⟨n, hn, hfree, -⟩ := h
  obtain ⟨n', hn', hforced, -⟩ := hk
  obtain rfl : n = n' := Option.some.inj (hn.symm.trans hn')
  rw [hfree] at hforced
  cases hforced

/-- What a node has recorded at a pin after a pass is what it saw there. -/
theorem inputAt_delayed {net : Netlist ε} {i : Nat} (hi : i < net.nodes.length) (pin : Nat) :
    (net.delayed run instant).netlist.inputAt i pin =
      ((net.gather i net.outputAt)[pin]?).getD false := by
  rw [inputAt, getElem?_delayed, List.getElem?_eq_getElem hi, Option.map_some, Option.bind_some,
    Node.inputs_react]

/-- A driven pin has recorded the output of its driver. -/
theorem inputAt_delayed_of_driven (run : ε → Reaction) (instant : Instant) {net : Netlist ε}
    (h : net.WellFormed) {w : Connection} (hw : w ∈ net.connections) :
    (net.delayed run instant).netlist.inputAt w.sink w.sinkPin =
      net.outputAt w.source w.sourcePin := by
  obtain ⟨n, hn, -⟩ := h.sink w hw
  rw [inputAt_delayed (List.getElem?_eq_some_iff.mp hn).1, (sees_gather h hn _).driven w hw rfl,
    Option.getD_some]

/-- A pin without a connection has its stored signal. -/
theorem inputAt_delayed_of_free {net : Netlist ε} (h : net.WellFormed) {i pin : Nat}
    (hfree : ∀ w ∈ net.connections, w.sink = i → w.sinkPin ≠ pin) :
    (net.delayed run instant).netlist.inputAt i pin = net.inputAt i pin := by
  cases hn : net.nodes[i]? with
  | none => rw [inputAt, inputAt, getElem?_delayed, hn, Option.map_none]
  | some n =>
    rw [inputAt_delayed (List.getElem?_eq_some_iff.mp hn).1, (sees_gather h hn _).free pin hfree,
      inputAt, hn, Option.bind_some]

/-- **A flip-flop on a clock**: `f` has two inputs; the second is wired to the first output of `k`,
    and the first, its data pin, to no output of `k`. -/
structure Clocked (net : Netlist ε) (k f : Nat) : Prop where
  wellFormed : net.WellFormed
  pins : ∃ n, net.nodes[f]? = some n ∧ n.inputs.length = 2
  clock : ∃ w ∈ net.connections, w.source = k ∧ w.sourcePin = 0 ∧ w.sink = f ∧ w.sinkPin = 1
  data : ∀ w ∈ net.connections, w.sink = f → w.sinkPin = 0 → w.source ≠ k

theorem Clocked.of_shape {net net' : Netlist ε} {k f : Nat} (h : net.Clocked k f)
    (hshape : net'.shape = net.shape) : net'.Clocked k f := by
  have hconnections := connections_of_shape hshape
  obtain ⟨n, hn, hpins⟩ := h.pins
  obtain ⟨n', hn', hs⟩ := exists_of_shape hshape hn
  have hlength : n'.inputs.length = n.inputs.length := congrArg Shape.inputs hs
  exact ⟨h.wellFormed.of_shape hshape, ⟨n', hn', hlength.trans hpins⟩, hconnections ▸ h.clock,
    hconnections ▸ h.data⟩

/-- What the flip-flop sees: the level of the clock, and what it records at its data pin. -/
theorem Clocked.gather (run : ε → Reaction) (instant : Instant) {net : Netlist ε} {k f : Nat}
    (h : net.Clocked k f) : net.gather f net.outputAt =
      [(net.delayed run instant).netlist.inputAt f 0, net.outputAt k 0] := by
  obtain ⟨n, hn, hpins⟩ := h.pins
  obtain ⟨w, hw, rfl, hpin, rfl, hclock⟩ := h.clock
  have hlevel := (sees_gather h.wellFormed hn net.outputAt).driven w hw rfl
  rw [hpin, hclock] at hlevel
  have hlength := (length_gather hn net.outputAt).trans hpins
  obtain ⟨a, b, hab⟩ := List.length_eq_two.mp hlength
  rw [hab] at hlevel
  rw [inputAt_delayed (List.getElem?_eq_some_iff.mp hn).1, hab]
  simpa using hlevel

/-- **The step of a flip-flop on a clock.** -/
theorem Clocked.step (run : ε → Reaction) (instant : Instant) {net : Netlist ε} {k f : Nat}
    {m : FlipFlopMemory} (h : net.Clocked k f) (hm : net.Shows f m) :
    (net.delayed run instant).netlist.Shows f
      (m.next ((net.delayed run instant).netlist.inputAt f 0) (net.outputAt k 0)) := by
  obtain ⟨n, hn, hfree, helement, houtputs⟩ := hm
  have hgather := h.gather run instant
  generalize (net.delayed run instant).netlist.inputAt f 0 = d at hgather ⊢
  generalize net.outputAt k 0 = level at hgather ⊢
  have hreact : (n.react run instant (net.gather f net.outputAt)).1 =
      { n with
        element := .flipFlop (m.next d level)
        inputs := [d, level]
        outputs := [(m.next d level).q, (m.next d level).qBar] } := by
    simp only [Node.react, hfree, helement, hgather, Element.evaluate, houtputs]
    rfl
  have hn' := getElem?_delayed run instant net f
  rw [hn, Option.map_some, hreact] at hn'
  exact ⟨_, hn', hfree, rfl, rfl⟩

/-! ## 4. Before the edge -/

/-- Before the edge: the clock is held low, and a data pin that nothing drives has its stored
    signal. -/
structure Waiting (k f : Nat) (stored : Bool) (net : Netlist ε) : Prop where
  clocked : net.Clocked k f
  held : net.HeldAt k false
  memory : ∃ m, net.Shows f m
  data : (∀ w ∈ net.connections, w.sink = f → w.sinkPin ≠ 0) → net.inputAt f 0 = stored

theorem Waiting.delayed {net : Netlist ε} {k f : Nat} {stored : Bool}
    (h : Waiting k f stored net) : Waiting k f stored (net.delayed run instant).netlist := by
  obtain ⟨m, hm⟩ := h.memory
  refine ⟨h.clocked.of_shape (shape_delayed net), (h.held.delayed ..).1, ⟨_, h.clocked.step _ _ hm⟩, ?_⟩
  intro hfree
  rw [inputAt_delayed_of_free h.clocked.wellFormed hfree, h.data hfree]

/-- After a quiet pass the flip-flop has seen the clock low. -/
theorem Waiting.low {net : Netlist ε} {k f : Nat} {stored : Bool} (h : Waiting k f stored net)
    (hquiet : (net.delayed run instant).changed = false) :
    (net.delayed run instant).netlist.outputAt k 0 = false ∧
      ∃ m, (net.delayed run instant).netlist.Shows f m ∧ m.previousClock = false := by
  obtain ⟨m, hm⟩ := h.memory
  have hlevel := (h.held.delayed run instant).2
  refine ⟨hlevel, _, h.clocked.step _ _ hm, ?_⟩
  rw [FlipFlopMemory.previousClock_next, ← outputAt_of_quiet hquiet, hlevel]

/-! ## 5. The edge -/

/-- After the edge, the clock still high: the flip-flop has taken over `d`. -/
structure High (k f : Nat) (d : Bool) (net : Netlist ε) : Prop where
  clocked : net.Clocked k f
  held : net.HeldAt k true
  level : net.outputAt k 0 = true
  memory : net.Shows f ⟨true, d, !d⟩

/-- The first pass after the rise moves the clock and nothing else. -/
theorem Waiting.rise {net : Netlist ε} {k f : Nat} {stored : Bool} (h : Waiting k f stored net)
    (hquiet : (net.delayed run instant).changed = false) {next : Netlist ε}
    (hnext : next = (((net.delayed run instant).netlist.force k (some true)).delayed
      run instant).netlist) :
    next.shape = net.shape ∧ next.HeldAt k true ∧ next.outputAt k 0 = true ∧
      (∃ m, next.Shows f m ∧ m.previousClock = false) ∧
      (∀ i ≠ k, ∀ pin, next.outputAt i pin = (net.delayed run instant).netlist.outputAt i pin) ∧
      next.inputAt f 0 = (net.delayed run instant).netlist.inputAt f 0 := by
  obtain ⟨-, m, hm, hprevious⟩ := h.low hquiet
  have hheld := (h.held.delayed run instant).1
  have hne : k ≠ f := hm.ne hheld
  have hupdate := delayed_force_of_quiet h.clocked.wellFormed hquiet k true
  rw [← hnext] at hupdate
  have hother : ∀ i ≠ k, next.nodes[i]? = (net.delayed run instant).netlist.nodes[i]? := by
    intro i hi
    rw [hupdate, getElem?_updateNode, if_neg (Ne.symm hi)]
  have hforced := hheld.force true
  refine ⟨?_, hnext ▸ (hforced.delayed ..).1, hnext ▸ (hforced.delayed ..).2, ⟨m, ?_, hprevious⟩,
    fun i hi pin => outputAt_congr (hother i hi) pin, ?_⟩
  · rw [hnext, shape_delayed, shape_force, shape_delayed]
  · obtain ⟨n, hn, hrest⟩ := hm
    exact ⟨n, (hother f (Ne.symm hne)).trans hn, hrest⟩
  · rw [inputAt, inputAt, hother f (Ne.symm hne)]

theorem Waiting.changed_rise {net : Netlist ε} {k f : Nat} {stored : Bool}
    (h : Waiting k f stored net) (hquiet : (net.delayed run instant).changed = false) :
    (((net.delayed run instant).netlist.force k (some true)).delayed run instant).changed = true := by
  obtain ⟨hlow, -⟩ := h.low hquiet
  obtain ⟨-, -, hhigh, -⟩ := h.rise hquiet rfl
  cases hchanged :
      (((net.delayed run instant).netlist.force k (some true)).delayed run instant).changed with
  | true => rfl
  | false =>
    rw [outputAt_of_quiet hchanged, outputAt_force, hlow] at hhigh
    cases hhigh

/-- **The edge**: in the second pass after the rise the flip-flop takes over what its data pin had
    when the circuit was quiet. -/
theorem Waiting.capture {net : Netlist ε} {k f : Nat} {stored : Bool} (h : Waiting k f stored net)
    (hquiet : (net.delayed run instant).changed = false) :
    High k f ((net.delayed run instant).netlist.inputAt f 0)
      ((((net.delayed run instant).netlist.force k (some true)).delayed
        run instant).netlist.delayed run instant).netlist := by
  obtain ⟨hshape, hheld, hlevel, ⟨m, hm, hprevious⟩, hreads, hinput⟩ := h.rise hquiet rfl
  generalize (((net.delayed run instant).netlist.force k (some true)).delayed
    run instant).netlist = next at *
  have hclocked : next.Clocked k f := h.clocked.of_shape hshape
  -- the data pin is not driven by the clock, so nothing has moved there
  have hdata : (next.delayed run instant).netlist.inputAt f 0 =
      (net.delayed run instant).netlist.inputAt f 0 := by
    by_cases hfree : ∀ w ∈ next.connections, w.sink = f → w.sinkPin ≠ 0
    · rw [inputAt_delayed_of_free hclocked.wellFormed hfree, hinput]
    · push Not at hfree
      obtain ⟨w, hw, hsink, hpin⟩ := hfree
      have hnext := inputAt_delayed_of_driven run instant
        hclocked.wellFormed hw
      have hnet := inputAt_delayed_of_driven run instant
        h.clocked.wellFormed (connections_of_shape hshape ▸ hw)
      rw [hsink, hpin] at hnext hnet
      rw [hnext, hnet, hreads w.source (hclocked.data w hw hsink hpin), outputAt_of_quiet hquiet]
  refine ⟨hclocked.of_shape (shape_delayed next), (hheld.delayed ..).1, (hheld.delayed ..).2, ?_⟩
  have hstep := hclocked.step run instant hm
  rwa [hlevel, FlipFlopMemory.next_of_edge hprevious, hdata] at hstep

/-! ## 6. After the edge -/

/-- While the clock stays high there is no second edge. -/
theorem High.delayed {net : Netlist ε} {k f : Nat} {d : Bool} (h : High k f d net) :
    High k f d (net.delayed run instant).netlist := by
  refine ⟨h.clocked.of_shape (shape_delayed net), (h.held.delayed ..).1, (h.held.delayed ..).2, ?_⟩
  have hstep := h.clocked.step run instant h.memory
  rwa [FlipFlopMemory.next_of_no_edge (Or.inl rfl), h.level] at hstep

/-- The clock is held low after the edge: the flip-flop still holds `d`. -/
structure Low (k f : Nat) (d : Bool) (net : Netlist ε) : Prop where
  clocked : net.Clocked k f
  held : net.HeldAt k false
  memory : ∃ previous, net.Shows f ⟨previous, d, !d⟩ ∧ (previous = true ∨ net.outputAt k 0 = false)

/-- While the clock stays low there is no edge. -/
theorem Low.delayed {net : Netlist ε} {k f : Nat} {d : Bool} (h : Low k f d net) :
    Low k f d (net.delayed run instant).netlist := by
  obtain ⟨previous, hm, hlevel⟩ := h.memory
  refine ⟨h.clocked.of_shape (shape_delayed net), (h.held.delayed ..).1, net.outputAt k 0, ?_,
    Or.inr (h.held.delayed ..).2⟩
  have hstep := h.clocked.step run instant hm
  rwa [FlipFlopMemory.next_of_no_edge hlevel] at hstep

/-- Forcing another node leaves a flip-flop as it is. -/
theorem Shows.force {net : Netlist ε} {f k : Nat} {m : FlipFlopMemory} {value : Option Bool}
    (h : net.Shows f m) (hne : k ≠ f) : (net.force k value).Shows f m := by
  obtain ⟨n, hn, hrest⟩ := h
  refine ⟨n, ?_, hrest⟩
  rw [Netlist.force, getElem?_updateNode, if_neg hne, hn]

/-- The clock falls. -/
theorem High.fall {net : Netlist ε} {k f : Nat} {d : Bool} (h : High k f d net) :
    Low k f d (net.force k (some false)) :=
  ⟨h.clocked.of_shape (shape_force ..), h.held.force false, true, h.memory.force (h.memory.ne h.held),
    Or.inl rfl⟩

end Netlist

/-! ## 7. Runs of passes -/

namespace Settling

/-- A run that settles ends with a quiet pass. -/
theorem quiet_of_settled {P : Netlist ε → Prop}
    (hpass : ∀ net, P net → P (net.delayed run instant).netlist) {limit : Nat} {s : Settling ε}
    (hs : P s.netlist) (h : (Settling.run run instant limit s).settled = true) :
    ∃ net, P net ∧ (net.delayed run instant).changed = false ∧
      (Settling.run run instant limit s).netlist = (net.delayed run instant).netlist := by
  induction limit generalizing s with
  | zero => cases h
  | succ limit ih =>
    rw [Settling.run] at h ⊢
    split at h
    next hsettled =>
      rw [if_pos hsettled]
      refine ⟨s.netlist, hs, ?_, rfl⟩
      simpa [pass] using hsettled
    next hsettled =>
      rw [if_neg hsettled]
      exact ih (hpass _ hs) h

/-- A run whose first pass changes something makes at least two. -/
theorem run_of_changed {P : Netlist ε → Prop}
    (hpass : ∀ net, P net → P (net.delayed run instant).netlist) (limit : Nat) {s : Settling ε}
    (hchanged : (s.netlist.delayed run instant).changed = true)
    (hs : P ((s.netlist.delayed run instant).netlist.delayed run instant).netlist) :
    P (Settling.run run instant (limit + 2) s).netlist := by
  have hfirst : (s.pass run instant).settled = false := by simp [pass, hchanged]
  rw [Settling.run, if_neg (by rw [hfirst]; exact Bool.false_ne_true), Settling.run]
  split
  · exact hs
  · exact run_keeps hpass limit hs

end Settling

end LogicSim
