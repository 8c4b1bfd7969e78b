import LogicSim.Circuit.Complexity
import LogicSim.Circuit.Samples
import LogicSim.Proofs.Evaluation.Reordering
import LogicSim.Proofs.Service.Outcome

/-!
# Cycles found without evaluation

`Complexity.ofCircuit` looks for a combinational cycle in the circuit itself, an evaluation in its
netlist. The dependencies are the same (`Netlist.dependencies_assemble`), so that both find the same
cycle, and an automatic call of a service is delayed exactly if there is one
(`Service.cycles_agree`). A cycle is found in numbers; read in identifiers it is one of wires
between gates that are not sequential, each of them once (`Circuit.IsCycle`).
-/

namespace LogicSim

open Netlist

variable {ε : Type} {compile : Definition → Except String ε} {c : Circuit Definition}

/-! ## 1. Cycles in identifiers -/

/-- **A combinational cycle, each gate once**: a wire leads from each gate to the next one, and from
    the last to the first. -/
structure Circuit.IsCycle (c : Circuit Definition) (cycle : List GateId) : Prop where
  nodup : cycle.Nodup
  combinational : ∀ id ∈ cycle, ∃ g ∈ c.gates, g.id = id ∧
    g.kind ∉ [Kind.input, .clock, .flipFlop, .latch]
  wired : (cycle ++ cycle.head?.toList).IsChain c.Wired

theorem Kind.isSequential_eq_false_iff {k : Kind} :
    k.isSequential = false ↔ k ∉ [Kind.input, .clock, .flipFlop, .latch] := by
  cases k <;> decide

/-- A closed list is one without the end, which is its beginning. -/
theorem Dependencies.IsCycle.exists_eq {sequential : Array Bool} {edges : List (Nat × Nat)}
    {cycle : List Nat} (h : IsCycle sequential edges cycle) :
    ∃ v rest, cycle = v :: rest ++ [v] ∧ (v :: rest).Nodup := by
  obtain ⟨-, hclosed, hlong, hnodup, -⟩ := h
  match cycle, hlong with
  | v :: b :: l, _ =>
    rw [List.head?_cons, List.getLast?_cons_cons] at hclosed
    obtain ⟨rest, hrest⟩ := List.getLast?_eq_some_iff.mp hclosed.symm
    rw [List.tail_cons, hrest] at hnodup
    refine ⟨v, rest, by rw [hrest, List.cons_append], ?_⟩
    exact (List.perm_append_singleton v rest).nodup_iff.mp hnodup

namespace Circuit

/-- Numbers of gates read as identifiers. -/
theorem filterMap_ids {l : List Nat} (h : ∀ v ∈ l, v < c.gates.length) :
    (l.filterMap fun i => c.gates[i]?.map (·.id)) = l.map c.nameAt := by
  rw [← List.filterMap_eq_map]
  refine List.filterMap_congr fun v hv => ?_
  show _ = some (c.nameAt v)
  rw [nameAt, List.getElem?_map, List.getElem?_eq_getElem (h v hv)]
  rfl

theorem nameAt_inj (hc : c.Valid) {a b : Nat} (ha : a < c.gates.length) (hb : b < c.gates.length)
    (h : c.nameAt a = c.nameAt b) : a = b := by
  have hname : ∀ {i : Nat}, i < c.gates.length → (c.gates.map (·.id))[i]? = some (c.nameAt i) := by
    intro i hi
    rw [nameAt, List.getElem?_map, List.getElem?_eq_getElem hi]
    rfl
  rw [← place_eq hc (hname ha), ← place_eq hc (hname hb), h]

end Circuit

/-- **A cycle of numbers in a netlist is a cycle of its circuit**, read in identifiers. -/
theorem Netlist.isCycle_of_order (hc : c.Valid) {cycle : List Nat}
    (h : (assemble compile c).dependencies.order = .error cycle) :
    ∃ v rest, cycle = v :: rest ++ [v] ∧ (∀ i ∈ cycle, i < c.gates.length) ∧
      c.IsCycle ((v :: rest).map c.nameAt) := by
  have hcycle := Dependencies.isCycle_of_order (wellFormed_assemble hc).inRange h
  have hgate : ∀ i ∈ cycle, ∃ g, c.gates[i]? = some g ∧ g.kind.isSequential = false := by
    intro i hi
    have hfalse := hcycle.combinational i hi
    rw [List.getElem?_toArray, List.getElem?_map, Option.map_eq_some_iff] at hfalse
    obtain ⟨n, hn, hsequential⟩ := hfalse
    rw [assemble, List.getElem?_map, Option.map_eq_some_iff] at hn
    obtain ⟨g, hg, rfl⟩ := hn
    exact ⟨g, hg, by rw [← hsequential, Node.element_ofGate, Element.isSequential_ofGate]⟩
  have hlt : ∀ i ∈ cycle, i < c.gates.length := by
    intro i hi
    obtain ⟨g, hg, -⟩ := hgate i hi
    exact (List.getElem?_eq_some_iff.mp hg).1
  obtain ⟨v, rest, rfl, hnodup⟩ := hcycle.exists_eq
  have hmem : ∀ i ∈ v :: rest, i ∈ v :: rest ++ [v] := fun i => List.mem_append_left [v]
  refine ⟨v, rest, rfl, hlt, ?_, fun id hid => ?_, ?_⟩
  · refine List.Nodup.map_on (fun a ha b hb => ?_) hnodup
    exact Circuit.nameAt_inj hc (hlt a (hmem a ha)) (hlt b (hmem b hb))
  · obtain ⟨i, hi, rfl⟩ := List.mem_map.mp hid
    obtain ⟨g, hg, hsequential⟩ := hgate i (hmem i hi)
    refine ⟨g, List.mem_of_getElem? hg, ?_, Kind.isSequential_eq_false_iff.mp hsequential⟩
    exact (Circuit.nameAt_eq (by rw [List.getElem?_map, hg, Option.map_some])).symm
  · have hnames : (v :: rest).map c.nameAt ++ ((v :: rest).map c.nameAt).head?.toList =
        (v :: rest ++ [v]).map c.nameAt := by
      rw [List.map_append]
      rfl
    rw [hnames, List.isChain_map]
    exact hcycle.chain.imp fun a b hab => (realizes_assemble hc).wired (mem_edges.mp hab)

/-! ## 2. Analysis -/

namespace Complexity

/-- Where there is an order, no cycle is reported. -/
theorem cycleGates_of_order {order : List Nat} (h : c.dependencies.order = .ok order) :
    (ofCircuit c).cycleGates = [] := by
  rw [ofCircuit]
  dsimp only
  rw [h]

/-- **The cycle that is reported** is that of the evaluation, without its end. -/
theorem cycleGates_of_cycle (hc : c.Valid) {cycle : List Nat}
    (h : (assemble compile c).dependencies.order = .error cycle) :
    c.IsCycle (ofCircuit c).cycleGates ∧ (ofCircuit c).hasCycles = true ∧
      (assemble compile c).cycleProblem cycle = .circularDependency
        ((ofCircuit c).cycleGates ++ (ofCircuit c).cycleGates.head?.toList) := by
  obtain ⟨v, rest, rfl, hlt, hcycle⟩ := Netlist.isCycle_of_order hc h
  rw [dependencies_assemble hc] at h
  have hgates : (ofCircuit c).cycleGates = (v :: rest).map c.nameAt := by
    rw [ofCircuit]
    dsimp only
    rw [h]
    dsimp only
    rw [List.dropLast_concat]
    exact Circuit.filterMap_ids fun i hi => hlt i (List.mem_append_left [v] hi)
  have hnodes : ∀ i : Nat, (assemble compile c).nodes[i]?.map (·.id) = c.gates[i]?.map (·.id) := by
    intro i
    rw [← List.getElem?_map, ← List.getElem?_map, ids_assemble]
  refine ⟨hgates ▸ hcycle, ?_, ?_⟩
  · rw [hasCycles, hgates]
    rfl
  · rw [cycleProblem, hgates]
    simp only [hnodes]
    rw [Circuit.filterMap_ids hlt, List.map_append]
    rfl

/-- **Analysis finds a cycle exactly if there is one.** -/
theorem hasCycles_iff (hc : c.Valid) :
    (ofCircuit c).hasCycles = true ↔ c.CombinationalCycle := by
  have hiff : (∃ s, (assemble (Definition.compile 0 0) c).dependencies.schedule = .ok s) ↔
      ¬ c.CombinationalCycle := Netlist.schedule_iff hc rfl
  cases horder : (assemble (Definition.compile 0 0) c).dependencies.order with
  | ok order =>
    have hacyclic := hiff.mp ⟨_, Dependencies.order_eq_ok_iff.mp horder⟩
    rw [dependencies_assemble hc] at horder
    rw [hasCycles, cycleGates_of_order horder]
    exact ⟨fun h => (by cases h), fun h => absurd h hacyclic⟩
  | error cycle =>
    refine iff_of_true (cycleGates_of_cycle hc horder).2.1 ?_
    by_contra hacyclic
    obtain ⟨schedule, hs⟩ := hiff.mpr hacyclic
    rw [Dependencies.schedule, horder] at hs
    cases hs

end Complexity

/-! ## 3. Evaluation -/

/-- **An immediate evaluation that fails reports the cycle that analysis finds**, and nothing else. -/
theorem Evaluator.problems_of_cycle (hc : c.Valid) (hcycle : c.CombinationalCycle) (e : Evaluator)
    (now : UInt64) : (e.immediate c now).problems = [.circularDependency
      ((Complexity.ofCircuit c).cycleGates ++ (Complexity.ofCircuit c).cycleGates.head?.toList)] := by
  cases horder : (e.assemble c).dependencies.order with
  | ok order =>
    have hacyclic := (Netlist.schedule_iff hc (e.shape_assemble c)).mp
      ⟨_, Dependencies.order_eq_ok_iff.mp horder⟩
    exact absurd hcycle hacyclic
  | error cycle =>
    have hs : (e.assemble c).dependencies.schedule = .error cycle := by
      rw [Dependencies.schedule, horder]
      rfl
    rw [immediate_of_cycle hc e now hs]
    exact congrArg ([·]) (Complexity.cycleGates_of_cycle hc horder).2.2

/-- The mode of an automatic call. -/
theorem Service.Accepts.delayed_iff {s : Service} (h : s.Accepts c)
    (hauto : s.config.strategy = .auto) :
    ∃ r, (s.evaluate c).1 = .ok r ∧ (r.strategy = .delayed ↔ c.CombinationalCycle) := by
  have hpossible : s.config.strategy = .immediate → ¬ c.CombinationalCycle := by
    intro himmediate
    rw [hauto] at himmediate
    cases himmediate
  obtain ⟨r, hr, hpass, hmode, -⟩ := h.evaluate_eq_ok hpossible
  refine ⟨r, hr, ?_⟩
  rw [← not_iff_not, ← hmode hauto]
  rcases hpass.mode with ⟨himmediate, -⟩ | ⟨hdelayed, -⟩
  · rw [himmediate]
    decide
  · rw [hdelayed]
    decide

/-- **Analysis and evaluation agree about cycles.** A valid circuit and its netlist, however deep
    custom gates may nest, have the same dependencies. Analysis reports a cycle exactly if an
    immediate evaluation fails, which then has this cycle as its only problem, its first gate again
    at the end; and exactly if an automatic call is delayed. The cycle is one of wires between
    gates that are not sequential. -/
theorem Service.cycles_agree (hcheck : c.check = []) :
    (∀ deepest, ∃ net, c.netlist deepest = .ok net ∧ net.dependencies = c.dependencies) ∧
    (∀ (e : Evaluator) (now : UInt64),
      ((Complexity.ofCircuit c).hasCycles = true ↔ (e.immediate c now).problems ≠ []) ∧
      ((Complexity.ofCircuit c).hasCycles = true →
        (e.immediate c now).problems = [.circularDependency ((Complexity.ofCircuit c).cycleGates ++
          (Complexity.ofCircuit c).cycleGates.head?.toList)])) ∧
    (∀ s : Service, s.config.strategy = .auto → s.Accepts c → ∃ r, (s.evaluate c).1 = .ok r ∧
      (r.strategy = .delayed ↔ (Complexity.ofCircuit c).hasCycles = true)) ∧
    ((Complexity.ofCircuit c).hasCycles = true → c.IsCycle (Complexity.ofCircuit c).cycleGates) := by
  have hc := Circuit.check_eq_nil_iff.mp hcheck
  have hiff := Complexity.hasCycles_iff hc
  refine ⟨fun deepest => ⟨_, ofCircuit_of_valid _ hc, dependencies_assemble hc⟩, fun e now => ⟨?_, ?_⟩,
    fun s hauto haccepts => ?_, fun hcycles => ?_⟩
  · have hsucceeded := (Evaluator.immediate_fails_iff hc e now).2
    rw [Evaluation.succeeded, List.isEmpty_iff] at hsucceeded
    rw [hiff, ne_eq, hsucceeded, not_not]
  · exact fun hcycles => Evaluator.problems_of_cycle hc (hiff.mp hcycles) e now
  · rw [hiff]
    exact haccepts.delayed_iff hauto
  · cases horder : (assemble (Definition.compile 0 0) c).dependencies.order with
    | ok order =>
      rw [dependencies_assemble hc] at horder
      rw [Complexity.hasCycles, Complexity.cycleGates_of_order horder] at hcycles
      cases hcycles
    | error cycle => exact (Complexity.cycleGates_of_cycle hc horder).1

/-- Two gates that inhibit each other are the cycle that analysis finds and an immediate evaluation
    reports. -/
theorem Service.cycles_crossedLatch :
    (Complexity.ofCircuit (Circuit.crossedLatch false true)).cycleGates = ["N2", "N1"] ∧
      (Circuit.crossedLatch false true).IsCycle ["N2", "N1"] ∧
      (Evaluator.immediate {} (Circuit.crossedLatch false true) 0).problems =
        [.circularDependency ["N2", "N1", "N2"]] ∧
      ∃ r, (Service.evaluate { time := .fixed 0 } (Circuit.crossedLatch false true)).1 = .ok r ∧
        r.strategy = .delayed := by
  have hgates : (Complexity.ofCircuit (Circuit.crossedLatch false true)).cycleGates =
      ["N2", "N1"] := rfl
  have hcycles : (Complexity.ofCircuit (Circuit.crossedLatch false true)).hasCycles = true := rfl
  obtain ⟨-, hproblems, hdelayed, hcycle⟩ := cycles_agree (c := Circuit.crossedLatch false true) rfl
  have hreported := (hproblems {} 0).2 hcycles
  obtain ⟨r, hr, hmode⟩ := hdelayed { time := .fixed 0 } rfl ⟨rfl, by decide⟩
  rw [hgates] at hreported hcycle
  exact ⟨hgates, hcycle hcycles, hreported, r, hr, hmode.mpr hcycles⟩

end LogicSim
