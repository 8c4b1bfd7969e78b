import LogicSim.Circuit.Complexity
import LogicSim.Proofs.Graph.Depth
import LogicSim.Proofs.Netlist.Wiring
import LogicSim.Proofs.Strict.Search

/-!
# Strict dependencies

The strict counterparts of what is done with the dependencies of a graph. If the edges join existing
nodes, every list of edges, every component and every depth is read in bounds
(`Dependencies.strictOfEdges_eq`, `Dependencies.Bounded.strictOrder_eq`,
`Dependencies.Bounded.strictDepth_eq`), and a cycle that is found has a last gate to leave out. The
wires of a circuit and the connections of a netlist do join existing nodes, so that

* `Netlist.WellFormed.strictDependencies_eq` -- the dependencies of a well-formed netlist,
* `Complexity.strictOfCircuit_eq` -- the size and structure of any circuit, valid or not,

are found in bounds. The depth is no larger than the number of nodes
(`Dependencies.depth_le_size`).
-/

namespace LogicSim

open Search

namespace Dependencies

/-! ## 1. Strict counterparts -/

/-- The sources of the edges into each node. -/
def strictSources (size : Nat) (edges : List (Nat × Nat)) : Option (Array (List Nat)) :=
  edges.foldlM
    (fun lists edge =>
      strictModify lists edge.2 fun l => if l.contains edge.1 then l else l ++ [edge.1])
    (Array.replicate size [])

/-- The targets of the edges out of each node. -/
def strictTargets (incoming : Array (List Nat)) : Option (Array (List Nat)) :=
  (List.range incoming.size).reverse.foldlM
    (fun lists target => do
      let sources ← incoming[target]?
      sources.foldlM (fun ls source => strictModify ls source (target :: ·)) lists)
    (Array.replicate incoming.size [])

/-- The strongly connected component of each node. -/
def strictComponents (incoming : Array (List Nat)) : Option (Array Nat) := do
  let outgoing ← strictTargets incoming
  let along ← strictExplore outgoing (List.range incoming.size)
  let against ← strictExplore incoming along.order.reverse
  against.strictTreeNumbers

/-- Whether an edge carries the signal of the pass before. The components are read only if it leads
    into a sequential node. -/
def strictFeedback (sequential : Array Bool) (component : Array Nat) (source target : Nat) :
    Option Bool := do
  if ← sequential[target]? then
    return (← component[source]?) = (← component[target]?)
  else return false

/-- The dependencies in a graph with the given edges. -/
def strictOfEdges (sequential : Array Bool) (edges : List (Nat × Nat)) : Option Dependencies := do
  let all ← strictSources sequential.size edges
  let component ← strictComponents all
  let incoming ← (List.range sequential.size).mapM fun target => do
    let sources ← all[target]?
    strictFilter (fun source => return !(← strictFeedback sequential component source target)) sources
  return { sequential, component, incoming := incoming.toArray }

/-- Whether an edge carries the signal of the pass before. -/
def strictIsFeedback (d : Dependencies) (source target : Nat) : Option Bool :=
  strictFeedback d.sequential d.component source target

/-- The search against the dependencies. -/
def strictSearch (d : Dependencies) : Option Search := strictExplore d.incoming (List.range d.size)

/-- An order of the nodes, or a cycle of dependencies. -/
def strictOrder (d : Dependencies) : Option (Except (List Nat) (List Nat)) := do
  let s ← d.strictSearch
  match s.loop with
  | some cycle => return .error cycle
  | none => return .ok s.order

/-- A schedule for a pass, or a cycle of dependencies. -/
def strictSchedule (d : Dependencies) : Option (Except (List Nat) Schedule) := do
  return (← d.strictOrder).map fun order => ⟨d, order⟩

/-- The depth of a node whose dependencies have the given depths. -/
def strictNodeDepth (d : Dependencies) (depths : Array Nat) (v : Nat) : Option Nat := do
  if ← d.sequential[v]? then return 0
  else
    let sources ← d.incoming[v]?
    let below ← sources.mapM (depths[·]?)
    return 1 + below.foldl max 0

/-- The number of combinational nodes on the longest path. -/
def strictDepth (d : Dependencies) : Option Nat := do
  let s ← d.strictSearch
  let depths ← s.order.foldlM
    (fun depths v => do strictSet depths v (← d.strictNodeDepth depths v))
    (Array.replicate d.size 0)
  return depths.foldl max 0

/-! ## 2. Edges in bounds -/

section OfEdges

variable {sequential : Array Bool} {edges : List (Nat × Nat)}

theorem strictSources_eq {size : Nat} (hin : InRange size edges) :
    strictSources size edges = some (sources size edges) := by
  refine foldlM_eq_some (P := fun lists => lists.size = size) (fun lists h e he => ?_)
    (Array.size_replicate ..)
  exact ⟨strictModify_eq (h.symm ▸ (hin e he).2) _, (Array.size_modify ..).trans h⟩

/-- The sources of all nodes are nodes. -/
theorem closed_sources {size : Nat} (hin : InRange size edges) : Closed (sources size edges) := by
  intro v w hw
  have hv := lt_size_of_mem_getD hw
  rw [size_sources] at hv ⊢
  exact (hin _ ((mem_sources hv).mp hw)).1

theorem strictTargets_eq {incoming : Array (List Nat)} (hclosed : Closed incoming) :
    strictTargets incoming = some (targets incoming) := by
  refine foldlM_eq_some (P := fun lists => lists.size = incoming.size) (fun lists h v hv => ?_)
    (Array.size_replicate ..)
  have hlt : v < incoming.size := List.mem_range.mp (List.mem_reverse.mp hv)
  refine ⟨?_, (size_addTarget v (incoming.getD v []) lists).trans h⟩
  rw [getElem?_eq_getD hlt []]
  refine foldlM_eq_some (P := fun lists => lists.size = incoming.size) (fun ls hs u hu => ?_) h
  exact ⟨strictModify_eq (hs.symm ▸ hclosed v u hu) _, (Array.size_modify ..).trans hs⟩

/-- The targets of all nodes are nodes. -/
theorem closed_targets (incoming : Array (List Nat)) : Closed (targets incoming) := by
  intro v w hw
  have hv := lt_size_of_mem_getD hw
  rw [size_targets] at hv ⊢
  exact ((mem_targets hv).mp hw).1

/-- **The components of a graph are found in bounds.** -/
theorem strictComponents_eq {incoming : Array (List Nat)} (hclosed : Closed incoming) :
    strictComponents incoming = some (components incoming) := by
  have hrange : ∀ v, v ∈ List.range incoming.size ↔ v < incoming.size := fun _ => List.mem_range
  have halong : strictExplore (targets incoming) (List.range incoming.size) =
      some (explore ((targets incoming).getD · []) incoming.size (List.range incoming.size)) := by
    have hroots : ∀ v, v ∈ List.range incoming.size ↔ v < (targets incoming).size := by
      intro v
      rw [size_targets]
      exact hrange v
    have h := strictExplore_eq (closed_targets incoming) hroots
    rwa [size_targets] at h
  have hroots : ∀ v, v ∈ (explore ((targets incoming).getD · []) incoming.size
      (List.range incoming.size)).order.reverse ↔ v < incoming.size := by
    intro v
    rw [Search.order, List.reverse_reverse]
    exact mem_done_explore (fun v => (hrange v).mpr) _ v
  have hcoherent := coherent_explore (fun v => (hroots v).mpr) (incoming.getD · [])
  simp only [strictComponents, strictTargets_eq hclosed, halong, strictExplore_eq hclosed hroots,
    strictTreeNumbers_eq hcoherent, Option.bind_eq_bind, Option.bind_some]
  rfl

theorem size_components (incoming : Array (List Nat)) :
    (components incoming).size = incoming.size := by
  have hrange : ∀ v < incoming.size, v ∈ List.range incoming.size := fun _ => List.mem_range.mpr
  refine size_treeNumbers (coherent_explore (fun v hv => ?_) (incoming.getD · []))
  rw [Search.order, List.reverse_reverse]
  exact (mem_done_explore hrange _ v).mpr hv

theorem strictFeedback_eq {component : Array Nat} (hsize : component.size = sequential.size)
    {source target : Nat} (hsource : source < sequential.size) (htarget : target < sequential.size) :
    strictFeedback sequential component source target =
      some (sequential.getD target false && sameComponent component source target) := by
  rw [strictFeedback, getElem?_eq_getD htarget false, getElem?_eq_getD (hsize.symm ▸ hsource) 0,
    getElem?_eq_getD (hsize.symm ▸ htarget) 0]
  cases sequential.getD target false <;> rfl

/-- **The dependencies between existing nodes are found in bounds.** -/
theorem strictOfEdges_eq (hin : InRange sequential.size edges) :
    strictOfEdges sequential edges = some (ofEdges sequential edges) := by
  have hclosed := closed_sources hin
  have hsize := size_sources sequential.size edges
  have hcomponent : (components (sources sequential.size edges)).size = sequential.size :=
    (size_components _).trans hsize
  have hlists : (List.range sequential.size).mapM (fun target => do
      let list ← (sources sequential.size edges)[target]?
      strictFilter (fun source => return !(← strictFeedback sequential
        (components (sources sequential.size edges)) source target)) list) =
      some ((List.range sequential.size).map fun target =>
        ((sources sequential.size edges).getD target []).filter fun source =>
          !(sequential.getD target false &&
            sameComponent (components (sources sequential.size edges)) source target)) := by
    refine mapM_eq_some fun target ht => ?_
    have ht : target < sequential.size := List.mem_range.mp ht
    rw [getElem?_eq_getD (hsize.symm ▸ ht) []]
    refine strictFilter_eq fun source hsource => ?_
    rw [strictFeedback_eq hcomponent (hsize ▸ hclosed target source hsource) ht]
    rfl
  rw [strictOfEdges, strictSources_eq hin, Option.bind_eq_bind, Option.bind_some,
    strictComponents_eq hclosed, Option.bind_eq_bind, Option.bind_some, hlists]
  refine congrArg (fun lists => some (Dependencies.mk sequential
    (components (sources sequential.size edges)) lists)) ?_
  refine Array.ext_getElem? fun v => ?_
  rw [List.getElem?_toArray, List.getElem?_map, Array.getElem?_mapIdx]
  by_cases hv : v < sequential.size
  · rw [List.getElem?_range hv, getElem?_eq_getD (hsize.symm ▸ hv) []]
    rfl
  · rw [List.getElem?_eq_none (by rw [List.length_range]; exact Nat.le_of_not_lt hv),
      Array.getElem?_eq_none (by rw [hsize]; exact Nat.le_of_not_lt hv)]
    rfl

/-! ## 3. Dependencies in bounds -/

/-- **All lists of dependencies have an entry for each node**, and name nodes. -/
structure Bounded (d : Dependencies) : Prop where
  component : d.component.size = d.size
  incoming : d.incoming.size = d.size
  closed : Closed d.incoming

theorem bounded_ofEdges (hin : InRange sequential.size edges) : (ofEdges sequential edges).Bounded := by
  have hsize := size_sources sequential.size edges
  have hincoming : (ofEdges sequential edges).incoming.size = sequential.size := by
    rw [ofEdges, Array.size_mapIdx, hsize]
  refine ⟨(size_components _).trans hsize, hincoming, fun v w hw => ?_⟩
  rw [hincoming]
  exact (lt_of_mem_of hin hw).1

end OfEdges

variable {d : Dependencies}

/-- The nodes of an order are nodes of the graph. -/
theorem lt_of_mem_order {order : List Nat} (horder : d.order = .ok order) :
    ∀ v ∈ order, v < d.size := by
  intro v hv
  rw [Dependencies.order] at horder
  split at horder
  · cases horder
  · obtain rfl := Except.ok.inj horder
    exact (mem_done_explore (roots_range d.size) d.of v).mp (List.mem_reverse.mp hv)

/-- A cycle is not empty, and its nodes are nodes of the graph. -/
theorem isLoop_of_order {cycle : List Nat} (hcycle : d.order = .error cycle) :
    IsLoop d.of d.size cycle := by
  rw [Dependencies.order] at hcycle
  split at hcycle
  next l hl =>
    obtain rfl := Except.error.inj hcycle
    exact isLoop_explore (roots_range d.size) hl
  next => cases hcycle

namespace Bounded

variable (h : d.Bounded)
include h

theorem strictIsFeedback_eq {source target : Nat} (hsource : source < d.size)
    (htarget : target < d.size) :
    d.strictIsFeedback source target = some (d.isFeedback source target) :=
  strictFeedback_eq h.component hsource htarget

theorem strictSearch_eq : d.strictSearch = some d.search := by
  have hroots : ∀ v, v ∈ List.range d.size ↔ v < d.incoming.size := by
    intro v
    rw [h.incoming]
    exact List.mem_range
  have hexplore := strictExplore_eq h.closed hroots
  rw [h.incoming] at hexplore
  exact hexplore

/-- **The nodes are ordered in bounds.** -/
theorem strictOrder_eq : d.strictOrder = some d.order := by
  rw [strictOrder, h.strictSearch_eq, order]
  dsimp only [Option.bind_eq_bind, Option.bind_some]
  cases d.search.loop <;> rfl

theorem strictSchedule_eq : d.strictSchedule = some d.schedule := by
  rw [strictSchedule, h.strictOrder_eq]
  rfl

theorem strictNodeDepth_eq {depths : Array Nat} (hdepths : depths.size = d.size) {v : Nat}
    (hv : v < d.size) : d.strictNodeDepth depths v = some (d.nodeDepth depths v) := by
  have hbelow : (d.of v).mapM (depths[·]?) = some ((d.of v).map fun w => depths.getD w 0) :=
    mapM_eq_some fun w hw => getElem?_eq_getD (by rw [hdepths, ← h.incoming]; exact h.closed v w hw) 0
  rw [strictNodeDepth, getElem?_eq_getD (show v < d.sequential.size from hv) false,
    getElem?_eq_getD (h.incoming.symm ▸ hv) [], nodeDepth]
  dsimp only [Option.bind_eq_bind, Option.bind_some]
  rw [show d.incoming.getD v [] = d.of v from rfl, hbelow]
  cases d.sequential.getD v false <;> rfl

/-- **The depths are worked out in bounds.** -/
theorem strictDepth_eq : d.strictDepth = some d.depth := by
  have hdepths : d.search.order.foldlM
      (fun depths v => do strictSet depths v (← d.strictNodeDepth depths v))
      (Array.replicate d.size 0) = some d.depths := by
    refine foldlM_eq_some (P := fun depths => depths.size = d.size) (fun depths hs v hv => ?_)
      (Array.size_replicate ..)
    have hlt : v < d.size :=
      (mem_done_explore (roots_range d.size) d.of v).mp (List.mem_reverse.mp hv)
    rw [h.strictNodeDepth_eq hs hlt]
    exact ⟨strictSet_eq (hs.symm ▸ hlt) _, (Array.size_setIfInBounds ..).trans hs⟩
  rw [strictDepth, h.strictSearch_eq, Option.bind_eq_bind, Option.bind_some, hdepths]
  rfl

end Bounded

/-- **A schedule of existing nodes**, whose dependencies are in bounds. -/
structure Fits (schedule : Schedule) (size : Nat) : Prop where
  bounded : schedule.dependencies.Bounded
  size_eq : schedule.dependencies.size = size
  order : ∀ v ∈ schedule.order, v < size

theorem Bounded.fits (h : d.Bounded) {schedule : Schedule} (hs : d.schedule = .ok schedule) :
    Fits schedule d.size := by
  rw [Dependencies.schedule] at hs
  cases horder : d.order with
  | error cycle => rw [horder] at hs; cases hs
  | ok order =>
    rw [horder] at hs
    obtain rfl := Except.ok.inj hs
    exact ⟨h, rfl, lt_of_mem_order horder⟩

/-! ## 4. The largest depth -/

theorem foldl_max_le {l : List Nat} {a bound : Nat} (ha : a ≤ bound) (hl : ∀ x ∈ l, x ≤ bound) :
    l.foldl max a ≤ bound := by
  induction l generalizing a with
  | nil => exact ha
  | cons x l ih =>
    exact ih (Nat.max_le.mpr ⟨ha, hl x List.mem_cons_self⟩)
      fun y hy => hl y (List.mem_cons_of_mem x hy)

theorem nodeDepth_le {depths : Array Nat} {bound : Nat} (h : ∀ w, depths.getD w 0 ≤ bound) (v : Nat) :
    d.nodeDepth depths v ≤ 1 + bound := by
  rw [nodeDepth]
  split
  · exact Nat.zero_le _
  · refine Nat.add_le_add_left (foldl_max_le (Nat.zero_le _) fun x hx => ?_) 1
    obtain ⟨w, -, rfl⟩ := List.mem_map.mp hx
    exact h w

/-- Each node that is taken adds at most one to the largest depth. -/
theorem getD_depthsOver_le (l : List Nat) (v : Nat) : (d.depthsOver l).getD v 0 ≤ l.length := by
  induction l using List.reverseRecOn generalizing v with
  | nil => by_cases hv : v < d.size <;> simp [depthsOver, Array.getD_eq_getD_getElem?, hv]
  | append_singleton l u ih =>
    rw [List.length_append, List.length_singleton, Nat.add_comm]
    by_cases huv : u = v
    · subst huv
      by_cases hu : u < d.size
      · rw [getD_concat_self hu]
        exact nodeDepth_le ih u
      · rw [Array.getD_eq_getD_getElem?, Array.getElem?_eq_none
          (by rw [size_depthsOver]; exact Nat.le_of_not_lt hu)]
        exact Nat.zero_le _
    · rw [getD_concat_of_ne huv]
      exact (ih v).trans (Nat.le_add_left ..)

/-- **The depth of a graph is at most the number of its nodes.** -/
theorem depth_le_size : d.depth ≤ d.size := by
  have hlength : d.search.order.length ≤ d.size := by
    have hcoherent := coherent_explore (roots_range d.size) d.of
    have hsub : d.search.order ⊆ List.range d.size := fun v hv =>
      List.mem_range.mpr (hcoherent.done_lt v (List.mem_reverse.mp hv))
    have hnodup : d.search.order.Nodup := List.nodup_reverse.mpr hcoherent.nodup_done
    have := (List.subperm_of_subset hnodup hsub).length_le
    rwa [List.length_range] at this
  have hall : ∀ x ∈ d.depths.toList, x ≤ d.size := by
    intro x hx
    obtain ⟨v, hv⟩ := List.getElem?_of_mem hx
    have hget : d.depths.getD v 0 = x := by
      rw [Array.getD_eq_getD_getElem?, ← Array.getElem?_toList, hv, Option.getD_some]
    exact hget ▸ (getD_depthsOver_le d.search.order v).trans hlength
  rw [depth, ← Array.foldl_toList]
  exact foldl_max_le (Nat.zero_le _) hall

end Dependencies

/-! ## 5. Circuits and netlists -/

/-- The dependencies between the gates of a circuit. -/
def Circuit.strictDependencies (c : Circuit Definition) : Option Dependencies :=
  let index (id : GateId) : Option Nat := c.gates.findIdx? (·.id = id)
  let edges := c.wires.filterMap fun w => do
    return (← index w.source.gate, ← index w.sink.gate)
  Dependencies.strictOfEdges (c.gates.map (·.kind.isSequential)).toArray edges

/-- The dependencies between the nodes of a netlist. -/
def Netlist.strictDependencies {ε : Type} (net : Netlist ε) : Option Dependencies :=
  Dependencies.strictOfEdges (net.nodes.map (·.element.isSequential)).toArray
    (net.connections.map fun k => (k.source, k.sink))

/-- The size and structure of a circuit. Only the cycle, without the gate that is in it twice, and
    the depth need positions. -/
def Complexity.strictOfCircuit (c : Circuit Definition) : Option Complexity := do
  let dependencies ← c.strictDependencies
  let cycleGates ← match ← dependencies.strictOrder with
    | .ok _ => some []
    | .error cycle => do (← strictDropLast cycle).mapM fun i => c.gates[i]?.map (·.id)
  let depth ← dependencies.strictDepth
  return { ofCircuit c with cycleGates, depth }

/-- Wires join gates, whether or not the circuit is valid. -/
theorem Circuit.inRange_wires (c : Circuit Definition) :
    Dependencies.InRange (c.gates.map (·.kind.isSequential)).toArray.size
      (c.wires.filterMap fun w => do
        return (← c.gates.findIdx? (·.id = w.source.gate),
          ← c.gates.findIdx? (·.id = w.sink.gate))) := by
  intro e he
  obtain ⟨w, -, hw⟩ := List.mem_filterMap.mp he
  simp only [Option.bind_eq_bind, Option.bind_eq_some_iff, Option.pure_def, Option.some.injEq] at hw
  obtain ⟨i, hi, j, hj, rfl⟩ := hw
  rw [List.size_toArray, List.length_map]
  exact ⟨(List.findIdx?_eq_some_iff_findIdx_eq.mp hi).1, (List.findIdx?_eq_some_iff_findIdx_eq.mp hj).1⟩

theorem Circuit.size_dependencies (c : Circuit Definition) : c.dependencies.size = c.gates.length :=
  List.size_toArray.trans (List.length_map ..)

theorem Circuit.strictDependencies_eq (c : Circuit Definition) :
    c.strictDependencies = some c.dependencies ∧ c.dependencies.Bounded :=
  ⟨Dependencies.strictOfEdges_eq c.inRange_wires, Dependencies.bounded_ofEdges c.inRange_wires⟩

/-- **The dependencies of a well-formed netlist are found in bounds.** -/
theorem Netlist.WellFormed.strictDependencies_eq {ε : Type} {net : Netlist ε} (h : net.WellFormed) :
    net.strictDependencies = some net.dependencies ∧ net.dependencies.Bounded :=
  ⟨Dependencies.strictOfEdges_eq h.inRange, Dependencies.bounded_ofEdges h.inRange⟩

/-- **The structure of any circuit is found in bounds**, valid or not. -/
theorem Complexity.strictOfCircuit_eq (c : Circuit Definition) :
    strictOfCircuit c = some (ofCircuit c) := by
  obtain ⟨hdependencies, hbounded⟩ := c.strictDependencies_eq
  rw [strictOfCircuit, hdependencies]
  simp only [Option.bind_eq_bind, Option.bind_some, hbounded.strictOrder_eq, hbounded.strictDepth_eq]
  cases horder : c.dependencies.order with
  | ok order => simp [ofCircuit, horder]
  | error cycle =>
    have hloop := Dependencies.isLoop_of_order horder
    have hne : cycle ≠ [] := by
      rintro rfl
      exact absurd hloop.long (by decide)
    have hgates : cycle.dropLast.mapM (fun i => c.gates[i]?.map (·.id)) =
        some (cycle.dropLast.filterMap fun i => c.gates[i]?.map (·.id)) := by
      refine mapM_eq_filterMap fun i hi => ?_
      rw [Option.isSome_map, List.getElem?_eq_getElem
        (c.size_dependencies ▸ hloop.lt i (List.mem_of_mem_dropLast hi))]
      rfl
    simp only [strictDropLast, if_neg hne, Option.bind_some, hgates, ofCircuit, horder]
    rfl

/-- **The depth of a circuit is at most the number of its gates.** -/
theorem Complexity.depth_le (c : Circuit Definition) : (ofCircuit c).depth ≤ c.gates.length := by
  have hdepth : (ofCircuit c).depth = c.dependencies.depth := by rw [ofCircuit]
  rw [hdepth, ← c.size_dependencies]
  exact c.dependencies.depth_le_size

end LogicSim
