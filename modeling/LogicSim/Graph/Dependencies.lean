import LogicSim.Circuit.Basic
import LogicSim.Graph.Search

/-!
# Dependencies between gates

Within a pass a gate comes after the gates that drive it. Sequential nodes may close loops: an edge
into a sequential node from a node that depends on it is *feedback*, carries the signal of the pass
before and orders nothing. All other edges are dependencies.

* `Dependencies.ofEdges` finds the strongly connected components of the edges, by one search along
  the edges and one against them, and leaves the feedback out.
* `Dependencies.schedule` orders the nodes, or gives a cycle of dependencies.
* `Dependencies.depth` is the number of combinational nodes on the longest path of dependencies.
-/

namespace LogicSim

/-- The edges of a graph by their ends, each list without repetitions. -/
structure Dependencies where
  sequential : Array Bool
  /-- the strongly connected component of each node -/
  component : Array Nat
  /-- the nodes that each node depends on, in the order in which the edges were given -/
  incoming : Array (List Nat)

/-- An order of the nodes in which each comes after its dependencies. -/
structure Schedule where
  dependencies : Dependencies
  order : List Nat

namespace Dependencies

/-- The sources of the edges into each node, in the order of the edges, each source once. -/
def sources (size : Nat) (edges : List (Nat × Nat)) : Array (List Nat) :=
  edges.foldl
    (fun lists edge =>
      lists.modify edge.2 fun l => if l.contains edge.1 then l else l ++ [edge.1])
    (Array.replicate size [])

/-- The targets of the edges out of each node, in increasing order. -/
def targets (incoming : Array (List Nat)) : Array (List Nat) :=
  (List.range incoming.size).reverse.foldl
    (fun lists target =>
      (incoming.getD target []).foldl (fun ls source => ls.modify source (target :: ·)) lists)
    (Array.replicate incoming.size [])

/-- The strongly connected components of a graph given by its incoming edges. The nodes reached
    against the edges, from the node that a search along the edges was done with last, are its
    component; then the same with the nodes that are left. -/
def components (incoming : Array (List Nat)) : Array Nat :=
  let outgoing := targets incoming
  let along := Search.explore (outgoing.getD · []) incoming.size (List.range incoming.size)
  let against := Search.explore (incoming.getD · []) incoming.size along.order.reverse
  against.treeNumbers

/-- Whether two nodes lie in the same component. -/
def sameComponent (component : Array Nat) (a b : Nat) : Bool :=
  component.getD a 0 = component.getD b 0

/-- The dependencies in a graph with the given edges, from source to target. -/
def ofEdges (sequential : Array Bool) (edges : List (Nat × Nat)) : Dependencies :=
  let incoming := sources sequential.size edges
  let component := components incoming
  { sequential
    component
    incoming := incoming.mapIdx fun target list =>
      list.filter fun source =>
        !(sequential.getD target false && sameComponent component source target) }

/-- The number of nodes. -/
def size (d : Dependencies) : Nat := d.sequential.size

/-- The nodes that come before a node in a pass. -/
def of (d : Dependencies) (v : Nat) : List Nat := d.incoming.getD v []

/-- Whether an edge carries the signal of the pass before. -/
def isFeedback (d : Dependencies) (source target : Nat) : Bool :=
  d.sequential.getD target false && sameComponent d.component source target

/-- All pairs of nodes between which an edge carries the signal of the pass before. -/
def feedback (d : Dependencies) : List (Nat × Nat) :=
  let nodes := List.range d.size
  nodes.flatMap fun source => (nodes.filter (d.isFeedback source)).map ((source, ·))

/-- The search against the dependencies, from each node in turn. -/
def search (d : Dependencies) : Search := Search.explore d.of d.size (List.range d.size)

/-- An order of the nodes, or a cycle of dependencies in the direction of the signal, its first
    node again at the end. -/
def order (d : Dependencies) : Except (List Nat) (List Nat) :=
  match d.search.loop with
  | some cycle => .error cycle
  | none => .ok d.search.order

/-- Whether the dependencies contain a cycle. -/
def hasCycle (d : Dependencies) : Bool := d.search.loop.isSome

/-- A schedule for a pass, or a cycle of dependencies. -/
def schedule (d : Dependencies) : Except (List Nat) Schedule :=
  d.order.map fun order => ⟨d, order⟩

/-- The depth of a node whose dependencies have the given depths. -/
def nodeDepth (d : Dependencies) (depths : Array Nat) (v : Nat) : Nat :=
  if d.sequential.getD v false then 0
  else 1 + ((d.of v).map fun w => depths.getD w 0).foldl max 0

/-- The depths of all nodes. The nodes are taken in the order of the search; on a cycle, a
    dependency that was not yet done with counts as nothing. -/
def depths (d : Dependencies) : Array Nat :=
  d.search.order.foldl (fun depths v => depths.setIfInBounds v (d.nodeDepth depths v))
    (Array.replicate d.size 0)

/-- The number of combinational nodes on the longest path. -/
def depth (d : Dependencies) : Nat := d.depths.foldl max 0

end Dependencies

/-- Whether an edge carries the signal of the pass before. -/
def Schedule.isFeedback (s : Schedule) (source target : Nat) : Bool :=
  s.dependencies.isFeedback source target

/-- The dependencies between the gates of a circuit, valid or not. An identifier denotes the first
    gate that has it; wires at missing gates are left out. -/
def Circuit.dependencies (c : Circuit Definition) : Dependencies :=
  let index (id : GateId) : Option Nat := c.gates.findIdx? (·.id = id)
  let edges := c.wires.filterMap fun w => do
    return (← index w.source.gate, ← index w.sink.gate)
  .ofEdges (c.gates.map (·.kind.isSequential)).toArray edges

end LogicSim
