/-!
# Depth-first search

A search visits the nodes of a graph, given by the list of successors of each node, and records the
order in which it is done with them. It is a machine (`Search.step`) with an explicit path: each
frame of the path holds a node and the successors not yet looked at. A node is pushed when it is
first met, either as the next root or as a successor of the innermost node, and finished when its
successors are all looked at.

The nodes finished from one root form a *tree*. A successor that is still on the path closes a
loop; the first loop met is kept.

Each step takes a root, looks at a successor or finishes a node, so that the number of nodes, roots
and successors bounds the run (`Search.bound`).
-/

namespace LogicSim

/-- The state of a node in a search. -/
inductive Mark where
  | fresh
  /-- on the path from the root -/
  | onPath
  | finished
  deriving DecidableEq, Repr

/-- A node of the path, with the successors still to be looked at. -/
structure Frame where
  node : Nat
  pending : List Nat
  deriving DecidableEq, Repr

/-- The state of a search. -/
structure Search where
  marks : Array Mark
  /-- the path from the current root, innermost node first -/
  path : List Frame
  /-- the roots still to be taken -/
  roots : List Nat
  /-- the trees, latest first, and in each the nodes in the reverse order of finishing -/
  trees : List (List Nat)
  /-- the first loop met: from the innermost node along the path to the node met again, and once
      more the innermost node -/
  loop : Option (List Nat)

namespace Search

/-- The mark of a node. Nodes outside of the graph count as finished. -/
def mark (s : Search) (v : Nat) : Mark := s.marks.getD v .finished

/-- The nodes of the path, innermost first. -/
def pathNodes (s : Search) : List Nat := s.path.map (·.node)

/-- The loop closed by the edge from the innermost node to a node of the path. -/
def loopThrough (path : List Nat) (v : Nat) : List Nat :=
  path.takeWhile (· ≠ v) ++ v :: path.head?.toList

/-- Adds a finished node to the current tree. -/
def addToTree (v : Nat) : List (List Nat) → List (List Nat)
  | [] => [[v]]
  | tree :: trees => (v :: tree) :: trees

/-- One step; none when the search is over. -/
def step (successors : Nat → List Nat) (s : Search) : Option Search :=
  match s.path with
  | ⟨v, w :: rest⟩ :: path =>
    match s.mark w with
    | .fresh =>
      some { s with
        marks := s.marks.setIfInBounds w .onPath
        path := ⟨w, successors w⟩ :: ⟨v, rest⟩ :: path }
    | .onPath =>
      some { s with
        path := ⟨v, rest⟩ :: path
        loop := s.loop.or (some (loopThrough s.pathNodes w)) }
    | .finished => some { s with path := ⟨v, rest⟩ :: path }
  | ⟨v, []⟩ :: path =>
    some { s with
      marks := s.marks.setIfInBounds v .finished
      path := path
      trees := addToTree v s.trees }
  | [] =>
    match s.roots with
    | [] => none
    | r :: roots =>
      if s.mark r = .fresh then
        some { s with
          marks := s.marks.setIfInBounds r .onPath
          path := [⟨r, successors r⟩]
          roots := roots
          trees := [] :: s.trees }
      else some { s with roots := roots }

/-- At most so many steps. -/
def run (successors : Nat → List Nat) : Nat → Search → Search
  | 0, s => s
  | fuel + 1, s =>
    match s.step successors with
    | none => s
    | some s => run successors fuel s

/-- A search that has not begun, of a graph with `size` nodes. -/
def start (size : Nat) (roots : List Nat) : Search :=
  { marks := Array.replicate size .fresh, path := [], roots, trees := [], loop := none }

/-- A bound on the number of steps. -/
def bound (successors : Nat → List Nat) (size : Nat) (roots : List Nat) : Nat :=
  roots.length + size + ((List.range size).map fun v => (successors v).length).foldr (· + ·) 0

/-- The search of a graph with `size` nodes from the given roots, one after the other. -/
def explore (successors : Nat → List Nat) (size : Nat) (roots : List Nat) : Search :=
  run successors (bound successors size roots) (start size roots)

/-- The nodes in the order in which the search was done with them. -/
def order (s : Search) : List Nat := s.trees.flatten.reverse

/-- The number of the tree of each node, in the order of the roots. -/
def treeNumbers (s : Search) : Array Nat :=
  (s.trees.reverse.zipIdx).foldl
    (fun numbers tree => tree.1.foldl (fun ns v => ns.setIfInBounds v tree.2) numbers)
    (Array.replicate s.marks.size 0)

end Search

end LogicSim
