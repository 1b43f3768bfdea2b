import Mathlib.Algebra.BigOperators.Group.Finset.Basic
import Mathlib.Data.Fintype.Card
import Mathlib.Data.Prod.Lex
import GraphForge.Algorithms.Control
import GraphForge.Lib.Maps
import GraphForge.Lib.WhileLoop
import GraphForge.Uuid

/-!
# Maximum bipartite matching

The kernel is the algorithm of Hopcroft and Karp. A phase first gives every left node that
alternating paths from the free ones reach its layer, breadth first. It then looks for an augmenting
path from each free left node that goes from layer to layer, depth first with an explicit stack, and
exchanges matched and unmatched edges along it. The phases end when the layers reach no free right
node.

A distance `usize::MAX` is `none` here; the others are below the number of left nodes.
-/

namespace GraphForge.Algorithms.BipartiteMatching

open Function

/-- The error of an edge that does not start on the left. -/
def sourceOutside : AlgorithmError := .execution "edge source is not in the left partition"

/-- The error of an edge that does not end on the right. -/
def targetOutside : AlgorithmError := .execution "edge target is not in the right partition"

/-- `BipartiteEdge`. -/
structure BipartiteEdge where
  edge : Uuid
  source : Uuid
  target : Uuid
  deriving DecidableEq, Repr

/-- `BipartiteProjection`. -/
structure BipartiteProjection where
  leftNodes : List Uuid
  rightNodes : List Uuid
  edges : List BipartiteEdge
  deriving DecidableEq, Repr

/-- The arrays `left_match` and `right_match`. -/
structure Matching (L R : Type) where
  leftMatch : L → Option R
  rightMatch : R → Option L

section Phase

variable {L R : Type} [DecidableEq L] [DecidableEq R]

/-! ## Layers -/

/-- The distances, the queue and whether a free right node was reached. -/
structure Layers (L : Type) where
  distance : L → Option ℕ
  queue : List L
  found : Bool

variable (lefts : List L)

/-- The free left nodes are the first layer. -/
def Layers.initial (matching : Matching L R) : Layers L where
  distance := fun left => if (matching.leftMatch left).isNone then some 0 else none
  queue := lefts.filter fun left => (matching.leftMatch left).isNone
  found := false

/-- One neighbour of the left node at the front of the queue. -/
def Layers.scan (matching : Matching L R) (left : L) (layers : Layers L) (right : R) : Layers L :=
  match matching.rightMatch right with
  | some next =>
    if layers.distance next = none then
      { layers with
        distance := update layers.distance next ((layers.distance left).map (· + 1))
        queue := layers.queue ++ [next] }
    else layers
  | none => { layers with found := true }

variable (adjacency : L → List R)

/-- One round of the breadth-first loop. -/
def Layers.visit (matching : Matching L R) (layers : Layers L) : Layers L :=
  match layers.queue with
  | [] => layers
  | left :: queue => (adjacency left).foldl (Layers.scan matching left) { layers with queue }

/-- The left nodes that are not reached yet and those that wait. -/
def Layers.work [Fintype L] (layers : Layers L) : ℕ :=
  (Finset.univ.filter fun left => layers.distance left = none).card + layers.queue.length

/-- `find_layers`, after its checkpoint. -/
def findLayers [Fintype L] (adjacency : L → List R) (matching : Matching L R) :
    Except AlgorithmError (Layers L) :=
  WhileLoop.run Layers.work (fun layers => !layers.queue.isEmpty)
    (fun layers => .ok (layers.visit adjacency matching)) (.initial lefts matching)

/-! ## Augmenting paths -/

/-- A frame of the depth-first stack: the left node, how far its neighbours have been gone through,
and the right node by which it was reached. -/
structure Frame (L R : Type) where
  left : L
  nextNeighbor : ℕ
  incomingRight : Option R

/-- The matching and the distances with the stack, top first, and whether a path was found. -/
structure Search (L R : Type) where
  matching : Matching L R
  distance : L → Option ℕ
  stack : List (Frame L R)
  augmented : Bool

/-- Match two nodes to each other. -/
def Matching.assign (matching : Matching L R) (left : L) (right : R) : Matching L R where
  leftMatch := update matching.leftMatch left (some right)
  rightMatch := update matching.rightMatch right (some left)

/-- Exchange the edges along the path on the stack, from its end at the right node `pathRight`. -/
def commit : List (Frame L R) → R → Matching L R → Matching L R
  | [], _, matching => matching
  | frame :: stack, pathRight, matching =>
    commit stack (frame.incomingRight.getD pathRight) (matching.assign frame.left pathRight)

/-- One round of the depth-first loop. -/
def Search.visit (s : Search L R) : Search L R :=
  match s.stack with
  | [] => s
  | frame :: below =>
    match (adjacency frame.left)[frame.nextNeighbor]? with
    | none => { s with distance := update s.distance frame.left none, stack := below }
    | some right =>
      let stack := { frame with nextNeighbor := frame.nextNeighbor + 1 } :: below
      match s.matching.rightMatch right with
      | none => { s with matching := commit stack right s.matching, stack, augmented := true }
      | some next =>
        if s.distance next = (s.distance frame.left).map (· + 1) then
          { s with
            stack := { left := next, nextNeighbor := 0, incomingRight := some right } :: stack }
        else { s with stack }

/-- The neighbours that the search has not looked at, of the nodes on the stack and of those that it
may still push. -/
def Search.work [Fintype L] (s : Search L R) : ℕ :=
  (∑ left with s.distance left ≠ none ∧ left ∉ s.stack.map (·.left),
    ((adjacency left).length + 1)) +
  (s.stack.map fun frame => (adjacency frame.left).length + 1 - frame.nextNeighbor).sum

/-- `augment_iterative`. -/
def augmentIterative [Fintype L] (matching : Matching L R) (distance : L → Option ℕ) (root : L) :
    Except AlgorithmError (Search L R) :=
  WhileLoop.run (Search.work adjacency) (fun s => !s.augmented && !s.stack.isEmpty)
    (fun s => .ok (s.visit adjacency))
    { matching, distance, stack := [{ left := root, nextNeighbor := 0, incomingRight := none }],
      augmented := false }

/-- One left node of a phase. -/
def augmentFrom [Fintype L] (s : Matching L R × (L → Option ℕ)) (left : L) :
    Except AlgorithmError (Matching L R × (L → Option ℕ)) :=
  if (s.1.leftMatch left).isNone then do
    let search ← augmentIterative adjacency s.1 s.2 left
    return (search.matching, search.distance)
  else .ok s

/-- The loop of a phase over the left nodes. -/
def augmentAll [Fintype L] (adjacency : L → List R) (matching : Matching L R)
    (distance : L → Option ℕ) : Except AlgorithmError (Matching L R × (L → Option ℕ)) :=
  lefts.foldlM (augmentFrom adjacency) (matching, distance)

/-! ## Phases -/

/-- The state of the main loop: the matching with the layers found for it. -/
structure PhaseState (L R : Type) where
  matching : Matching L R
  layers : Layers L
  control : AlgorithmControl

/-- The condition of the main loop, which finds the layers. -/
def enterPhase [Fintype L] (adjacency : L → List R) (matching : Matching L R)
    (control : AlgorithmControl) : Except AlgorithmError (PhaseState L R) := do
  let control ← control.checkpoint
  let layers ← findLayers lefts adjacency matching
  return { matching, layers, control }

/-- A phase and the next condition. -/
def runPhase [Fintype L] (adjacency : L → List R) (s : PhaseState L R) :
    Except AlgorithmError (PhaseState L R) := do
  let (matching, _) ← augmentAll lefts adjacency s.matching s.layers.distance
  enterPhase lefts adjacency matching s.control

/-- The left nodes that are not matched. -/
def Matching.free [Fintype L] (matching : Matching L R) : ℕ :=
  (Finset.univ.filter fun left => matching.leftMatch left = none).card

/-- The main loop. -/
def runPhases [Fintype L] (adjacency : L → List R) (control : AlgorithmControl) :
    Except AlgorithmError (PhaseState L R) := do
  let s ← enterPhase lefts adjacency { leftMatch := fun _ => none, rightMatch := fun _ => none } control
  WhileLoop.run (fun s : PhaseState L R => s.matching.free) (fun s => s.layers.found)
    (runPhase lefts adjacency) s

end Phase

/-! ## The projection -/

/-- `left_index` and `right_index`: the position of a node, the last one where it is repeated. -/
def indexOf (nodes : List Uuid) : Map Uuid (Fin nodes.length) :=
  (List.finRange nodes.length).foldl (fun index i => index.insert (nodes.get i) i) ∅

/-- The pairs of positions of the edges, and the edge kept for each of them. -/
structure Recorded (n m : ℕ) where
  pairs : List (Fin n × Fin m)
  edgeByPair : Map (Fin n × Fin m) BipartiteEdge

/-- Of two edges between the same nodes the one with the smaller UUID is kept. -/
def keepSmaller (edge : BipartiteEdge) : Option BipartiteEdge → BipartiteEdge
  | none => edge
  | some current => if edge.edge < current.edge then edge else current

/-- One edge of the projection. -/
def recordEdge (projection : BipartiteProjection)
    (recorded : Recorded projection.leftNodes.length projection.rightNodes.length)
    (edge : BipartiteEdge) :
    Except AlgorithmError (Recorded projection.leftNodes.length projection.rightNodes.length) := do
  let left ← Except.ofOption sourceOutside ((indexOf projection.leftNodes).lookup edge.source)
  let right ← Except.ofOption targetOutside ((indexOf projection.rightNodes).lookup edge.target)
  return {
    pairs := recorded.pairs ++ [(left, right)]
    edgeByPair := recorded.edgeByPair.insert (left, right)
      (keepSmaller edge (recorded.edgeByPair.lookup (left, right))) }

/-- The neighbours of a left node, sorted and without repetitions. -/
def adjacencyOf {n m : ℕ} (pairs : List (Fin n × Fin m)) (left : Fin n) : List (Fin m) :=
  ascending (pairs.filterMap fun pair => if pair.1 = left then some pair.2 else none)

/-- `maximum_bipartite_matching`. The edge of a matched pair is always recorded. -/
def maximumBipartiteMatching (projection : BipartiteProjection) (control : AlgorithmControl) :
    Except AlgorithmError (List BipartiteEdge) := do
  let control ← control.checkpoint
  let recorded ← projection.edges.foldlM (recordEdge projection) { pairs := [], edgeByPair := ∅ }
  let lefts := List.finRange projection.leftNodes.length
  let s ← runPhases lefts (adjacencyOf recorded.pairs) control
  let result := (lefts.filterMap fun left => (s.matching.leftMatch left).bind fun right =>
    recorded.edgeByPair.lookup (left, right)).insertionSort
      fun a b => toLex (a.source, toLex (a.target, a.edge)) ≤ toLex (b.source, toLex (b.target, b.edge))
  s.control.checkOutputRows result.length
  return result

end GraphForge.Algorithms.BipartiteMatching
