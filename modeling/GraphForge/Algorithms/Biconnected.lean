import Mathlib.Data.Prod.Lex
import GraphForge.Algorithms.SimpleNeighbors
import GraphForge.Lib.DepthFirst

/-!
# Biconnected blocks

The kernel goes through the simple undirected projection depth first. Every edge is pushed on a
stack when it is first looked at. When a node is left whose low link is not below the discovery
number of its parent, the edges down to the one by which it was entered are popped: their ends are a
block.

Counters stay at most the number of nodes, so the checked additions of the source are plain ones
here.
-/

namespace GraphForge.Algorithms.Biconnected

open Function

/-- The error of a component whose edges are not on the stack. -/
def stackUnderflow : AlgorithmError := .execution "biconnected edge stack underflow"

/-- The error of edges that are left on the stack. -/
def stackNotExhausted : AlgorithmError := .execution "biconnected edge stack was not exhausted"

/-- The edges of the projection, each once, the smaller ordinal first. -/
def projectedEdges (graph : AdjacencyGraph) :
    Except AlgorithmError (List (graph.Ordinal × graph.Ordinal)) := do
  let pairs ← resolveEntries graph
  return (ascending (pairs.map fun pair => toLex (min pair.1 pair.2, max pair.1 pair.2))).map ofLex

/-- The adjacency lists of the edges. -/
def adjacencyOf {n : ℕ} (edges : List (Fin n × Fin n)) (v : Fin n) : List (Fin n) :=
  (edges.flatMap fun edge =>
    (if edge.1 = v then [edge.2] else []) ++ (if edge.2 = v then [edge.1] else [])).insertionSort
      (· ≤ ·)

/-- The arrays and stacks of the traversal; the stacks have their top first. -/
structure State (V : Type) where
  discovery : V → Option ℕ
  lowlink : V → ℕ
  parent : V → Option V
  frames : List (V × ℕ)
  edgeStack : List (V × V)
  blocks : List (List V)
  nextDiscovery : ℕ

/-- `pop_block`: the ends of the edges down to the boundary, and what is left of the stack. -/
def popBlock {V : Type} [LinearOrder V] (boundary : V × V) :
    List V → List (V × V) → Except AlgorithmError (List V × List (V × V))
  | _, [] => .error stackUnderflow
  | block, edge :: stack =>
    let block := block ++ [edge.1, edge.2]
    if edge = boundary then .ok (ascending block, stack) else popBlock boundary block stack

namespace State

variable {V : Type}

/-- The state before any node is discovered. -/
def initial : State V where
  discovery := fun _ => none
  lowlink := fun _ => 0
  parent := fun _ => none
  frames := []
  edgeStack := []
  blocks := []
  nextDiscovery := 0

/-- The walk of the traversal. -/
def walk (s : State V) : DepthFirst.Walk V where
  time := s.discovery
  next := s.nextDiscovery
  path := s.frames

/-- The number of a node that was discovered. -/
def number (s : State V) (node : V) : ℕ := (s.discovery node).getD 0

variable [LinearOrder V]

/-- `discover`, with the frame that is pushed after it. -/
def discover (s : State V) (node : V) : State V :=
  { s with
    discovery := update s.discovery node (some s.nextDiscovery)
    lowlink := update s.lowlink node s.nextDiscovery
    nextDiscovery := s.nextDiscovery + 1
    frames := (node, 0) :: s.frames }

/-- `lowlink[node] = lowlink[node].min(value)`. -/
def lower (s : State V) (node : V) (value : ℕ) : State V :=
  { s with lowlink := update s.lowlink node (min (s.lowlink node) value) }

/-- What follows the last entry of a node: its low link goes to its parent, and a block is cut if it
is not below the number of the parent. -/
def complete (s : State V) (node : V) : Except AlgorithmError (State V) :=
  match s.parent node with
  | none => .ok s
  | some parentNode =>
    let s := s.lower parentNode (s.lowlink node)
    if s.number parentNode ≤ s.lowlink node then do
      let (block, stack) ← popBlock (parentNode, node) [] s.edgeStack
      return { s with edgeStack := stack, blocks := s.blocks ++ [block] }
    else .ok s

/-- One round of the traversal loop, for the frame on top. -/
def visit (adjacency : V → List V) (s : State V) : Except AlgorithmError (State V) :=
  match s.frames with
  | [] => .ok s
  | (node, index) :: frames =>
    match (adjacency node)[index]? with
    | some neighbor =>
      let s := { s with frames := (node, index + 1) :: frames }
      match s.discovery neighbor with
      | none =>
        .ok ({ s with
          parent := update s.parent neighbor (some node)
          edgeStack := (node, neighbor) :: s.edgeStack }.discover neighbor)
      | some number =>
        if s.parent node ≠ some neighbor ∧ number < s.number node then
          .ok ({ s with edgeStack := (node, neighbor) :: s.edgeStack }.lower node number)
        else .ok s
    | none => { s with frames := frames }.complete node

end State

/-- The traversal from one root, unless it was discovered before. -/
def traverse {n : ℕ} (adjacency : Fin n → List (Fin n)) (s : State (Fin n)) (root : Fin n) :
    Except AlgorithmError (State (Fin n)) :=
  if (s.discovery root).isSome then .ok s
  else do
    let s ← WhileLoop.run (fun s : State (Fin n) => DepthFirst.work adjacency s.walk)
      (fun s => !s.frames.isEmpty) (State.visit adjacency) (s.discover root)
    Except.refuseIf (s.edgeStack ≠ []) stackNotExhausted
    return s

/-- `biconnected_blocks`. -/
def biconnectedBlocks (graph : AdjacencyGraph) :
    Except AlgorithmError (List (List graph.Ordinal)) := do
  let edges ← projectedEdges graph
  let s ← (List.finRange graph.nodeIds.length).foldlM (traverse (adjacencyOf edges)) .initial
  return s.blocks.insertionSort (· ≤ ·)

end GraphForge.Algorithms.Biconnected
