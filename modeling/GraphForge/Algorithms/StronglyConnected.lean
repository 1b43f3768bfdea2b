import GraphForge.Algorithms.SimpleNeighbors
import GraphForge.Lib.DepthFirst

/-!
# Strongly connected components

The kernel is Tarjan's algorithm with an explicit stack of frames. A node joins the component stack
when it is discovered; when a node is completed whose low link is its own discovery number, it and
everything above it on the component stack get the next component number. Last, the components are
numbered again in the order of their first nodes.

Counters stay at most the number of nodes, so the checked additions of the source are plain ones
here.
-/

namespace GraphForge.Algorithms.StronglyConnected

open Function

/-- The error of a component whose root is not on the stack. -/
def stackUnderflow : AlgorithmError := .execution "Tarjan component stack underflow"

/-- The error of a vertex without a component. -/
def invalidLabel : AlgorithmError := .execution "Tarjan produced an invalid component label"

/-- `DfsFrame`. -/
structure DfsFrame (V : Type) where
  node : V
  nextNeighbor : ℕ
  parent : Option V

/-- The arrays and stacks of the traversal; the stacks have their top first, and a raw label that
is not given yet is `none`. -/
structure State (V : Type) where
  discovery : V → Option ℕ
  lowlink : V → ℕ
  onStack : V → Bool
  componentStack : List V
  frames : List (DfsFrame V)
  rawLabels : V → Option ℕ
  nextDiscovery : ℕ
  componentCount : ℕ

namespace State

variable {V : Type} [DecidableEq V]

/-- The state before any node is discovered. -/
def initial : State V where
  discovery := fun _ => none
  lowlink := fun _ => 0
  onStack := fun _ => false
  componentStack := []
  frames := []
  rawLabels := fun _ => none
  nextDiscovery := 0
  componentCount := 0

variable (s : State V)

/-- `discover`. -/
def discover (node : V) (parent : Option V) : State V :=
  { s with
    discovery := update s.discovery node (some s.nextDiscovery)
    lowlink := update s.lowlink node s.nextDiscovery
    nextDiscovery := s.nextDiscovery + 1
    onStack := update s.onStack node true
    componentStack := node :: s.componentStack
    frames := { node, nextNeighbor := 0, parent } :: s.frames }

/-- `lowlink[node] = lowlink[node].min(value)`. -/
def lower (node : V) (value : ℕ) : State V :=
  { s with lowlink := update s.lowlink node (min (s.lowlink node) value) }

/-- The loop that closes a component: members are popped down to `node`. -/
def popComponent (node : V) : List V → State V → Except AlgorithmError (State V)
  | [], _ => .error stackUnderflow
  | member :: stack, s =>
    let s := { s with
      componentStack := stack
      onStack := update s.onStack member false
      rawLabels := update s.rawLabels member (some s.componentCount) }
    if member = node then .ok s else popComponent node stack s

/-- The low link of a completed node goes to its parent, if it has one. -/
def lowerParent (node : V) : Option V → State V
  | some parent => s.lower parent (s.lowlink node)
  | none => s

/-- What follows the last entry of a node: its low link goes to its parent, and it closes its
component when it is the component's root. -/
def complete (node : V) (parent : Option V) : Except AlgorithmError (State V) :=
  let s := s.lowerParent node parent
  if s.discovery node = some (s.lowlink node) then do
    let s ← popComponent node s.componentStack s
    return { s with componentCount := s.componentCount + 1 }
  else .ok s

/-- The nodes of the frames and how far their entries have been gone through. -/
def positions (frames : List (DfsFrame V)) : List (V × ℕ) :=
  frames.map fun frame => (frame.node, frame.nextNeighbor)

/-- The walk of the traversal. -/
def walk : DepthFirst.Walk V where
  time := s.discovery
  next := s.nextDiscovery
  path := positions s.frames

end State

variable (graph : AdjacencyGraph)

/-- One round of the traversal loop, for the frame on top. -/
def visit (s : State graph.Ordinal) : Except AlgorithmError (State graph.Ordinal) :=
  match s.frames with
  | [] => .ok s
  | frame :: frames =>
    match (graph.row frame.node)[frame.nextNeighbor]? with
    | some edge =>
      let s := { s with frames := { frame with nextNeighbor := frame.nextNeighbor + 1 } :: frames }
      match graph.ordinal edge.neighborId with
      | none => .error unselectedNode
      | some neighbor =>
        match s.discovery neighbor with
        | none => .ok (s.discover neighbor (some frame.node))
        | some number => .ok (if s.onStack neighbor then s.lower frame.node number else s)
    | none => { s with frames := frames }.complete frame.node frame.parent

/-- The traversal from one root, unless it was discovered before. -/
def traverse (s : State graph.Ordinal) (root : graph.Ordinal) :
    Except AlgorithmError (State graph.Ordinal) :=
  if (s.discovery root).isSome then .ok s
  else
    WhileLoop.run (fun s => DepthFirst.work graph.row s.walk) (fun s => !s.frames.isEmpty)
      (visit graph) (s.discover root none)

/-- The state of `canonical_labels`: the number given to each raw label, the next number, and the
labels so far. -/
structure Renumbering where
  canonical : ℕ → Option ℕ
  next : ℕ
  labels : List ℕ

/-- The closure of `canonical_labels`. -/
def renumber (componentCount : ℕ) (state : Renumbering) (raw : Option ℕ) :
    Except AlgorithmError Renumbering :=
  match raw with
  | none => .error invalidLabel
  | some component =>
    if component < componentCount then
      match state.canonical component with
      | some label => .ok { state with labels := state.labels ++ [label] }
      | none => .ok {
          canonical := update state.canonical component (some state.next)
          next := state.next + 1
          labels := state.labels ++ [state.next] }
    else .error invalidLabel

/-- `canonical_labels`. -/
def canonicalLabels (raw : List (Option ℕ)) (componentCount : ℕ) :
    Except AlgorithmError (List ℕ) := do
  let state ← raw.foldlM (renumber componentCount) { canonical := fun _ => none, next := 0, labels := [] }
  return state.labels

/-- `strongly_connected_labels`. -/
def stronglyConnectedLabels : Except AlgorithmError (List ℕ) := do
  let s ← (List.finRange graph.nodeIds.length).foldlM (traverse graph) .initial
  canonicalLabels (List.ofFn s.rawLabels) s.componentCount

end GraphForge.Algorithms.StronglyConnected
