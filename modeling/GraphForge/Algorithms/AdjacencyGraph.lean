import GraphForge.Lib.Lists

/-!
# The graph an algorithm reads

The exported topology as the kernels see it: the selected node surrogates in ascending order and
the adjacency entries of each of them. A kernel works on ordinals, the positions of the surrogates.
-/

namespace GraphForge.Algorithms

/-- `AlgorithmEdge`: what the kernels read of an adjacency entry. -/
structure AlgorithmEdge where
  neighborId : ℕ
  deriving DecidableEq, Repr

/-- `AdjacencyGraph`: what the kernels read of it. -/
structure AdjacencyGraph where
  nodeIds : List ℕ
  ascending : nodeIds.Pairwise (· < ·)
  neighbors : ℕ → List AlgorithmEdge

namespace AdjacencyGraph

variable (graph : AdjacencyGraph)

/-- The ordinals of the selected nodes. -/
abbrev Ordinal := Fin graph.nodeIds.length

/-- The entries of the node at an ordinal. -/
def row (v : graph.Ordinal) : List AlgorithmEdge := graph.neighbors (graph.nodeIds.get v)

/-- The ordinal of a surrogate: the map `node_ordinals` that the kernels build. -/
def ordinal (id : ℕ) : Option graph.Ordinal := graph.nodeIds.finIdxOf? id

variable {graph}

lemma nodup : graph.nodeIds.Nodup := graph.ascending.imp fun h => Nat.ne_of_lt h

lemma ordinal_eq_some_iff {id : ℕ} {v : graph.Ordinal} :
    graph.ordinal id = some v ↔ graph.nodeIds.get v = id :=
  graph.nodup.finIdxOf?_eq_some_iff

lemma ordinal_eq_none_iff {id : ℕ} : graph.ordinal id = none ↔ id ∉ graph.nodeIds :=
  List.finIdxOf?_eq_none_iff

end AdjacencyGraph

end GraphForge.Algorithms
