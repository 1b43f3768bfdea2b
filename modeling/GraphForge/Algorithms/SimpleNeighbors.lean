import GraphForge.Algorithms.AdjacencyGraph
import GraphForge.Algorithms.Control
import GraphForge.Lib.Maps

/-!
# The simple projection of a graph

Kernels that do not tell edges apart work on the pairs of ordinals that the adjacency entries join,
without loops and without repetitions.
-/

namespace GraphForge.Algorithms

open Except

/-- The error of a neighbour outside of the selection. -/
def unselectedNode : AlgorithmError := .execution "adjacency references an unselected node"

variable (graph : AdjacencyGraph)

/-- Where an entry of `source` leads. -/
def resolveEntry (source : graph.Ordinal) (edge : AlgorithmEdge) :
    Except AlgorithmError (graph.Ordinal × graph.Ordinal) := do
  let target ← ofOption unselectedNode (graph.ordinal edge.neighborId)
  return (source, target)

/-- The pairs that the entries join, in the order of the entries, without loops. -/
def resolveEntries : Except AlgorithmError (List (graph.Ordinal × graph.Ordinal)) := do
  let rows ← (List.finRange graph.nodeIds.length).mapM fun source =>
    (graph.row source).mapM (resolveEntry graph source)
  return rows.flatten.filter fun pair => pair.1 ≠ pair.2

/-- `simple_neighbors`. -/
def simpleNeighbors (symmetrize : Bool) :
    Except AlgorithmError (graph.Ordinal → List graph.Ordinal) := do
  let pairs ← resolveEntries graph
  return fun v => ascending (pairs.flatMap fun pair =>
    (if pair.1 = v then [pair.2] else []) ++ (if symmetrize ∧ pair.2 = v then [pair.1] else []))

/-- `simple_undirected_neighbors`. -/
def simpleUndirectedNeighbors :
    Except AlgorithmError (graph.Ordinal → List graph.Ordinal) := simpleNeighbors graph true

/-- An entry of `u` leads to `v`. -/
def HasEntry (u v : graph.Ordinal) : Prop :=
  ∃ edge ∈ graph.row u, edge.neighborId = graph.nodeIds.get v

/-- The simple undirected projection: two nodes with an entry from one to the other. -/
def Projects (u v : graph.Ordinal) : Prop :=
  u ≠ v ∧ (HasEntry graph u v ∨ HasEntry graph v u)

/-- Every entry leads to a selected node. -/
def Selected : Prop :=
  ∀ v, ∀ edge ∈ graph.row v, edge.neighborId ∈ graph.nodeIds

variable {graph : AdjacencyGraph}

lemma projects_symm {u v : graph.Ordinal} (h : Projects graph u v) : Projects graph v u :=
  ⟨h.1.symm, h.2.symm⟩

/-- The pairs are those that have an entry; the only failure is an entry that leads out of the
selection. -/
lemma ends_resolveEntries : Ends (fun e => e = unselectedNode ∧ ¬ Selected graph)
      (fun pairs => Selected graph ∧ ∀ u v, (u, v) ∈ pairs ↔ u ≠ v ∧ HasEntry graph u v)
      (resolveEntries graph) := by
  unfold resolveEntries
  have hentry : ∀ source, ∀ edge ∈ graph.row source,
      Ends (fun e => e = unselectedNode ∧ ¬ Selected graph)
        (fun pair => pair.1 = source ∧ graph.nodeIds.get pair.2 = edge.neighborId)
        (resolveEntry graph source edge) := by
    intro source edge hedge
    unfold resolveEntry
    cases htarget : graph.ordinal edge.neighborId with
    | none =>
      refine .error ⟨rfl, fun hselected => ?_⟩
      exact AdjacencyGraph.ordinal_eq_none_iff.mp htarget (hselected source edge hedge)
    | some target => exact .ok ⟨rfl, AdjacencyGraph.ordinal_eq_some_iff.mp htarget⟩
  refine Ends.bind (Ends.mapM fun source _ =>
    Ends.mapM fun edge hedge => hentry source edge hedge) ?_
  intro rows hrows
  -- each row of pairs belongs to a source, each pair to an entry
  have hrow : ∀ source, ∃ row ∈ rows, List.Forall₂
      (fun edge (pair : graph.Ordinal × graph.Ordinal) => pair.1 = source ∧
        graph.nodeIds.get pair.2 = edge.neighborId) (graph.row source) row :=
    fun source => hrows.exists_of_mem_left (List.mem_finRange source)
  refine .ok ⟨fun v edge hedge => ?_, fun u v => ?_⟩
  · obtain ⟨row, -, hpairs⟩ := hrow v
    obtain ⟨pair, -, -, htarget⟩ := hpairs.exists_of_mem_left hedge
    rw [← htarget]
    exact List.get_mem _ _
  · rw [List.mem_filter, List.mem_flatten]
    simp only [ne_eq, decide_not, Bool.not_eq_eq_eq_not, Bool.not_true, decide_eq_false_iff_not]
    rw [and_comm]
    refine and_congr_right fun _ => ⟨fun ⟨row, hmem, hpair⟩ => ?_, fun ⟨edge, hedge, htarget⟩ => ?_⟩
    · obtain ⟨source, -, hpairs⟩ := hrows.flip.exists_of_mem_left hmem
      obtain ⟨edge, hedge, hsource, htarget⟩ := hpairs.flip.exists_of_mem_left hpair
      obtain rfl : u = source := hsource
      exact ⟨edge, hedge, htarget.symm⟩
    · obtain ⟨row, hmem, hpairs⟩ := hrow u
      obtain ⟨pair, hpair, hsource, hpairTarget⟩ := hpairs.exists_of_mem_left hedge
      have hv : pair.2 = v :=
        List.nodup_iff_injective_get.mp graph.nodup (hpairTarget.trans htarget)
      refine ⟨row, hmem, ?_⟩
      rwa [← hsource, ← hv]

/-- The nodes that pairs join to a node. -/
lemma mem_flatMap_joined {V : Type} [DecidableEq V] {pairs : List (V × V)} {v w : V} :
    (w ∈ pairs.flatMap fun pair =>
      (if pair.1 = v then [pair.2] else []) ++ (if pair.2 = v then [pair.1] else [])) ↔
      (v, w) ∈ pairs ∨ (w, v) ∈ pairs := by
  rw [List.mem_flatMap]
  constructor
  · intro ⟨⟨a, b⟩, hpair, hmem⟩
    rcases List.mem_append.mp hmem with hside | hside
    · split_ifs at hside with hv
      · rw [← hv, List.mem_singleton.mp hside]
        exact .inl hpair
      · cases hside
    · split_ifs at hside with hv
      · rw [← hv, List.mem_singleton.mp hside]
        exact .inr hpair
      · cases hside
  · rintro (hpair | hpair)
    · exact ⟨(v, w), hpair, by simp⟩
    · exact ⟨(w, v), hpair, by simp⟩

/-- The simple undirected neighbours of a node are those that the projection joins to it. -/
lemma ends_simpleUndirectedNeighbors : Ends (fun e => e = unselectedNode ∧ ¬ Selected graph)
      (fun neighbors => Selected graph ∧ ∀ v, (neighbors v).Pairwise (· < ·) ∧
        ∀ w, w ∈ neighbors v ↔ Projects graph v w)
      (simpleUndirectedNeighbors graph) := by
  unfold simpleUndirectedNeighbors simpleNeighbors
  refine ends_resolveEntries.bind fun pairs ⟨hselected, hpairs⟩ =>
    .ok ⟨hselected, fun v => ⟨pairwise_ascending _, fun w => ?_⟩⟩
  simp only [mem_ascending, true_and, mem_flatMap_joined, hpairs]
  rw [ne_comm (a := w), ← and_or_left]
  rfl

end GraphForge.Algorithms
