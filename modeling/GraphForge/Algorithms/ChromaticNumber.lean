import Mathlib.Data.Finset.Option
import Mathlib.Data.Fintype.Card
import GraphForge.Algorithms.Control
import GraphForge.Lib.Maps
import GraphForge.Lib.MeasuredFix
import GraphForge.Uuid

/-!
# The exact chromatic number

The kernel indexes the selected nodes in UUID order, folds the stored edges into a simple graph on
the indices, colours it greedily for an upper bound and then searches all colourings, branch and
bound, for a better one. A vertex takes a colour in use or the first fresh one.
-/

namespace GraphForge.Algorithms.ChromaticNumber

open Function

/-- `ChromaticEdge`: a stored edge entry of the selected projection. -/
structure ChromaticEdge where
  edge : Uuid
  source : Uuid
  target : Uuid
  deriving DecidableEq, Repr

/-- `canonical`: the smaller endpoint first. -/
def ChromaticEdge.canonical (e : ChromaticEdge) : ChromaticEdge :=
  if e.target < e.source then { e with source := e.target, target := e.source } else e

/-- The error of a repeated node. -/
def nodesNotUnique : AlgorithmError := .execution "chromatic_number node UUIDs must be unique"

/-- The error of a neighbour outside of the selection. -/
def outsideSelection : AlgorithmError :=
  .execution "chromatic_number edge endpoint is outside node selection"

/-- The error of a loop, which no colouring allows. -/
def containsSelfLoop : AlgorithmError :=
  .execution "chromatic_number is undefined for a graph containing a self-loop"

/-- The error of an edge with different ends in different rows. -/
def inconsistentEdge : AlgorithmError :=
  .execution "chromatic_number edge UUID has inconsistent adjacency entries"

/-- The error of a search that finds no uncoloured node where one is left. -/
def lostNode : AlgorithmError :=
  .execution "chromatic_number search lost an uncolored node"

/-- The error of a count beyond 64 bits. -/
def rangeExceeded : AlgorithmError :=
  .execution "chromatic_number exceeds supported range"

/-- `index_nodes`: the map from a UUID to its position is the sorted list of the nodes. -/
def indexNodes (nodes : List Uuid) : Except AlgorithmError (List Uuid) :=
  (nodes.insertionSort (· ≤ ·)).foldlM (fun index uuid =>
    if uuid ∈ index then .error nodesNotUnique else .ok (index ++ [uuid])) []

/-- The first loop of `simple_neighbors`: check an edge entry and store it under its UUID. -/
def storeEdge (nodeIndex : List Uuid) (stored : Map Uuid ChromaticEdge) (raw : ChromaticEdge) :
    Except AlgorithmError (Map Uuid ChromaticEdge) :=
  let edge := raw.canonical
  match nodeIndex.finIdxOf? edge.source with
  | none => .error outsideSelection
  | some source =>
    match nodeIndex.finIdxOf? edge.target with
    | none => .error outsideSelection
    | some target =>
      if source = target then .error containsSelfLoop
      else
        match stored.lookup edge.edge with
        | none => .ok (stored.insert edge.edge edge)
        | some previous =>
          if previous = edge then .ok (stored.insert edge.edge edge) else .error inconsistentEdge

/-- The neighbours of each indexed node, `Vec<BTreeSet<usize>>`. -/
abbrev Neighbors (n : ℕ) := Fin n → Finset (Fin n)

/-- The second loop of `simple_neighbors`: both directions of a stored edge. -/
def connect (nodeIndex : List Uuid) (neighbors : Neighbors nodeIndex.length) (edge : ChromaticEdge) :
    Neighbors nodeIndex.length :=
  match nodeIndex.finIdxOf? edge.source, nodeIndex.finIdxOf? edge.target with
  | some source, some target =>
    let neighbors := update neighbors source (insert target (neighbors source))
    update neighbors target (insert source (neighbors target))
  -- the source indexes the map here: every stored edge passed the first loop's lookups
  | _, _ => neighbors

/-- `simple_neighbors`. -/
def simpleNeighbors (edges : List ChromaticEdge) (nodeIndex : List Uuid) :
    Except AlgorithmError (Neighbors nodeIndex.length) := do
  let stored ← edges.foldlM (storeEdge nodeIndex) ∅
  return (stored.entries.map (·.2)).foldl (connect nodeIndex) fun _ => ∅

variable {n : ℕ}

/-- The colours given so far. -/
abbrev Colors (n : ℕ) := Fin n → Option ℕ

/-- `neighbor_colors`. -/
def neighborColors (vertex : Fin n) (neighbors : Neighbors n) (colors : Colors n) : Finset ℕ :=
  (neighbors vertex).biUnion fun neighbor => (colors neighbor).toFinset

variable (neighbors : Neighbors n)

/-- The loop of `select_vertex`: a vertex without a colour is taken when its saturation and degree
are larger than those of the vertex selected so far. -/
def selectStep (colors : Colors n) (selected : Option (Fin n × ℕ × ℕ)) (vertex : Fin n) :
    Option (Fin n × ℕ × ℕ) :=
  if (colors vertex).isSome then selected
  else
    let key := ((neighborColors vertex neighbors colors).card, (neighbors vertex).card)
    match selected with
    | none => some (vertex, key)
    | some (_, selectedKey) =>
      if selectedKey.1 < key.1 ∨ (selectedKey.1 = key.1 ∧ selectedKey.2 < key.2) then
        some (vertex, key)
      else selected

/-- `select_vertex`: maximum saturation, then maximum degree, then the smallest index. -/
def selectVertex (colors : Colors n) : Except AlgorithmError (Fin n) :=
  .ofOption lostNode (((List.finRange n).foldl (selectStep neighbors colors) none).map (·.1))

/-- `increment`: the next count, in the range of `usize`. -/
def increment (value : ℕ) : Except AlgorithmError ℕ := .ofOption rangeExceeded (checkedAdd value 1)

/-- The number of colours in use after a vertex takes `color`: one more when it is the first fresh
colour. -/
def countColor (usedCount color : ℕ) : Except AlgorithmError ℕ :=
  if color = usedCount then increment usedCount else .ok usedCount

/-- The colour loop of `greedy_upper_bound`: the first colour from `color` on that is not
forbidden. It passes over no more colours than are forbidden. -/
def firstFree (forbidden : Finset ℕ) : ℕ → ℕ → Except AlgorithmError ℕ
  | 0, color => .ok color
  | fuel + 1, color =>
    if color ∈ forbidden then do firstFree forbidden fuel (← increment color) else .ok color

/-- One round of `greedy_upper_bound`, on the colours and the number of them in use. -/
def greedyRound (state : Colors n × ℕ) : Except AlgorithmError (Colors n × ℕ) := do
  let vertex ← selectVertex neighbors state.1
  let forbidden := neighborColors vertex neighbors state.1
  let color ← firstFree forbidden forbidden.card 0
  let usedCount ← countColor state.2 color
  return (update state.1 vertex (some color), usedCount)

/-- `greedy_upper_bound`, from no colours. -/
def greedyUpperBound : Except AlgorithmError (Colors n × ℕ) :=
  (List.range n).foldlM (fun state _ => greedyRound neighbors state) (fun _ => none, 0)

/-- The arguments of `search`: the colours given, how many are in use, the best bound known and
the rounds consumed. -/
structure SearchState (n : ℕ) where
  colors : Colors n
  usedCount : ℕ
  best : ℕ
  control : AlgorithmControl

/-- What `search` leaves: the best bound and the rounds consumed. -/
abbrev SearchResult := Except AlgorithmError (ℕ × AlgorithmControl)

instance : Inhabited SearchResult := ⟨.error default⟩

/-- Try one colour of the chosen vertex. -/
def tryColor (search : SearchState n → SearchResult) (s : SearchState n) (vertex : Fin n)
    (forbidden : Finset ℕ) (state : ℕ × AlgorithmControl) (color : ℕ) : SearchResult :=
  if state.1 ≤ color ∨ color ∈ forbidden then .ok state
  else do
    let nextUsed ← countColor s.usedCount color
    search {
      colors := update s.colors vertex (some color)
      usedCount := nextUsed
      best := state.1
      control := state.2 }

/-- The body of `search`. -/
def searchBody (search : SearchState n → SearchResult) (s : SearchState n) : SearchResult := do
  let control ← s.control.checkpoint
  if ∀ vertex, (s.colors vertex).isSome then
    return (min s.best s.usedCount, control)
  else if s.best ≤ s.usedCount then
    return (s.best, control)
  else
    let vertex ← selectVertex neighbors s.colors
    let forbidden := neighborColors vertex neighbors s.colors
    (List.range (s.usedCount + 1)).foldlM (tryColor search s vertex forbidden) (s.best, control)

/-- The vertices without a colour. -/
def uncolored (colors : Colors n) : Finset (Fin n) := {vertex | colors vertex = none}

/-- `search`: each call has one vertex less to colour. -/
def search (s : SearchState n) : SearchResult :=
  MeasuredFix.fix (fun s => (uncolored s.colors).card) (searchBody neighbors) s

/-- `exact_chromatic_number`. -/
def exactChromaticNumber (nodes : List Uuid) (edges : List ChromaticEdge)
    (control : AlgorithmControl) : Except AlgorithmError ℕ := do
  let control ← control.checkpoint
  control.checkOutputRows 1
  let nodeIndex ← indexNodes nodes
  let neighbors ← simpleNeighbors edges nodeIndex
  if nodeIndex = [] then return 0
  else
    let (_, best) ← greedyUpperBound neighbors
    let (best, _) ← search neighbors { colors := fun _ => none, usedCount := 0, best, control }
    return best

end GraphForge.Algorithms.ChromaticNumber
