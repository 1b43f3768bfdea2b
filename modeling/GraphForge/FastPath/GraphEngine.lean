import GraphForge.FastPath.Matches

/-!
# An engine over a multigraph

An executable engine that reads a multigraph, with an adjacency provider and ordinal identities for
it. They show that the laws asked of these can be met for every graph.
-/

namespace GraphForge.FastPath

open List Binder

/-- Values of an engine over a graph. -/
inductive GraphValue where
  | null
  | node (n : ℕ)
  | edge (e : ℕ)
  | cell (c : Cell)
  | literal
  deriving DecidableEq, Repr

namespace GraphValue

/-- How the graph's nodes, edges and cells are values. -/
def graphValues : GraphValues GraphValue where
  node := .node
  edge := .edge
  cell := .cell

/-- The place of a key in ascending order. -/
def rank : List GraphValue → ℕ
  | .cell (.uuid u) :: _ => u.val
  | .cell (.int64 n) :: _ => n
  | _ => 0

end GraphValue

variable (G : Multigraph) (propNames : PropertyId → Option String)
  (relNames : RelationTypeId → String)

/-- The outgoing relationships of a bound node, when the other variables are new. -/
def expandOut (src edge dst : Option GraphValue) (hop : Hop) :
    List (GraphValue × GraphValue × GraphValue) :=
  match src, edge, dst with
  | some (.node n), none, none =>
    if hop.dir = .out ∧ hop.minHops = 1 ∧ hop.maxHops = some 1 then
      (G.outgoing (relName relNames hop.relTy) n).map fun e => (.node n, .edge e.id, .node e.dst)
    else []
  | _, _, _ => []

/-- An engine for pipelines without expressions over properties other than identities. -/
def graphEngine : Engine GraphValue where
  null := .null
  isNode x := match x with
    | .null | .node _ => true
    | _ => false
  literal value := if isNonNull value then .literal else .null
  parameter _ := .null
  property x prop := match x with
    | .node n => if propNames prop = some "node_uuid" then .cell (.uuid (G.uuid n)) else .null
    | _ => .null
  binary _ _ _ := .null
  unary _ _ := .null
  apply _ _ := .null
  caseOf _ _ _ := .null
  list _ := .null
  map _ := .null
  quantify _ _ _ := .null
  comprehend _ _ _ := .null
  isTrue _ := false
  elements _ := []
  rowCount _ := 0
  nodeScan bound ty := match bound, ty with
    | none, none => G.nodes.map .node
    | some x, none => [x]
    | _, some _ => []
  edgeScan _ _ := []
  expand := expandOut G relNames
  unique edge priorEdges := edge ∉ priorEdges
  procedure _ _ := []
  groups keyCount keys :=
    if keyCount = 0 then [range keys.length]
    else keys.dedup.map fun key => (range keys.length).filter (keys[·]? = some key)
  distinct columns :=
    (range columns.length).filter fun i => columns[i]? ∉ (columns.take i).map some
  sorted _ keys :=
    (range keys.length).insertionSort fun i j =>
      GraphValue.rank (keys[i]?.getD []) ≤ GraphValue.rank (keys[j]?.getD [])
  aggregate func args := match func with
    | .count => .cell (.int64 (args.countP (·.1 ≠ some .null)))
    | _ => .null
  write _ _ rows := rows

/-- The engine sorts by identity. -/
lemma sorted_graphEngine (nullsFirst : Bool) (us : List Uuid) :
    let positions := (graphEngine G propNames relNames).sorted [(.asc, nullsFirst)]
      (us.map fun u => [GraphValue.cell (.uuid u)])
    positions.Perm (range us.length) ∧ (pick positions us).Pairwise (· ≤ ·) := by
  intro positions
  let keys := us.map fun u => [GraphValue.cell (.uuid u)]
  let key : ℕ → ℕ := fun i => GraphValue.rank (keys[i]?.getD [])
  have hdef : positions = (range keys.length).insertionSort (key · ≤ key ·) := rfl
  have hkey : ∀ i u, us[i]? = some u → key i = u.val := by
    intro i u hu
    show GraphValue.rank ((us.map fun u => [GraphValue.cell (.uuid u)])[i]?.getD []) = _
    rw [getElem?_map, hu]
    rfl
  constructor
  · rw [hdef, show us.length = keys.length from (length_map _).symm]
    exact perm_insertionSort _ _
  · unfold pick
    rw [pairwise_filterMap, hdef]
    apply (pairwise_insertionSort _ _).imp
    intro i j hij u hu v hv
    rw [hkey i u hu, hkey j v hv] at hij
    exact hij

/-- The engine reads the graph. -/
theorem reads_graphEngine :
    Reads (graphEngine G propNames relNames) G GraphValue.graphValues propNames relNames where
  scan := ⟨G.nodes, .refl _, rfl⟩
  rescan _ _ := rfl
  expand relTy n _ := ⟨G.outgoing (relName relNames relTy) n, .refl _, rfl⟩
  unique e _ f _ := by
    show decide (some (GraphValue.edge f.id) ∉ [some (GraphValue.edge e.id)]) = _
    simp [eq_comm]
  nodeUuid n _ prop hprop := if_pos hprop
  sorted nullsFirst us := sorted_graphEngine G propNames relNames nullsFirst us
  oneGroup keys := by
    refine ⟨range keys.length, ?_, .refl _⟩
    unfold graphEngine
    simp only [if_true]
  count args hargs _ := by
    show GraphValue.cell (.int64 (args.countP _)) = GraphValue.cell (.int64 args.length)
    rw [countP_eq_length.mpr]
    intro arg harg
    exact decide_eq_true (hargs arg harg)
  node_ne_null _ := nofun
  edge_ne_null _ := nofun
  literal_ne_null value h := by
    show (if isNonNull value then GraphValue.literal else .null) ≠ .null
    rw [if_pos h]
    exact nofun

/-! ## A session that serves the graph -/

/-- The inbound row of a node. -/
def inboundRow (name : String) (node : ℕ) : List (ℕ × ℕ) :=
  (G.incoming name node).map fun e => (e.id, e.src)

/-- The inbound rows of a relation, read as stored. -/
def inboundReader (name : String) : AdjacencyReader where
  nodeExtent := (G.matching name).foldr (fun e extent => max (e.dst + 1) extent) 0
  degree node := .ok (inboundRow G name node).length
  neighborChunk node skip limit := .ok (((inboundRow G name node).drop skip).take limit)
  rowLimit node := (inboundRow G name node).length
  skip_lt := by
    intro node skip limit chunk h hne
    by_contra hle
    cases h
    exact hne (by rw [drop_eq_nil_of_le (by omega), take_nil])

/-- A provider over the graph. -/
def inboundProvider : AdjacencyProvider where
  adjacency name _ := .ok (inboundReader G name)
  edgeCardinality name _ := .ok (G.matching name).length

/-- The provider serves the graph. -/
lemma serves_inboundProvider : (inboundProvider G).Serves G where
  cardinality _ := rfl
  inbound name := by
    refine ⟨inboundReader G name, rfl, ?_, ?_⟩
    · intro n
      refine ⟨inboundRow G name n, .refl _, rfl, ?_⟩
      intro skip limit hlimit
      refine ⟨_, rfl, take_prefix _ _, ?_⟩
      intro hskip hnil
      have hlength := congrArg List.length hnil
      rw [length_take, length_drop, length_nil] at hlength
      omega
    · show ∀ e ∈ G.matching name, e.dst < (G.matching name).foldr _ 0
      induction G.matching name with
      | nil => exact nofun
      | cons f fs ih =>
        intro e he
        rw [foldr_cons]
        rcases mem_cons.mp he with rfl | he
        · omega
        · have := ih e he
          omega

instance : Decidable G.UuidOrdered := by
  unfold Multigraph.UuidOrdered
  exact inferInstance

/-- Identities with requests of at most two nodes. -/
def graphIdentities : OrdinalIdentities where
  maxRequestedIds := 2
  uuidOrderMatchesOrdinals := .ok (decide G.UuidOrdered)
  lookupNodeUuids requested :=
    .ok (requested.map fun n => if n ∈ G.nodes then some (G.uuid n) else none)

/-- The identities serve the graph. -/
lemma serves_graphIdentities : (graphIdentities G).Serves G where
  maxRequestedIds_pos := Nat.two_pos
  order h := by
    show Except.ok (decide G.UuidOrdered) = _
    rw [decide_eq_true h]
  lookup requested _ hnodes := by
    show Except.ok _ = Except.ok _
    congr 1
    apply map_congr_left
    intro n hn
    rw [if_pos (hnodes n hn)]

end GraphForge.FastPath
