import GraphForge.FastPath.Operators

/-!
# Matches in a multigraph

The graph that a session serves, the matches of the fast-path shapes in it, and what it means that
the execution layer, the adjacency provider and the ordinal identities all read this graph.
-/

namespace GraphForge.FastPath

open Binder

/-- A relationship, of the relation with the given name. -/
structure Edge where
  id : ℕ
  src : ℕ
  dst : ℕ
  relation : String
  deriving DecidableEq, Repr

/-- A multigraph: loops and parallel relationships are allowed. Nodes are numbered by the ordinals
that the identities are stored under. -/
structure Multigraph where
  nodes : List ℕ
  edges : List Edge
  uuid : ℕ → Uuid
  nodup_nodes : nodes.Nodup
  nodup_ids : (edges.map (·.id)).Nodup
  src_mem : ∀ e ∈ edges, e.src ∈ nodes
  dst_mem : ∀ e ∈ edges, e.dst ∈ nodes

namespace Multigraph

variable (G : Multigraph)

/-- Node-ordinal order is UUID order. -/
def UuidOrdered : Prop := ∀ m ∈ G.nodes, ∀ n ∈ G.nodes, m < n → G.uuid m < G.uuid n

variable (name : String)

/-- The relationships that an expansion over a relation reads; `*` is all of them. -/
def matching : List Edge :=
  G.edges.filter fun e => name = "*" ∨ e.relation = name

/-- The matching edges out of a node. -/
def outgoing (node : ℕ) : List Edge := (G.matching name).filter (·.src = node)

/-- The matching edges into a node. -/
def incoming (node : ℕ) : List Edge := (G.matching name).filter (·.dst = node)

/-- The two-hop matches, of two different relationships when `disjoint`. -/
def paths (disjoint : Bool) : List (Edge × Edge) :=
  (G.matching name).flatMap fun first =>
    ((G.outgoing name first.dst).filter fun second => disjoint = false ∨ first.id ≠ second.id).map
      fun second => (first, second)

/-- The result column of each kind: the number of matches, or the first of the destination
identities of all matches in ascending order. -/
def answer : FastPathKind → List Cell
  | .edgeCount => [.int64 (G.matching name).length]
  | .orderedOneHop fetch =>
    ((((G.matching name).map fun e => G.uuid e.dst).insertionSort (· ≤ ·)).take fetch).map .uuid
  | .orderedTwoHop fetch disjoint =>
    ((((G.paths name disjoint).map fun path => G.uuid path.2.dst).insertionSort
      (· ≤ ·)).take fetch).map .uuid

variable {G} {name : String}

lemma mem_edges_of_matching {e : Edge} (h : e ∈ G.matching name) : e ∈ G.edges :=
  (List.mem_filter.mp h).1

/-- Outgoing edges match, and start at the node. -/
lemma mem_matching_of_outgoing {e : Edge} {n : ℕ} (h : e ∈ G.outgoing name n) :
    e ∈ G.matching name ∧ e.src = n := by
  have hfilter := List.mem_filter.mp h
  exact ⟨hfilter.1, of_decide_eq_true hfilter.2⟩

end Multigraph

/-! ## Readers of the graph -/

/-- The values that stand for the graph's elements in rows. -/
structure GraphValues (V : Type) where
  node : ℕ → V
  edge : ℕ → V
  cell : Cell → V

/-- The execution layer reads the graph: scans and expansions return its nodes and relationships in
some order, relationships are compared by identity, and sorting, grouping and counting do what
their names say. Counts are 64-bit. -/
structure Reads {V : Type} (E : Engine V) (G : Multigraph) (val : GraphValues V)
    (propNames : PropertyId → Option String) (relNames : RelationTypeId → String) : Prop where
  scan : ∃ nodes : List ℕ, nodes.Perm G.nodes ∧ E.nodeScan none none = nodes.map val.node
  rescan : ∀ n ∈ G.nodes, E.nodeScan (some (val.node n)) none = [val.node n]
  expand : ∀ relTy, ∀ n ∈ G.nodes, ∃ edges : List Edge,
    edges.Perm (G.outgoing (relName relNames relTy) n) ∧
      E.expand (some (val.node n)) none none (outHop relTy) =
        edges.map fun e => (val.node n, val.edge e.id, val.node e.dst)
  unique : ∀ e ∈ G.edges, ∀ f ∈ G.edges,
    E.unique (some (val.edge f.id)) [some (val.edge e.id)] = decide (e.id ≠ f.id)
  nodeUuid : ∀ n ∈ G.nodes, ∀ prop, propNames prop = some "node_uuid" →
    E.property (val.node n) prop = val.cell (.uuid (G.uuid n))
  sorted : ∀ (nullsFirst : Bool) (us : List Uuid),
    (E.sorted [(.asc, nullsFirst)] (us.map fun u => [val.cell (.uuid u)])).Perm
        (List.range us.length) ∧
      (pick (E.sorted [(.asc, nullsFirst)] (us.map fun u => [val.cell (.uuid u)])) us).Pairwise
        (· ≤ ·)
  oneGroup : ∀ keys, ∃ group : List ℕ, E.groups 0 keys = [group] ∧
    group.Perm (List.range keys.length)
  count : ∀ args, (∀ arg ∈ args, arg.1 ≠ some E.null) → args.length < 2 ^ 63 →
    E.aggregate .count args = val.cell (.int64 args.length)
  node_ne_null : ∀ n, val.node n ≠ E.null
  edge_ne_null : ∀ e, val.edge e ≠ E.null
  literal_ne_null : ∀ literal, isNonNull literal = true → E.literal literal ≠ E.null

/-- A view of the inbound rows of a relation: each node's relationships in some order, in chunks
that partition the row. -/
structure AdjacencyReader.ServesInbound (reader : AdjacencyReader) (G : Multigraph)
    (name : String) : Prop where
  row : ∀ n, ∃ row : List (ℕ × ℕ), row.Perm ((G.incoming name n).map fun e => (e.id, e.src)) ∧
    reader.degree n = .ok row.length ∧
    ∀ skip limit, 0 < limit → ∃ chunk, reader.neighborChunk n skip limit = .ok chunk ∧
      chunk <+: row.drop skip ∧ (skip < row.length → chunk ≠ [])
  dst_lt : ∀ e ∈ G.matching name, e.dst < reader.nodeExtent

/-- The provider answers for the graph. -/
structure AdjacencyProvider.Serves (provider : AdjacencyProvider) (G : Multigraph) : Prop where
  cardinality : ∀ name, provider.edgeCardinality name .out = .ok (G.matching name).length
  inbound : ∀ name, ∃ reader, provider.adjacency name .in_ = .ok reader ∧
    reader.ServesInbound G name

/-- The identities are those of the graph's nodes. -/
structure OrdinalIdentities.Serves (identities : OrdinalIdentities) (G : Multigraph) : Prop where
  maxRequestedIds_pos : 0 < identities.maxRequestedIds
  order : G.UuidOrdered → identities.uuidOrderMatchesOrdinals = .ok true
  lookup : ∀ requested : List ℕ, requested.length ≤ identities.maxRequestedIds →
    (∀ n ∈ requested, n ∈ G.nodes) →
    identities.lookupNodeUuids requested = .ok (requested.map fun n => some (G.uuid n))

/-! ## Well-kinded pipelines -/

variable (ops : List GraphOp)

/-- The variables that a pipeline uses for nodes. -/
def nodeVars : List VarId :=
  ops.flatMap fun op =>
    match op with
    | .nodeScan var _ => [var]
    | .expand src _ dst _ => [src, dst]
    | _ => []

/-- The variables that a pipeline uses for relationships. -/
def relationshipVars : List VarId :=
  ops.flatMap fun op =>
    match op with
    | .expand _ edge _ _ => [edge]
    | _ => []

/-- A variable stands for a node or for a relationship: the binder refuses a query that uses it for
both (`VariableTypeConflict`). -/
def WellKinded : Prop := ∀ v ∈ relationshipVars ops, v ∉ nodeVars ops

/-- The relation type of a pipeline's first expansion. -/
def hopType : List GraphOp → Option RelationTypeId
  | [] => none
  | .expand _ _ _ hop :: _ => hop.relTy
  | _ :: ops => hopType ops

end GraphForge.FastPath
