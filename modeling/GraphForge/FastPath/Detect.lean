import GraphForge.Binder.GraphPlan

/-!
# Choosing a fast path from the operators of a plan

A statement whose whole pipeline has one of three shapes is answered from the adjacency index: the
count of all outgoing matches, and the first destination identities of a one-hop or two-hop match
in ascending order. The shapes are recognized on the bound operators.
-/

namespace GraphForge.FastPath

open Binder

/-- Which fast operator a statement qualifies for. -/
inductive FastPathKind where
  | edgeCount
  | orderedOneHop (fetch : ℕ)
  | orderedTwoHop (fetch : ℕ) (requireEdgeDisjoint : Bool)
  deriving DecidableEq, Repr

/-- One outgoing single hop (`Hop` of the fast paths). -/
structure OutHop where
  src : VarId
  edge : VarId
  dst : VarId
  relTy : Option RelationTypeId

/-- What an outgoing single hop traverses. -/
def outHop (relTy : Option RelationTypeId) : Hop := ⟨relTy, .out, 1, some 1⟩

/-- `single_out_hop`. -/
def singleOutHop : GraphOp → Option OutHop
  | .expand src edge dst ⟨relTy, .out, 1, some 1⟩ => some ⟨src, edge, dst, relTy⟩
  | _ => none

/-- An unlabelled scan of `var`: every node, no filter. -/
def isCompleteScan (op : GraphOp) (var : VarId) : Bool :=
  match op with
  | .nodeScan v none => v == var
  | _ => false

/-- A scan, an outgoing hop and the scan of its destination, both scans complete. -/
def firstHop (scan expand dstScan : GraphOp) : Option OutHop :=
  match singleOutHop expand with
  | none => none
  | some hop =>
    if hop.src ≠ hop.dst ∧ isCompleteScan scan hop.src = true ∧ isCompleteScan dstScan hop.dst = true
    then some hop else none

/-! ## The edge count -/

variable (counted : List VarId)

/-- The variables that a renaming `WITH` gives to counted variables. -/
def renamed (items : List ProjectItem) : Option (List VarId) :=
  items.mapM fun item =>
    match item.expr with
    | .varRef var => if var ∈ counted then item.outVar else none
    | _ => none

/-- The counted variables and the operators after an optional renaming `WITH`. -/
def afterWith : List GraphOp → Option (List VarId × List GraphOp)
  | .withScope items false none :: tail =>
    match renamed counted items with
    | none => none
    | some vars => some (vars, tail)
  | rest => some (counted, rest)

/-- A literal other than null. -/
def isNonNull : Values.Literal → Bool
  | .null => false
  | _ => true

/-- `count(*)`, `count` of a counted variable, or `count` of a literal other than null. -/
def countsMatches (agg : AggExpr) : Bool :=
  agg.func = .count && agg.percentile.isNone &&
    match agg.arg with
    | none => true
    | some (.varRef var) => var ∈ counted
    | some (.literal literal) => isNonNull literal
    | some _ => false

/-- What may follow the aggregation: nothing, or a positive `LIMIT`. -/
def keepsOneRow : List GraphOp → Bool
  | [] => true
  | [.limit count] => 0 < count
  | _ => false

/-- `count` of every outgoing match. -/
def edgeCount : List GraphOp → Option FastPathKind
  | scan :: expand :: dstScan :: rest =>
    match firstHop scan expand dstScan with
    | none => none
    | some hop =>
      match afterWith [hop.src, hop.edge, hop.dst] rest with
      | some (counted, .aggregate groupBy _ _ [agg] :: tail) =>
        if keepsOneRow tail = true ∧ groupBy.isEmpty = true ∧ countsMatches counted agg = true
        then some .edgeCount else none
      | _ => none
  | _ => none

/-! ## The ordered shapes -/

section

variable (propNames : PropertyId → Option String)

/-- `is_node_uuid`. -/
def isNodeUuid (expr : IrExpr) (var : VarId) : Bool :=
  match expr with
  | .propertyAccess (.varRef v) prop => v == var && propNames prop == some "node_uuid"
  | _ => false

/-- `Sort[dst.node_uuid ASC] Project[dst.node_uuid] Limit k`, returning `k`. -/
def orderedUuidTail (sort project limit : GraphOp) (dst : VarId) : Option ℕ :=
  match sort, project, limit with
  | .sort [key], .project [item] false, .limit count =>
    -- the limit is a `u64`, and a fetch is a `usize`
    if count < 2 ^ 64 ∧ 0 < count ∧ key.order = .asc ∧ isNodeUuid propNames key.expr dst = true ∧
        isNodeUuid propNames item.expr dst = true
    then some count else none
  | _, _, _ => none

/-- `ordered_one_hop`. -/
def orderedOneHop : List GraphOp → Option FastPathKind
  | [scan, expand, dstScan, sort, project, limit] =>
    match firstHop scan expand dstScan with
    | none => none
    | some hop => (orderedUuidTail propNames sort project limit hop.dst).map .orderedOneHop
  | _ => none

/-- Whether the second hop of a two-hop shape continues the first. -/
def continues (first second : OutHop) (dstScan : GraphOp) : Bool :=
  second.src = first.dst && second.relTy = first.relTy && second.edge ≠ first.edge &&
    second.dst ∉ [first.src, first.dst] && isCompleteScan dstScan second.dst

/-- Whether the check between the hops is the one that their relationships differ. -/
def isUniqueCheck (first second : OutHop) : GraphOp → Bool
  | .relationshipUnique edge priorEdges => edge = second.edge && priorEdges = [first.edge]
  | _ => false

/-- `ordered_two_hop`, with or without the check on a repeated relationship. -/
def orderedTwoHop : List GraphOp → Option FastPathKind
  | scan :: expand1 :: midScan :: expand2 :: rest =>
    match firstHop scan expand1 midScan, singleOutHop expand2 with
    | some first, some second =>
      match rest with
      | [unique, dstScan, sort, project, limit] =>
        if continues first second dstScan = true ∧ isUniqueCheck first second unique = true then
          (orderedUuidTail propNames sort project limit second.dst).map (.orderedTwoHop · true)
        else none
      | [dstScan, sort, project, limit] =>
        if continues first second dstScan = true then
          (orderedUuidTail propNames sort project limit second.dst).map (.orderedTwoHop · false)
        else none
      | _ => none
    | _, _ => none
  | _ => none

/-- `detect`: the first of the three shapes that fits. -/
def detect (ops : List GraphOp) : Option FastPathKind :=
  ((edgeCount ops).or (orderedOneHop propNames ops)).or (orderedTwoHop propNames ops)

end

/-! ## What the generic lowering of a pipeline exposes -/

/-- An adjacency-backed expansion of the lowered plan. -/
structure ExpandNode where
  relTypeName : String
  direction : Direction
  deriving DecidableEq, Repr

/-- The relation that an expansion reads: `*` for all of them. -/
def relName (relNames : RelationTypeId → String) : Option RelationTypeId → String
  | none => "*"
  | some relTy => relNames relTy

/-- The adjacency-backed expansions of a lowered pipeline, outermost first: its single hops whose
relationship is not bound before. `bound` are the variables in scope. -/
def providerExpands (relNames : RelationTypeId → String) :
    List VarId → List GraphOp → List ExpandNode
  | _, [] => []
  | bound, .nodeScan var _ :: ops => providerExpands relNames (var :: bound) ops
  | bound, .expand _ edge dst hop :: ops =>
    providerExpands relNames (edge :: dst :: bound) ops ++
      if hop.minHops = 1 ∧ hop.maxHops = some 1 ∧ edge ∉ bound then
        [⟨relName relNames hop.relTy, hop.dir⟩]
      else []
  | bound, _ :: ops => providerExpands relNames bound ops

/-- The names of the columns that a pipeline returns. -/
def outputNames (ops : List GraphOp) : List (Option String) :=
  ops.foldl (fun names op =>
    match op with
    | .project items _ | .withScope items _ _ => items.map (·.name)
    | .aggregate groupBy groupAliases _ aggs =>
      groupBy.mapIdx (fun i _ => (groupAliases[i]?).join) ++ aggs.map (some ·.name)
    | _ => names) []

end GraphForge.FastPath
