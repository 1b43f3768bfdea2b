import GraphForge.Lib.MeasuredFix
import GraphForge.Relational.Plan

/-!
# Stored-equality hints

`StoredEqualityHints` offers the `column = literal` conjuncts of a filter to the property scans
under it. It looks through column projections and the right sides of left joins. A single equality
turns the left join into an inner one, and where a property scan is joined to the nodes by
`node_uuid`, the equality it carries becomes an anchor of the node scan.
-/

namespace GraphForge.Relational

/-! ## Equalities -/

/-- A `column = literal` conjunct, normalised to that operand order. -/
def equality : Expr → Option (Column × Scalar)
  | .binary .eq (.column column) (.literal value) =>
    if value.isNull then none else some (column, value)
  | .binary .eq (.literal value) (.column column) =>
    if value.isNull then none else some (column, value)
  | _ => none

/-- A wanted equality as an expression. -/
def comparison (wanted : Column × Scalar) : Expr :=
  .binary .eq (.column wanted.1) (.literal wanted.2)

/-- The column behind any number of aliases. -/
def projectedColumn : Expr → Option Column
  | .aliased expr _ _ => projectedColumn expr
  | .column column => some column
  | _ => none

/-- `split_conjunction`. -/
def splitConjunction : Expr → List Expr
  | .binary .and left right => splitConjunction left ++ splitConjunction right
  | .aliased expr _ _ => splitConjunction expr
  | e => [e]

/-- The Arrow type whose equality with a literal needs no coercion. -/
def literalType : Scalar → Option StoredType
  | .int64 _ => some .int64
  | .utf8 _ => some .utf8
  | .boolean _ => some .boolean
  | _ => none

/-- `column = literal` on a stored column of the literal's own type. -/
def isStoredEquality (schema : List (String × StoredType)) : Expr → Bool
  | .binary .eq (.column column) (.literal value) =>
    (literalType value).any fun type => schema.lookup column.name == some type
  | .binary .eq (.literal value) (.column column) =>
    (literalType value).any fun type => schema.lookup column.name == some type
  | _ => false

/-- `supports_filters_pushdown` of a graph source: whether the filter is a hint it takes. -/
def supportsFilter (table : GraphReadTable) (schema : List (String × StoredType)) (filter : Expr) :
    Bool :=
  match table with
  | .properties _ => isStoredEquality schema filter
  | _ => false

/-! ## Anchors -/

/-- The equality a node-property scan will use: the first filter that the source supports. -/
def anchorOf : Plan → Option GraphReadAnchor
  | .tableScan scan =>
    match scan.source with
    | .graphRead (.properties route) schema _ =>
      (scan.filters.find? (supportsFilter (.properties route) schema)).map fun e => ⟨route, e⟩
    | _ => none
  | _ => none

/-- `with_anchor` of a scan's source. -/
def TableScan.withAnchor (scan : TableScan) (anchor : GraphReadAnchor) : TableScan :=
  match scan.source with
  | .graphRead table schema _ => { scan with source := .graphRead table schema (some anchor) }
  | .foreign _ => scan

/-- Whether a scan is an unanchored node scan that supplies the key. -/
def isAnchorable (scan : TableScan) (key : Column) : Bool :=
  match scan.source with
  | .graphRead .nodes _ none => key == ⟨some scan.tableName, "node_uuid"⟩
  | _ => false

/-- The plan with the node scan under column projections and total predicates anchored. -/
def anchorNodeScan (host : Host) (anchor : GraphReadAnchor) : Plan → Column → Option Plan
  | .filter predicate input, key =>
    if !host.totalPredicate predicate input.schema then none
    else (anchorNodeScan host anchor input key).map (.filter predicate)
  | .projection exprs input, key =>
    if !exprs.all fun e => (projectedColumn e).isSome then none
    else match (Schema.indexOf host (exprs.map (·.toField)) key).bind (exprs[·]?) with
      | none => none
      | some e => match projectedColumn e with
        | none => none
        | some inner => (anchorNodeScan host anchor input inner).map (.projection exprs)
  | .tableScan scan, key =>
    if isAnchorable scan key then some (.tableScan (scan.withAnchor anchor)) else none
  | _, _ => none

variable (host : Host)

/-- The left side of a join of `node_uuid = node_uuid`, anchored by the equality that the right
side carries. -/
def anchoredLeft (spec : JoinSpec) (left right : Plan) : Option Plan :=
  match spec.on, right with
  | [(.column leftKey, .column rightKey)], .tableScan properties =>
    if spec.filter.isSome || leftKey.name != "node_uuid" || rightKey.name != "node_uuid" ||
        rightKey.relation != some properties.tableName then none
    else (anchorOf right).bind fun anchor => anchorNodeScan host anchor left leftKey
  | _, _ => none

/-! ## Hints -/

/-- The filters of a scan after one more equality, and whether the source took one. -/
def admitHint (tableName : String) (table : GraphReadTable) (schema : List (String × StoredType))
    (state : List Expr × Bool) (wanted : Column × Scalar) : List Expr × Bool :=
  if wanted.1.relation != some tableName then state
  else if !supportsFilter table schema (comparison wanted) then state
  else if state.1.contains (comparison wanted) then (state.1, true)
  else (state.1 ++ [comparison wanted], true)

/-- The hint at a scan. -/
def hintScan (scan : TableScan) (wanted : List (Column × Scalar)) (strictEquality : Bool) :
    Option Plan :=
  match scan.source with
  | .foreign _ => none
  | .graphRead table schema _ =>
    let (filters, admitted) := wanted.foldl (admitHint scan.tableName table schema)
      (scan.filters, false)
    if !admitted || (filters.length == scan.filters.length && !strictEquality) then none
    else some (.tableScan { scan with filters := filters })

/-- The wanted equalities in terms of a projection's input. -/
def throughProjection (exprs : List Expr) (wanted : List (Column × Scalar)) :
    List (Column × Scalar) :=
  wanted.filterMap fun (column, literal) =>
    ((Schema.indexOf host (exprs.map (·.toField)) column).bind (exprs[·]?)).bind fun e =>
      (projectedColumn e).map fun inner => (inner, literal)

/-- The wanted equalities on columns that only the right side of a join has. -/
def rightWanted (left right : Schema) (wanted : List (Column × Scalar)) : List (Column × Scalar) :=
  wanted.filter fun (column, _) =>
    (right.indexOf host column).isSome && (left.indexOf host column).isNone

/-- Whether a plan is a scan. -/
def Plan.isTableScan : Plan → Bool
  | .tableScan _ => true
  | _ => false

/-- Offer the wanted equalities to the property scans under a plan. -/
def hint (host : Host) : Plan → List (Column × Scalar) → Bool → Option Plan
  | .projection exprs input, wanted, strictEquality =>
    let mapped := throughProjection host exprs wanted
    if mapped.isEmpty then none
    else
      let columnOnly := exprs.all fun e => (projectedColumn e).isSome
      (hint host input mapped (strictEquality && columnOnly)).map (.projection exprs)
  | .join spec left right, wanted, strictEquality =>
    if spec.joinType ≠ .left then none
    else
      let wanted := rightWanted host left.schema right.schema wanted
      if wanted.isEmpty then none
      else
        let promote := strictEquality && right.isTableScan
        let hinted := hint host right wanted promote
        let anchored := anchoredLeft host spec left (hinted.getD right)
        if hinted.isNone && anchored.isNone then none
        else some (.join { spec with joinType := if promote then .inner else .left }
          (anchored.getD left) (hinted.getD right))
  | .tableScan scan, wanted, strictEquality => hintScan scan wanted strictEquality
  | _, _, _ => none

/-! ## The rule -/

/-- The equality conjuncts of a predicate. -/
def wantedEqualities (predicate : Expr) : List (Column × Scalar) :=
  (splitConjunction predicate).filterMap equality

/-- `rewrite` at one node. -/
def rewrite : Plan → Plan
  | .filter predicate input =>
    let wanted := wantedEqualities predicate
    if wanted.isEmpty then .filter predicate input
    else .filter predicate ((hint host input wanted (equality predicate).isSome).getD input)
  | plan => plan

/-- A node with its inputs replaced. -/
def Plan.mapInputs (f : Plan → Plan) : Plan → Plan
  | .tableScan scan => .tableScan scan
  | .filter predicate input => .filter predicate (f input)
  | .projection exprs input => .projection exprs (f input)
  | .join spec left right => .join spec (f left) (f right)
  | .other node schema inputs => .other node schema (inputs.map f)

/-- The rule applied to a whole plan, from the top down. -/
def storedEqualityHints : Plan → Plan :=
  MeasuredFix.fix Plan.size fun rule plan => (rewrite host plan).mapInputs rule

end GraphForge.Relational
