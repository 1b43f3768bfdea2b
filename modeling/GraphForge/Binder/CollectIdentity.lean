import GraphForge.Binder.GraphPlan

/-!
# Narrowing `collect(node)` to node identities

`collect(n)` over a bound node is lowered to `collect(_node_struct(n))`. `narrowNodeCollects`
takes a census of the whole plan, and where the collected list is only ever tested for membership,
measured or counted, it collects the bare node variable instead, which is the node's identity.

The census is a record of lists. A set of the source is a list read through membership, and a map
of counters is the list of what was counted.
-/

namespace GraphForge.Binder

/-- `NODE_STRUCT_CALL`. -/
def nodeStructCall : String := "_node_struct"

/-- `_node_struct(v, ..)` gives `v`. -/
def nodeStructOperand : IrExpr → Option VarId
  | .functionCall name (.varRef v :: _) => if name = nodeStructCall then some v else none
  | _ => none

/-- Facts gathered over the whole plan tree. -/
structure Census where
  /-- A write operator exists somewhere in the tree. -/
  hasWrite : Bool := false
  /-- Variables bound as nodes by a node scan or as an endpoint. -/
  nodeBound : List VarId := []
  /-- Variables that are, or may also be, something other than a node. -/
  notNode : List VarId := []
  /-- `(a, b)`: `b` is a bare re-projection of `a`. -/
  passThrough : List (VarId × VarId) := []
  /-- Variables named in a field of an operator or defined by a projection. -/
  claimed : List VarId := []
  /-- Variables referenced by an expression in a way that reads the value. -/
  read : List VarId := []
  /-- The `size(v)` and `count(v)` uses of `v`, and settled `x IN v` uses. -/
  identityUses : List VarId := []
  /-- `(x, v)` for each `x IN v` seen where uses count. -/
  memberships : List (VarId × VarId) := []
  /-- The output variable of each aggregate in the tree. -/
  aggregateDefs : List VarId := []
  /-- The nodes after the fixpoint over re-projections. -/
  nodeOnly : List VarId := []

namespace Census

instance : Append Census where
  append a b :=
    { hasWrite := a.hasWrite || b.hasWrite
      nodeBound := a.nodeBound ++ b.nodeBound
      notNode := a.notNode ++ b.notNode
      passThrough := a.passThrough ++ b.passThrough
      claimed := a.claimed ++ b.claimed
      read := a.read ++ b.read
      identityUses := a.identityUses ++ b.identityUses
      memberships := a.memberships ++ b.memberships
      aggregateDefs := a.aggregateDefs ++ b.aggregateDefs
      nodeOnly := a.nodeOnly ++ b.nodeOnly }

/-! ## The walk -/

/-- A variable that is not only a node. -/
def defineNonNode (var : VarId) : Census := { notNode := [var], claimed := [var] }

/-- Variables that are not only nodes. -/
def defineNonNodes (vars : List VarId) : Census := { notNode := vars, claimed := vars }

/-- A variable that a pattern binds to nodes. -/
def defineNode (var : VarId) : Census := { nodeBound := [var], claimed := [var] }

/-- An output variable defined by an expression: a re-projection, or not a node. -/
def defineAs (out : Option VarId) (expr : IrExpr) : Census :=
  match out with
  | none => {}
  | some out =>
    match expr with
    | .varRef source => { claimed := [out], passThrough := [(source, out)] }
    | _ => { claimed := [out], notNode := [out] }

/-- `x IN v` of two variables. -/
def membership? : BinaryOpKind → IrExpr → IrExpr → Option (VarId × VarId)
  | .isIn, .varRef member, .varRef list => some (member, list)
  | _, _, _ => none

/-- `size(v)` of a variable. -/
def sizeOf? (name : String) : List IrExpr → Option VarId
  | [.varRef v] => if name.toLower = "size" then some v else none
  | _ => none

mutual

/-- `walk_expr`: what an expression reads, and, where uses count, which it only measures or
searches. -/
def walkExpr (counting : Bool) : IrExpr → Census
  | .literal _ | .parameter _ => {}
  | .varRef v => { read := [v] }
  | .propertyAccess base _ => walkExpr counting base
  | .binaryOp op left right =>
    match counting, membership? op left right with
    | true, some pair => { memberships := [pair] }
    | _, _ => walkExpr counting left ++ walkExpr counting right
  | .unaryOp _ expr => walkExpr counting expr
  | .functionCall name args =>
    match counting, sizeOf? name args with
    | true, some v => { identityUses := [v] }
    | _, _ => walkExprs counting args
  | .caseOf operand arms elseExpr =>
    walkOption counting operand ++ walkOption counting elseExpr ++ walkArms counting arms
  | .listLiteral items => walkExprs counting items
  | .mapLiteral entries => walkEntries counting entries
  | .quantifier _ loopVar list predicate =>
    defineNonNode loopVar ++ walkExpr counting list ++ walkExpr counting predicate
  | .listComprehension loopVar list filter projection =>
    defineNonNode loopVar ++ walkExpr counting list ++ walkOption counting filter ++
      walkOption counting projection

/-- Expressions one after the other. -/
def walkExprs (counting : Bool) : List IrExpr → Census
  | [] => {}
  | expr :: exprs => walkExpr counting expr ++ walkExprs counting exprs

/-- The conditions and results of a `CASE`. -/
def walkArms (counting : Bool) : List (IrExpr × IrExpr) → Census
  | [] => {}
  | (condition, result) :: arms =>
    walkExpr counting condition ++ walkExpr counting result ++ walkArms counting arms

/-- The values of a map. -/
def walkEntries (counting : Bool) : List (String × IrExpr) → Census
  | [] => {}
  | (_, expr) :: entries => walkExpr counting expr ++ walkEntries counting entries

/-- An optional expression. -/
def walkOption (counting : Bool) : Option IrExpr → Census
  | none => {}
  | some expr => walkExpr counting expr

end

/-- The items of a projection, which define variables. -/
def walkItems (counting : Bool) : List ProjectItem → Census
  | [] => {}
  | item :: items =>
    walkExpr counting item.expr ++ defineAs item.outVar item.expr ++ walkItems counting items

/-- The group keys with their output variables; keys without a variable come last. -/
def walkGroupKeys (counting : Bool) : List IrExpr → List (Option VarId) → Census
  | [], _ => {}
  | key :: keys, [] => walkExpr counting key ++ walkGroupKeys counting keys []
  | key :: keys, out :: outs =>
    walkExpr counting key ++ defineAs out key ++ walkGroupKeys counting keys outs

/-- The argument of an aggregate. `count(v)` only counts the lists. -/
def walkArg (counting : Bool) (agg : AggExpr) : Census :=
  match counting, agg.func, agg.arg with
  | true, .count, some (.varRef v) => { identityUses := [v] }
  | _, _, arg => walkOption counting arg

/-- The aggregates of an operator, which define variables. -/
def walkAggs (counting : Bool) : List AggExpr → Census
  | [] => {}
  | agg :: aggs =>
    { aggregateDefs := agg.outVar.toList, notNode := agg.outVar.toList } ++
      walkArg counting agg ++ walkOption counting agg.percentile ++ walkAggs counting aggs

mutual

/-- `counting`: identity-only uses of a list count toward narrowing it. It is off in the child
plans that are lowered through a correlation of their own. -/
def walkOp (counting : Bool) : GraphOp → Census
  | .nodeScan var _ => defineNode var
  | .edgeScan var _ | .typedEdgeScan var _ => defineNonNode var
  | .expand src edge dst _ => defineNode src ++ defineNode dst ++ defineNonNode edge
  | .relationshipUnique edge priorEdges => defineNonNode edge ++ defineNonNodes priorEdges
  | .filter predicate => walkExpr counting predicate
  | .project items _ => walkItems counting items
  | .withScope items _ wherePredicate =>
    walkItems counting items ++ walkOption counting wherePredicate
  | .aggregate groupBy _ groupVars aggs =>
    walkGroupKeys counting groupBy groupVars ++ walkAggs counting aggs
  | .sort keys => walkExprs counting (keys.map (·.expr))
  | .limit _ | .limitParam _ | .skip _ | .skipParam _ => {}
  | .limitExpr expr | .skipExpr expr => walkExpr counting expr
  | .optional child => walkPlan counting child
  | .existsMatch child _ => walkPlan false child
  | .patternComprehension child output => defineNonNode output ++ walkPlan false child
  | .listElementPatternComprehension listExpr loopVar child patternOutput filter projection output =>
    walkExpr false listExpr ++ walkOption false filter ++ walkOption false projection ++
      defineNonNode loopVar ++ defineNonNode patternOutput ++ defineNonNode output ++
      walkPlan false child
  | .union _ inputs => walkPlans inputs
  | .unwind listExpr element => walkExpr counting listExpr ++ defineNonNode element
  | .call _ args yields => walkExprs counting args ++ defineNonNodes yields
  | .write _ _ => { hasWrite := true }

/-- `walk_plan`: the operators one after the other. -/
def walkPlan (counting : Bool) : List GraphOp → Census
  | [] => {}
  | op :: ops => walkOp counting op ++ walkPlan counting ops

/-- The branches of a union, whose uses do not count. -/
def walkPlans : List (List GraphOp) → Census
  | [] => {}
  | plan :: plans => walkPlan false plan ++ walkPlans plans

end

/-! ## Settling -/

variable (passThrough : List (VarId × VarId))

/-- One pass over the re-projections: each target of a member becomes a member. -/
def spreadOnce (vars : List VarId) : List VarId :=
  passThrough.foldl (fun vars pair => if pair.1 ∈ vars then vars.insert pair.2 else vars) vars

/-- How many re-projections have a target outside. -/
def pending (vars : List VarId) : ℕ :=
  passThrough.countP fun pair => pair.2 ∉ vars

/-- The loop of `settle`: passes until neither the nodes nor the others change. -/
def spread : List VarId × List VarId → List VarId × List VarId :=
  MeasuredFix.fix (fun sets => pending passThrough sets.1 + pending passThrough sets.2)
    fun again sets =>
      let next := (spreadOnce passThrough sets.1, spreadOnce passThrough sets.2)
      if next = sets then sets else again next

/-- Resolve the re-projections and the recorded `x IN list` uses. -/
def settle (c : Census) : Census :=
  let sets := spread c.passThrough (c.nodeBound, c.notNode)
  let nodeOnly := sets.1.filter (· ∉ sets.2)
  { c with
    nodeOnly := nodeOnly
    memberships := []
    identityUses := c.identityUses ++ (c.memberships.filter fun pair => pair.1 ∈ nodeOnly).map (·.2)
    -- the left operand is not provably a node: both operands are read in full
    read := c.read ++ (c.memberships.filter fun pair => pair.1 ∉ nodeOnly).flatMap
      fun pair => [pair.2, pair.1] }

/-- A list is narrowed when it is defined once, read nowhere but by size or membership, and made of
a variable that is only ever a node. -/
def qualifies (c : Census) (listVar nodeVar : VarId) : Bool :=
  c.aggregateDefs.count listVar = 1 && listVar ∉ c.claimed && listVar ∉ c.read &&
    listVar ∈ c.identityUses && nodeVar ∈ c.nodeOnly

end Census

/-! ## The rewrite -/

/-- The node variable that a collect is narrowed to. -/
def narrowedTo (c : Census) (agg : AggExpr) : Option VarId :=
  match agg.func, agg.outVar, agg.arg.bind nodeStructOperand with
  | .collect, some listVar, some nodeVar => if c.qualifies listVar nodeVar then some nodeVar else none
  | _, _, _ => none

/-- One aggregate, narrowed where it qualifies. -/
def narrowAgg (c : Census) (agg : AggExpr) : AggExpr :=
  match narrowedTo c agg with
  | some nodeVar => { agg with arg := some (.varRef nodeVar) }
  | none => agg

/-- One operator, whose aggregates are narrowed. -/
def narrowOp (c : Census) : GraphOp → GraphOp
  | .aggregate groupBy groupAliases groupVars aggs =>
    .aggregate groupBy groupAliases groupVars (aggs.map (narrowAgg c))
  | op => op

/-- `narrow_node_collects`. -/
def narrowNodeCollects (ops : List GraphOp) : List GraphOp :=
  let census := Census.walkPlan true ops
  if census.hasWrite then ops else ops.map (narrowOp census.settle)

end GraphForge.Binder
