import GraphForge.Values.HetArray

/-!
# Bound query plans

A bound plan is a pipeline of graph operators over variables. Expressions are trees here: the
arena of the source only shares their nodes.

What a pipeline computes is given over an `Engine`, which stands for the execution layer: how the
graph is scanned and expanded, how operators and functions are evaluated, and how rows are
grouped, sorted and compared. The engine sees the values of expressions only. Which rows and
variables it is asked about is fixed by the operators.
-/

namespace GraphForge.Binder

open Values (Literal)

/-- Variables, by number. -/
abbrev VarId := ℕ
/-- Properties, by number. -/
abbrev PropertyId := ℕ
/-- Labels, by number. -/
abbrev EntityTypeId := ℕ
/-- Relationship types, by number. -/
abbrev RelationTypeId := ℕ

/-! ## Expressions -/

/-- Binary operators. -/
inductive BinaryOpKind where
  | eq | neq | lt | lte | gt | gte
  | and | or | xor
  | add | sub | mul | div | mod | pow
  | isIn | startsWith | endsWith | contains | regexMatch
  deriving DecidableEq, Repr

/-- Unary operators. -/
inductive UnaryOpKind where
  | not | neg | isNull | isNotNull
  deriving DecidableEq, Repr

/-- The quantifiers over lists. -/
inductive QuantifierKind where
  | all | any | none | single
  deriving DecidableEq, Repr

/-- `IrExpr`. A `CASE` arm is the pair of its `when` and its `then`. -/
inductive IrExpr where
  | literal (value : Literal)
  | varRef (var : VarId)
  | propertyAccess (base : IrExpr) (prop : PropertyId)
  | binaryOp (op : BinaryOpKind) (left right : IrExpr)
  | unaryOp (op : UnaryOpKind) (expr : IrExpr)
  | functionCall (name : String) (args : List IrExpr)
  | parameter (name : String)
  | caseOf (operand : Option IrExpr) (arms : List (IrExpr × IrExpr)) (elseExpr : Option IrExpr)
  | listLiteral (items : List IrExpr)
  | mapLiteral (entries : List (String × IrExpr))
  | quantifier (kind : QuantifierKind) (loopVar : VarId) (list predicate : IrExpr)
  | listComprehension (loopVar : VarId) (list : IrExpr) (filter projection : Option IrExpr)
  deriving Inhabited

/-! ## Operators -/

/-- Which way a relationship is followed. -/
inductive Direction where
  | out | in_ | undirected
  deriving DecidableEq, Repr

/-- Which way a key sorts. -/
inductive SortOrder where
  | asc | desc
  deriving DecidableEq, Repr

/-- The aggregating functions. -/
inductive AggFunc where
  | count | countDistinct | sum | sumDistinct | avg | avgDistinct | min | max
  | collect | collectDistinct | percentileDisc | percentileCont
  deriving DecidableEq, Repr

/-- What an `Expand` traverses. -/
structure Hop where
  relTy : Option RelationTypeId
  dir : Direction
  minHops : ℕ
  maxHops : Option ℕ

/-- A key to sort by, and where its nulls go. -/
structure SortKey where
  expr : IrExpr
  order : SortOrder
  nullsFirst : Bool

/-- A column of a projection, and the variable it defines. -/
structure ProjectItem where
  expr : IrExpr
  /-- The output column's name (`alias`). -/
  name : Option String
  outVar : Option VarId

/-- A column of an aggregation, and the variable it defines. -/
structure AggExpr where
  func : AggFunc
  arg : Option IrExpr
  percentile : Option IrExpr
  /-- The output column's name (`alias`). -/
  name : String
  outVar : Option VarId

/-- What a writing operator writes. -/
inductive WriteKind where
  | create | merge | delete | set | remove
  deriving DecidableEq, Repr

/-- `GraphOp`, with a child plan as its list of operators. The operands of a write are only
numbered: nothing here looks into them. -/
inductive GraphOp where
  | nodeScan (var : VarId) (ty : Option EntityTypeId)
  | edgeScan (var : VarId) (ty : Option RelationTypeId)
  | typedEdgeScan (var : VarId) (relTy : RelationTypeId)
  | expand (src edge dst : VarId) (hop : Hop)
  | relationshipUnique (edge : VarId) (priorEdges : List VarId)
  | filter (predicate : IrExpr)
  | project (items : List ProjectItem) (distinct : Bool)
  | aggregate (groupBy : List IrExpr) (groupAliases : List (Option String))
      (groupVars : List (Option VarId)) (aggs : List AggExpr)
  | sort (keys : List SortKey)
  | limit (count : ℕ)
  | limitParam (name : String)
  | limitExpr (expr : IrExpr)
  | skip (count : ℕ)
  | skipParam (name : String)
  | skipExpr (expr : IrExpr)
  | optional (child : List GraphOp)
  | existsMatch (child : List GraphOp) (negated : Bool)
  | patternComprehension (child : List GraphOp) (output : VarId)
  | listElementPatternComprehension (listExpr : IrExpr) (loopVar : VarId) (child : List GraphOp)
      (patternOutput : VarId) (filter projection : Option IrExpr) (output : VarId)
  | union (all : Bool) (inputs : List (List GraphOp))
  | unwind (listExpr : IrExpr) (element : VarId)
  | call (procedure : String) (args : List IrExpr) (yields : List VarId)
  | write (kind : WriteKind) (operands : ℕ)
  | withScope (items : List ProjectItem) (distinct : Bool) (wherePredicate : Option IrExpr)
  deriving Inhabited

/-! ## Rows -/

/-- The variables in scope with their values. -/
abbrev Env (V : Type) := VarId → Option V

namespace Env

variable {V : Type}

/-- No variable is bound. -/
def empty : Env V := fun _ => none

/-- Bind one variable; the others stay. -/
def bind (env : Env V) (var : VarId) (value : V) : Env V :=
  fun v => if v = var then some value else env v

/-- The scope that a list of optional variables with their values makes; later ones win. -/
def ofList : List (Option VarId × V) → Env V
  | [] => empty
  | (var, value) :: rest => fun v => (ofList rest v).or (if var = some v then some value else none)

/-- The inner scope over the outer one. -/
def shadowing (inner outer : Env V) : Env V := fun v => (inner v).or (outer v)

/-- Null for each of the variables that is not bound yet. -/
def bindNull (env : Env V) (null : V) (vars : List VarId) : Env V :=
  fun v => (env v).or (if v ∈ vars then some null else none)

end Env

/-- A row of a running pipeline: its scope, and the named columns of the last projection. -/
structure Row (V : Type) where
  env : Env V
  columns : List (Option String × V)

namespace Row

variable {V : Type}

/-- The row that a plan starts from. -/
def start : Row V := ⟨Env.empty, []⟩

/-- Bind one variable of a row. -/
def bind (row : Row V) (var : VarId) (value : V) : Row V :=
  { row with env := row.env.bind var value }

/-- The row that a correlated child plan starts from. -/
def seed (row : Row V) : Row V := { row with columns := [] }

/-- `PATTERN_COMPREHENSION_VALUE_ALIAS`. -/
def patternValueName : String := "__gf_pattern_comprehension_value"

/-- The column that a pattern comprehension collects. -/
def patternValue? (row : Row V) : Option V := row.columns.lookup (some patternValueName)

end Row

/-- The rows at the given positions. -/
def pick {α : Type} (positions : List ℕ) (rows : List α) : List α :=
  positions.filterMap fun i => rows[i]?

/-! ## What a pipeline computes -/

/-- The execution layer, over one graph. -/
structure Engine (V : Type) where
  null : V
  /-- Whether a value is a node, or the null of an unmatched one. -/
  isNode : V → Bool
  literal : Literal → V
  parameter : String → V
  property : V → PropertyId → V
  binary : BinaryOpKind → V → V → V
  unary : UnaryOpKind → V → V
  apply : String → List V → V
  caseOf : Option V → List (V × V) → Option V → V
  list : List V → V
  map : List (String × V) → V
  quantify : QuantifierKind → V → (V → V) → V
  comprehend : V → Option (V → V) → Option (V → V) → V
  isTrue : V → Bool
  elements : V → List V
  rowCount : V → ℕ
  /-- The nodes that a scan gives to a variable with the binding it has, if any. -/
  nodeScan : Option V → Option EntityTypeId → List V
  edgeScan : Option V → Option RelationTypeId → List V
  /-- Source, relationship and destination of each expansion. -/
  expand : Option V → Option V → Option V → Hop → List (V × V × V)
  unique : Option V → List (Option V) → Bool
  procedure : String → List V → List (List V)
  /-- For the number of keys and the key tuples of all rows, the positions of each group. Without
  keys all rows are one group, also when there are none. -/
  groups : ℕ → List (List V) → List (List ℕ)
  /-- For the columns of all rows, the positions that stay when duplicates are dropped. -/
  distinct : List (List V) → List ℕ
  /-- For the key tuples of all rows, the positions in sorted order. -/
  sorted : List (SortOrder × Bool) → List (List V) → List ℕ
  /-- An aggregate over the arguments and percentiles of a group's rows. -/
  aggregate : AggFunc → List (Option V × Option V) → V
  write : WriteKind → ℕ → List (Row V) → List (Row V)

variable {V : Type}

mutual

/-- The value of an expression in a scope. -/
def Engine.eval (E : Engine V) : IrExpr → Env V → V
  | .literal value, _ => E.literal value
  | .varRef var, env => (env var).getD E.null
  | .propertyAccess base prop, env => E.property (E.eval base env) prop
  | .binaryOp op left right, env => E.binary op (E.eval left env) (E.eval right env)
  | .unaryOp op expr, env => E.unary op (E.eval expr env)
  | .functionCall name args, env => E.apply name (E.evalList args env)
  | .parameter name, _ => E.parameter name
  | .caseOf operand arms elseExpr, env =>
    E.caseOf (E.evalOption operand env) (E.evalArms arms env) (E.evalOption elseExpr env)
  | .listLiteral items, env => E.list (E.evalList items env)
  | .mapLiteral entries, env => E.map (E.evalEntries entries env)
  | .quantifier kind loopVar list predicate, env =>
    E.quantify kind (E.eval list env) fun x => E.eval predicate (env.bind loopVar x)
  | .listComprehension loopVar list filter projection, env =>
    E.comprehend (E.eval list env) (E.evalClause filter loopVar env)
      (E.evalClause projection loopVar env)

/-- The values of expressions, in order. -/
def Engine.evalList (E : Engine V) : List IrExpr → Env V → List V
  | [], _ => []
  | expr :: exprs, env => E.eval expr env :: E.evalList exprs env

/-- The conditions and results of a `CASE`. -/
def Engine.evalArms (E : Engine V) : List (IrExpr × IrExpr) → Env V → List (V × V)
  | [], _ => []
  | (condition, result) :: arms, env =>
    (E.eval condition env, E.eval result env) :: E.evalArms arms env

/-- The entries of a map. -/
def Engine.evalEntries (E : Engine V) : List (String × IrExpr) → Env V → List (String × V)
  | [], _ => []
  | (key, expr) :: entries, env => (key, E.eval expr env) :: E.evalEntries entries env

/-- An optional expression. -/
def Engine.evalOption (E : Engine V) : Option IrExpr → Env V → Option V
  | none, _ => none
  | some expr, env => some (E.eval expr env)

/-- A clause of a list comprehension, as a function of the element. -/
def Engine.evalClause (E : Engine V) : Option IrExpr → VarId → Env V → Option (V → V)
  | none, _, _ => none
  | some expr, loopVar, env => some fun x => E.eval expr (env.bind loopVar x)

end

variable (E : Engine V)

/-- The row a projection makes of a row. -/
def Engine.projectRow (items : List ProjectItem) (row : Row V) : Row V where
  env := Env.ofList (items.map fun item => (item.outVar, E.eval item.expr row.env))
  columns := items.map fun item => (item.name, E.eval item.expr row.env)

/-- Duplicate rows dropped, by their columns. -/
def Engine.distinctRows (distinct : Bool) (rows : List (Row V)) : List (Row V) :=
  if distinct then pick (E.distinct (rows.map fun row => row.columns.map (·.2))) rows else rows

/-- `WHERE` of a `WITH` sees the incoming scope under the projected one. -/
def Engine.keepsRow (items : List ProjectItem) (predicate : Option IrExpr) (row : Row V) : Bool :=
  match predicate with
  | none => true
  | some predicate => E.isTrue (E.eval predicate ((E.projectRow items row).env.shadowing row.env))

/-- An aggregate over the rows of a group. -/
def Engine.aggregateValue (members : List (Row V)) (agg : AggExpr) : V :=
  E.aggregate agg.func (members.map fun row =>
    (E.evalOption agg.arg row.env, E.evalOption agg.percentile row.env))

/-- The key values of a group, as its first row has them. -/
def Engine.groupKeys (groupBy : List IrExpr) (members : List (Row V)) : List V :=
  match members with
  | [] => []
  | row :: _ => E.evalList groupBy row.env

/-- The row an aggregation makes of a group. -/
def Engine.groupRow (groupBy : List IrExpr) (groupAliases : List (Option String))
    (groupVars : List (Option VarId)) (aggs : List AggExpr) (members : List (Row V)) : Row V where
  env := Env.ofList (groupVars.zip (E.groupKeys groupBy members) ++
    aggs.map fun agg => (agg.outVar, E.aggregateValue members agg))
  columns := (E.groupKeys groupBy members).mapIdx (fun i key => ((groupAliases[i]?).join, key)) ++
    aggs.map fun agg => (some agg.name, E.aggregateValue members agg)

mutual

/-- The variables that an operator brings into scope. -/
def GraphOp.binders : GraphOp → List VarId
  | .nodeScan var _ | .edgeScan var _ | .typedEdgeScan var _ => [var]
  | .expand src edge dst _ => [src, edge, dst]
  | .project items _ | .withScope items _ _ => items.filterMap (·.outVar)
  | .aggregate _ _ groupVars aggs => groupVars.filterMap id ++ aggs.filterMap (·.outVar)
  | .optional child => bindersOf child
  | .patternComprehension _ output => [output]
  | .listElementPatternComprehension _ _ _ _ _ _ output => [output]
  | .unwind _ element => [element]
  | .call _ _ yields => yields
  | _ => []

/-- The variables that a plan binds. -/
def GraphOp.bindersOf : List GraphOp → List VarId
  | [] => []
  | op :: ops => op.binders ++ bindersOf ops

end

/-- A row with its optional matches. An unmatched row stays, with nulls for what a match would
have bound. -/
def Engine.optionalRows (binders : List VarId) (row : Row V) : List (Row V) → List (Row V)
  | [] => [{ row with env := row.env.bindNull E.null binders }]
  | found => found.map fun matched => { matched with columns := row.columns }

mutual

/-- The rows after an operator. -/
def Engine.runOp (E : Engine V) : GraphOp → List (Row V) → List (Row V)
  | .nodeScan var ty, rows =>
    rows.flatMap fun row => (E.nodeScan (row.env var) ty).map (row.bind var)
  | .edgeScan var ty, rows =>
    rows.flatMap fun row => (E.edgeScan (row.env var) ty).map (row.bind var)
  | .typedEdgeScan var relTy, rows =>
    rows.flatMap fun row => (E.edgeScan (row.env var) (some relTy)).map (row.bind var)
  | .expand src edge dst hop, rows =>
    rows.flatMap fun row => (E.expand (row.env src) (row.env edge) (row.env dst) hop).map
      fun found => ((row.bind edge found.2.1).bind src found.1).bind dst found.2.2
  | .relationshipUnique edge priorEdges, rows =>
    rows.filter fun row => E.unique (row.env edge) (priorEdges.map row.env)
  | .filter predicate, rows => rows.filter fun row => E.isTrue (E.eval predicate row.env)
  | .project items distinct, rows => E.distinctRows distinct (rows.map (E.projectRow items))
  | .aggregate groupBy groupAliases groupVars aggs, rows =>
    (E.groups groupBy.length (rows.map fun row => E.evalList groupBy row.env)).map fun group =>
      E.groupRow groupBy groupAliases groupVars aggs (pick group rows)
  | .sort keys, rows =>
    pick (E.sorted (keys.map fun key => (key.order, key.nullsFirst))
      (rows.map fun row => E.evalList (keys.map (·.expr)) row.env)) rows
  | .limit count, rows => rows.take count
  | .limitParam name, rows => rows.take (E.rowCount (E.parameter name))
  | .limitExpr expr, rows => rows.take (E.rowCount (E.eval expr Env.empty))
  | .skip count, rows => rows.drop count
  | .skipParam name, rows => rows.drop (E.rowCount (E.parameter name))
  | .skipExpr expr, rows => rows.drop (E.rowCount (E.eval expr Env.empty))
  | .optional child, rows => rows.flatMap fun row =>
    E.optionalRows (GraphOp.bindersOf child) row (E.run child [row.seed])
  | .existsMatch child negated, rows =>
    rows.filter fun row => (E.run child [row.seed]).isEmpty == negated
  | .patternComprehension child output, rows => rows.map fun row =>
    row.bind output (E.list ((E.run child [row.seed]).filterMap Row.patternValue?))
  | .listElementPatternComprehension listExpr loopVar child patternOutput filter projection output,
      rows => rows.map fun row =>
    -- the scope of one element: the element, and the pattern's list for it
    let scope (x : V) : Env V := (row.env.bind loopVar x).bind patternOutput
      (E.list ((E.run child [(row.bind loopVar x).seed]).filterMap Row.patternValue?))
    row.bind output (E.comprehend (E.eval listExpr row.env)
      (filter.map fun e x => E.eval e (scope x)) (projection.map fun e x => E.eval e (scope x)))
  | .union all inputs, _ =>
    -- the branches have scopes of their own, and only their columns go on
    E.distinctRows (!all) ((E.runBranches inputs).map fun row => ⟨Env.empty, row.columns⟩)
  | .unwind listExpr element, rows =>
    rows.flatMap fun row => (E.elements (E.eval listExpr row.env)).map (row.bind element)
  | .call procedure args yields, rows => rows.flatMap fun row =>
    (E.procedure procedure (E.evalList args row.env)).map fun values =>
      { row with env := (Env.ofList ((yields.map some).zip values)).shadowing row.env }
  | .write kind operands, rows => E.write kind operands rows
  | .withScope items distinct wherePredicate, rows =>
    E.distinctRows distinct
      ((rows.filter (E.keepsRow items wherePredicate)).map (E.projectRow items))

/-- The rows after a pipeline. -/
def Engine.run (E : Engine V) : List GraphOp → List (Row V) → List (Row V)
  | [], rows => rows
  | op :: ops, rows => E.run ops (E.runOp op rows)

/-- The rows of all branches of a union, one branch after another. -/
def Engine.runBranches (E : Engine V) : List (List GraphOp) → List (Row V)
  | [] => []
  | branch :: branches => E.run branch [Row.start] ++ E.runBranches branches

end

/-- The result of a query: the columns of the rows that its pipeline ends with. -/
def Engine.results (ops : List GraphOp) : List (List (Option String × V)) :=
  (E.run ops [Row.start]).map Row.columns

/-! ## The pipeline of an aggregating `RETURN` -/

/-- A lowered item of a `RETURN`: an aggregate call, or an expression to group by. -/
inductive ReturnExpr where
  | aggregate (func : AggFunc) (distinct : Bool) (arg percentile : Option IrExpr)
  | plain (expr : IrExpr)

/-- An item of a `RETURN` or `WITH`, before it is bound. -/
structure ReturnItem where
  expr : ReturnExpr
  /-- The name given with `AS`. -/
  name : Option String
  /-- The item's source text. -/
  display : Option String

/-- `build_agg`, from the lowered arguments. -/
def buildAgg (func : AggFunc) (distinct : Bool) (arg percentile : Option IrExpr) (name : String)
    (outVar : Option VarId) : AggExpr where
  func := match distinct, func, arg.isSome with
    | true, .count, true => .countDistinct
    | true, .sum, true => .sumDistinct
    | true, .avg, true => .avgDistinct
    | true, .collect, true => .collectDistinct
    | _, func, _ => func
  arg := arg
  percentile := percentile
  name := name
  outVar := outVar

/-- The operands of the `Aggregate` of a `RETURN`. -/
structure ReturnAggregate where
  groupBy : List IrExpr := []
  groupAliases : List (Option String) := []
  groupVars : List (Option VarId) := []
  aggs : List AggExpr := []

/-- One item of `lower_return_aggregate`, at a position, with the variable made for it. -/
def ReturnAggregate.push (out : ReturnAggregate) (position : ℕ) (var : VarId) (item : ReturnItem) :
    ReturnAggregate :=
  match item.expr with
  | .aggregate func distinct arg percentile =>
    let name := (item.name.or item.display).getD s!"agg_{position}"
    { out with aggs := out.aggs ++ [buildAgg func distinct arg percentile name (some var)] }
  | .plain expr =>
    let name := (item.name.or item.display).getD s!"group_{position}"
    { out with groupBy := out.groupBy ++ [expr], groupAliases := out.groupAliases ++ [some name],
               groupVars := out.groupVars ++ [some var] }

/-- `lower_return_aggregate`: item `i` is bound to the variable `next + i`. -/
def lowerReturnAggregate (next : VarId) (items : List ReturnItem) : GraphOp :=
  let out := items.zipIdx.foldl
    (fun (out : ReturnAggregate) item => out.push item.2 (next + item.2) item.1) {}
  .aggregate out.groupBy out.groupAliases out.groupVars out.aggs

/-- The operators that `lower_return` pushes for items of which one is an aggregate: the
aggregation, then the `ORDER BY` keys over its outputs, `SKIP` and `LIMIT`. -/
def lowerAggregatingReturn (next : VarId) (items : List ReturnItem) (keys : List SortKey)
    (skipLimit : List GraphOp) : List GraphOp :=
  lowerReturnAggregate next items :: (if keys.isEmpty then [] else [.sort keys]) ++ skipLimit

end GraphForge.Binder
