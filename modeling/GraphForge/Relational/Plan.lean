import GraphForge.Lib.BagJoin

/-!
# Logical plans and the rows they give

The part of DataFusion's `LogicalPlan` that the plan rewrites look at: scans, filters, projections
and joins, with every other operator a named node over its inputs. A row is the list of its
values, and columns are found in it through the schema, as DataFusion resolves them. What comes
from outside the plan (stored rows, functions, the meaning of other operators) is a `Database`.
-/

namespace GraphForge.Relational

/-! ## Expressions -/

/-- A value of a row or a literal. Nulls of all types are one value. -/
inductive Scalar where
  | null
  | boolean (v : Bool)
  | int64 (v : Int64)
  | utf8 (v : String)
  | other (type : String) (bytes : List UInt8)
  deriving DecidableEq, Inhabited

/-- Whether a value is null. -/
def Scalar.isNull (v : Scalar) : Bool := v == .null

/-- A reference to a column, with the table it is qualified by. -/
structure Column where
  relation : Option String
  name : String
  deriving DecidableEq, Repr

/-- The operators that the pass knows, and the others. -/
inductive Operator where
  | eq
  | and
  | other (symbol : String)
  deriving DecidableEq, Repr

/-- An expression. What is not a column, a literal, an operator or an alias is a `computed`
expression, known by its name. -/
inductive Expr where
  | column (column : Column)
  | literal (value : Scalar)
  | binary (op : Operator) (left right : Expr)
  | aliased (expr : Expr) (relation : Option String) (name : String)
  | computed (name : String)
  deriving DecidableEq

/-! ## Schemas -/

/-- A field of a plan's schema. -/
structure Field where
  qualifier : Option String
  name : String
  deriving DecidableEq, Repr

/-- The columns of a plan, in order. -/
abbrev Schema := List Field

/-- What the rewrites take from other code: how DataFusion reads a field name as a qualified
column, and `total_predicate`. -/
structure Host where
  fromQualifiedName : String → Column
  totalPredicate : Expr → Schema → Bool

/-- Whether a field answers to a column reference. A qualified reference also finds an unqualified
field whose name spells the qualified one. -/
def Field.answers (host : Host) (field : Field) (column : Column) : Bool :=
  match column.relation, field.qualifier with
  | some q, some r => q == r && field.name == column.name
  | some q, none => host.fromQualifiedName field.name == ⟨some q, column.name⟩
  | none, _ => field.name == column.name

/-- `index_of_column`: the first field that answers. -/
def Schema.indexOf (host : Host) (schema : Schema) (column : Column) : Option ℕ :=
  schema.findIdx? (·.answers host column)

namespace Scalar

/-- The text of a literal in a field name. -/
def display : Scalar → String
  | .null => "NULL"
  | .boolean v => "Boolean(" ++ toString v ++ ")"
  | .int64 v => "Int64(" ++ toString v.toInt ++ ")"
  | .utf8 v => "Utf8(\"" ++ v ++ "\")"
  | .other type _ => type

end Scalar

namespace Operator

/-- How an operator is displayed. -/
def symbol : Operator → String
  | .eq => "="
  | .and => "AND"
  | .other symbol => symbol

end Operator

namespace Expr

/-- The name of an expression's field when it is not an alias. -/
def schemaName : Expr → String
  | .column ⟨none, name⟩ => name
  | .column ⟨some relation, name⟩ => relation ++ "." ++ name
  | .literal value => value.display
  | .binary op left right => left.schemaName ++ " " ++ op.symbol ++ " " ++ right.schemaName
  | .aliased _ _ name => name
  | .computed name => name

/-- The field that an expression makes in a projection. -/
def toField : Expr → Field
  | .column c => ⟨c.relation, c.name⟩
  | .aliased _ relation name => ⟨relation, name⟩
  | e => ⟨none, e.schemaName⟩

end Expr

/-! ## Tables -/

/-- The types that `is_stored_equality` tells apart. -/
inductive StoredType where
  | int64 | utf8 | boolean | other
  deriving DecidableEq, Repr

/-- `GraphReadTable`: the role of a table in the query. -/
inductive GraphReadTable where
  | nodes
  | edges (name : String)
  | semanticEdges (relation : ℕ)
  | properties (route : String)
  | edgeProperties (route : String) (relation : Option ℕ)
  | propertyKeys (route : String)
  | edgePropertyKeys (route : String)
  deriving DecidableEq, Repr

/-- `GraphReadAnchor`: the property equality that a node scan may be narrowed by. -/
structure GraphReadAnchor where
  route : String
  equality : Expr
  deriving DecidableEq

/-- The source of a scan: one of the graph's tables, or a table of another kind. -/
inductive TableSource where
  | graphRead (table : GraphReadTable) (schema : List (String × StoredType))
      (anchor : Option GraphReadAnchor)
  | foreign (name : String)
  deriving DecidableEq

/-- A scan of some columns of a table. The filters are hints to the table. -/
structure TableScan where
  tableName : String
  source : TableSource
  columns : List String
  filters : List Expr
  fetch : Option ℕ
  deriving DecidableEq

/-! ## Plans -/

/-- The kinds of joins. -/
inductive JoinType where
  | inner | left | right | full
  | leftSemi | rightSemi | leftAnti | rightAnti | leftMark | rightMark
  deriving DecidableEq, Repr

/-- What a join says besides its inputs. -/
structure JoinSpec where
  joinType : JoinType
  on : List (Expr × Expr)
  filter : Option Expr
  nullEqualsNull : Bool
  nullAware : Bool
  deriving DecidableEq

/-- Logical plans; nodes that the pass does not look into are `other`. -/
inductive Plan where
  | tableScan (scan : TableScan)
  | filter (predicate : Expr) (input : Plan)
  | projection (exprs : List Expr) (input : Plan)
  | join (spec : JoinSpec) (left right : Plan)
  | other (node : String) (schema : Schema) (inputs : List Plan)
  deriving Inhabited

/-- The schema of a scan: its columns, qualified by the table's name. -/
def TableScan.schema (scan : TableScan) : Schema :=
  scan.columns.map fun name => ⟨some scan.tableName, name⟩

/-- The schema of a join. -/
def joinSchema (type : JoinType) (left right : Schema) : Schema :=
  match type with
  | .inner | .left | .right | .full => left ++ right
  | .leftSemi | .leftAnti => left
  | .rightSemi | .rightAnti => right
  | .leftMark => left ++ [⟨none, "mark"⟩]
  | .rightMark => right ++ [⟨none, "mark"⟩]

namespace Plan

/-- The columns of a plan. -/
def schema : Plan → Schema
  | .tableScan scan => scan.schema
  | .filter _ input => input.schema
  | .projection exprs _ => exprs.map (·.toField)
  | .join spec left right => joinSchema spec.joinType left.schema right.schema
  | .other _ schema _ => schema

mutual

/-- The number of nodes of a plan. -/
def size : Plan → ℕ
  | .tableScan _ => 1
  | .filter _ input => 1 + input.size
  | .projection _ input => 1 + input.size
  | .join _ left right => 1 + left.size + right.size
  | .other _ _ inputs => 1 + sizeList inputs

/-- The size of inputs. -/
def sizeList : List Plan → ℕ
  | [] => 0
  | plan :: plans => plan.size + sizeList plans

end

end Plan

/-! ## Rows -/

/-- A stored row: the value of each column of the table. -/
abbrev TableRow := String → Scalar

/-- A row of a plan: its values in schema order. -/
abbrev Row := List Scalar

/-- What a plan is evaluated against: the rows each scan returns, the rows stored under each node
property route, and the meaning of everything the plan names. -/
structure Database where
  scanRows : TableScan → Multiset TableRow
  propertyRows : String → Multiset TableRow
  equal : Scalar → Scalar → Bool
  binary : String → Scalar → Scalar → Scalar
  computed : String → Schema → Row → Option Scalar
  otherJoin : JoinSpec → Schema → Schema → Multiset Row → Multiset Row → Multiset Row
  otherNode : String → Schema → List (Multiset Row) → Multiset Row
  otherJoin_width : ∀ spec left right ls rs, ∀ row ∈ otherJoin spec left right ls rs,
    row.length = (joinSchema spec.joinType left right).length
  otherNode_width : ∀ node schema inputs, ∀ row ∈ otherNode node schema inputs,
    row.length = schema.length

/-- The value of a column in a row. -/
def Schema.value (host : Host) (schema : Schema) (row : Row) (column : Column) : Option Scalar :=
  (schema.indexOf host column).bind (row[·]?)

/-- Three-valued conjunction. -/
def Scalar.and (a b : Scalar) : Scalar :=
  if a = .boolean false ∨ b = .boolean false then .boolean false
  else if a = .boolean true ∧ b = .boolean true then .boolean true
  else .null

namespace Database

variable (db : Database) (host : Host)

/-- SQL equality: null when either side is. -/
def eq (a b : Scalar) : Scalar :=
  if a.isNull || b.isNull then .null else .boolean (db.equal a b)

/-- The value of an expression on a row; `none` when it cannot be evaluated. -/
def eval (schema : Schema) (row : Row) : Expr → Option Scalar
  | .column column => schema.value host row column
  | .literal value => some value
  | .binary op left right =>
    (eval schema row left).bind fun a => (eval schema row right).bind fun b =>
      match op with
      | .eq => some (db.eq a b)
      | .and => some (a.and b)
      | .other symbol => some (db.binary symbol a b)
  | .aliased expr _ _ => eval schema row expr
  | .computed name => db.computed name schema row

/-- A row passes a predicate when the predicate is true on it. -/
def holds (schema : Schema) (predicate : Expr) (row : Row) : Bool :=
  db.eval host schema row predicate == some (.boolean true)

/-- Whether two join keys match. -/
def keysMatch (nullEqualsNull : Bool) : Option Scalar → Option Scalar → Bool
  | some a, some b =>
    if a.isNull || b.isNull then nullEqualsNull && a.isNull && b.isNull else db.equal a b
  | _, _ => false

/-- Whether a join puts two rows together. -/
def joinMatches (spec : JoinSpec) (left right : Schema) (l r : Row) : Bool :=
  (spec.on.all fun (a, b) =>
    db.keysMatch spec.nullEqualsNull (db.eval host left l a) (db.eval host right r b)) &&
  spec.filter.all fun predicate => db.holds host (left ++ right) predicate (l ++ r)

/-- The rows of a join. -/
def joinRows (spec : JoinSpec) (left right : Schema) (ls rs : Multiset Row) : Multiset Row :=
  match spec.joinType with
  | .inner => Bag.innerJoin (db.joinMatches host spec left right) (· ++ ·) ls rs
  | .left =>
    Bag.leftJoin (db.joinMatches host spec left right) (· ++ ·)
      (· ++ List.replicate right.length .null) ls rs
  | _ => db.otherJoin spec left right ls rs

mutual

/-- The rows of a plan, evaluation errors aside: a row on which an expression cannot be evaluated,
which is an error of the query, counts as no row. -/
def rows : Plan → Multiset Row
  | .tableScan scan => (db.scanRows scan).map fun row => scan.columns.map row
  | .filter predicate input =>
    (rows input).filter fun row => db.holds host input.schema predicate row
  | .projection exprs input =>
    (rows input).filterMap fun row => exprs.mapM (db.eval host input.schema row)
  | .join spec left right => db.joinRows host spec left.schema right.schema (rows left) (rows right)
  | .other node schema inputs => db.otherNode node schema (rowsList inputs)

/-- The rows of inputs. -/
def rowsList : List Plan → List (Multiset Row)
  | [] => []
  | plan :: plans => rows plan :: rowsList plans

end

end Database

end GraphForge.Relational
