import GraphForge.Values.Order

/-!
# Heterogeneous columns: encoding and validation

`encodeConstant` writes a sequence of literals as one struct column of the constant layout: a row
per literal, one payload column per kind, and the contents of all lists and maps of a level put
one after another in a child column of the next lower depth. `validateArray` walks a column of any
type and checks every tagged row in it that can be seen.
-/

namespace GraphForge.Values

open Except

/-! ## Literals -/

/-- The kinds of literal that the constant layout has no payload for. -/
inductive OtherKind where
  | uuid | duration | dateTime | date | localDateTime | time | zonedTime | zonedDateTime | spatial
  deriving DecidableEq, Repr

/-- `Literal`. The contents of the kinds that are refused are left out. -/
inductive Literal where
  | null
  | bool (v : Bool)
  | int (v : Int64)
  | float (v : Binary64)
  | str (v : String)
  | other (kind : OtherKind)
  | list (elements : List Literal)
  | map (entries : List (String × Literal))
  deriving Inhabited

namespace Literal

mutual

/-- How deep lists and maps are nested; an empty list or map counts as one level. -/
def nestingDepth : Literal → ℕ
  | .list xs => 1 + depthList xs
  | .map es => 1 + depthEntries es
  | _ => 0

/-- The depth of elements. -/
def depthList : List Literal → ℕ
  | [] => 0
  | v :: vs => max v.nestingDepth (depthList vs)

/-- The depth of entries. -/
def depthEntries : List (String × Literal) → ℕ
  | [] => 0
  | (_, v) :: es => max v.nestingDepth (depthEntries es)

end

mutual

/-- Only nulls, numbers, strings and truth values, in lists and maps. -/
def plain : Literal → Bool
  | .other _ => false
  | .list xs => plainList xs
  | .map es => plainEntries es
  | _ => true

/-- Whether all elements are plain. -/
def plainList : List Literal → Bool
  | [] => true
  | v :: vs => v.plain && plainList vs

/-- Whether all values of a map are plain. -/
def plainEntries : List (String × Literal) → Bool
  | [] => true
  | (_, v) :: es => v.plain && plainEntries es

end

end Literal

/-! ## Columns -/

/-- An Arrow array. A column that is not nested is the list of its rows' values; a list column has
its child, the offsets into it and its validity; a dictionary column has its values and, for each
row, the key of one of them. -/
inductive ArrowArray where
  | flat (type : DataType) (rows : List ScalarValue)
  | dictionary (key : IntType) (values : ArrowArray) (keys : List (Option ℕ))
  | list (kind : ListKind) (item : FieldHeader) (offsets : List ℕ) (child : ArrowArray)
      (valid : List Bool)
  | struct (columns : List (FieldHeader × ArrowArray)) (valid : List Bool)
  deriving Inhabited

/-- The rows of the child that belong to a row: the first, and the one after the last. -/
def childRange (kind : ListKind) (offsets : List ℕ) (row : ℕ) : ℕ × ℕ :=
  match kind with
  | .fixed width => (row * width, row * width + width)
  | _ => (offsets.getD row 0, offsets.getD (row + 1) 0)

namespace ArrowArray

/-- The rows of an array. -/
def length : ArrowArray → ℕ
  | .flat _ rows => rows.length
  | .dictionary _ _ keys => keys.length
  | .list _ _ _ _ valid => valid.length
  | .struct _ valid => valid.length

mutual

/-- `data_type`. -/
def dataType : ArrowArray → DataType
  | .flat type _ => type
  | .dictionary key values _ => .dictionary key values.dataType
  | .list kind item _ child _ => .list kind item child.dataType
  | .struct columns _ => .struct (columnTypes columns)

/-- The types of columns. -/
def columnTypes : List (FieldHeader × ArrowArray) → List TypeField
  | [] => []
  | (header, column) :: columns => (header, column.dataType) :: columnTypes columns

end

mutual

/-- `ScalarValue::try_from_array`: the value of a row. -/
def scalarAt : ArrowArray → ℕ → ScalarValue
  | .flat type rows, row => rows.getD row (nullScalar type)
  | .dictionary key values keys, row =>
    match keys.getD row none with
    | some k => .dictionary key (values.scalarAt k)
    | none => .dictionary key (nullScalar values.dataType)
  | .list kind item offsets child valid, row =>
    if valid.getD row false then
      let (start, stop) := childRange kind offsets row
      .list kind item child.dataType true
        ((List.range (stop - start)).map fun k => child.scalarAt (start + k))
    else .list kind item child.dataType false []
  | .struct columns valid, row =>
    if valid.getD row false then .struct (scalarsAt columns row) true
    else nullScalar (.struct (columnTypes columns))

/-- The values of a row in every column. -/
def scalarsAt : List (FieldHeader × ArrowArray) → ℕ → Fields
  | [], _ => []
  | (header, column) :: columns, row => (header, column.scalarAt row) :: scalarsAt columns row

end

end ArrowArray

/-! ## `encode_constant` -/

/-- Why a sequence is not encoded: a reported error, or Arrow's panic on a string column whose
text is too long for 32-bit offsets. -/
inductive EncodeFailure where
  | refused (error : ValueError)
  | offsetOverflow
  deriving DecidableEq

/-- What one literal contributes to the columns. -/
structure EncodedRow where
  key : Option Binary64
  tag : Int8
  int : Option Int64
  float : Option Binary64
  string : Option String
  boolean : Option Bool
  /-- The elements it appends to the child column. -/
  children : List Literal
  /-- The entries it appends to the map column. -/
  entries : List (String × Literal)
  valid : Bool

namespace EncodedRow

/-- The row before its kind is known. -/
def blank : EncodedRow := ⟨none, 0, none, none, none, none, [], [], true⟩

end EncodedRow

/-- The table of wire kinds. -/
def encodeRow (depth : ℕ) : Literal → Except EncodeFailure EncodedRow
  | .null => .ok { EncodedRow.blank with valid := false }
  | .int v => .ok { EncodedRow.blank with key := some (.ofInt v.toInt), int := some v }
  | .float v => .ok { EncodedRow.blank with key := some v, float := some v, tag := 1 }
  | .str v => .ok { EncodedRow.blank with string := some v, tag := 2 }
  | .bool v => .ok { EncodedRow.blank with boolean := some v, tag := 3 }
  | .list v => if 0 < depth then .ok { EncodedRow.blank with children := v, tag := 4 }
      else .error (.refused .kind)
  | .map v => if 0 < depth then .ok { EncodedRow.blank with entries := v, tag := 5 }
      else .error (.refused .kind)
  | .other _ => .error (.refused .kind)

/-- `i32::try_from` of a number of rows. -/
def checkOffset (n : ℕ) : Except EncodeFailure Unit :=
  refuseIf (2 ^ 31 ≤ n) (.refused .bounds)

/-- One pass of the loop: the row is appended and its two offsets must fit. -/
def encodeStep (depth : ℕ) (rows : List EncodedRow) (value : Literal) :
    Except EncodeFailure (List EncodedRow) := do
  let row ← encodeRow depth value
  checkOffset ((rows ++ [row]).flatMap (·.children)).length
  checkOffset ((rows ++ [row]).flatMap (·.entries)).length
  return rows ++ [row]

/-- The offsets of rows of the given lengths, from an offset on. -/
def runningTotals : ℕ → List ℕ → List ℕ
  | total, [] => [total]
  | total, n :: ns => total :: runningTotals (total + n) ns

/-- The bytes of a string column. -/
def textBytes (rows : List (Option String)) : ℕ :=
  (rows.map fun s => (s.elim 0 String.utf8ByteSize)).sum

/-- `StringArray::from`. -/
def stringArray (rows : List (Option String)) : Except EncodeFailure ArrowArray := do
  refuseIf (2 ^ 31 ≤ textBytes rows) .offsetOverflow
  return .flat .utf8 (rows.map .utf8)

variable (rows : List EncodedRow)

/-- The columns before the list and the map, given the one of strings. -/
def payloadColumns (strings : ArrowArray) : List (FieldHeader × ArrowArray) :=
  [(.plain KEY true, .flat .float64 (rows.map fun row => .float64 row.key)),
    (.plain TAG false, .flat (.int .int8) (rows.map fun row => .int (.int8 (some row.tag)))),
    (.plain INT true, .flat (.int .int64) (rows.map fun row => .int (.int64 row.int))),
    (.plain FLOAT true, .flat .float64 (rows.map fun row => .float64 row.float)),
    (.plain STR true, strings),
    (.plain BOOL true, .flat .boolean (rows.map fun row => .boolean row.boolean))]

/-- The list column over the children of all rows. -/
def listColumn (children : ArrowArray) : FieldHeader × ArrowArray :=
  (.plain LIST true, .list .small (.plain "item" true)
    (runningTotals 0 (rows.map (·.children.length))) children (rows.map (·.tag == 4)))

/-- The map column over the entries of all rows. -/
def mapColumn (keys values : ArrowArray) : FieldHeader × ArrowArray :=
  (.plain MAP true, .list .small (.plain "item" true)
    (runningTotals 0 (rows.map (·.entries.length)))
    (.struct [(.plain MAP_KEY false, keys), (.plain MAP_VALUE true, values)]
      (List.replicate keys.length true))
    (rows.map (·.tag == 5)))

/-- `encode_constant`. The columns have one length and the types of `constantFields`, and the tags
and map keys have no null, so `StructArray::try_new` accepts them. -/
def encodeConstant : ℕ → List Literal → Except EncodeFailure ArrowArray
  | 0, values => do
    let rows ← values.foldlM (encodeStep 0) []
    let strings ← stringArray (rows.map (·.string))
    return .struct (payloadColumns rows strings) (rows.map (·.valid))
  | depth + 1, values => do
    let rows ← values.foldlM (encodeStep (depth + 1)) []
    let strings ← stringArray (rows.map (·.string))
    let children ← encodeConstant depth (rows.flatMap (·.children))
    let mapKeys ← stringArray ((rows.flatMap (·.entries)).map fun entry => some entry.1)
    let mapValues ← encodeConstant depth ((rows.flatMap (·.entries)).map (·.2))
    return .struct
      (payloadColumns rows strings ++ [listColumn rows children, mapColumn rows mapKeys mapValues])
      (rows.map (·.valid))

/-! ## `validate_array` -/

mutual

/-- `contains_heterogeneous`: whether a type has a tagged struct in it; an error when a tagged
struct at any depth is malformed. -/
def containsHeterogeneous : DataType → Except ValueError Bool
  | .struct fields => do
    let own ← recognizeLayout (.struct fields)
    let nested ← containsHeterogeneousField fields
    return own.isSome || nested
  | .list _ _ itemType => containsHeterogeneous itemType
  | .dictionary _ value => containsHeterogeneous value
  | _ => .ok false

/-- Whether some field is heterogeneous; all are looked at, so an error of any counts. -/
def containsHeterogeneousField : List TypeField → Except ValueError Bool
  | [] => .ok false
  | (_, type) :: fields => do
    let first ← containsHeterogeneous type
    let rest ← containsHeterogeneousField fields
    return first || rest

end

/-- `ArrayValidator`: the parts of an array in which tagged values can lie. -/
inductive ArrayValidator where
  | skip
  | struct (columns : List (FieldHeader × ArrowArray)) (valid : List Bool)
      (layout : Option RowLayout) (children : List ArrayValidator)
  | list (kind : ListKind) (offsets : List ℕ) (valid : List Bool) (child : ArrayValidator)
  | dictionary (values : ArrowArray) (keys : List (Option ℕ)) (child : ArrayValidator)

/-- `ChildOffsets::range`. -/
def childOffsetsRange (kind : ListKind) (offsets : List ℕ) (row : ℕ) : Except ValueError (ℕ × ℕ) :=
  match kind with
  | .fixed width => do
    let start ← ofOption .bounds (if row * width < 2 ^ 64 then some (row * width) else none)
    let stop ← ofOption .bounds (checkedAdd start width)
    return (start, stop)
  | _ => .ok (childRange kind offsets row)

namespace ArrayValidator

mutual

/-- `ArrayValidator::new`. A dictionary row is validated by casting that row to the value type,
which gives one row of the values. -/
def new : ArrowArray → Except ValueError ArrayValidator
  | .flat type _ => containsHeterogeneous type >>= fun
    | false => .ok .skip
    | true => .error .schema
  | .dictionary _ values keys => containsHeterogeneous values.dataType >>= fun
    | false => .ok .skip
    | true => do
      let child ← new values
      return .dictionary values keys child
  | .list kind _ offsets child valid => containsHeterogeneous child.dataType >>= fun
    | false => .ok .skip
    | true => do
      let validator ← new child
      return .list kind offsets valid validator
  | .struct columns valid =>
    containsHeterogeneous (.struct (ArrowArray.columnTypes columns)) >>= fun
    | false => .ok .skip
    | true => do
      let layout ← recognizeLayout (.struct (ArrowArray.columnTypes columns))
      let children ← newAll columns
      return .struct columns valid layout children

/-- The validators of columns. -/
def newAll : List (FieldHeader × ArrowArray) → Except ValueError (List ArrayValidator)
  | [] => .ok []
  | (_, column) :: columns => do
    let first ← new column
    let rest ← newAll columns
    return first :: rest

end

/-- A check of every row from `start` to before `stop`, up to the first failure. -/
def forRows (check : ℕ → Except ValueError Unit) (start stop : ℕ) : Except ValueError Unit :=
  (List.range (stop - start)).forM fun k => check (start + k)

mutual

/-- `ArrayValidator::row`. -/
def row : ArrayValidator → ℕ → Except ValueError Unit
  | .skip, _ => .ok ()
  | .struct columns valid layout children, i =>
    if !valid.getD i false then .ok ()
    else match layout with
      | some layout =>
        selectRow true ((ArrowArray.scalarsAt columns i).map (·.2)) layout >>= fun
        | some (index, _) => rowAt children index i
        | none => .ok ()
      | none => rowAll children i
  | .list kind offsets valid child, i =>
    if valid.getD i false then do
      let (start, stop) ← childOffsetsRange kind offsets i
      forRows (row child) start stop
    else .ok ()
  | .dictionary values keys child, i =>
    match keys.getD i none with
    | none => .ok ()
    | some k => if (values.scalarAt k).isNull then .ok () else row child k

/-- The check of one column. -/
def rowAt : List ArrayValidator → ℕ → ℕ → Except ValueError Unit
  | [], _, _ => .error .bounds
  | child :: _, 0, i => row child i
  | _ :: children, index + 1, i => rowAt children index i

/-- The check of every column. -/
def rowAll : List ArrayValidator → ℕ → Except ValueError Unit
  | [], _ => .ok ()
  | child :: children, i => do
    row child i
    rowAll children i

end

end ArrayValidator

/-- `validate_array`. -/
def validateArray (array : ArrowArray) : Except ValueError Unit := do
  let validator ← ArrayValidator.new array
  ArrayValidator.forRows (ArrayValidator.row validator) 0 array.length

/-! ## Reading a column back -/

/-- The literal that a decoded value stands for, given the literals of its parts. -/
def literalOf (part : ScalarValue → Option Literal) : ScalarValue → Option Literal
  | .null => some .null
  | .boolean (some v) => some (.bool v)
  | .int (.int64 (some v)) => some (.int v)
  | .float64 (some v) => some (.float v)
  | .utf8 (some v) => some (.str v)
  | .list .small _ _ true elements => (elements.mapM part).map .list
  | .struct fields true =>
    (fields.mapM fun field => (part field.2).map fun v => (field.1.name, v)).map .map
  | _ => none

/-- One value decoded, its parts decoded by `part`. -/
def decodeLiteralStep (part : ScalarValue → Option Literal) (v : ScalarValue) : Option Literal :=
  match decodeHetScalar v with
  | .ok (some d) => literalOf part d
  | _ => none

/-- Decode a tagged value, then the elements or entries of what it holds, and so on. -/
def decodeLiteral : ScalarValue → Option Literal :=
  MeasuredFix.fix ScalarValue.size decodeLiteralStep

end GraphForge.Values
