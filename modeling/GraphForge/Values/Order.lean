import Mathlib.Data.String.Basic
import GraphForge.Lib.MeasuredFix
import GraphForge.Lib.TotalPreorder
import GraphForge.Values.Kinds

/-!
# Cypher order and the extremum accumulator

`cypherOrder` ranks values by type and compares within a type: numbers as doubles, text and truth
values naturally, lists lexicographically, structs by their entries in key order. `ExtremeAcc`
folds it into `min` and `max`.
-/

namespace GraphForge.Values

open Comparison

/-! ## The order -/

/-- The type rank `list < string < boolean < number < map`; everything else comes first. -/
def orderRank (v : ScalarValue) : ℕ :=
  match v with
  | .list .small _ _ _ _ => 1
  | .list .large _ _ _ _ => 1
  | .utf8 _ => 2
  | .largeUtf8 _ => 2
  | .boolean _ => 3
  | .struct _ _ => 5
  | v => if isNumericScalar v then 4 else 0

/-- The entries of a struct, sorted by key. -/
def sortedEntries (fields : Fields) : List (String × ScalarValue) :=
  (fields.map fun field => (field.1.name, field.2)).insertionSort fun x y => x.1 ≤ y.1

/-- Numbers as doubles; values that are not numbers, and a NaN, tie with everything. -/
def numericOrder (a b : ScalarValue) : Ordering :=
  match scalarAsF64 a, scalarAsF64 b with
  | some x, some y => (x.partialCmp y).getD .eq
  | _, _ => .eq

/-- The comparison of two unwrapped values, given the comparison of their parts. -/
def cypherPlainOrder (order : ScalarValue → ScalarValue → Ordering) (a b : ScalarValue) :
    Ordering :=
  if orderRank a ≠ orderRank b then compare (orderRank a) (orderRank b)
  else match a, b with
    | .list .small _ _ _ x, .list .small _ _ _ y => compareLists order x y
    | .utf8 (some x), .utf8 (some y) => compare x y
    | .boolean (some x), .boolean (some y) => compare x y
    | .struct x _, .struct y _ =>
      compareLists (compareEntries order) (sortedEntries x) (sortedEntries y)
    | a, b => numericOrder a b

/-- `cypher_order`. -/
def cypherOrder (a b : ScalarValue) : Ordering :=
  MeasuredFix.fix pairSize
    (fun order p => cypherPlainOrder (fun x y => order (x, y)) (unwrapHet p.1) (unwrapHet p.2))
    (a, b)

/-! ## The accumulator -/

mutual

/-- `ScalarValue::try_from(&DataType)`: the null of a type. -/
def nullScalar : DataType → ScalarValue
  | .null => .null
  | .boolean => .boolean none
  | .int .int8 => .int (.int8 none)
  | .int .int16 => .int (.int16 none)
  | .int .int32 => .int (.int32 none)
  | .int .int64 => .int (.int64 none)
  | .int .uint8 => .int (.uint8 none)
  | .int .uint16 => .int (.uint16 none)
  | .int .uint32 => .int (.uint32 none)
  | .int .uint64 => .int (.uint64 none)
  | .float32 => .float32 none
  | .float64 => .float64 none
  | .utf8 => .utf8 none
  | .largeUtf8 => .largeUtf8 none
  | .time64Nanosecond => .time64Nanosecond none
  | .fixedSizeBinary width => .fixedSizeBinary width none
  | .flat variant parameters => .flat variant parameters none
  | .dictionary key value => .dictionary key (nullScalar value)
  | .list kind item itemType => .list kind item itemType false []
  | .struct fields => .struct (nullFields fields) false

/-- The nulls of fields. -/
def nullFields : List TypeField → Fields
  | [] => []
  | (header, type) :: fields => (header, nullScalar type) :: nullFields fields

end

/-- The state of `cypher_min` and `cypher_max`. -/
structure ExtremeAcc where
  isMax : Bool
  dtype : DataType
  best : Option ScalarValue

namespace ExtremeAcc

variable (acc : ExtremeAcc)

/-- Whether a value replaces the best so far. -/
def takes (v : ScalarValue) : Bool :=
  match acc.best with
  | none => true
  | some b =>
    (acc.isMax && cypherOrder v b == .gt) || (!acc.isMax && cypherOrder v b == .lt)

/-- One row of `update_batch`: nulls are skipped. -/
def update (v : ScalarValue) : ExtremeAcc :=
  if v.isNull then acc
  else if acc.takes v then { acc with best := some v } else acc

/-- `update_batch`. -/
def updateBatch (values : List ScalarValue) : ExtremeAcc :=
  values.foldl update acc

/-- The best value, or the null of the column's type. -/
def evaluate : ScalarValue := acc.best.getD (nullScalar acc.dtype)

/-- The partial state that is sent to the merge. -/
def state : List ScalarValue := [acc.evaluate]

/-- `merge_batch`: partial states are rows. -/
def mergeBatch (states : List ScalarValue) : ExtremeAcc := acc.updateBatch states

end ExtremeAcc

/-- The extremum of a column in one pass. -/
def extremeOf (isMax : Bool) (dtype : DataType) (rows : List ScalarValue) : ScalarValue :=
  (ExtremeAcc.updateBatch ⟨isMax, dtype, none⟩ rows).evaluate

/-- The extremum of a column in partially aggregated batches, whose states are then merged. -/
def extremeOfBatches (isMax : Bool) (dtype : DataType) (batches : List (List ScalarValue)) :
    ScalarValue :=
  (ExtremeAcc.mergeBatch ⟨isMax, dtype, none⟩
    (batches.flatMap fun rows => (ExtremeAcc.updateBatch ⟨isMax, dtype, none⟩ rows).state)).evaluate

/-! ## The recursive equation -/

/-- Sorting keeps the entries. -/
lemma mem_sortedEntries {fields : Fields} {e : String × ScalarValue} :
    e ∈ sortedEntries fields ↔ ∃ field ∈ fields, (field.1.name, field.2) = e := by
  rw [sortedEntries, List.mem_insertionSort, List.mem_map]

lemma size_lt_of_mem_sortedEntries {fields : Fields} {valid : Bool} {e : String × ScalarValue}
    (h : e ∈ sortedEntries fields) : e.2.size < (ScalarValue.struct fields valid).size := by
  obtain ⟨field, hfield, rfl⟩ := mem_sortedEntries.mp h
  exact ScalarValue.size_lt_of_mem_struct hfield

/-- The order of plain values depends on that of their parts alone. -/
lemma cypherPlainOrder_congr {order order' : ScalarValue → ScalarValue → Ordering}
    {a b : ScalarValue} (h : ∀ x y, x.size + y.size < a.size + b.size → order x y = order' x y) :
    cypherPlainOrder order a b = cypherPlainOrder order' a b := by
  unfold cypherPlainOrder
  split
  · rfl
  split
  · apply compareLists_congr
    intro x hx y hy
    exact h x y (Nat.add_lt_add (ScalarValue.size_lt_of_mem_list hx)
      (ScalarValue.size_lt_of_mem_list hy))
  · rfl
  · rfl
  · rename_i x vx y vy _
    apply compareLists_congr
    intro e he f hf
    have h1 := @size_lt_of_mem_sortedEntries x vx e he
    have h2 := @size_lt_of_mem_sortedEntries y vy f hf
    rw [compareEntries, compareEntries, h e.2 f.2 (by omega)]
  · rfl

/-- The equation of the order. -/
theorem cypherOrder_eq (a b : ScalarValue) :
    cypherOrder a b = cypherPlainOrder cypherOrder (unwrapHet a) (unwrapHet b) := by
  apply MeasuredFix.fix_eq pairSize
  intro f g p hfg
  apply cypherPlainOrder_congr
  intro x y hxy
  have h1 := size_unwrapHet p.1
  have h2 := size_unwrapHet p.2
  exact hfg (x, y) (by show x.size + y.size < p.1.size + p.2.size; omega)

end GraphForge.Values
