import GraphForge.Lib.Binary64

/-!
# Arrow types and scalar values

The part of Arrow's type system and of DataFusion's `ScalarValue` that the Cypher value functions
look at. A struct value holds its fields with their one-row columns, so its type is computed from
its contents and cannot disagree with them. Variants that the Cypher functions never open are
`flat`: a type and the bytes of the payload.
-/

namespace GraphForge.Values

/-- A field without its type: name, nullability and metadata. -/
structure FieldHeader where
  name : String
  nullable : Bool
  metadata : List (String × String)
  deriving DecidableEq, Repr

/-- A field that `Field::new` makes: no metadata. -/
def FieldHeader.plain (name : String) (nullable : Bool) : FieldHeader := ⟨name, nullable, []⟩

/-- The integer types. -/
inductive IntType where
  | int8 | int16 | int32 | int64 | uint8 | uint16 | uint32 | uint64
  deriving DecidableEq, Repr

/-- The variants that no Cypher function opens. -/
inductive FlatVariant where
  | decimal32 | decimal64 | decimal128 | decimal256
  | utf8View | binary | largeBinary | binaryView
  | date32 | date64
  | time32Second | time32Millisecond | time64Microsecond
  | timestampSecond | timestampMillisecond | timestampMicrosecond | timestampNanosecond
  | durationSecond | durationMillisecond | durationMicrosecond | durationNanosecond
  | intervalYearMonth | intervalDayTime | intervalMonthDayNano
  | float16 | union | runEndEncoded
  deriving DecidableEq, Repr

/-- How a list column finds the rows of its child: 32-bit offsets, 64-bit offsets, a fixed width,
or the entries of an Arrow map. -/
inductive ListKind where
  | small
  | large
  | fixed (width : ℕ)
  | map (sorted : Bool)
  deriving DecidableEq, Repr

/-- Arrow's `DataType`. The parameters of a flat type (precision, unit, time zone) are its text. -/
inductive DataType where
  | null
  | boolean
  | int (type : IntType)
  | float32
  | float64
  | utf8
  | largeUtf8
  | time64Nanosecond
  | fixedSizeBinary (width : ℕ)
  | flat (variant : FlatVariant) (parameters : String)
  | dictionary (key : IntType) (value : DataType)
  | list (kind : ListKind) (item : FieldHeader) (itemType : DataType)
  | struct (fields : List (FieldHeader × DataType))
  deriving Inhabited

mutual

/-- Equality of types. -/
def DataType.beq : DataType → DataType → Bool
  | .null, .null => true
  | .boolean, .boolean => true
  | .int t, .int u => t == u
  | .float32, .float32 => true
  | .float64, .float64 => true
  | .utf8, .utf8 => true
  | .largeUtf8, .largeUtf8 => true
  | .time64Nanosecond, .time64Nanosecond => true
  | .fixedSizeBinary n, .fixedSizeBinary m => n == m
  | .flat v p, .flat w q => v == w && p == q
  | .dictionary k v, .dictionary l w => k == l && v.beq w
  | .list k h t, .list l g u => k == l && h == g && t.beq u
  | .struct fs, .struct gs => DataType.beqFields fs gs
  | _, _ => false

/-- Equality of field lists. -/
def DataType.beqFields : List (FieldHeader × DataType) → List (FieldHeader × DataType) → Bool
  | [], [] => true
  | (h, t) :: fs, (g, u) :: gs => h == g && t.beq u && DataType.beqFields fs gs
  | _, _ => false

end

instance : BEq DataType := ⟨DataType.beq⟩

/-- An integer scalar of any width, or its null. -/
inductive IntScalar where
  | int8 (v : Option Int8)
  | int16 (v : Option Int16)
  | int32 (v : Option Int32)
  | int64 (v : Option Int64)
  | uint8 (v : Option UInt8)
  | uint16 (v : Option UInt16)
  | uint32 (v : Option UInt32)
  | uint64 (v : Option UInt64)
  deriving DecidableEq

namespace IntScalar

/-- The type of an integer scalar. -/
def type : IntScalar → IntType
  | .int8 _ => .int8
  | .int16 _ => .int16
  | .int32 _ => .int32
  | .int64 _ => .int64
  | .uint8 _ => .uint8
  | .uint16 _ => .uint16
  | .uint32 _ => .uint32
  | .uint64 _ => .uint64

/-- The number, when the scalar is not null. -/
def value : IntScalar → Option ℤ
  | .int8 v => v.map (·.toInt)
  | .int16 v => v.map (·.toInt)
  | .int32 v => v.map (·.toInt)
  | .int64 v => v.map (·.toInt)
  | .uint8 v => v.map (·.toNat)
  | .uint16 v => v.map (·.toNat)
  | .uint32 v => v.map (·.toNat)
  | .uint64 v => v.map (·.toNat)

/-- Every integer scalar is within 64 bits. -/
lemma natAbs_le_of_value {s : IntScalar} {n : ℤ} (h : s.value = some n) : n.natAbs ≤ 2 ^ 64 := by
  cases s <;> rename_i v <;> simp only [value, Option.map_eq_some_iff] at h <;>
    obtain ⟨m, -, rfl⟩ := h
  · have := m.toInt_lt; have := m.le_toInt; omega
  · have := m.toInt_lt; have := m.le_toInt; omega
  · have := m.toInt_lt; have := m.le_toInt; omega
  · have := m.toInt_lt; have := m.le_toInt; omega
  · have := m.toNat_lt; omega
  · have := m.toNat_lt; omega
  · have := m.toNat_lt; omega
  · have := m.toNat_lt; omega

end IntScalar

/-- `ScalarValue`. A list carries what `value(0)` reads, which for a null list is whatever lies
under the null; a struct carries its fields, each with the value of its one-row column. -/
inductive ScalarValue where
  | null
  | boolean (v : Option Bool)
  | int (v : IntScalar)
  | float32 (v : Option Binary32)
  | float64 (v : Option Binary64)
  | utf8 (v : Option String)
  | largeUtf8 (v : Option String)
  | time64Nanosecond (v : Option Int64)
  | fixedSizeBinary (width : ℕ) (v : Option (List UInt8))
  | flat (variant : FlatVariant) (parameters : String) (v : Option (List UInt8))
  | dictionary (key : IntType) (value : ScalarValue)
  | list (kind : ListKind) (item : FieldHeader) (itemType : DataType) (valid : Bool)
      (elements : List ScalarValue)
  | struct (fields : List (FieldHeader × ScalarValue)) (valid : Bool)
  deriving Inhabited

/-- The fields of a struct value. -/
abbrev Fields := List (FieldHeader × ScalarValue)

namespace ScalarValue

/-- `is_null`. -/
def isNull : ScalarValue → Bool
  | .null => true
  | .boolean v => v.isNone
  | .int v => v.value.isNone
  | .float32 v => v.isNone
  | .float64 v => v.isNone
  | .utf8 v => v.isNone
  | .largeUtf8 v => v.isNone
  | .time64Nanosecond v => v.isNone
  | .fixedSizeBinary _ v => v.isNone
  | .flat _ _ v => v.isNone
  | .dictionary _ v => v.isNull
  | .list _ _ _ valid _ => !valid
  | .struct _ valid => !valid

mutual

/-- `data_type`. -/
def dataType : ScalarValue → DataType
  | .null => .null
  | .boolean _ => .boolean
  | .int v => .int v.type
  | .float32 _ => .float32
  | .float64 _ => .float64
  | .utf8 _ => .utf8
  | .largeUtf8 _ => .largeUtf8
  | .time64Nanosecond _ => .time64Nanosecond
  | .fixedSizeBinary n _ => .fixedSizeBinary n
  | .flat v p _ => .flat v p
  | .dictionary k v => .dictionary k v.dataType
  | .list k h t _ _ => .list k h t
  | .struct fs _ => .struct (fieldTypes fs)

/-- The fields' types. -/
def fieldTypes : List (FieldHeader × ScalarValue) → List (FieldHeader × DataType)
  | [] => []
  | (h, v) :: fs => (h, v.dataType) :: fieldTypes fs

end

mutual

/-- The number of values in a value, itself included. -/
def size : ScalarValue → ℕ
  | .dictionary _ v => 1 + v.size
  | .list _ _ _ _ xs => 1 + sizeList xs
  | .struct fs _ => 1 + sizeFields fs
  | _ => 1

/-- The size of the elements together. -/
def sizeList : List ScalarValue → ℕ
  | [] => 0
  | v :: vs => v.size + sizeList vs

/-- The size of the fields together. -/
def sizeFields : List (FieldHeader × ScalarValue) → ℕ
  | [] => 0
  | (_, v) :: fs => v.size + sizeFields fs

end

/-- What `std::mem::discriminant` tells apart. -/
inductive Variant where
  | null | boolean | int (type : IntType) | float32 | float64 | utf8 | largeUtf8
  | time64Nanosecond | fixedSizeBinary | flat (variant : FlatVariant) | dictionary
  | list | largeList | fixedSizeList | map | struct
  deriving DecidableEq, Repr

/-- `std::mem::discriminant`. -/
def discriminant : ScalarValue → Variant
  | .null => .null
  | .boolean _ => .boolean
  | .int v => .int v.type
  | .float32 _ => .float32
  | .float64 _ => .float64
  | .utf8 _ => .utf8
  | .largeUtf8 _ => .largeUtf8
  | .time64Nanosecond _ => .time64Nanosecond
  | .fixedSizeBinary _ _ => .fixedSizeBinary
  | .flat v _ _ => .flat v
  | .dictionary _ _ => .dictionary
  | .list .small _ _ _ _ => .list
  | .list .large _ _ _ _ => .largeList
  | .list (.fixed _) _ _ _ _ => .fixedSizeList
  | .list (.map _) _ _ _ _ => .map
  | .struct _ _ => .struct

/-- The types of fields, one by one. -/
lemma fieldTypes_eq_map (fs : Fields) : fieldTypes fs = fs.map fun f => (f.1, f.2.dataType) := by
  induction fs with
  | nil => rfl
  | cons f fs ih => rw [fieldTypes, ih, List.map_cons]

lemma one_le_size (v : ScalarValue) : 1 ≤ v.size := by
  cases v <;> simp [size]

lemma size_le_sizeList {v : ScalarValue} {vs : List ScalarValue} (h : v ∈ vs) :
    v.size ≤ sizeList vs := by
  induction vs with
  | nil => simp at h
  | cons w vs ih =>
    rw [sizeList]
    rcases List.mem_cons.mp h with heq | h
    · rw [heq]
      omega
    · have := ih h
      omega

lemma size_le_sizeFields {f : FieldHeader × ScalarValue} {fs : Fields} (h : f ∈ fs) :
    f.2.size ≤ sizeFields fs := by
  induction fs with
  | nil => simp at h
  | cons g fs ih =>
    rw [sizeFields]
    rcases List.mem_cons.mp h with heq | h
    · rw [heq]
      omega
    · have := ih h
      omega

/-- An element is smaller than its list. -/
lemma size_lt_of_mem_list {kind : ListKind} {item : FieldHeader} {type : DataType} {valid : Bool}
    {v : ScalarValue} {vs : List ScalarValue} (h : v ∈ vs) :
    v.size < (list kind item type valid vs).size := by
  rw [size]
  have := size_le_sizeList h
  omega

/-- A field is smaller than its struct. -/
lemma size_lt_of_mem_struct {f : FieldHeader × ScalarValue} {fs : Fields} {valid : Bool}
    (h : f ∈ fs) : f.2.size < (struct fs valid).size := by
  rw [size]
  have := size_le_sizeFields h
  omega

end ScalarValue

/-- The size of two values together, on which equality and order recurse. -/
def pairSize (p : ScalarValue × ScalarValue) : ℕ := p.1.size + p.2.size

namespace Fields

/-- The field names, in field order. -/
def names (fs : Fields) : List String := fs.map (·.1.name)

/-- `column_by_name`: the first field of that name. -/
def columnByName (fs : Fields) (name : String) : Option ScalarValue :=
  (fs.find? (·.1.name = name)).map (·.2)

/-- A column that is found is a field of that name. -/
lemma mem_of_columnByName {fs : Fields} {name : String} {v : ScalarValue}
    (h : columnByName fs name = some v) : ∃ f ∈ fs, f.1.name = name ∧ f.2 = v := by
  unfold columnByName at h
  rw [Option.map_eq_some_iff] at h
  obtain ⟨f, hf, hv⟩ := h
  exact ⟨f, List.mem_of_find?_eq_some hf, by simpa using List.find?_some hf, hv⟩

lemma size_lt_of_columnByName {fs : Fields} {name : String} {v : ScalarValue} {valid : Bool}
    (h : columnByName fs name = some v) : v.size < (ScalarValue.struct fs valid).size := by
  obtain ⟨f, hf, -, rfl⟩ := mem_of_columnByName h
  exact ScalarValue.size_lt_of_mem_struct hf

/-- A column is found exactly under the names of fields. -/
lemma columnByName_isSome_iff (fs : Fields) (name : String) :
    (columnByName fs name).isSome ↔ name ∈ fs.names := by
  unfold columnByName names
  simp

end Fields

/-! ## `ScalarValue`'s own equality and hash -/

/-- `ScalarValue`'s `PartialEq` and what its `Hash` feeds to a hasher. -/
structure ScalarOps where
  eq : ScalarValue → ScalarValue → Bool
  hash : ScalarValue → List ℕ

end GraphForge.Values
