import GraphForge.Values.Heterogeneous

/-!
# Temporal values, graph entities and numbers among scalar values

Temporal values are structs of a fixed shape; a Cypher map that happens to have that shape marks
its fields. Nodes, relationships and paths are structs with reserved field names.
-/

namespace GraphForge.Values

open List

/-! ## Temporal structs -/

/-- The metadata key that marks a struct as a map. -/
def CYPHER_MAP_FIELD : String := "graphforge.cypher_map"

/-- Whether some field carries the mark. -/
def isCypherMapFields (fields : List TypeField) : Bool :=
  fields.any fun field => field.1.metadata.any (·.1 == CYPHER_MAP_FIELD)

/-- A struct of the given names and types, in order, that is not marked as a map. -/
def isShape (shape : List (String × Option DataType)) : DataType → Bool
  | .struct fields =>
    fields.length == shape.length &&
      ((fields.zip shape).all fun (field, name, type) =>
        field.1.name == name && type.all (field.2 == ·)) &&
      !isCypherMapFields fields
  | _ => false

/-- The shape of a `date`. -/
def isDateStruct : DataType → Bool := isShape [("epoch_day", some (.int .int64))]

/-- The shape of a `localdatetime`. -/
def isLocaldatetimeStruct : DataType → Bool :=
  isShape [("date", some (.int .int64)), ("time", some .time64Nanosecond)]

/-- The shape of a `time`. -/
def isTimeStruct : DataType → Bool :=
  isShape [("time", some .time64Nanosecond), ("offset", some (.int .int32))]

/-- The shape of a `datetime`. -/
def isDatetimeStruct : DataType → Bool :=
  isShape [("date", some (.int .int64)), ("time", some .time64Nanosecond),
    ("offset", some (.int .int32)), ("zone", some .utf8)]

/-- The duration shape is recognised by its names alone. -/
def isDurationStruct : DataType → Bool :=
  isShape [("months", none), ("days", none), ("seconds", none), ("nanos", none)]

/-- The kinds of temporal values. -/
inductive TemporalKind where
  | date
  | localDateTime
  | time
  | dateTime
  | duration
  deriving DecidableEq, Repr

/-- `temporal_kind`: the first shape that fits. -/
def temporalKind (v : ScalarValue) : Option TemporalKind :=
  if isDateStruct v.dataType then some .date
  else if isLocaldatetimeStruct v.dataType then some .localDateTime
  else if isTimeStruct v.dataType then some .time
  else if isDatetimeStruct v.dataType then some .dateTime
  else if isDurationStruct v.dataType then some .duration
  else none

variable (fields : Fields)

/-- The epoch-day of a `date`. -/
def dateStructValue (valid : Bool) : Option Int64 :=
  match valid, fields with
  | true, (_, .int (.int64 days)) :: _ => days
  | _, _ => none

/-- Days and nanoseconds of a `localdatetime`. -/
def localdatetimeStructParts (valid : Bool) : Option (Int64 × Int64) :=
  match valid, fields with
  | true, (_, .int (.int64 (some days))) :: (_, .time64Nanosecond (some nanos)) :: _ =>
    some (days, nanos)
  | _, _ => none

/-- Nanoseconds and offset of a `time`. -/
def timeStructParts (valid : Bool) : Option (Int64 × Int32) :=
  match valid, fields with
  | true, (_, .time64Nanosecond (some nanos)) :: (_, .int (.int32 (some offset))) :: _ =>
    some (nanos, offset)
  | _, _ => none

/-- Days, nanoseconds, offset and zone of a `datetime`; an empty zone label is no zone. -/
def datetimeStructParts (valid : Bool) : Option (Int64 × Int64 × Int32 × Option String) :=
  match valid, fields with
  | true, (_, .int (.int64 (some days))) :: (_, .time64Nanosecond (some nanos)) ::
      (_, .int (.int32 (some offset))) :: (_, .utf8 zone) :: _ =>
    some (days, nanos, offset, zone.filter (· ≠ ""))
  | _, _ => none

/-- Months, days, seconds and nanoseconds of a `duration`. The components are read without a null
check; Arrow keeps zero under a null. -/
def durationStructParts (valid : Bool) : Option (Int64 × Int64 × Int64 × Int64) :=
  match valid, fields with
  | true, (_, .int (.int64 months)) :: (_, .int (.int64 days)) :: (_, .int (.int64 seconds)) ::
      (_, .int (.int64 nanos)) :: _ =>
    some (months.getD 0, days.getD 0, seconds.getD 0, nanos.getD 0)
  | _, _ => none

/-! ## Graph entities -/

/-- The kinds of graph entities. -/
inductive EntityKind where
  | node
  | relationship
  | path
  deriving DecidableEq, Repr

/-- `is_node_struct`. -/
def isNodeStruct : Bool :=
  (fields.columnByName "node_uuid").isSome || (fields.columnByName "labels").isSome

/-- `is_rel_struct`. -/
def isRelStruct : Bool :=
  (fields.columnByName "edge_uuid").isSome || (fields.columnByName "src_uuid").isSome ||
    (fields.columnByName "dst_uuid").isSome

/-- `is_path_struct`. -/
def isPathStruct : Bool :=
  (fields.columnByName "nodes").isSome || (fields.columnByName "relationships").isSome

/-- Paths are tried first, then relationships, then nodes. -/
def entityKind : Option EntityKind :=
  if isPathStruct fields then some .path
  else if isRelStruct fields then some .relationship
  else if isNodeStruct fields then some .node
  else none

/-- The names that make a struct compare by identity. `edge_uuid` is not among them. -/
def isEntityStruct : Bool :=
  fields.any fun field =>
    ["node_uuid", "src_uuid", "dst_uuid", "nodes", "relationships", "labels"].contains field.1.name

/-! ## Numbers -/

/-- `scalar_as_i128`. -/
def scalarAsI128 : ScalarValue → Option ℤ
  | .int v => v.value
  | _ => none

/-- `scalar_as_f64`. -/
def scalarAsF64 : ScalarValue → Option Binary64
  | .int v => v.value.map Binary64.ofInt
  | .float32 v => v.map Binary64.ofBinary32
  | .float64 v => v
  | _ => none

/-- `is_numeric_scalar`. -/
def isNumericScalar (v : ScalarValue) : Bool := (scalarAsF64 v).isSome

/-! ## What field names determine -/

/-- The kind of an entity depends on its field names alone. -/
lemma entityKind_congr {a b : Fields} (h : ∀ name, name ∈ a.names ↔ name ∈ b.names) :
    entityKind a = entityKind b := by
  have hsome : ∀ name, (a.columnByName name).isSome = (b.columnByName name).isSome := by
    intro name
    rw [Bool.eq_iff_iff, Fields.columnByName_isSome_iff, Fields.columnByName_isSome_iff]
    exact h name
  have hpath : isPathStruct a = isPathStruct b := by simp only [isPathStruct, hsome]
  have hrel : isRelStruct a = isRelStruct b := by simp only [isRelStruct, hsome]
  have hnode : isNodeStruct a = isNodeStruct b := by simp only [isNodeStruct, hsome]
  unfold entityKind
  rw [hpath, hrel, hnode]

/-- What makes a struct compare by identity. -/
lemma isEntityStruct_iff : isEntityStruct fields = true ↔ ∃ name ∈ fields.names,
      name ∈ ["node_uuid", "src_uuid", "dst_uuid", "nodes", "relationships", "labels"] := by
  simp only [isEntityStruct, any_eq_true, contains_iff_mem, Fields.names, mem_map,
    exists_exists_and_eq_and]

/-- The one reserved name that does not make a struct compare by identity is `edge_uuid`. -/
lemma relationship_of_not_isEntityStruct {fields : Fields} {kind : EntityKind}
    (h : isEntityStruct fields = false) (hkind : entityKind fields = some kind) :
    kind = .relationship ∧ "edge_uuid" ∈ fields.names := by
  have hnot : ∀ name ∈ ["node_uuid", "src_uuid", "dst_uuid", "nodes", "relationships", "labels"],
      (fields.columnByName name).isSome = false := by
    intro name hreserved
    rw [← Bool.not_eq_true, Fields.columnByName_isSome_iff]
    intro hname
    rw [(isEntityStruct_iff fields).mpr ⟨name, hname, hreserved⟩] at h
    cases h
  simp only [forall_mem_cons, not_mem_nil, false_implies, implies_true, and_true] at hnot
  obtain ⟨hnode, hsrc, hdst, hnodes, hrels, hlabels⟩ := hnot
  rw [← Fields.columnByName_isSome_iff]
  simp only [entityKind, isPathStruct, isRelStruct, isNodeStruct, hnode, hsrc, hdst, hnodes, hrels,
    hlabels, Bool.or_false, Bool.false_eq_true, if_false] at hkind
  split at hkind
  · rename_i hedge
    cases hkind
    exact ⟨rfl, hedge⟩
  · cases hkind

/-- A recognised shape fixes the field names. -/
lemma names_of_isShape {fields : Fields} {shape : List (String × Option DataType)}
    (h : isShape shape (.struct (ScalarValue.fieldTypes fields)) = true) :
    fields.names = shape.map (·.1) := by
  rw [ScalarValue.fieldTypes_eq_map] at h
  simp only [isShape, Bool.and_eq_true, beq_iff_eq, length_map] at h
  obtain ⟨⟨hlen, hall⟩, -⟩ := h
  unfold Fields.names
  induction fields generalizing shape with
  | nil =>
    cases shape with
    | nil => rfl
    | cons s shape => cases hlen
  | cons f fields ih =>
    cases shape with
    | nil => cases hlen
    | cons s shape =>
      simp only [map_cons, zip_cons_cons, all_cons, Bool.and_eq_true, beq_iff_eq] at hall
      rw [map_cons, map_cons, hall.1.1, ih (Nat.succ.inj hlen) hall.2]

/-- No temporal shape has a reserved name, so a graph entity is never temporal. -/
lemma temporalKind_eq_none_of_entityKind {fields : Fields} {valid : Bool} {kind : EntityKind}
    (h : entityKind fields = some kind) : temporalKind (.struct fields valid) = none := by
  have hshape : ∀ shape, entityKind (shape.map fun s : String × Option DataType =>
      (FieldHeader.plain s.1 true, ScalarValue.null)) = none →
      isShape shape (ScalarValue.dataType (.struct fields valid)) = false := by
    intro shape hnone
    rw [← Bool.not_eq_true]
    intro hshape
    have hnames := names_of_isShape hshape
    rw [entityKind_congr] at hnone
    · rw [hnone] at h
      cases h
    · intro name
      rw [hnames]
      simp [Fields.names, FieldHeader.plain]
  unfold temporalKind isDateStruct isLocaldatetimeStruct isTimeStruct isDatetimeStruct
    isDurationStruct
  rw [hshape _ (by decide), hshape _ (by decide), hshape _ (by decide), hshape _ (by decide),
    hshape _ (by decide)]
  rfl

end GraphForge.Values
