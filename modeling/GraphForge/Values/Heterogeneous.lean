import GraphForge.Lib.Outcome
import GraphForge.Prelude
import GraphForge.Values.Arrow

/-!
# The heterogeneous value layouts

A list whose elements differ in type is stored as a struct with a tag and one payload column per
kind. Three layouts exist: the stored scalar layout, the constant layout with finite nesting, and
the dynamic layout whose tag is the index of a payload column. `recognizeLayout` finds the layout
of a type, `selectRow` the payload of a row, and `decodeHetScalar` the plain value of a tagged one.
-/

namespace GraphForge.Values

open Except

/-! ## Field names and errors -/

/-- The column that says which payload of a row counts. -/
def TAG : String := "__het_tag"
/-- The numeric key of a row, null for the other kinds. -/
def KEY : String := "__het_key"
/-- Integers. -/
def INT : String := "__het_int"
/-- Doubles. -/
def FLOAT : String := "__het_float"
/-- Texts. -/
def STR : String := "__het_str"
/-- Truth values. -/
def BOOL : String := "__het_bool"
/-- Lists. -/
def LIST : String := "__het_list"
/-- Maps, as lists of entries. -/
def MAP : String := "__het_map"
/-- The key of an entry. -/
def MAP_KEY : String := "__het_mkey"
/-- The value of an entry. -/
def MAP_VALUE : String := "__het_mval"
/-- What the numbered columns of a dynamic layout start with. -/
def DYNAMIC_PREFIX : String := "__het_value_"

/-- The failures of the heterogeneous layouts. -/
inductive ValueError where
  | schema
  | tag (tag : Int8)
  | nullPayload
  | conflictingPayload
  | bounds
  | kind
  | arrow (message : String)
  deriving DecidableEq

namespace ValueError

/-- The stable category of an error. -/
def code : ValueError → String
  | .schema => "GF_VALUE_SCHEMA"
  | .tag _ => "GF_VALUE_TAG"
  | .nullPayload => "GF_VALUE_NULL"
  | .conflictingPayload => "GF_VALUE_PAYLOAD"
  | .bounds => "GF_VALUE_BOUNDS"
  | .kind => "GF_VALUE_KIND"
  | .arrow _ => "GF_VALUE_ARROW"

end ValueError

/-! ## Types of the layouts -/

/-- A field of a type. -/
abbrev TypeField := FieldHeader × DataType

/-- `Field::new`. -/
def newField (name : String) (type : DataType) (nullable : Bool) : TypeField :=
  (.plain name nullable, type)

/-- `DataType::new_list`: the child field is called `item`. -/
def DataType.newList (item : DataType) (nullable : Bool) : DataType :=
  .list .small (.plain "item" nullable) item

/-- The flat columns of every layout. -/
def scalarFields : List TypeField :=
  [newField TAG (.int .int8) false, newField INT (.int .int64) true, newField FLOAT .float64 true,
    newField STR .utf8 true, newField BOOL .boolean true]

/-- The fields of the constant layout of a depth. -/
def constantFields : ℕ → List TypeField
  | 0 => newField KEY .float64 true :: scalarFields
  | depth + 1 =>
    newField KEY .float64 true :: scalarFields ++
      [newField LIST (.newList (.struct (constantFields depth)) true) true,
        newField MAP (.newList (.struct
          [newField MAP_KEY .utf8 false, newField MAP_VALUE (.struct (constantFields depth)) true]) true)
          true]

/-- The fields of a map entry whose value has the given depth. -/
def mapEntryFields (depth : ℕ) : List TypeField :=
  [newField MAP_KEY .utf8 false, newField MAP_VALUE (.struct (constantFields depth)) true]

/-! ## Recognition -/

/-- The layouts, with what selecting a row needs. -/
inductive RowLayout where
  | scalar
  | constant (depth : ℕ)
  | dynamic (width : ℕ)
  deriving DecidableEq, Repr

/-- Name and nullability, without metadata. -/
def fieldHeader (field : TypeField) (name : String) (nullable : Bool) : Bool :=
  field.1.name == name && field.1.nullable == nullable && field.1.metadata.isEmpty

/-- `field_matches`. -/
def fieldMatches (field : TypeField) (name : String) (type : DataType) (nullable : Bool) : Bool :=
  fieldHeader field name nullable && field.2 == type

variable (fields : List TypeField)

/-- The fields have these names, in order. -/
def namesMatch (names : List String) : Bool :=
  fields.length == names.length && (fields.zip names).all fun (field, name) => field.1.name == name

/-- `str::parse::<usize>` of a text of digits. -/
def parseUsize (digits : List Char) : Option ℕ :=
  let n := digits.foldl (fun n c => 10 * n + (c.toNat - '0'.toNat)) 0
  if n < 2 ^ 64 then some n else none

/-- The canonical decimal spelling of an index after the dynamic lead-in. -/
def dynamicNameMatches (name : String) (index : ℕ) : Bool :=
  match name.toList.dropPrefix? DYNAMIC_PREFIX.toList with
  | none => false
  | some suffix =>
    !suffix.isEmpty && (suffix == ['0'] || suffix.head? != some '0') && suffix.all Char.isDigit &&
      parseUsize suffix == some index

/-- The five flat columns are as they should be. -/
def scalarPayloadsMatch : Bool :=
  fields.length == 5 &&
    (scalarFields.zip fields).all fun (expected, field) =>
      fieldMatches field expected.1.name expected.2 expected.1.nullable

/-- The nesting depth of a constant layout. -/
def constantDepth : List TypeField → Except ValueError ℕ
  | key :: tag :: int :: float :: str :: bool :: rest =>
    if !fieldMatches key KEY .float64 true || !scalarPayloadsMatch [tag, int, float, str, bool] then
      .error .schema
    else match rest with
      | [] => .ok 0
      | [(listHeader, .list .small listItem (.struct child)),
          (mapHeader, .list .small mapItem (.struct entries))] =>
        if !fieldHeader (listHeader, .null) LIST true || !fieldHeader (mapHeader, .null) MAP true ||
            !fieldHeader (listItem, .null) "item" true ||
            !fieldHeader (mapItem, .null) "item" true then
          .error .schema
        else match entries with
          | [entryKey, entryValue] =>
            if !fieldMatches entryKey MAP_KEY .utf8 false ||
                !fieldHeader entryValue MAP_VALUE true || entryValue.2 != .struct child then
              .error .schema
            else do
              let depth ← constantDepth child
              ofOption .bounds (checkedAdd depth 1)
          | _ => .error .schema
      | _ => .error .schema
  | _ => .error .schema

/-- Whether the fields after the first are `__het_value_0`, `__het_value_1`, and so on. -/
def dynamicNames : Bool :=
  (fields.head?.any (·.1.name == TAG)) && 1 < fields.length &&
    (fields.drop 1).zipIdx.all fun (field, index) => dynamicNameMatches field.1.name index

/-- The names of one of the layouts, whatever the types. -/
def completeNames : Bool :=
  namesMatch fields [TAG, INT, FLOAT, STR, BOOL] ||
    namesMatch fields [KEY, TAG, INT, FLOAT, STR, BOOL] ||
    namesMatch fields [KEY, TAG, INT, FLOAT, STR, BOOL, LIST, MAP] ||
    dynamicNames fields

/-- The layout of a tagged struct; `none` for an ordinary type. -/
def recognizeLayout : DataType → Except ValueError (Option RowLayout)
  | .struct fields =>
    match fields.find? (·.1.name == TAG) with
    | none => .ok none
    | some tag =>
      if fields.length = 1 || (tag.2 != .int .int8 && !completeNames fields) then .ok none
      else if scalarPayloadsMatch fields then .ok (some .scalar)
      else if fields.head?.any (·.1.name == KEY) then
        (constantDepth fields).map fun depth => some (.constant depth)
      else if dynamicNames fields && fields.length - 1 ≤ 127 &&
          fields.head?.any (fieldMatches · TAG (.int .int8) false) &&
          (fields.drop 1).all fun field => field.1.nullable && field.1.metadata.isEmpty then
        .ok (some (.dynamic (fields.length - 1)))
      else .error .schema
  | _ => .ok none

/-! ## Selection of a row's payload -/

/-- What a tag says: the column it selects, if any, and whether that column holds map entries. -/
def tagSelection (layout : RowLayout) (tag : Int8) : Except ValueError (Option ℕ × Bool) :=
  match layout with
  | .scalar =>
    if 0 ≤ tag.toInt ∧ tag.toInt ≤ 3 then .ok (some (tag.toInt.toNat + 1), false)
    else if tag.toInt = 4 then .ok (none, false)
    else .error (.tag tag)
  | .constant depth =>
    if 0 ≤ tag.toInt ∧ tag.toInt ≤ 3 then .ok (some (tag.toInt.toNat + 2), false)
    else if 4 ≤ tag.toInt ∧ tag.toInt ≤ 5 ∧ 0 < depth then
      .ok (some (tag.toInt.toNat + 2), tag.toInt == 5)
    else .error (.tag tag)
  | .dynamic width =>
    if 0 ≤ tag.toInt ∧ tag.toInt.toNat < width then .ok (some (tag.toInt.toNat + 1), false)
    else .error (.tag tag)

namespace RowLayout

/-- The column of the tag. -/
def tagIndex : RowLayout → ℕ
  | .constant _ => 1
  | _ => 0

/-- The first payload column. -/
def firstPayload : RowLayout → ℕ
  | .constant _ => 2
  | _ => 1

end RowLayout

/-- The payload column that the tag selects, which must be the only one that holds a value. -/
def selectPayload (columns : List ScalarValue) (firstPayload : ℕ) (selected : Option ℕ)
    (map : Bool) : Except ValueError (Option (ℕ × Bool)) :=
  if (columns.zipIdx.drop firstPayload).any fun (column, index) =>
      some index != selected && !column.isNull then
    .error .conflictingPayload
  else match selected with
    | none => .ok none
    | some index =>
      if columns[index]?.all (·.isNull) then .error .nullPayload else .ok (some (index, map))

/-- `select_row` of one row: its validity and the values of its columns. -/
def selectRow (valid : Bool) (columns : List ScalarValue) (layout : RowLayout) :
    Except ValueError (Option (ℕ × Bool)) :=
  if !valid then .ok none
  else match columns[layout.tagIndex]? with
    | some (.int (.int8 (some tag))) => do
      let (selected, map) ← tagSelection layout tag
      selectPayload columns layout.firstPayload selected map
    | some (.int (.int8 none)) => .error .nullPayload
    | _ => .error .schema

/-! ## Decoding -/

/-- One entry of the constant layout's map, as a field of the decoded map. -/
def decodeMapEntry : ScalarValue → Except ValueError (FieldHeader × ScalarValue)
  | .struct entry _ =>
    match Fields.columnByName entry MAP_KEY, Fields.columnByName entry MAP_VALUE with
    | some (.utf8 (some key)), some value => .ok (.plain key true, value)
    | some (.utf8 none), some _ => .error .nullPayload
    | _, _ => .error .schema
  | _ => .error .schema

/-- The map whose entries a payload lists. -/
def decodeMap : ScalarValue → Except ValueError ScalarValue
  | .list .small _ _ _ entries => do
    let fields ← entries.mapM decodeMapEntry
    return .struct fields true
  | _ => .error .schema

/-- The value that a selected row stands for. -/
def decodeSelected (columns : List ScalarValue) : Option (ℕ × Bool) → Except ValueError ScalarValue
  | none => .ok .null
  | some (index, false) => ofOption .schema columns[index]?
  | some (index, true) => ofOption .schema columns[index]? >>= decodeMap

/-- `decode_het_scalar`: the plain value of a tagged one, `none` for an ordinary value. -/
def decodeHetScalar : ScalarValue → Except ValueError (Option ScalarValue)
  | .struct fields valid =>
    recognizeLayout (.struct (ScalarValue.fieldTypes fields)) >>= fun
      | none => .ok none
      | some layout => do
        let selected ← selectRow valid (fields.map (·.2)) layout
        let decoded ← decodeSelected (fields.map (·.2)) selected
        return some decoded
  | _ => .ok none

/-- `decode_het`: an ordinary or malformed value has no decoding. -/
def decodeHet (v : ScalarValue) : Option ScalarValue :=
  match decodeHetScalar v with
  | .ok decoded => decoded
  | .error _ => none

/-- `unwrap_het`: look through dictionaries, then decode a tagged value. -/
def unwrapHet : ScalarValue → ScalarValue
  | .dictionary _ value => unwrapHet value
  | v => (decodeHet v).getD v

/-! ## Decoding makes a value smaller -/

/-- A recognised layout has fields. -/
lemma fields_ne_nil_of_recognized {fields : List TypeField} {layout : RowLayout}
    (h : recognizeLayout (.struct fields) = .ok (some layout)) : fields ≠ [] := by
  intro hnil
  rw [hnil] at h
  simp [recognizeLayout] at h

/-- Decoding an entry makes it smaller. -/
lemma size_decodeMapEntry {entry : ScalarValue} {field : FieldHeader × ScalarValue}
    (h : decodeMapEntry entry = .ok field) : field.2.size < entry.size := by
  unfold decodeMapEntry at h
  split at h
  · split at h
    · rename_i key value hkey hvalue
      cases h
      exact Fields.size_lt_of_columnByName hvalue
    · cases h
    · cases h
  · cases h

lemma sizeFields_le_of_decodeMapEntries {entries : List ScalarValue} {fields : Fields}
    (h : entries.mapM decodeMapEntry = .ok fields) :
    ScalarValue.sizeFields fields ≤ ScalarValue.sizeList entries := by
  induction entries generalizing fields with
  | nil =>
    cases h
    exact Nat.le_refl _
  | cons entry entries ih =>
    rw [List.mapM_cons, bind_eq_ok_iff] at h
    obtain ⟨field, hfield, h⟩ := h
    rw [bind_eq_ok_iff] at h
    obtain ⟨rest, hrest, h⟩ := h
    cases h
    have h1 := size_decodeMapEntry hfield
    have h2 := ih hrest
    simp only [ScalarValue.sizeFields, ScalarValue.sizeList]
    omega

/-- Decoding a map makes it no larger. -/
lemma size_decodeMap {payload d : ScalarValue} (h : decodeMap payload = .ok d) :
    d.size ≤ payload.size := by
  unfold decodeMap at h
  split at h
  · rw [bind_eq_ok_iff] at h
    obtain ⟨fields, hfields, h⟩ := h
    cases h
    have := sizeFields_le_of_decodeMapEntries hfields
    simp only [ScalarValue.size]
    omega
  · cases h

/-- The selected payload is no larger than the row. -/
lemma size_decodeSelected {fields : Fields} {selected : Option (ℕ × Bool)} {d : ScalarValue}
    (hne : fields ≠ []) (h : decodeSelected (fields.map (·.2)) selected = .ok d) :
    d.size ≤ ScalarValue.sizeFields fields := by
  have hcolumn : ∀ (index : ℕ) (v : ScalarValue),
      ofOption ValueError.schema (fields.map (·.2))[index]? = .ok v →
      v.size ≤ ScalarValue.sizeFields fields := by
    intro index v hv
    rw [List.getElem?_map] at hv
    cases hf : fields[index]? with
    | none =>
      rw [hf] at hv
      cases hv
    | some f =>
      rw [hf] at hv
      cases hv
      exact ScalarValue.size_le_sizeFields (List.mem_of_getElem? hf)
  unfold decodeSelected at h
  split at h
  · cases h
    cases fields with
    | nil => exact absurd rfl hne
    | cons f fs =>
      have := ScalarValue.one_le_size f.2
      simp only [ScalarValue.size, ScalarValue.sizeFields]
      omega
  · exact hcolumn _ d h
  · rw [bind_eq_ok_iff] at h
    obtain ⟨payload, hpayload, h⟩ := h
    exact le_trans (size_decodeMap h) (hcolumn _ payload hpayload)

/-- Decoding makes a value smaller. -/
theorem size_decodeHet {v d : ScalarValue} (h : decodeHet v = some d) : d.size < v.size := by
  unfold decodeHet at h
  split at h
  · rename_i decoded hdec
    subst h
    unfold decodeHetScalar at hdec
    split at hdec
    · rename_i fields valid
      rw [bind_eq_ok_iff] at hdec
      obtain ⟨layout, hlayout, hdec⟩ := hdec
      cases layout with
      | none => cases hdec
      | some layout =>
        simp only [bind_eq_ok_iff] at hdec
        obtain ⟨selected, -, value, hvalue, hdec⟩ := hdec
        cases hdec
        have hne : fields ≠ [] := by
          intro hnil
          rw [hnil] at hlayout
          exact fields_ne_nil_of_recognized hlayout rfl
        have := size_decodeSelected hne hvalue
        simp only [ScalarValue.size]
        omega
    · cases hdec
  · cases h

/-- Unwrapping makes a value no larger. -/
lemma size_unwrapHet (v : ScalarValue) : (unwrapHet v).size ≤ v.size := by
  fun_induction unwrapHet v with
  | case1 key value ih =>
    rw [ScalarValue.size]
    omega
  | case2 v hv =>
    cases hd : decodeHet v with
    | none => exact Nat.le_refl _
    | some d => exact (size_decodeHet hd).le

end GraphForge.Values
