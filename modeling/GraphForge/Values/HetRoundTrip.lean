import GraphForge.Values.HetArray

/-!
# Encoding literals and reading them back

Which sequences `encodeConstant` accepts, and that the column it makes is recognised, passes the
validator and decodes row by row to the literals. All of it goes by induction on the depth: the
lists and maps of a level are rows of the columns one level down, found there through the offsets.
-/

namespace GraphForge.Values

open List Except

/-! ## The constant layout is recognised -/

mutual

/-- The comparison of types is reflexive. -/
lemma DataType.beq_self : ∀ type : DataType, type.beq type = true
  | .null | .boolean | .float32 | .float64 | .utf8 | .largeUtf8 | .time64Nanosecond => rfl
  | .int t => by simp [DataType.beq]
  | .fixedSizeBinary n => by simp [DataType.beq]
  | .flat v p => by simp [DataType.beq]
  | .dictionary k v => by simp [DataType.beq, DataType.beq_self v]
  | .list k h t => by simp [DataType.beq, DataType.beq_self t]
  | .struct fs => by rw [DataType.beq, DataType.beqFields_self fs]

/-- The comparison of fields is reflexive. -/
lemma DataType.beqFields_self : ∀ fields : List TypeField, DataType.beqFields fields fields = true
  | [] => rfl
  | (h, t) :: fs => by simp [DataType.beqFields, DataType.beq_self t, DataType.beqFields_self fs]

end

/-- A new field matches what it was made of. -/
lemma fieldMatches_newField (name : String) (type : DataType) (nullable : Bool) :
    fieldMatches (newField name type nullable) name type nullable = true := by
  show (_ && DataType.beq type type) = true
  rw [DataType.beq_self]
  simp [newField, fieldHeader, FieldHeader.plain]

/-- The fields of a depth are recognised with that depth. -/
lemma constantDepth_constantFields (depth : ℕ) (h : depth < 2 ^ 64) :
    constantDepth (constantFields depth) = .ok depth := by
  have hscalar : scalarPayloadsMatch scalarFields = true := by decide +kernel
  have hkey := fieldMatches_newField KEY .float64 true
  rw [scalarFields] at hscalar
  induction depth with
  | zero =>
    rw [constantFields, scalarFields, constantDepth, hkey, hscalar]
    rfl
  | succ depth ih =>
    have hbeq :
        (DataType.struct (constantFields depth) != .struct (constantFields depth)) = false := by
      show (!DataType.beq _ _) = false
      rw [DataType.beq_self]
      rfl
    have hentry := fieldMatches_newField MAP_KEY .utf8 false
    have hadd : checkedAdd depth 1 = some (depth + 1) := if_pos h
    rw [constantFields, scalarFields]
    simp only [newField, DataType.newList, cons_append, nil_append]
      at hscalar hkey hentry ⊢
    rw [constantDepth, hkey, hscalar]
    simp only [hentry, hbeq, ih (by omega)]
    show ofOption _ (checkedAdd depth 1) = _
    rw [hadd]
    rfl

/-- The fields of a depth are recognised as a constant layout. -/
lemma recognizeLayout_constantFields (depth : ℕ) (h : depth < 2 ^ 64) :
    recognizeLayout (.struct (constantFields depth)) = .ok (some (.constant depth)) := by
  have hdepth := constantDepth_constantFields depth h
  have hscalar : scalarPayloadsMatch (constantFields depth) = false := by
    cases depth <;> rfl
  have htag : (constantFields depth).find? (·.1.name == TAG) =
      some (newField TAG (.int .int8) false) := by
    cases depth <;> rfl
  have hlength : (constantFields depth).length ≠ 1 := by
    cases depth <;> simp [constantFields, scalarFields]
  have hhead : (constantFields depth).head?.any (·.1.name == KEY) = true := by
    cases depth <;> rfl
  have hint : ((newField TAG (.int .int8) false).2 != .int .int8) = false := rfl
  rw [recognizeLayout, htag]
  simp only [hint, hscalar, hhead, hdepth, hlength, decide_false, Bool.false_and, Bool.or_self]
  rfl

/-! ## What the encoder accepts -/

/-- The row of a literal that has one. -/
def rowOf (value : Literal) : EncodedRow :=
  match encodeRow 1 value with
  | .ok row => row
  | .error _ => .blank

variable (values : List Literal)

/-- The rows of a level. -/
def rowsOf : List EncodedRow := values.map rowOf

/-- The strings of a level. -/
def stringsOf : List (Option String) := (rowsOf values).map (·.string)

/-- The elements of the lists of a level, one list after another. -/
def listElements : List Literal := (rowsOf values).flatMap (·.children)

/-- The entries of the maps of a level. -/
def mapEntries : List (String × Literal) :=
  (rowsOf values).flatMap (·.entries)

/-- The keys of the maps of a level. -/
def mapKeysOf : List (Option String) :=
  (mapEntries values).map fun entry => some entry.1

/-- The values of the maps of a level. -/
def mapValuesOf : List Literal := (mapEntries values).map (·.2)

/-- A literal that a level with `depth` levels below it has a column for. -/
def HasColumn (depth : ℕ) : Literal → Prop
  | .other _ => False
  | .list _ => 0 < depth
  | .map _ => 0 < depth
  | _ => True

/-- A value is encoded when the depth has a column for it. -/
lemma encodeRow_eq_ok_iff {depth : ℕ} {value : Literal} {row : EncodedRow} :
    encodeRow depth value = .ok row ↔ HasColumn depth value ∧ row = rowOf value := by
  cases value with
  | list xs =>
    by_cases h : 0 < depth
    · simp [encodeRow, HasColumn, rowOf, h, eq_comm]
    · simp [encodeRow, HasColumn, h]
  | map es =>
    by_cases h : 0 < depth
    · simp [encodeRow, HasColumn, rowOf, h, eq_comm]
    · simp [encodeRow, HasColumn, h]
  | other kind => simp [encodeRow, HasColumn]
  | _ => simp [encodeRow, HasColumn, rowOf, eq_comm]

/-- The offsets of a sequence of rows fit into 32 bits. -/
def OffsetsFit (rows : List EncodedRow) : Prop :=
  (rows.flatMap (·.children)).length < 2 ^ 31 ∧ (rows.flatMap (·.entries)).length < 2 ^ 31

/-- Fewer rows need fewer offsets. -/
lemma OffsetsFit.of_append {rows more : List EncodedRow} (h : OffsetsFit (rows ++ more)) :
    OffsetsFit rows := by
  unfold OffsetsFit at h ⊢
  simp only [flatMap_append, length_append] at h
  omega

/-- One more value is encoded when it has a column and the offsets still fit. -/
lemma encodeStep_eq_ok_iff {depth : ℕ} {rows rows' : List EncodedRow} {value : Literal} :
    encodeStep depth rows value = .ok rows' ↔
      HasColumn depth value ∧ OffsetsFit (rows ++ [rowOf value]) ∧
        rows' = rows ++ [rowOf value] := by
  unfold encodeStep checkOffset
  simp only [bind_eq_ok_iff, refuseIf_eq_ok_iff, encodeRow_eq_ok_iff, not_le, OffsetsFit]
  constructor
  · rintro ⟨row, ⟨hcolumn, rfl⟩, -, hchildren, -, hentries, h⟩
    cases h
    exact ⟨hcolumn, ⟨hchildren, hentries⟩, rfl⟩
  · rintro ⟨hcolumn, ⟨hchildren, hentries⟩, rfl⟩
    exact ⟨_, ⟨hcolumn, rfl⟩, (), hchildren, (), hentries, rfl⟩

/-- The whole loop. The offsets grow, so that all of them fit is that the last ones do. -/
lemma foldlM_encodeStep_eq_ok_iff {depth : ℕ} {done rows : List EncodedRow}
    (hdone : OffsetsFit done) :
    values.foldlM (encodeStep depth) done = .ok rows ↔
      (∀ v ∈ values, HasColumn depth v) ∧ OffsetsFit (done ++ rowsOf values) ∧
        rows = done ++ rowsOf values := by
  unfold rowsOf
  induction values generalizing done with
  | nil =>
    simp only [foldlM_nil, map_nil, append_nil, not_mem_nil]
    constructor
    · intro h
      cases h
      exact ⟨nofun, hdone, rfl⟩
    · rintro ⟨-, -, rfl⟩
      rfl
  | cons value values ih =>
    rw [foldlM_cons, bind_eq_ok_iff, map_cons, append_cons, forall_mem_cons]
    constructor
    · rintro ⟨next, hstep, hrest⟩
      obtain ⟨hcolumn, hfit, rfl⟩ := encodeStep_eq_ok_iff.mp hstep
      obtain ⟨hcolumns, hfit', hrows⟩ := (ih hfit).mp hrest
      exact ⟨⟨hcolumn, hcolumns⟩, hfit', hrows⟩
    · rintro ⟨⟨hcolumn, hcolumns⟩, hfit, hrows⟩
      have hfirst := hfit.of_append
      exact ⟨_, encodeStep_eq_ok_iff.mpr ⟨hcolumn, hfirst, rfl⟩,
        (ih hfirst).mpr ⟨hcolumns, hfit, hrows⟩⟩

/-- Texts make an array when their bytes fit its offsets. -/
lemma stringArray_eq_ok_iff {rows : List (Option String)} {array : ArrowArray} :
    stringArray rows = .ok array ↔
      textBytes rows < 2 ^ 31 ∧ array = .flat .utf8 (rows.map .utf8) := by
  unfold stringArray
  simp only [bind_eq_ok_iff, refuseIf_eq_ok_iff, not_le]
  constructor
  · rintro ⟨-, htext, h⟩
    cases h
    exact ⟨htext, rfl⟩
  · rintro ⟨htext, rfl⟩
    exact ⟨(), htext, rfl⟩

/-- What fits into the 32-bit offsets of a column, level by level: the list elements, the map
entries, and the bytes of the strings and of the map keys. -/
def FitsOffsets : ℕ → List Literal → Prop
  | 0, values => textBytes (stringsOf values) < 2 ^ 31
  | depth + 1, values =>
    textBytes (stringsOf values) < 2 ^ 31 ∧ textBytes (mapKeysOf values) < 2 ^ 31 ∧
      (listElements values).length < 2 ^ 31 ∧ (mapEntries values).length < 2 ^ 31 ∧
      FitsOffsets depth (listElements values) ∧ FitsOffsets depth (mapValuesOf values)

/-- The column of a sequence that is accepted. -/
def encoded : ℕ → List Literal → ArrowArray
  | 0, values =>
    .struct (payloadColumns (rowsOf values) (.flat .utf8 ((stringsOf values).map .utf8)))
      ((rowsOf values).map (·.valid))
  | depth + 1, values =>
    .struct
      (payloadColumns (rowsOf values) (.flat .utf8 ((stringsOf values).map .utf8)) ++
        [listColumn (rowsOf values) (encoded depth (listElements values)),
          mapColumn (rowsOf values) (.flat .utf8 ((mapKeysOf values).map .utf8))
            (encoded depth (mapValuesOf values))])
      ((rowsOf values).map (·.valid))

/-- Every literal has its column, at every level. -/
def HasColumns : ℕ → List Literal → Prop
  | 0, values => ∀ v ∈ values, HasColumn 0 v
  | depth + 1, values =>
    (∀ v ∈ values, HasColumn (depth + 1) v) ∧ HasColumns depth (listElements values) ∧
      HasColumns depth (mapValuesOf values)

lemma offsetsFit_of_forall_hasColumn_zero {values : List Literal}
    (h : ∀ v ∈ values, HasColumn 0 v) : OffsetsFit (rowsOf values) := by
  have hempty : ∀ row ∈ rowsOf values, row.children = [] ∧ row.entries = [] := by
    intro row hrow
    obtain ⟨v, hv, rfl⟩ := mem_map.mp hrow
    have := h v hv
    cases v <;> first | exact ⟨rfl, rfl⟩ | exact absurd this (by simp [HasColumn])
  rw [OffsetsFit, flatMap_eq_nil_iff.mpr fun v hv => (hempty v hv).1,
    flatMap_eq_nil_iff.mpr fun v hv => (hempty v hv).2]
  decide

lemma offsetsFit_nil : OffsetsFit [] := by
  rw [OffsetsFit]
  decide

/-- Encoding succeeds exactly when every value has its column at every level and the offsets fit. -/
theorem encodeConstant_eq_ok_iff (depth : ℕ) (values : List Literal) (array : ArrowArray) :
    encodeConstant depth values = .ok array ↔
      HasColumns depth values ∧ FitsOffsets depth values ∧ array = encoded depth values := by
  induction depth generalizing values array with
  | zero =>
    rw [encodeConstant]
    simp only [bind_eq_ok_iff, foldlM_encodeStep_eq_ok_iff values offsetsFit_nil,
      stringArray_eq_ok_iff, nil_append, HasColumns, FitsOffsets]
    constructor
    · rintro ⟨rows, ⟨hcolumns, -, rfl⟩, strings, ⟨htext, rfl⟩, h⟩
      cases h
      exact ⟨hcolumns, htext, rfl⟩
    · rintro ⟨hcolumns, htext, rfl⟩
      exact ⟨_, ⟨hcolumns, offsetsFit_of_forall_hasColumn_zero hcolumns, rfl⟩, _, ⟨htext, rfl⟩, rfl⟩
  | succ depth ih =>
    rw [encodeConstant]
    simp only [bind_eq_ok_iff, foldlM_encodeStep_eq_ok_iff values offsetsFit_nil,
      stringArray_eq_ok_iff, ih, nil_append, HasColumns, FitsOffsets]
    constructor
    · rintro ⟨rows, ⟨hcolumns, hoffsets, rfl⟩, strings, ⟨htext, rfl⟩, children,
        ⟨hlists, hlistsFit, rfl⟩, keys, ⟨hkeys, rfl⟩, mapValues, ⟨hmaps, hmapsFit, rfl⟩, h⟩
      cases h
      exact ⟨⟨hcolumns, hlists, hmaps⟩, ⟨htext, hkeys, hoffsets.1, hoffsets.2, hlistsFit, hmapsFit⟩,
        rfl⟩
    · rintro ⟨⟨hcolumns, hlists, hmaps⟩,
        ⟨htext, hkeys, hchildren, hentries, hlistsFit, hmapsFit⟩, rfl⟩
      exact ⟨_, ⟨hcolumns, ⟨hchildren, hentries⟩, rfl⟩, _, ⟨htext, rfl⟩, _,
        ⟨hlists, hlistsFit, rfl⟩, _, ⟨hkeys, rfl⟩, _, ⟨hmaps, hmapsFit, rfl⟩, rfl⟩

namespace Literal

lemma depthList_le_iff (xs : List Literal) (n : ℕ) :
    depthList xs ≤ n ↔ ∀ v ∈ xs, v.nestingDepth ≤ n := by
  induction xs with
  | nil => simp [depthList]
  | cons v vs ih => rw [depthList, max_le_iff, ih, forall_mem_cons]

lemma depthEntries_eq (es : List (String × Literal)) :
    depthEntries es = depthList (es.map (·.2)) := by
  induction es with
  | nil => rfl
  | cons e es ih => rw [depthEntries, ih, map_cons, depthList]

lemma plainList_iff (xs : List Literal) : plainList xs = true ↔ ∀ v ∈ xs, v.plain = true := by
  induction xs with
  | nil => simp [plainList]
  | cons v vs ih => rw [plainList, Bool.and_eq_true, ih, forall_mem_cons]

lemma plainEntries_eq (es : List (String × Literal)) :
    plainEntries es = plainList (es.map (·.2)) := by
  induction es with
  | nil => rfl
  | cons e es ih => rw [plainEntries, ih, map_cons, plainList]

/-- A plain literal with at most `depth` levels of lists and maps. -/
def Within (depth : ℕ) (v : Literal) : Prop := v.plain = true ∧ v.nestingDepth ≤ depth

/-- A list is within a depth when its elements are within one less. -/
lemma within_list_iff (depth : ℕ) (xs : List Literal) :
    (Literal.list xs).Within (depth + 1) ↔ ∀ v ∈ xs, v.Within depth := by
  have hdepth : 1 + depthList xs ≤ depth + 1 ↔ depthList xs ≤ depth := by omega
  simp only [Within, plain, nestingDepth, hdepth, plainList_iff, depthList_le_iff]
  exact ⟨fun h v hv => ⟨h.1 v hv, h.2 v hv⟩,
    fun h => ⟨fun v hv => (h v hv).1, fun v hv => (h v hv).2⟩⟩

/-- A map is within a depth when its values are within one less. -/
lemma within_map_iff (depth : ℕ) (es : List (String × Literal)) :
    (Literal.map es).Within (depth + 1) ↔ ∀ e ∈ es, e.2.Within depth := by
  have hlist := within_list_iff depth (es.map (·.2))
  rw [forall_mem_map] at hlist
  rw [← hlist, Within, plain, nestingDepth, plainEntries_eq, depthEntries_eq]
  rfl

end Literal

/-- At depth zero only flat values have a column. -/
lemma within_zero_iff (v : Literal) : v.Within 0 ↔ HasColumn 0 v := by
  cases v <;> simp [Literal.Within, Literal.plain, Literal.nestingDepth, HasColumn]

/-- A literal is within a depth when it has a column there and its parts are within the next. -/
lemma within_succ_iff (depth : ℕ) (v : Literal) : v.Within (depth + 1) ↔ HasColumn (depth + 1) v ∧
      (∀ x ∈ (rowOf v).children, x.Within depth) ∧ ∀ e ∈ (rowOf v).entries, e.2.Within depth := by
  cases v with
  | list xs => simp [Literal.within_list_iff, HasColumn, rowOf, encodeRow, EncodedRow.blank]
  | map es => simp [Literal.within_map_iff, HasColumn, rowOf, encodeRow, EncodedRow.blank]
  | other kind => simp [Literal.Within, Literal.plain, HasColumn]
  | _ =>
    simp [Literal.Within, Literal.plain, Literal.nestingDepth, HasColumn, rowOf, encodeRow,
      EncodedRow.blank]

/-- Values have columns at every level exactly when they are within the depth. -/
theorem hasColumns_iff (depth : ℕ) (values : List Literal) :
    HasColumns depth values ↔ ∀ v ∈ values, v.Within depth := by
  induction depth generalizing values with
  | zero => simp only [HasColumns, within_zero_iff]
  | succ depth ih =>
    simp only [HasColumns, ih, within_succ_iff, listElements, mapValuesOf, mapEntries, rowsOf,
      flatMap_map, mem_flatMap, mem_map]
    constructor
    · intro ⟨hcolumns, hlists, hmaps⟩ v hv
      exact ⟨hcolumns v hv, fun x hx => hlists x ⟨v, hv, hx⟩,
        fun e he => hmaps e.2 ⟨e, ⟨v, hv, he⟩, rfl⟩⟩
    · intro h
      refine ⟨fun v hv => (h v hv).1, ?_, ?_⟩
      · intro x ⟨v, hv, hx⟩
        exact (h v hv).2.1 x hx
      · rintro x ⟨e, ⟨v, hv, he⟩, rfl⟩
        exact (h v hv).2.2 e he

/-! ## The encoded column -/

/-- The list and the map column of a level that has them. -/
def nestedColumns : ℕ → List Literal → List (FieldHeader × ArrowArray)
  | 0, _ => []
  | depth + 1, values =>
    [listColumn (rowsOf values) (encoded depth (listElements values)),
      mapColumn (rowsOf values) (.flat .utf8 ((mapKeysOf values).map .utf8))
        (encoded depth (mapValuesOf values))]

/-- All columns of a level. -/
def columnsOf (depth : ℕ) (values : List Literal) : List (FieldHeader × ArrowArray) :=
  payloadColumns (rowsOf values) (.flat .utf8 ((stringsOf values).map .utf8)) ++
    nestedColumns depth values

section
variable (depth : ℕ) (values : List Literal)

lemma encoded_eq :
    encoded depth values = .struct (columnsOf depth values) ((rowsOf values).map (·.valid)) := by
  cases depth with
  | zero => rw [encoded, columnsOf, nestedColumns, append_nil]
  | succ depth => rw [encoded, columnsOf, nestedColumns]

@[simp] lemma length_encoded : (encoded depth values).length = values.length := by
  simp [encoded_eq, ArrowArray.length, rowsOf]

/-- The type of an encoded array is that of its depth. -/
lemma dataType_encoded : (encoded depth values).dataType = .struct (constantFields depth) := by
  induction depth generalizing values with
  | zero => rfl
  | succ depth ih =>
    simp only [encoded, payloadColumns, listColumn, mapColumn, ArrowArray.dataType,
      ArrowArray.columnTypes, cons_append, nil_append, ih]
    rfl

/-- The columns have the fields of the depth. -/
lemma columnTypes_columnsOf :
    ArrowArray.columnTypes (columnsOf depth values) = constantFields depth := by
  have := dataType_encoded depth values
  rw [encoded_eq, ArrowArray.dataType] at this
  exact DataType.struct.inj this

end

/-! ### Rows -/

/-- The values of a row in the columns before the list and the map. -/
def payloadScalars (row : EncodedRow) : Fields :=
  [(.plain KEY true, .float64 row.key), (.plain TAG false, .int (.int8 (some row.tag))),
    (.plain INT true, .int (.int64 row.int)), (.plain FLOAT true, .float64 row.float),
    (.plain STR true, .utf8 row.string), (.plain BOOL true, .boolean row.boolean)]

lemma scalarsAt_append (columns more : List (FieldHeader × ArrowArray)) (i : ℕ) :
    ArrowArray.scalarsAt (columns ++ more) i =
      ArrowArray.scalarsAt columns i ++ ArrowArray.scalarsAt more i := by
  induction columns with
  | nil => rfl
  | cons column columns ih =>
    simp only [cons_append, ArrowArray.scalarsAt, ih]

section Rows

variable {values : List Literal} {i : ℕ} {v : Literal}

lemma getD_map_rowsOf {α : Type} (f : EncodedRow → α) (hv : values[i]? = some v) (a : α) :
    ((rowsOf values).map f).getD i a = f (rowOf v) := by
  simp [rowsOf, hv]

/-- A row of the columns: the flat payloads, then the nested ones. -/
lemma scalarsAt_columnsOf (depth : ℕ) (hv : values[i]? = some v) :
    ArrowArray.scalarsAt (columnsOf depth values) i =
      payloadScalars (rowOf v) ++ ArrowArray.scalarsAt (nestedColumns depth values) i := by
  have hmap := fun f : EncodedRow → ScalarValue => getD_map_rowsOf f hv
  rw [columnsOf, scalarsAt_append]
  simp only [payloadColumns, ArrowArray.scalarsAt, ArrowArray.scalarAt, hmap, payloadScalars,
    stringsOf, map_map, Function.comp_def]

/-! ### Offsets -/

/-- An offset is the sum of the lengths before it. -/
lemma getD_runningTotals (total : ℕ) (ns : List ℕ) (i : ℕ) (h : i ≤ ns.length) :
    (runningTotals total ns).getD i 0 = total + (ns.take i).sum := by
  induction ns generalizing total i with
  | nil =>
    have : i = 0 := by simpa using h
    subst this
    rfl
  | cons n ns ih =>
    cases i with
    | zero => simp [runningTotals]
    | succ i =>
      rw [runningTotals, getD_cons_succ, ih (total + n) i (by simpa using h),
        take_succ_cons, sum_cons]
      omega

/-- The part of a level's child column that a row's parts occupy: it starts where the parts of the
rows before it end. -/
lemma childRange_flatMap {α : Type} (part : EncodedRow → List α) (hv : values[i]? = some v) :
    ∃ start,
      childRange .small (runningTotals 0 ((rowsOf values).map fun row => (part row).length)) i =
        (start, start + (part (rowOf v)).length) ∧
      ∀ k, k < (part (rowOf v)).length →
        ((rowsOf values).flatMap part)[start + k]? = (part (rowOf v))[k]? := by
  obtain ⟨hi, hget⟩ := List.getElem?_eq_some_iff.mp hv
  have hlength : i < (rowsOf values).length := by simpa [rowsOf] using hi
  have hrow : (rowsOf values)[i] = rowOf v := by simp [rowsOf, hget]
  set lengths := (rowsOf values).map fun row => (part row).length with hlengths
  have hsplit : (rowsOf values).flatMap part =
      ((rowsOf values).take i).flatMap part ++ (part (rowOf v) ++
        ((rowsOf values).drop (i + 1)).flatMap part) := by
    conv_lhs => rw [← take_append_drop i (rowsOf values), drop_eq_getElem_cons hlength]
    rw [flatMap_append, flatMap_cons, hrow]
  have hbefore : (((rowsOf values).take i).flatMap part).length = (lengths.take i).sum := by
    rw [length_flatMap, hlengths, ← map_take]
  refine ⟨(lengths.take i).sum, ?_, ?_⟩
  · show ((runningTotals 0 lengths).getD i 0, (runningTotals 0 lengths).getD (i + 1) 0) = _
    rw [getD_runningTotals 0 lengths i (by simp [hlengths]; omega),
      getD_runningTotals 0 lengths (i + 1) (by simp [hlengths]; omega),
      ← take_append_getElem (l := lengths) (i := i) (by simpa [hlengths] using hlength),
      sum_append]
    simp [hlengths, hrow]
  · intro k hk
    rw [hsplit, ← hbefore, getElem?_append_right (by omega), Nat.add_sub_cancel_left,
      getElem?_append_left hk]

/-! ### The nested columns of a row -/

/-- The values of a row's parts in the child column. -/
lemma scalarAt_nested {α : Type} (part : EncodedRow → List α) (child : ArrowArray)
    (present : EncodedRow → Bool) (hv : values[i]? = some v) (item : FieldHeader) :
    ∃ start,
      ArrowArray.scalarAt (.list .small item
        (runningTotals 0 ((rowsOf values).map fun row => (part row).length)) child
        ((rowsOf values).map present)) i =
      .list .small item child.dataType (present (rowOf v))
        (if present (rowOf v) then
          (range (part (rowOf v)).length).map fun k => child.scalarAt (start + k)
        else []) ∧
      ∀ k, k < (part (rowOf v)).length →
        ((rowsOf values).flatMap part)[start + k]? = (part (rowOf v))[k]? := by
  obtain ⟨start, hrange, hparts⟩ := childRange_flatMap part hv
  refine ⟨start, ?_, hparts⟩
  rw [ArrowArray.scalarAt, getD_map_rowsOf present hv, hrange]
  cases present (rowOf v) with
  | false => rfl
  | true => simp

end Rows

/-! ### The selected payload -/

/-- The values of the list and the map column agree with a row's tag. -/
def NestedAgree (depth : ℕ) (row : EncodedRow) (nested : List ScalarValue) : Prop :=
  depth = 0 ∧ nested = [] ∨ 0 < depth ∧ ∃ list map : ScalarValue, nested = [list, map] ∧
      list.isNull = !(row.tag == 4) ∧ map.isNull = !(row.tag == 5)

/-- The tag of a row selects its payload. -/
lemma selectRow_of_tag {columns : List ScalarValue} {depth : ℕ} {tag : Int8} {selected : Option ℕ}
    {map : Bool} (htag : columns[1]? = some (.int (.int8 (some tag))))
    (h : tagSelection (.constant depth) tag = .ok (selected, map)) :
    selectRow true columns (.constant depth) = selectPayload columns 2 selected map := by
  rw [selectRow, if_neg (by decide)]
  simp only [RowLayout.tagIndex, htag, h]
  rfl

/-- The tag of an encoded value selects its column. -/
lemma tagSelection_rowOf {depth : ℕ} {v : Literal} (hcolumn : HasColumn depth v) :
    tagSelection (.constant depth) (rowOf v).tag =
      .ok (some ((rowOf v).tag.toInt.toNat + 2), (rowOf v).tag == 5) := by
  cases v with
  | other kind => exact hcolumn.elim
  | list xs =>
    have hdepth : 0 < depth := hcolumn
    simp [tagSelection, rowOf, encodeRow, hdepth]
  | map es =>
    have hdepth : 0 < depth := hcolumn
    simp [tagSelection, rowOf, encodeRow, hdepth]
  | _ => rfl

/-- An encoded value that is not null is selected from its column. -/
lemma selectRow_rowOf {depth : ℕ} {v : Literal} {nested : List ScalarValue} (hnull : v ≠ .null)
    (hcolumn : HasColumn depth v) (hnested : NestedAgree depth (rowOf v) nested) :
    selectRow true ((payloadScalars (rowOf v)).map (·.2) ++ nested) (.constant depth) =
      .ok (some ((rowOf v).tag.toInt.toNat + 2, (rowOf v).tag == 5)) := by
  rw [selectRow_of_tag rfl (tagSelection_rowOf hcolumn)]
  obtain ⟨rfl, rfl⟩ | ⟨-, list, map, rfl, hlist, hmap⟩ := hnested
  · cases v with
    | null => exact absurd rfl hnull
    | other kind => exact hcolumn.elim
    | list xs => exact absurd hcolumn (Nat.lt_irrefl 0)
    | map es => exact absurd hcolumn (Nat.lt_irrefl 0)
    | _ => rfl
  · cases v with
    | null => exact absurd rfl hnull
    | other kind => exact hcolumn.elim
    | _ =>
      simp [payloadScalars, rowOf, encodeRow, EncodedRow.blank, selectPayload, ScalarValue.isNull,
        IntScalar.value, hlist, hmap, List.zipIdx]

/-- The keys and values of the maps of a level, as columns. -/
def entryColumns (depth : ℕ) (values : List Literal) : List (FieldHeader × ArrowArray) :=
  [(.plain MAP_KEY false, .flat .utf8 ((mapKeysOf values).map .utf8)),
    (.plain MAP_VALUE true, encoded depth (mapValuesOf values))]

/-- The entries of the maps of a level, as a column. -/
def entryArray (depth : ℕ) (values : List Literal) : ArrowArray :=
  .struct (entryColumns depth values) (replicate (mapEntries values).length true)

/-- The column of maps, as offsets into the entries of all rows. -/
lemma mapColumn_eq (depth : ℕ) (values : List Literal) :
    mapColumn (rowsOf values) (.flat .utf8 ((mapKeysOf values).map .utf8))
        (encoded depth (mapValuesOf values)) =
      (.plain MAP true, .list .small (.plain "item" true)
        (runningTotals 0 ((rowsOf values).map (·.entries.length))) (entryArray depth values)
        ((rowsOf values).map (·.tag == 5))) := by
  simp [mapColumn, entryArray, entryColumns, ArrowArray.length, mapKeysOf]

section NestedRows

variable {depth : ℕ} {values : List Literal} {i : ℕ} {v : Literal}

/-- The list and the map of a row, with the place of their parts in the child columns. -/
lemma scalarsAt_nestedColumns (hv : values[i]? = some v) : ∃ listStart mapStart,
      ArrowArray.scalarsAt (nestedColumns (depth + 1) values) i =
        [(.plain LIST true, .list .small (.plain "item" true)
            (encoded depth (listElements values)).dataType ((rowOf v).tag == 4)
            (if (rowOf v).tag == 4 then (range (rowOf v).children.length).map fun k =>
              (encoded depth (listElements values)).scalarAt (listStart + k) else [])),
          (.plain MAP true, .list .small (.plain "item" true)
            (entryArray depth values).dataType ((rowOf v).tag == 5)
            (if (rowOf v).tag == 5 then (range (rowOf v).entries.length).map fun k =>
              (entryArray depth values).scalarAt (mapStart + k) else []))] ∧
      (∀ k x, (rowOf v).children[k]? = some x → (listElements values)[listStart + k]? = some x) ∧
      ∀ k e, (rowOf v).entries[k]? = some e → (mapEntries values)[mapStart + k]? = some e := by
  obtain ⟨listStart, hlist, hchildren⟩ := scalarAt_nested (·.children)
    (encoded depth (listElements values)) (·.tag == 4) hv (.plain "item" true)
  obtain ⟨mapStart, hmap, hentries⟩ := scalarAt_nested (·.entries) (entryArray depth values)
    (·.tag == 5) hv (.plain "item" true)
  refine ⟨listStart, mapStart, ?_, ?_, ?_⟩
  · rw [nestedColumns, mapColumn_eq, listColumn]
    simp only [ArrowArray.scalarsAt, hlist, hmap]
  · intro k x hx
    rw [listElements, hchildren k (List.getElem?_eq_some_iff.mp hx).1, hx]
  · intro k e he
    rw [mapEntries, hentries k (List.getElem?_eq_some_iff.mp he).1, he]

/-- The nested payloads of a row are the value's own. -/
lemma nestedAgree_scalarsAt (depth : ℕ) (hv : values[i]? = some v) : NestedAgree depth (rowOf v)
    ((ArrowArray.scalarsAt (nestedColumns depth values) i).map (·.2)) := by
  cases depth with
  | zero => exact .inl ⟨rfl, rfl⟩
  | succ depth =>
    obtain ⟨listStart, mapStart, hscalars, -⟩ := @scalarsAt_nestedColumns depth values i v hv
    rw [hscalars]
    exact .inr ⟨Nat.succ_pos depth, _, _, rfl, rfl, rfl⟩

end NestedRows

/-! ## Decoding -/

/-- Rebuilding a value depends on its parts alone. -/
lemma literalOf_congr {part part' : ScalarValue → Option Literal} {d : ScalarValue}
    (h : ∀ v, v.size < d.size → part v = part' v) : literalOf part d = literalOf part' d := by
  unfold literalOf
  split
  case h_6 item type elements =>
    rw [mapM_congr_of_mem]
    intro x hx
    exact h x (ScalarValue.size_lt_of_mem_list hx)
  case h_7 fields =>
    rw [mapM_congr_of_mem]
    intro field hfield
    rw [h field.2 (ScalarValue.size_lt_of_mem_struct hfield)]
  all_goals rfl

/-- The equation of decoding. -/
theorem decodeLiteral_eq (v : ScalarValue) :
    decodeLiteral v = decodeLiteralStep decodeLiteral v := by
  apply MeasuredFix.fix_eq ScalarValue.size
  intro f g v hfg
  unfold decodeLiteralStep
  split
  · rename_i d hd
    apply literalOf_congr
    intro x hx
    have hdecode : decodeHet v = some d := by
      rw [decodeHet, hd]
    have := size_decodeHet hdecode
    exact hfg x (by omega)
  · rfl

mutual

/-- The null of a type has that type. -/
lemma dataType_nullScalar : ∀ type : DataType, (nullScalar type).dataType = type
  | .null | .boolean | .float32 | .float64 | .utf8 | .largeUtf8 | .time64Nanosecond => rfl
  | .int type => by cases type <;> rfl
  | .fixedSizeBinary _ => rfl
  | .flat _ _ => rfl
  | .dictionary key value => by
    rw [nullScalar, ScalarValue.dataType, dataType_nullScalar value]
  | .list _ _ _ => rfl
  | .struct fields => by
    rw [nullScalar, ScalarValue.dataType, fieldTypes_nullFields fields]

/-- The nulls of fields have their types. -/
lemma fieldTypes_nullFields :
    ∀ fields : List TypeField, ScalarValue.fieldTypes (nullFields fields) = fields
  | [] => rfl
  | (header, type) :: fields => by
    rw [nullFields, ScalarValue.fieldTypes, dataType_nullScalar type, fieldTypes_nullFields fields]

end

lemma dataType_entryArray (depth : ℕ) (values : List Literal) :
    (entryArray depth values).dataType = .struct (mapEntryFields depth) := by
  simp only [entryArray, entryColumns, ArrowArray.dataType, ArrowArray.columnTypes,
    dataType_encoded]
  rfl

/-- The literals are decoded from a column row by row. -/
def DecodesTo (array : ArrowArray) (values : List Literal) : Prop :=
  ∀ i v, values[i]? = some v → decodeLiteral (array.scalarAt i) = some v

section Decode

variable {depth : ℕ} {values : List Literal} {i : ℕ} {v : Literal}

/-- A row has the types of its depth. -/
lemma fieldTypes_row (hv : values[i]? = some v) :
    ScalarValue.fieldTypes (ArrowArray.scalarsAt (columnsOf depth values) i) =
      constantFields depth := by
  rw [scalarsAt_columnsOf depth hv]
  cases depth with
  | zero => rfl
  | succ depth =>
    obtain ⟨listStart, mapStart, hscalars, -⟩ := @scalarsAt_nestedColumns depth values i v hv
    rw [hscalars]
    simp only [payloadScalars, cons_append, nil_append, ScalarValue.fieldTypes,
      ScalarValue.dataType, dataType_encoded, dataType_entryArray]
    rfl

lemma valid_rowOf (v : Literal) : (rowOf v).valid = true ↔ v ≠ .null := by
  cases v <;> simp [rowOf, encodeRow, EncodedRow.blank]

/-- The row of a value that is not null. -/
lemma scalarAt_encoded (hv : values[i]? = some v) (hnull : v ≠ .null) :
    (encoded depth values).scalarAt i =
      .struct (ArrowArray.scalarsAt (columnsOf depth values) i) true := by
  rw [encoded_eq, ArrowArray.scalarAt, getD_map_rowsOf _ hv, (valid_rowOf v).mpr hnull]
  rfl

/-- The row of a null is a null of the struct. -/
lemma scalarAt_encoded_null (hv : values[i]? = some .null) :
    (encoded depth values).scalarAt i = .struct (nullFields (constantFields depth)) false := by
  rw [encoded_eq, ArrowArray.scalarAt, getD_map_rowsOf _ hv, columnTypes_columnsOf]
  rfl

/-- A struct of the layout decodes to its selected payload. -/
lemma decodeHetScalar_struct {fields : Fields} {valid : Bool} {selected : Option (ℕ × Bool)}
    (hdepth : depth < 2 ^ 64) (htypes : ScalarValue.fieldTypes fields = constantFields depth)
    (hselect : selectRow valid (fields.map (·.2)) (.constant depth) = .ok selected) :
    decodeHetScalar (.struct fields valid) =
      (decodeSelected (fields.map (·.2)) selected).map some := by
  rw [decodeHetScalar, htypes, recognizeLayout_constantFields depth hdepth]
  show (selectRow _ _ _ >>= _) = _
  rw [hselect]
  show (decodeSelected _ _ >>= _) = _
  cases decodeSelected (fields.map (·.2)) selected with
  | ok d => rfl
  | error e => rfl

/-- A null row decodes to null. -/
lemma decodeLiteral_row_null (hdepth : depth < 2 ^ 64) (hv : values[i]? = some .null) :
    decodeLiteral ((encoded depth values).scalarAt i) = some .null := by
  rw [decodeLiteral_eq, decodeLiteralStep, scalarAt_encoded_null hv,
    decodeHetScalar_struct hdepth (fieldTypes_nullFields _) rfl]
  rfl

/-- What the decoder makes of a row that is not null. -/
lemma decodeHetScalar_row (hdepth : depth < 2 ^ 64) (hv : values[i]? = some v) (hnull : v ≠ .null)
    (hcolumn : HasColumn depth v) :
    decodeHetScalar ((encoded depth values).scalarAt i) =
      (decodeSelected ((ArrowArray.scalarsAt (columnsOf depth values) i).map (·.2))
        (some ((rowOf v).tag.toInt.toNat + 2, (rowOf v).tag == 5))).map some := by
  rw [scalarAt_encoded hv hnull]
  apply decodeHetScalar_struct hdepth (fieldTypes_row hv)
  rw [scalarsAt_columnsOf depth hv, map_append]
  exact selectRow_rowOf hnull hcolumn (nestedAgree_scalarsAt depth hv)

/-! ### Lists and maps -/

/-- An entry of a map: its key and the row of its value. -/
lemma scalarAt_entryArray {j : ℕ} {e : String × Literal} (he : (mapEntries values)[j]? = some e) :
    (entryArray depth values).scalarAt j = .struct [(.plain MAP_KEY false, .utf8 (some e.1)),
        (.plain MAP_VALUE true, (encoded depth (mapValuesOf values)).scalarAt j)] true := by
  obtain ⟨hj, hget⟩ := List.getElem?_eq_some_iff.mp he
  simp [entryArray, entryColumns, ArrowArray.scalarAt, ArrowArray.scalarsAt, mapKeysOf, hj, hget]

/-- An entry decodes to a field of its key. -/
lemma decodeMapEntry_entry (key : String) (value : ScalarValue) :
    decodeMapEntry (.struct [(.plain MAP_KEY false, .utf8 (some key)),
      (.plain MAP_VALUE true, value)] true) = .ok (.plain key true, value) := by
  rfl

section Parts

variable {start : ℕ}

/-- The list of a row stands for the elements it was made from. -/
lemma literalOf_elements {xs : List Literal} {item : FieldHeader} {type : DataType}
    (hchild : DecodesTo (encoded depth (listElements values)) (listElements values))
    (hxs : ∀ k x, xs[k]? = some x → (listElements values)[start + k]? = some x) :
    literalOf decodeLiteral (.list .small item type true ((range xs.length).map fun k =>
      (encoded depth (listElements values)).scalarAt (start + k))) = some (.list xs) := by
  rw [literalOf, mapM_map_range_eq_some]
  · rfl
  · intro k x hx
    exact hchild _ x (hxs k x hx)

/-- The map of a row stands for the entries it was made from. -/
lemma exists_decodeMap {es : List (String × Literal)} {item : FieldHeader} {type : DataType}
    (hchild : DecodesTo (encoded depth (mapValuesOf values)) (mapValuesOf values))
    (hes : ∀ k e, es[k]? = some e → (mapEntries values)[start + k]? = some e) :
    ∃ fields, decodeMap (.list .small item type true ((range es.length).map fun k =>
        (entryArray depth values).scalarAt (start + k))) = .ok (.struct fields true) ∧
      literalOf decodeLiteral (.struct fields true) = some (.map es) := by
  set field : ℕ → FieldHeader × ScalarValue := fun k =>
    (.plain ((es[k]?.map (·.1)).getD "") true,
      (encoded depth (mapValuesOf values)).scalarAt (start + k)) with hfield
  refine ⟨(range es.length).map field, ?_, ?_⟩
  · have hentries : ∀ k ∈ range es.length,
        (decodeMapEntry ∘ fun k => (entryArray depth values).scalarAt (start + k)) k =
          .ok (field k) := by
      intro k hk
      have he := List.getElem?_eq_getElem (mem_range.mp hk)
      rw [Function.comp_apply, scalarAt_entryArray (hes k _ he), decodeMapEntry_entry, hfield]
      simp [he]
    rw [decodeMap, mapM_map, mapM_eq_ok_map hentries]
    rfl
  · rw [literalOf, mapM_map_range_eq_some]
    · rfl
    · intro k e he
      have hvalue : (mapValuesOf values)[start + k]? = some e.2 := by
        rw [mapValuesOf, getElem?_map, hes k e he]
        rfl
      simp only [hfield, hchild _ _ hvalue, he]
      rfl

end Parts

lemma decodeLiteral_of_decoded {v d : ScalarValue}
    (h : decodeHetScalar v = (Except.ok d).map some) :
    decodeLiteral v = literalOf decodeLiteral d := by
  rw [decodeLiteral_eq, decodeLiteralStep, h]
  rfl

/-- The row of a flat value decodes to the value. -/
lemma decodeLiteral_row_flat (hdepth : depth < 2 ^ 64) (hv : values[i]? = some v)
    (hcolumn : HasColumn depth v) (hflat : v.nestingDepth = 0) :
    decodeLiteral ((encoded depth values).scalarAt i) = some v := by
  by_cases hnull : v = .null
  · subst hnull
    exact decodeLiteral_row_null hdepth hv
  have hrow := decodeHetScalar_row hdepth hv hnull hcolumn
  rw [scalarsAt_columnsOf _ hv] at hrow
  cases v with
  | null => exact absurd rfl hnull
  | other kind => exact hcolumn.elim
  | list xs =>
    rw [Literal.nestingDepth] at hflat
    omega
  | map es =>
    rw [Literal.nestingDepth] at hflat
    omega
  | _ => exact decodeLiteral_of_decoded hrow

/-- A row decodes to its literal when the rows of the next lower level do. -/
lemma decodeLiteral_row (hdepth : depth + 1 < 2 ^ 64) (hv : values[i]? = some v)
    (hcolumn : HasColumn (depth + 1) v)
    (hlists : DecodesTo (encoded depth (listElements values)) (listElements values))
    (hmaps : DecodesTo (encoded depth (mapValuesOf values)) (mapValuesOf values)) :
    decodeLiteral ((encoded (depth + 1) values).scalarAt i) = some v := by
  obtain ⟨listStart, mapStart, hscalars, hchildren, hentries⟩ :=
    @scalarsAt_nestedColumns depth values i v hv
  cases v with
  | list xs =>
    have hrow := decodeHetScalar_row hdepth hv nofun hcolumn
    rw [scalarsAt_columnsOf _ hv, hscalars] at hrow
    rw [decodeLiteral_of_decoded hrow]
    exact literalOf_elements hlists hchildren
  | map es =>
    have hrow := decodeHetScalar_row hdepth hv nofun hcolumn
    rw [scalarsAt_columnsOf _ hv, hscalars] at hrow
    obtain ⟨fields, hdecode, hliteral⟩ := @exists_decodeMap depth values mapStart es
      (.plain "item" true) (entryArray depth values).dataType hmaps hentries
    have hdecoded : decodeHetScalar ((encoded (depth + 1) values).scalarAt i) =
        (Except.ok (.struct fields true)).map some := by
      rw [← hdecode]
      exact hrow
    rw [decodeLiteral_of_decoded hdecoded]
    exact hliteral
  | other kind => exact hcolumn.elim
  | _ => exact decodeLiteral_row_flat hdepth hv hcolumn rfl

/-- Every row decodes to its value, by induction on the depth. -/
lemma decodesTo_encoded (hdepth : depth < 2 ^ 64) (hcolumns : HasColumns depth values) :
    DecodesTo (encoded depth values) values := by
  induction depth generalizing values with
  | zero =>
    intro i v hv
    have hcolumn := hcolumns v (mem_of_getElem? hv)
    have hwithin := ((within_zero_iff v).mpr hcolumn).2
    exact decodeLiteral_row_flat hdepth hv hcolumn (by omega)
  | succ depth ih =>
    obtain ⟨hcolumn, hlists, hmaps⟩ := hcolumns
    intro i v hv
    exact decodeLiteral_row hdepth hv (hcolumn v (mem_of_getElem? hv))
      (ih (by omega) hlists) (ih (by omega) hmaps)

end Decode

/-! ## Validation -/

lemma containsHeterogeneous_mapEntryFields {depth : ℕ}
    (h : containsHeterogeneous (.struct (constantFields depth)) = .ok true) :
    containsHeterogeneous (.struct (mapEntryFields depth)) = .ok true := by
  rw [containsHeterogeneous]
  simp only [mapEntryFields, newField, containsHeterogeneousField, h]
  rfl

/-- The fields of a depth are heterogeneous. -/
lemma containsHeterogeneous_constantFields {depth : ℕ} (h : depth < 2 ^ 64) :
    containsHeterogeneous (.struct (constantFields depth)) = .ok true := by
  induction depth with
  | zero =>
    rw [containsHeterogeneous, recognizeLayout_constantFields 0 h]
    rfl
  | succ depth ih =>
    have hchild := ih (by omega)
    have hentries := containsHeterogeneous_mapEntryFields hchild
    have hlist : ∀ kind item type,
        containsHeterogeneous (.list kind item type) = containsHeterogeneous type := by
      intro kind item type
      rw [containsHeterogeneous]
    rw [containsHeterogeneous, recognizeLayout_constantFields _ h]
    simp only [mapEntryFields, constantFields, scalarFields, newField, DataType.newList, cons_append,
      nil_append, containsHeterogeneousField, hlist, hchild] at hentries ⊢
    simp only [hentries]
    rfl

/-- The validator of an encoded column. -/
def validatorOf : ℕ → List Literal → ArrayValidator
  | 0, values =>
    .struct (columnsOf 0 values) ((rowsOf values).map (·.valid)) (some (.constant 0))
      (replicate 6 .skip)
  | depth + 1, values =>
    .struct (columnsOf (depth + 1) values) ((rowsOf values).map (·.valid))
      (some (.constant (depth + 1)))
      (replicate 6 .skip ++
        [.list .small (runningTotals 0 ((rowsOf values).map (·.children.length)))
          ((rowsOf values).map (·.tag == 4)) (validatorOf depth (listElements values)),
        .list .small (runningTotals 0 ((rowsOf values).map (·.entries.length)))
          ((rowsOf values).map (·.tag == 5))
          (.struct (entryColumns depth values) (replicate (mapEntries values).length true) none
              [.skip, validatorOf depth (mapValuesOf values)])])

/-- Validators of columns, one by one. -/
lemma newAll_of_forall₂ {columns : List (FieldHeader × ArrowArray)}
    {children : List ArrayValidator}
    (h : Forall₂ (fun column child => ArrayValidator.new column.2 = .ok child) columns children) :
    ArrayValidator.newAll columns = .ok children := by
  induction h with
  | nil => rw [ArrayValidator.newAll]
  | cons hfirst _ ih =>
    rw [ArrayValidator.newAll, hfirst, ih]
    rfl

/-- The validator of a list column. -/
lemma new_list {kind : ListKind} {item : FieldHeader} {offsets : List ℕ} {child : ArrowArray}
    {valid : List Bool} {validator : ArrayValidator}
    (hchild : containsHeterogeneous child.dataType = .ok true)
    (hnew : ArrayValidator.new child = .ok validator) :
    ArrayValidator.new (.list kind item offsets child valid) =
      .ok (.list kind offsets valid validator) := by
  rw [ArrayValidator.new, hchild]
  show (ArrayValidator.new child >>= _) = _
  rw [hnew]
  rfl

/-- The validator of a struct. -/
lemma new_struct {columns : List (FieldHeader × ArrowArray)} {valid : List Bool}
    {layout : Option RowLayout} {children : List ArrayValidator}
    (hcontains : containsHeterogeneous (.struct (ArrowArray.columnTypes columns)) = .ok true)
    (hlayout : recognizeLayout (.struct (ArrowArray.columnTypes columns)) = .ok layout)
    (hchildren : ArrayValidator.newAll columns = .ok children) :
    ArrayValidator.new (.struct columns valid) = .ok (.struct columns valid layout children) := by
  rw [ArrayValidator.new, hcontains, hlayout]
  show (ArrayValidator.newAll columns >>= _) = _
  rw [hchildren]
  rfl

lemma forall₂_new_payloadColumns (rows : List EncodedRow) (strings : List ScalarValue) :
    Forall₂ (fun column child => ArrayValidator.new column.2 = .ok child)
      (payloadColumns rows (.flat .utf8 strings)) (replicate 6 .skip) :=
  .cons rfl (.cons rfl (.cons rfl (.cons rfl (.cons rfl (.cons rfl .nil)))))

/-- The validator of an encoded array. -/
lemma new_encoded (depth : ℕ) (values : List Literal) (h : depth < 2 ^ 64) :
    ArrayValidator.new (encoded depth values) = .ok (validatorOf depth values) := by
  induction depth generalizing values with
  | zero =>
    rw [encoded_eq]
    apply new_struct
    · rw [columnTypes_columnsOf, containsHeterogeneous_constantFields h]
    · rw [columnTypes_columnsOf, recognizeLayout_constantFields _ h]
    · rw [columnsOf, nestedColumns, append_nil]
      exact newAll_of_forall₂ (forall₂_new_payloadColumns _ _)
  | succ depth ih =>
    have hdepth : depth < 2 ^ 64 := by omega
    have hcontains := containsHeterogeneous_mapEntryFields
      (containsHeterogeneous_constantFields hdepth)
    have hentryTypes : DataType.struct (ArrowArray.columnTypes (entryColumns depth values)) =
        .struct (mapEntryFields depth) := dataType_entryArray depth values
    have hentries := @new_struct (entryColumns depth values)
      (replicate (mapEntries values).length true) none _
      (by rw [hentryTypes, hcontains])
      (by rw [hentryTypes]; rfl)
      (newAll_of_forall₂ (.cons rfl (.cons (ih (mapValuesOf values) hdepth) .nil)))
    rw [encoded_eq]
    apply new_struct
    · rw [columnTypes_columnsOf, containsHeterogeneous_constantFields h]
    · rw [columnTypes_columnsOf, recognizeLayout_constantFields _ h]
    · rw [columnsOf, nestedColumns, mapColumn_eq]
      apply newAll_of_forall₂
      apply rel_append (forall₂_new_payloadColumns _ _)
      refine .cons ?_ (.cons ?_ .nil)
      · apply new_list _ (ih (listElements values) hdepth)
        rw [dataType_encoded, containsHeterogeneous_constantFields hdepth]
      · apply new_list _ hentries
        exact hcontains ▸ congrArg _ hentryTypes

/-! ### Rows -/

/-- A check that passes on each row passes on the range. -/
lemma forRows_eq_ok {check : ℕ → Except ValueError Unit} {start stop : ℕ}
    (h : ∀ k, k < stop - start → check (start + k) = .ok ()) :
    ArrayValidator.forRows check start stop = .ok () := by
  rw [ArrayValidator.forRows]
  have hall : ∀ k ∈ range (stop - start), check (start + k) = .ok () :=
    fun k hk => h k (mem_range.mp hk)
  generalize range (stop - start) = rows at hall
  induction rows with
  | nil => rfl
  | cons k rows ih =>
    show (check (start + k) >>= fun _ => rows.forM fun k => check (start + k)) = .ok ()
    rw [hall k mem_cons_self]
    exact ih fun j hj => hall j (mem_cons_of_mem _ hj)

/-- Every row that exists passes. -/
def RowsPass (validator : ArrayValidator) (length : ℕ) : Prop :=
  ∀ i, i < length → ArrayValidator.row validator i = .ok ()

section ValidRows

variable {depth : ℕ} {values : List Literal} {i : ℕ} {v : Literal}

/-- A tagged row passes when its selected column does. -/
lemma row_tagged {children : List ArrayValidator} (hv : values[i]? = some v)
    (hcolumn : HasColumn depth v)
    (hselected : v ≠ .null →
      ArrayValidator.rowAt children ((rowOf v).tag.toInt.toNat + 2) i = .ok ()) :
    ArrayValidator.row (.struct (columnsOf depth values) ((rowsOf values).map (·.valid))
      (some (.constant depth)) children) i = .ok () := by
  rw [ArrayValidator.row, getD_map_rowsOf _ hv]
  by_cases hnull : v = .null
  · rw [hnull]
    rfl
  · have hselect := selectRow_rowOf hnull hcolumn (nestedAgree_scalarsAt depth hv)
    rw [(valid_rowOf v).mpr hnull, if_neg (by decide), scalarsAt_columnsOf depth hv, map_append]
    simp only [hselect]
    exact hselected hnull

/-- A list row passes when the rows of its parts do. -/
lemma row_parts {α : Type} {part : EncodedRow → List α} {present : EncodedRow → Bool}
    {child : ArrayValidator} (hv : values[i]? = some v)
    (hchild : RowsPass child ((rowsOf values).flatMap part).length) :
    ArrayValidator.row (.list .small
      (runningTotals 0 ((rowsOf values).map fun row => (part row).length))
      ((rowsOf values).map present) child) i = .ok () := by
  obtain ⟨start, hrange, hparts⟩ := childRange_flatMap part hv
  rw [ArrayValidator.row, getD_map_rowsOf _ hv]
  by_cases hpresent : present (rowOf v) = true
  · rw [if_pos hpresent]
    rw [show ∀ offsets, childOffsetsRange .small offsets i = .ok (childRange .small offsets i)
      from fun _ => rfl, hrange]
    apply forRows_eq_ok
    intro k hk
    have hk' : k < (part (rowOf v)).length := by simpa using hk
    have hget := hparts k hk'
    rw [List.getElem?_eq_getElem hk'] at hget
    exact hchild _ (List.getElem?_eq_some_iff.mp hget).1
  · rw [if_neg hpresent]

/-- The entries of maps pass when their values do. -/
lemma rowsPass_entries {child : ArrayValidator}
    (hchild : RowsPass child (mapValuesOf values).length) :
    RowsPass (.struct (entryColumns depth values) (replicate (mapEntries values).length true)
      none [.skip, child]) (mapEntries values).length := by
  intro j hj
  have hvalid : (replicate (mapEntries values).length true).getD j false = true := by
    simp [hj]
  rw [ArrayValidator.row, hvalid]
  simp only [ArrayValidator.rowAll, ArrayValidator.row, hchild j (by simpa [mapValuesOf] using hj)]
  rfl

/-- Every row of an encoded array passes, by induction on the depth. -/
lemma rowsPass_validatorOf (hcolumns : HasColumns depth values) :
    RowsPass (validatorOf depth values) values.length := by
  induction depth generalizing values with
  | zero =>
    intro i hi
    have hv := List.getElem?_eq_getElem hi
    have hcolumn := hcolumns _ (getElem_mem hi)
    apply row_tagged hv hcolumn
    intro hnull
    generalize values[i] = v at hcolumn hnull
    cases v with
    | null => exact absurd rfl hnull
    | other kind => exact hcolumn.elim
    | list xs => exact absurd hcolumn (Nat.lt_irrefl 0)
    | map es => exact absurd hcolumn (Nat.lt_irrefl 0)
    | _ => rfl
  | succ depth ih =>
    obtain ⟨hcolumn, hlists, hmaps⟩ := hcolumns
    intro i hi
    have hv := List.getElem?_eq_getElem hi
    have hcolumn := hcolumn _ (getElem_mem hi)
    have hlist := @row_parts values i _ _ (·.children) (·.tag == 4) _ hv (ih hlists)
    have hmap := @row_parts values i _ _ (·.entries) (·.tag == 5) _ hv
      (@rowsPass_entries depth values _ (ih hmaps))
    apply row_tagged hv hcolumn
    intro hnull
    generalize values[i] = v at hcolumn hnull
    cases v with
    | null => exact absurd rfl hnull
    | other kind => exact hcolumn.elim
    | list xs => exact hlist
    | map es => exact hmap
    | _ => rfl

/-- An encoded array validates. -/
lemma validateArray_encoded (hdepth : depth < 2 ^ 64) (hcolumns : HasColumns depth values) :
    validateArray (encoded depth values) = .ok () := by
  rw [validateArray, new_encoded depth values hdepth]
  apply forRows_eq_ok
  intro k hk
  rw [length_encoded] at hk
  exact rowsPass_validatorOf hcolumns _ (by omega)

end ValidRows

/-! ## The round trip -/

/-- Encoding succeeds exactly for plain literals nested within the depth whose contents fit into
32-bit offsets. The column then has the constant layout of that depth, is valid, has one row per
literal, and each row decodes to its literal. -/
theorem encodeConstant_round_trip (values : List Literal) (depth : UInt64) :
    ((∃ array, encodeConstant depth.toNat values = .ok array) ↔
      (∀ v ∈ values, v.plain = true ∧ v.nestingDepth ≤ depth.toNat) ∧
        FitsOffsets depth.toNat values) ∧
    ∀ array, encodeConstant depth.toNat values = .ok array →
      recognizeLayout array.dataType = .ok (some (.constant depth.toNat)) ∧
      validateArray array = .ok () ∧ array.length = values.length ∧
      ∀ i v, values[i]? = some v → decodeLiteral (array.scalarAt i) = some v := by
  have hdepth := depth.toNat_lt
  constructor
  · simp only [encodeConstant_eq_ok_iff, hasColumns_iff, Literal.Within]
    exact ⟨fun ⟨_, h, hfits, _⟩ => ⟨h, hfits⟩, fun ⟨h, hfits⟩ => ⟨_, h, hfits, rfl⟩⟩
  · intro array harray
    obtain ⟨hcolumns, -, rfl⟩ := (encodeConstant_eq_ok_iff _ _ _).mp harray
    refine ⟨?_, validateArray_encoded hdepth hcolumns, length_encoded _ _,
      decodesTo_encoded hdepth hcolumns⟩
    rw [dataType_encoded, recognizeLayout_constantFields _ hdepth]

/-- A list with a null in it and a map, at the depth they need. -/
theorem encodeConstant_round_trip_sample :
    ∃ array, encodeConstant 1 [.list [.int 1, .null], .map [("k", .str "v")]] = .ok array ∧
      decodeLiteral (array.scalarAt 1) = some (.map [("k", .str "v")]) := by
  have h := encodeConstant_round_trip [.list [.int 1, .null], .map [("k", .str "v")]] 1
  obtain ⟨array, harray⟩ := h.1.mpr ⟨by decide, by decide, by decide, by decide, by decide,
    by show textBytes _ < 2 ^ 31; decide, by show textBytes _ < 2 ^ 31; decide⟩
  exact ⟨array, harray, (h.2 array harray).2.2.2 1 _ rfl⟩

/-- A list with more elements than 32-bit offsets can tell apart is refused at every depth. -/
lemma encodeConstant_wide_list (depth : ℕ) {xs : List Literal} (h : 2 ^ 31 ≤ xs.length) :
    encodeConstant (depth + 1) [.list xs] = .error (.refused .bounds) := by
  have hrow : encodeRow (depth + 1) (.list xs) = .ok (rowOf (.list xs)) := by
    rw [encodeRow_eq_ok_iff]
    exact ⟨Nat.succ_pos depth, rfl⟩
  have hoffset : checkOffset (([] ++ [rowOf (.list xs)]).flatMap EncodedRow.children).length =
      .error (.refused .bounds) := by
    rw [checkOffset, refuseIf]
    exact if_pos (by simpa [rowOf, encodeRow] using h)
  have hstep : encodeStep (depth + 1) [] (.list xs) = .error (.refused .bounds) := by
    rw [encodeStep, hrow]
    show (checkOffset _ >>= _) = _
    rw [hoffset]
    rfl
  rw [encodeConstant, foldlM_cons, hstep]
  rfl

/-- A flat list of 2³¹ nulls has nesting depth one and is refused at depth one. -/
theorem encodeConstant_refuses_wide_list : (Literal.list (replicate (2 ^ 31) .null)).plain = true ∧
      (Literal.list (replicate (2 ^ 31) .null)).nestingDepth ≤ 1 ∧
      encodeConstant 1 [.list (replicate (2 ^ 31) .null)] = .error (.refused .bounds) := by
  have hnull : ∀ v ∈ replicate (2 ^ 31) Literal.null, v.Within 0 := by
    intro v hv
    rw [eq_of_mem_replicate hv]
    exact ⟨rfl, Nat.le_refl 0⟩
  have hwithin := (Literal.within_list_iff 0 _).mpr hnull
  exact ⟨hwithin.1, hwithin.2, encodeConstant_wide_list 0 (length_replicate ..).ge⟩

end GraphForge.Values
