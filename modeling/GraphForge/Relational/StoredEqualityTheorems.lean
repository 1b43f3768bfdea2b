import GraphForge.Lib.Lists
import GraphForge.Relational.StoredEquality

/-!
# Stored-equality hints keep the rows of a plan

A filter that contains `column = literal` sees nothing of the rows on which the equality fails.
So a scan may omit them, a left join whose right side supplies the column is an inner join to it,
and a node whose property rows all fail the equality may be missing from the other side.
-/

namespace GraphForge.Relational

open List

variable {db : Database} {host : Host}
variable {anchor : GraphReadAnchor} {scan : TableScan} {schema : Schema} {row : Row}
  {plan input hinted : Plan} {wanted : List (Column × Scalar)} {column key : Column}
  {e predicate : Expr} {exprs : List Expr} {strict : Bool} {a : Scalar}

/-! ## What is assumed of the tables -/

/-- A stored row satisfies an equality. -/
def Database.satisfies (db : Database) (wanted : Column × Scalar) (row : TableRow) : Prop :=
  db.eq (row wanted.1.name) wanted.2 = .boolean true

/-- Hints are only hints: a scan with more filters omits only rows that fail one of them, an
anchored node scan keeps every node that has a property row satisfying the anchor, and a property
scan returns rows of its route. Equality does not depend on the side. -/
structure Database.Sound (db : Database) : Prop where
  equal_comm : ∀ a b, db.equal a b = db.equal b a
  hinted : ∀ (scan : TableScan) (added : List Expr), ∃ omitted : Multiset TableRow,
    db.scanRows scan = db.scanRows { scan with filters := scan.filters ++ added } + omitted ∧
      ∀ row ∈ omitted, ∃ f ∈ added, ∃ wanted, equality f = some wanted ∧ ¬db.satisfies wanted row
  anchored : ∀ (scan : TableScan) (schema : List (String × StoredType)) (anchor : GraphReadAnchor),
    scan.source = .graphRead .nodes schema none → ∃ omitted : Multiset TableRow,
    db.scanRows scan = db.scanRows (scan.withAnchor anchor) + omitted ∧
      ∀ row ∈ omitted, ∀ property ∈ db.propertyRows anchor.route, ∀ wanted,
        equality anchor.equality = some wanted → db.satisfies wanted property →
        db.keysMatch true (some (row "node_uuid")) (some (property "node_uuid")) = false
  properties : ∀ (scan : TableScan) (route : String) (schema : List (String × StoredType))
    (anchor : Option GraphReadAnchor), scan.source = .graphRead (.properties route) schema anchor →
    ∀ row ∈ db.scanRows scan, row ∈ db.propertyRows route

/-! ## Columns -/

section Columns

/-- A column that the left side does not have is looked up on the right. -/
lemma indexOf_append_right {left right : Schema} (h : left.indexOf host column = none) :
    Schema.indexOf host (left ++ right) column =
      (right.indexOf host column).map (left.length + ·) := by
  unfold Schema.indexOf at h ⊢
  rw [findIdx?_append, h]
  simp [Nat.add_comm]

/-- A column that only the right side has is read from the right row. -/
lemma value_append_right {left right : Schema} {l r : Row} (h : left.indexOf host column = none)
    (hl : l.length = left.length) :
    Schema.value host (left ++ right) (l ++ r) column = right.value host r column := by
  unfold Schema.value
  rw [indexOf_append_right h]
  cases right.indexOf host column with
  | none => rfl
  | some i =>
    show (l ++ r)[left.length + i]? = r[i]?
    rw [getElem?_append_right (by omega), hl, Nat.add_sub_cancel_left]

/-- A scanned column holds what is stored under its name. -/
lemma value_scan {row : TableRow}
    (h : scan.schema.value host (scan.columns.map row) column = some a) : a = row column.name := by
  unfold Schema.value at h
  rw [Option.bind_eq_some_iff] at h
  obtain ⟨i, hi, hget⟩ := h
  unfold Schema.indexOf at hi
  rw [findIdx?_eq_some_iff_getElem] at hi
  obtain ⟨hlt, hanswers, -⟩ := hi
  have hcolumn : i < scan.columns.length := by simpa [TableScan.schema] using hlt
  rw [getElem?_map, List.getElem?_eq_getElem hcolumn] at hget
  have hname : scan.columns[i] = column.name := by
    simp only [TableScan.schema, getElem_map, Field.answers] at hanswers
    split at hanswers
    · simp_all
    · simp_all
    · simp_all
  rw [← hname]
  exact (Option.some.inj hget).symm

/-- A projected column evaluates to the column it comes from. -/
lemma projectedColumn_eval (h : projectedColumn e = some column) (schema : Schema) (row : Row) :
    db.eval host schema row e = schema.value host row column := by
  induction e with
  | aliased e relation name ih =>
    rw [projectedColumn] at h
    rw [Database.eval]
    exact ih h
  | column c =>
    rw [projectedColumn] at h
    cases h
    rfl
  | literal v => cases h
  | binary op left right => cases h
  | computed name => cases h

end Columns

/-! ## Predicates -/

/-- A row passes all wanted equalities. -/
def Database.passes (db : Database) (host : Host) (schema : Schema)
    (wanted : List (Column × Scalar)) (row : Row) : Bool :=
  wanted.all fun w => db.holds host schema (comparison w) row

/-- When a wanted equality holds. -/
lemma holds_comparison_iff {wanted : Column × Scalar} :
    db.holds host schema (comparison wanted) row = true ↔
      ∃ a, schema.value host row wanted.1 = some a ∧ db.eq a wanted.2 = .boolean true := by
  unfold Database.holds comparison
  rw [beq_iff_eq]
  simp only [Database.eval, Option.bind_some]
  rw [Option.bind_eq_some_iff]
  simp

/-- When all wanted equalities hold. -/
lemma passes_iff : db.passes host schema wanted row = true ↔ ∀ w ∈ wanted,
      ∃ a, schema.value host row w.1 = some a ∧ db.eq a w.2 = .boolean true := by
  simp only [Database.passes, all_eq_true, holds_comparison_iff]

lemma and_eq_true {b : Scalar} (h : a.and b = .boolean true) :
    a = .boolean true ∧ b = .boolean true := by
  unfold Scalar.and at h
  split at h
  · cases h
  · split at h
    · assumption
    · cases h

/-- A conjunction that holds has conjuncts that hold. -/
lemma holds_of_mem_splitConjunction (h : db.holds host schema predicate row = true)
    (he : e ∈ splitConjunction predicate) : db.holds host schema e row = true := by
  unfold Database.holds at h ⊢
  rw [beq_iff_eq] at h ⊢
  fun_induction splitConjunction predicate with
  | case1 left right ihl ihr =>
    simp only [Database.eval, Option.bind_eq_some_iff, Option.some.injEq] at h
    obtain ⟨a, ha, b, hb, hand⟩ := h
    obtain ⟨rfl, rfl⟩ := and_eq_true hand
    rcases mem_append.mp he with he | he
    · exact ihl ha he
    · exact ihr hb he
  | case2 expr relation name ih => exact ih h he
  | case3 e' =>
    rw [mem_singleton.mp he]
    exact h

/-- A predicate that holds makes its equalities hold. -/
lemma passes_of_holds (hdb : db.Sound) (h : db.holds host schema predicate row = true) :
    db.passes host schema (wantedEqualities predicate) row = true := by
  rw [Database.passes, all_eq_true]
  intro w hw
  obtain ⟨e, he, hequality⟩ := mem_filterMap.mp hw
  have hholds := holds_of_mem_splitConjunction h he
  unfold equality at hequality
  split at hequality
  · split at hequality
    · cases hequality
    · cases hequality
      exact hholds
  · split at hequality
    · cases hequality
    cases hequality
    unfold Database.holds comparison at *
    rw [beq_iff_eq] at hholds ⊢
    simp only [Database.eval, Option.bind_some, Option.bind_eq_some_iff] at hholds ⊢
    obtain ⟨a, ha, heq⟩ := hholds
    refine ⟨a, ha, ?_⟩
    rw [← heq, Database.eq, Database.eq, hdb.equal_comm, Bool.or_comm]
  · cases hequality

/-! ## Widths -/

/-- Joined rows have the width of the join's schema. -/
lemma joinRows_width {spec : JoinSpec} {left right : Schema} {ls rs : Multiset Row}
    (hl : ∀ l ∈ ls, l.length = left.length) (hr : ∀ r ∈ rs, r.length = right.length) :
    ∀ row ∈ db.joinRows host spec left right ls rs,
      row.length = (joinSchema spec.joinType left right).length := by
  intro row hrow
  unfold Database.joinRows at hrow
  split at hrow
  case h_1 htype =>
    obtain ⟨l, hmem, hrow⟩ := Multiset.mem_bind.mp hrow
    obtain ⟨r, hmatch, rfl⟩ := Multiset.mem_map.mp hrow
    rw [htype, joinSchema, length_append, length_append, hl l hmem,
      hr r (Multiset.mem_of_mem_filter hmatch)]
  case h_2 htype =>
    obtain ⟨l, hmem, hrow⟩ := Multiset.mem_bind.mp hrow
    rw [htype, joinSchema, length_append]
    split at hrow
    · rw [Multiset.mem_singleton.mp hrow, length_append, hl l hmem, length_replicate]
    · obtain ⟨r, hmatch, rfl⟩ := Multiset.mem_map.mp hrow
      rw [length_append, hl l hmem, hr r (Multiset.mem_of_mem_filter hmatch)]
  case h_3 => exact db.otherJoin_width spec left right ls rs row hrow

/-- Rows have the width of their plan's schema. -/
theorem rows_width (db : Database) (host : Host) :
    ∀ (plan : Plan), ∀ row ∈ db.rows host plan, row.length = plan.schema.length
  | .tableScan scan, row, h => by
    obtain ⟨stored, -, rfl⟩ := Multiset.mem_map.mp h
    simp [Plan.schema, TableScan.schema]
  | .filter predicate input, row, h => rows_width db host input row (Multiset.mem_of_mem_filter h)
  | .projection exprs input, row, h => by
    obtain ⟨inner, -, hrow⟩ := (Multiset.mem_filterMap _ _).mp h
    rw [← (mapM_eq_some_iff.mp hrow).length_eq, Plan.schema, length_map]
  | .join spec left right, row, h =>
    joinRows_width (rows_width db host left) (rows_width db host right) row h
  | .other node schema inputs, row, h => db.otherNode_width node schema _ row h

/-! ## Anchored node scans -/

/-- A row that no property row satisfying the anchor joins to by the key. -/
def Unmatched (db : Database) (host : Host) (anchor : GraphReadAnchor) (schema : Schema)
    (key : Column) (row : Row) : Prop :=
  ∀ property ∈ db.propertyRows anchor.route, ∀ wanted, equality anchor.equality = some wanted →
    db.satisfies wanted property →
    db.keysMatch true (schema.value host row key) (some (property "node_uuid")) = false

/-- An anchored plan has the same schema and omits only rows that nothing joins to. -/
def Anchors (db : Database) (host : Host) (anchor : GraphReadAnchor) (key : Column)
    (plan anchored : Plan) : Prop :=
  anchored.schema = plan.schema ∧ ∃ omitted : Multiset Row,
    db.rows host plan = db.rows host anchored + omitted ∧
      ∀ row ∈ omitted, Unmatched db host anchor plan.schema key row

lemma keysMatch_none_left (b : Bool) (k : Option Scalar) : db.keysMatch b none k = false := by
  cases k <;> rfl

/-- An anchored scan keeps the rows whose key can match. -/
lemma anchors_scan (hdb : db.Sound) (h : isAnchorable scan key = true) :
    Anchors db host anchor key (.tableScan scan) (.tableScan (scan.withAnchor anchor)) := by
  unfold isAnchorable at h
  split at h
  · rename_i schema hsource
    rw [beq_iff_eq] at h
    have hcolumns : (scan.withAnchor anchor).columns = scan.columns ∧
        (scan.withAnchor anchor).tableName = scan.tableName := by
      unfold TableScan.withAnchor
      rw [hsource]
      exact ⟨rfl, rfl⟩
    obtain ⟨omitted, hrows, homitted⟩ := hdb.anchored scan schema anchor hsource
    refine ⟨?_, omitted.map fun row => scan.columns.map row, ?_, ?_⟩
    · show TableScan.schema _ = TableScan.schema _
      rw [TableScan.schema, TableScan.schema, hcolumns.1, hcolumns.2]
    · rw [Database.rows, Database.rows, hrows, Multiset.map_add, hcolumns.1]
    · intro row hrow
      obtain ⟨stored, hstored, rfl⟩ := Multiset.mem_map.mp hrow
      intro property hproperty wanted hwanted hsatisfies
      have hno := homitted stored hstored property hproperty wanted hwanted hsatisfies
      cases hvalue : Schema.value host (Plan.tableScan scan).schema (scan.columns.map stored) key with
      | none => exact keysMatch_none_left _ _
      | some a =>
        rw [value_scan hvalue, h]
        exact hno
  · cases h

/-- Anchoring below a filter. -/
lemma anchors_filter {anchored : Plan} (h : Anchors db host anchor key input anchored) :
    Anchors db host anchor key (.filter predicate input) (.filter predicate anchored) := by
  obtain ⟨hschema, omitted, hrows, homitted⟩ := h
  refine ⟨hschema, omitted.filter fun row => db.holds host input.schema predicate row, ?_, ?_⟩
  · rw [Database.rows, Database.rows, hrows, Multiset.filter_add, hschema]
  · intro row hrow
    exact homitted row (Multiset.mem_of_mem_filter hrow)

/-- The value of a projected column is that of the column behind it. -/
lemma value_projection {out : Row} {inner : Column}
    (hout : exprs.mapM (db.eval host schema row) = some out)
    (he : (Schema.indexOf host (exprs.map (·.toField)) column).bind (exprs[·]?) = some e)
    (hinner : projectedColumn e = some inner) :
    Schema.value host (exprs.map (·.toField)) out column = schema.value host row inner := by
  obtain ⟨i, hi, he⟩ := Option.bind_eq_some_iff.mp he
  have hvalues := (mapM_eq_some_iff.mp hout)
  have hlt : i < out.length := by
    rw [← hvalues.length_eq]
    exact (List.getElem?_eq_some_iff.mp he).1
  have hvalue := hvalues.get (List.getElem?_eq_some_iff.mp he).1 hlt
  rw [get_eq_getElem, (List.getElem?_eq_some_iff.mp he).2, projectedColumn_eval hinner] at hvalue
  rw [hvalue, Schema.value, hi]
  exact List.getElem?_eq_getElem hlt

/-- Anchoring below a projection that passes the key on. -/
lemma anchors_projection {inner : Column} {anchored : Plan}
    (he : (Schema.indexOf host (exprs.map (·.toField)) key).bind (exprs[·]?) = some e)
    (hinner : projectedColumn e = some inner) (h : Anchors db host anchor inner input anchored) :
    Anchors db host anchor key (.projection exprs input) (.projection exprs anchored) := by
  obtain ⟨hschema, omitted, hrows, homitted⟩ := h
  refine ⟨rfl, omitted.filterMap fun row => exprs.mapM (db.eval host input.schema row), ?_, ?_⟩
  · rw [Database.rows, Database.rows, hrows, Multiset.filterMap_add, hschema]
  · intro row hrow
    obtain ⟨inside, hinside, hout⟩ := (Multiset.mem_filterMap _ _).mp hrow
    have := homitted inside hinside
    unfold Unmatched at this ⊢
    rwa [Plan.schema, value_projection hout he hinner]

/-- Anchoring the node scan under a plan omits only rows that nothing joins to. -/
theorem anchors_anchorNodeScan (hdb : db.Sound) (anchor : GraphReadAnchor) :
    ∀ (plan : Plan) (key : Column) (anchored : Plan),
      anchorNodeScan host anchor plan key = some anchored → Anchors db host anchor key plan anchored
  | .filter predicate input, key, anchored, h => by
    rw [anchorNodeScan] at h
    split at h
    · cases h
    · obtain ⟨inside, hinside, rfl⟩ := Option.map_eq_some_iff.mp h
      exact anchors_filter (anchors_anchorNodeScan hdb anchor input key inside hinside)
  | .projection exprs input, key, anchored, h => by
    rw [anchorNodeScan] at h
    split at h
    · cases h
    split at h
    · cases h
    rename_i e he
    split at h
    · cases h
    · rename_i inner hinner
      obtain ⟨inside, hinside, rfl⟩ := Option.map_eq_some_iff.mp h
      exact anchors_projection he hinner
        (anchors_anchorNodeScan hdb anchor input inner inside hinside)
  | .tableScan scan, key, anchored, h => by
    rw [anchorNodeScan] at h
    split at h
    · cases h
      exact anchors_scan hdb (by assumption)
    · cases h
  | .join .., _, _, h => by cases h
  | .other .., _, _, h => by cases h

/-! ## Hinted plans -/

/-- Two plans with one schema that agree on the rows passing the wanted equalities. -/
def Agrees (db : Database) (host : Host) (wanted : List (Column × Scalar)) (plan hinted : Plan) :
    Prop :=
  hinted.schema = plan.schema ∧
    (db.rows host hinted).filter (fun row => db.passes host plan.schema wanted row) =
      (db.rows host plan).filter fun row => db.passes host plan.schema wanted row

/-- A plan agrees with itself. -/
lemma Agrees.refl (wanted : List (Column × Scalar)) (plan : Plan) : Agrees db host wanted plan plan :=
  ⟨rfl, rfl⟩

/-- The hints that a scan takes on are among the wanted equalities. -/
lemma foldl_admitHint {tableName : String} {table : GraphReadTable}
    {schema : List (String × StoredType)} (wanted : List (Column × Scalar))
    (state : List Expr × Bool) :
    ∃ added, (wanted.foldl (admitHint tableName table schema) state).1 = state.1 ++ added ∧
      ∀ f ∈ added, ∃ w ∈ wanted, f = comparison w ∧ supportsFilter table schema f = true := by
  induction wanted generalizing state with
  | nil => exact ⟨[], by simp, by simp⟩
  | cons w wanted ih =>
    obtain ⟨added, hadded, hall⟩ := ih (admitHint tableName table schema state w)
    have hrest : ∀ f ∈ added, ∃ w' ∈ w :: wanted, f = comparison w' ∧
        supportsFilter table schema f = true := by
      intro f hf
      obtain ⟨w', hw', h⟩ := hall f hf
      exact ⟨w', mem_cons_of_mem _ hw', h⟩
    rw [foldl_cons, hadded]
    unfold admitHint
    split
    · exact ⟨added, rfl, hrest⟩
    split
    · exact ⟨added, rfl, hrest⟩
    · split
      · exact ⟨added, rfl, hrest⟩
      · rename_i hsupports _
        refine ⟨comparison w :: added, by simp, forall_mem_cons.mpr ⟨?_, hrest⟩⟩
        exact ⟨w, mem_cons_self, rfl, by simpa using hsupports⟩

/-- A supported comparison is the equality it was made of. -/
lemma equality_comparison {wanted : Column × Scalar} {table : GraphReadTable}
    {schema : List (String × StoredType)}
    (h : supportsFilter table schema (comparison wanted) = true) :
    equality (comparison wanted) = some wanted := by
  obtain ⟨column, value⟩ := wanted
  cases value with
  | null => cases table <;> simp [supportsFilter, comparison, isStoredEquality, literalType] at h
  | boolean v => rfl
  | int64 v => rfl
  | utf8 v => rfl
  | other type bytes => rfl

/-- What a hinted scan looks like. -/
lemma hintScan_eq_some (h : hintScan scan wanted strict = some hinted) :
    ∃ table schema anchor added, scan.source = .graphRead table schema anchor ∧
      hinted = .tableScan { scan with filters := scan.filters ++ added } ∧
      ∀ f ∈ added, ∃ w ∈ wanted, f = comparison w ∧ supportsFilter table schema f = true := by
  unfold hintScan at h
  split at h
  · cases h
  rename_i table schema anchor hsource
  obtain ⟨added, hadded, hall⟩ := @foldl_admitHint scan.tableName table schema wanted
    (scan.filters, false)
  simp only at h
  split at h
  · cases h
  · cases h
    exact ⟨table, schema, anchor, added, hsource, by rw [hadded], hall⟩

/-- A hinted scan agrees where the wanted equalities hold. -/
lemma agrees_hintScan (hdb : db.Sound) (h : hintScan scan wanted strict = some hinted) :
    Agrees db host wanted (.tableScan scan) hinted := by
  obtain ⟨table, schema, anchor, added, -, rfl, hadded⟩ := hintScan_eq_some h
  obtain ⟨omitted, hrows, homitted⟩ := hdb.hinted scan added
  refine ⟨rfl, ?_⟩
  rw [Database.rows, Database.rows, hrows, Multiset.map_add, Multiset.filter_add]
  have hnone : (omitted.map fun row => scan.columns.map row).filter
      (fun row => db.passes host (Plan.tableScan scan).schema wanted row) = 0 := by
    rw [Multiset.filter_eq_nil]
    intro row hrow hpasses
    obtain ⟨stored, hstored, rfl⟩ := Multiset.mem_map.mp hrow
    obtain ⟨f, hf, w, hequality, hfails⟩ := homitted stored hstored
    obtain ⟨w', hw', rfl, hsupports⟩ := hadded f hf
    rw [equality_comparison hsupports] at hequality
    cases hequality
    obtain ⟨a, ha, heq⟩ := passes_iff.mp hpasses w hw'
    rw [value_scan ha] at heq
    exact hfails heq
  rw [hnone, add_zero]

/-- Equalities on a projection are equalities on its input. -/
lemma passes_throughProjection {out : Row} (hout : exprs.mapM (db.eval host schema row) = some out)
    (h : db.passes host (exprs.map (·.toField)) wanted out = true) :
    db.passes host schema (throughProjection host exprs wanted) row = true := by
  rw [passes_iff] at h ⊢
  intro w hw
  obtain ⟨⟨column, literal⟩, hmem, hmap⟩ := mem_filterMap.mp hw
  obtain ⟨e, he, hmap⟩ := Option.bind_eq_some_iff.mp hmap
  obtain ⟨inner, hinner, rfl⟩ := Option.map_eq_some_iff.mp hmap
  obtain ⟨a, ha, heq⟩ := h _ hmem
  rw [value_projection hout he hinner] at ha
  exact ⟨a, ha, heq⟩

/-- Agreement below a projection. -/
lemma agrees_projection (h : Agrees db host (throughProjection host exprs wanted) input hinted) :
    Agrees db host wanted (.projection exprs input) (.projection exprs hinted) := by
  obtain ⟨hschema, hrows⟩ := h
  refine ⟨rfl, ?_⟩
  -- only rows that pass the mapped equalities give rows that pass
  have hsees : ∀ row out, exprs.mapM (db.eval host input.schema row) = some out →
      db.passes host (Plan.projection exprs input).schema wanted out = true →
      db.passes host input.schema (throughProjection host exprs wanted) row = true :=
    fun row out => passes_throughProjection
  rw [Database.rows, Database.rows, hschema, Bag.filter_filterMap_of_imp hsees, hrows,
    ← Bag.filter_filterMap_of_imp hsees]

/-! ## Joins -/

section Joins

variable {spec : JoinSpec} {left right : Plan} {wanted : List (Column × Scalar)}

/-- The wanted equalities on the right side are read from the right row. -/
lemma passes_rightWanted {l r : Row} (hl : l.length = left.schema.length)
    (h : db.passes host (left.schema ++ right.schema) wanted (l ++ r) = true) :
    db.passes host right.schema (rightWanted host left.schema right.schema wanted) r = true := by
  rw [passes_iff] at h ⊢
  intro w hw
  obtain ⟨hmem, hside⟩ := mem_filter.mp hw
  simp only [Bool.and_eq_true, Option.isNone_iff_eq_none] at hside
  obtain ⟨a, ha, heq⟩ := h w hmem
  rw [value_append_right hside.2 hl] at ha
  exact ⟨a, ha, heq⟩

/-- A row padded with nulls fails an equality on the right side. -/
lemma not_passes_padded {l : Row} (hl : l.length = left.schema.length)
    (hne : rightWanted host left.schema right.schema wanted ≠ []) :
    ¬db.passes host (left.schema ++ right.schema) wanted
      (l ++ replicate right.schema.length .null) = true := by
  intro h
  have hright := passes_iff.mp (passes_rightWanted hl h)
  obtain ⟨w, hw⟩ := exists_mem_of_ne_nil _ hne
  obtain ⟨a, ha, heq⟩ := hright w hw
  obtain ⟨i, -, hget⟩ := Option.bind_eq_some_iff.mp ha
  have hnull : a = .null := eq_of_mem_replicate (mem_of_getElem? hget)
  rw [hnull, Database.eq] at heq
  simp [Scalar.isNull] at heq

/-- Under equalities on its right side, a left join is the inner join. -/
lemma filter_joinRows (htype : spec.joinType = .left ∨ spec.joinType = .inner)
    (hne : rightWanted host left.schema right.schema wanted ≠ []) :
    (db.rows host (.join spec left right)).filter
        (fun row => db.passes host (left.schema ++ right.schema) wanted row) =
      (Bag.innerJoin (db.joinMatches host spec left.schema right.schema) (· ++ ·)
        (db.rows host left) (db.rows host right)).filter
        fun row => db.passes host (left.schema ++ right.schema) wanted row := by
  rw [Database.rows, Database.joinRows]
  rcases htype with htype | htype
  · rw [htype]
    apply Bag.filter_leftJoin
    intro l hl
    exact not_passes_padded (rows_width db host left l hl) hne
  · rw [htype]

/-- A join whose right side agrees on the right equalities and whose left side omits only rows
that join to nothing passing them. -/
lemma agrees_join {left' right' : Plan} {type : JoinType} {omitted : Multiset Row}
    (hspec : spec.joinType = .left) (htype : type = .left ∨ type = .inner)
    (hne : rightWanted host left.schema right.schema wanted ≠ [])
    (hright : Agrees db host (rightWanted host left.schema right.schema wanted) right right')
    (hschema : left'.schema = left.schema) (hrows : db.rows host left = db.rows host left' + omitted)
    (homitted : ∀ l ∈ omitted, ∀ r ∈ db.rows host right',
      db.joinMatches host spec left.schema right.schema l r = true →
      ¬db.passes host right.schema (rightWanted host left.schema right.schema wanted) r = true) :
    Agrees db host wanted (.join spec left right)
      (.join { spec with joinType := type } left' right') := by
  have hplan : (Plan.join spec left right).schema = left.schema ++ right.schema := by
    rw [Plan.schema, hspec, joinSchema]
  have hne' : rightWanted host left'.schema right'.schema wanted ≠ [] := by
    rwa [hschema, hright.1]
  have hwidth : ∀ l ∈ db.rows host left, ∀ r,
      db.passes host (left.schema ++ right.schema) wanted (l ++ r) = true →
      db.passes host right.schema (rightWanted host left.schema right.schema wanted) r = true :=
    fun l hl r => passes_rightWanted (rows_width db host left l hl)
  refine ⟨?_, ?_⟩
  · rw [hplan, Plan.schema, hschema, hright.1]
    rcases htype with htype | htype <;> rw [htype] <;> rfl
  · have hnew := @filter_joinRows db host { spec with joinType := type } left' right' wanted htype hne'
    rw [hschema, hright.1] at hnew
    rw [hplan, hnew, filter_joinRows (.inl hspec) hne,
      Bag.filter_innerJoin_congr hwidth hright.2.symm, hrows]
    symm
    apply Bag.filter_innerJoin_add
    intro l hl r hr hmatch hpasses
    refine homitted l hl r hr hmatch (passes_rightWanted ?_ hpasses)
    exact rows_width db host left l (hrows ▸ Multiset.mem_add.mpr (.inr hl))

/-! ### Anchors -/

lemma keysMatch_true_of_keysMatch {n : Bool} {a b : Option Scalar}
    (h : db.keysMatch n a b = true) : db.keysMatch true a b = true := by
  cases a with
  | none => cases b <;> cases h
  | some a =>
    cases b with
    | none => cases h
    | some b =>
      rw [Database.keysMatch] at h ⊢
      by_cases hnull : (a.isNull || b.isNull) = true
      · rw [if_pos hnull] at h ⊢
        simp only [Bool.and_eq_true] at h
        simp [h.1.2, h.2]
      · rwa [if_neg hnull] at h ⊢

/-- What an anchor is made of. -/
lemma anchorOf_eq_some (h : anchorOf (.tableScan scan) = some anchor) :
    ∃ schema previous, scan.source = .graphRead (.properties anchor.route) schema previous ∧
      scan.filters.find? (supportsFilter (.properties anchor.route) schema) =
        some anchor.equality := by
  rw [anchorOf] at h
  split at h
  · rename_i route schema previous hsource
    obtain ⟨f, hf, rfl⟩ := Option.map_eq_some_iff.mp h
    exact ⟨schema, previous, hsource, hf⟩
  · cases h

/-- What the guard of an anchored join establishes. -/
lemma anchoredLeft_eq_some {left' right' : Plan}
    (h : anchoredLeft host spec left right' = some left') :
    ∃ leftKey properties anchor, right' = .tableScan properties ∧
      spec.on = [(.column leftKey, .column ⟨some properties.tableName, "node_uuid"⟩)] ∧
      anchorOf right' = some anchor ∧ anchorNodeScan host anchor left leftKey = some left' := by
  unfold anchoredLeft at h
  split at h
  · rename_i leftKey rightKey properties hon
    split at h
    · cases h
    rename_i hguard
    simp only [Bool.or_eq_true, not_or, bne_iff_ne, ne_eq, not_not] at hguard
    obtain ⟨⟨-, hname⟩, hrelation⟩ := hguard
    obtain ⟨anchor, hanchor, hscan⟩ := Option.bind_eq_some_iff.mp h
    refine ⟨leftKey, properties, anchor, rfl, ?_, hanchor, hscan⟩
    rw [hon, ← hname, ← hrelation]
  · cases h

/-- The left rows that an anchor omits join to no right row that passes the equalities. -/
lemma anchoredLeft_omits (hdb : db.Sound) {left' right' : Plan}
    (hanchored : anchoredLeft host spec left right' = some left')
    (hcovered : ∀ anchor, anchorOf right' = some anchor →
      ∃ w ∈ wanted, equality anchor.equality = some w) :
    left'.schema = left.schema ∧ ∃ omitted : Multiset Row,
      db.rows host left = db.rows host left' + omitted ∧
      ∀ l ∈ omitted, ∀ r ∈ db.rows host right',
        db.joinMatches host spec left.schema right'.schema l r = true →
        ¬db.passes host right'.schema wanted r = true := by
  obtain ⟨leftKey, properties, anchor, rfl, hon, hanchor, hscan⟩ := anchoredLeft_eq_some hanchored
  obtain ⟨hschema, omitted, hrows, homitted⟩ := anchors_anchorNodeScan hdb anchor _ _ _ hscan
  obtain ⟨w, hw, hequality⟩ := hcovered anchor hanchor
  obtain ⟨schema, previous, hsource, -⟩ := anchorOf_eq_some hanchor
  refine ⟨hschema, omitted, hrows, ?_⟩
  intro l hl r hr hmatch hpasses
  obtain ⟨stored, hstored, rfl⟩ := Multiset.mem_map.mp hr
  -- the right row is a property row that satisfies the anchor
  have hsatisfies : db.satisfies w stored := by
    obtain ⟨a, ha, heq⟩ := passes_iff.mp hpasses w hw
    rwa [value_scan ha] at heq
  have hno := homitted l hl stored (hdb.properties _ _ _ _ hsource stored hstored) w hequality
    hsatisfies
  -- and the join key makes it a property row of the omitted node
  simp only [Database.joinMatches, hon, all_cons, all_nil, Bool.and_true,
    Bool.and_eq_true, Database.eval] at hmatch
  have hkeys := keysMatch_true_of_keysMatch hmatch.1
  cases hvalue : Schema.value host (Plan.tableScan properties).schema
      (properties.columns.map stored) ⟨some properties.tableName, "node_uuid"⟩ with
  | none =>
    rw [hvalue] at hkeys
    cases hk : Schema.value host left.schema l leftKey <;> rw [hk] at hkeys <;> cases hkeys
  | some b =>
    rw [hvalue, value_scan hvalue] at hkeys
    rw [hkeys] at hno
    cases hno

end Joins

/-! ## Hints the plan already has -/

/-- The first filter that a property scan supports, if there is one, is one of the wanted
equalities. -/
def anchorCovered (wanted : List (Column × Scalar)) : Plan → Bool
  | .tableScan scan =>
    match scan.source with
    | .graphRead (.properties route) schema _ =>
      (scan.filters.find? (supportsFilter (.properties route) schema)).all fun f =>
        (equality f).any (wanted.contains ·)
    | _ => true
  | _ => true

/-- At the property scans that a filter's equalities reach through a join, the hint they already
have is one of these equalities. -/
def hintsCovered (host : Host) : Plan → List (Column × Scalar) → Bool
  | .projection exprs input, wanted => hintsCovered host input (throughProjection host exprs wanted)
  | .join spec left right, wanted =>
    spec.joinType != .left || (rightWanted host left.schema right.schema wanted).isEmpty ||
      (anchorCovered (rightWanted host left.schema right.schema wanted) right &&
        hintsCovered host right (rightWanted host left.schema right.schema wanted))
  | _, _ => true

namespace Plan

mutual

/-- Under every filter of the plan, the scans' hints are covered by the filter. -/
def hintsCoveredByFilters (host : Host) : Plan → Bool
  | .tableScan _ => true
  | .filter predicate input =>
    hintsCovered host input (wantedEqualities predicate) && input.hintsCoveredByFilters host
  | .projection _ input => input.hintsCoveredByFilters host
  | .join _ left right => left.hintsCoveredByFilters host && right.hintsCoveredByFilters host
  | .other _ _ inputs => hintsCoveredByFiltersList host inputs

/-- Every plan of a list is covered. -/
def hintsCoveredByFiltersList (host : Host) : List Plan → Bool
  | [] => true
  | plan :: plans => plan.hintsCoveredByFilters host && hintsCoveredByFiltersList host plans

end

end Plan

/-- The anchor of a hinted property scan is one of the wanted equalities. -/
lemma exists_wanted_of_anchorOf {right : Plan} (hcovered : anchorCovered wanted right = true)
    (hscan : (hint host right wanted strict).getD right = .tableScan scan)
    (hanchor : anchorOf (.tableScan scan) = some anchor) :
    ∃ w ∈ wanted, equality anchor.equality = some w := by
  obtain ⟨schema, previous, hsource, hfind⟩ := anchorOf_eq_some hanchor
  -- a scan comes only from a scan, whose filters the hints extend
  have hright : ∃ before added, right = .tableScan before ∧ before.source = scan.source ∧
      scan.filters = before.filters ++ added ∧ ∀ f ∈ added, ∃ w ∈ wanted, f = comparison w ∧
        supportsFilter (.properties anchor.route) schema f = true := by
    cases right with
    | tableScan before =>
      rw [hint] at hscan
      cases hhint : hintScan before wanted strict with
      | none =>
        rw [hhint] at hscan
        cases hscan
        exact ⟨scan, [], rfl, rfl, (append_nil _).symm, nofun⟩
      | some hinted =>
        obtain ⟨table, schema', anchor', added, hbefore, rfl, hadded⟩ := hintScan_eq_some hhint
        rw [hhint] at hscan
        cases hscan
        rw [hbefore] at hsource
        cases hsource
        exact ⟨before, added, rfl, rfl, rfl, hadded⟩
    | projection exprs input =>
      rw [hint] at hscan
      simp only at hscan
      split at hscan
      · cases hscan
      · cases hhint : hint host input (throughProjection host exprs wanted)
          (strict && exprs.all fun e => (projectedColumn e).isSome) <;> rw [hhint] at hscan <;>
          cases hscan
    | join spec left right =>
      rw [hint] at hscan
      simp only at hscan
      split at hscan
      · cases hscan
      · split at hscan
        · cases hscan
        · split at hscan <;> cases hscan
    | filter predicate input => cases hscan
    | other node schema inputs => cases hscan
  obtain ⟨before, added, rfl, hbefore, hfilters, hadded⟩ := hright
  rw [hfilters, find?_append] at hfind
  cases hold : before.filters.find? (supportsFilter (.properties anchor.route) schema) with
  | some f =>
    rw [hold] at hfind
    cases hfind
    rw [anchorCovered, hbefore, hsource] at hcovered
    simp only [hold, Option.all_some, Option.any_eq_true, contains_iff_mem] at hcovered
    obtain ⟨w, hw, hmem⟩ := hcovered
    exact ⟨w, hmem, hw⟩
  | none =>
    rw [hold, Option.none_or] at hfind
    obtain ⟨w, hw, hcomparison, hsupports⟩ := hadded _ (mem_of_find?_eq_some hfind)
    rw [hcomparison] at hsupports ⊢
    exact ⟨w, hw, equality_comparison hsupports⟩

/-- Offering equalities to the scans under a plan changes only rows that fail them. -/
theorem agrees_hint (hdb : db.Sound) :
    ∀ (plan : Plan) (wanted : List (Column × Scalar)) (strict : Bool) (hinted : Plan),
      hintsCovered host plan wanted = true → hint host plan wanted strict = some hinted →
      Agrees db host wanted plan hinted
  | .projection exprs input, wanted, strict, hinted, hcovered, h => by
    rw [hint] at h
    split at h
    · cases h
    · obtain ⟨inside, hinside, rfl⟩ := Option.map_eq_some_iff.mp h
      rw [hintsCovered] at hcovered
      exact agrees_projection (agrees_hint hdb input _ _ inside hcovered hinside)
  | .join spec left right, wanted, strict, hinted, hcovered, h => by
    rw [hint] at h
    simp only at h
    split at h
    · cases h
    split at h
    · cases h
    split at h
    · cases h
    rename_i hspec hne hsome
    simp only [ne_eq, not_not] at hspec
    simp only [hintsCovered, hspec, bne_self_eq_false, hne, Bool.false_or, Bool.and_eq_true]
      at hcovered
    cases h
    set promote := strict && right.isTableScan
    set right' := (hint host right (rightWanted host left.schema right.schema wanted)
      promote).getD right
    have hright : Agrees db host (rightWanted host left.schema right.schema wanted) right
        right' := Option.getD_of (Agrees.refl _ _) fun inside hhint =>
      agrees_hint hdb right _ _ inside hcovered.2 hhint
    have htype : (if promote = true then JoinType.inner else .left) = .left ∨
        (if promote = true then JoinType.inner else .left) = .inner := by
      split
      · exact .inr rfl
      · exact .inl rfl
    have hwanted : rightWanted host left.schema right.schema wanted ≠ [] := by
      simpa using hne
    cases hanchored : anchoredLeft host spec left right' with
    | none =>
      exact agrees_join hspec htype hwanted hright rfl (add_zero _).symm (by simp)
    | some left' =>
      obtain ⟨hschema, omitted, hrows, homitted⟩ := anchoredLeft_omits hdb hanchored
        (fun anchor hanchor => by
          obtain ⟨_, properties, _, hscan, -⟩ := anchoredLeft_eq_some hanchored
          exact exists_wanted_of_anchorOf hcovered.1 hscan (hscan ▸ hanchor))
      rw [hright.1] at homitted
      exact agrees_join hspec htype hwanted hright hschema hrows homitted
  | .tableScan scan, wanted, strict, hinted, _, h => agrees_hintScan hdb h
  | .filter .., _, _, _, _, h => by cases h
  | .other .., _, _, _, _, h => by cases h

/-! ## What a hint leaves as it was -/

/-- Two plans of one size, both or neither with hints covered by their filters. -/
def SameFilters (host : Host) (plan changed : Plan) : Prop :=
  changed.size = plan.size ∧
    (plan.hintsCoveredByFilters host = true → changed.hintsCoveredByFilters host = true)

/-- Anchoring changes no filter. -/
lemma sameFilters_anchorNodeScan : ∀ (plan : Plan) (key : Column) (anchored : Plan),
      anchorNodeScan host anchor plan key = some anchored → SameFilters host plan anchored ∧
        ∀ wanted, hintsCovered host plan wanted = true → hintsCovered host anchored wanted = true
  | .filter predicate input, key, anchored, h => by
    rw [anchorNodeScan] at h
    split at h
    · cases h
    · obtain ⟨inside, hinside, rfl⟩ := Option.map_eq_some_iff.mp h
      obtain ⟨⟨hsize, hfilters⟩, hhints⟩ := sameFilters_anchorNodeScan input key inside hinside
      refine ⟨⟨by rw [Plan.size, Plan.size, hsize], ?_⟩, fun _ => id⟩
      rw [Plan.hintsCoveredByFilters, Plan.hintsCoveredByFilters, Bool.and_eq_true, Bool.and_eq_true]
      exact fun hcovered => ⟨hhints _ hcovered.1, hfilters hcovered.2⟩
  | .projection exprs input, key, anchored, h => by
    rw [anchorNodeScan] at h
    split at h
    · cases h
    split at h
    · cases h
    · split at h
      · cases h
      · obtain ⟨inside, hinside, rfl⟩ := Option.map_eq_some_iff.mp h
        obtain ⟨⟨hsize, hfilters⟩, hhints⟩ := sameFilters_anchorNodeScan input _ inside hinside
        exact ⟨⟨by rw [Plan.size, Plan.size, hsize], hfilters⟩, fun _ => hhints _⟩
  | .tableScan scan, key, anchored, h => by
    rw [anchorNodeScan] at h
    split at h
    · cases h
      exact ⟨⟨rfl, id⟩, fun _ => id⟩
    · cases h
  | .join .., _, _, h => by cases h
  | .other .., _, _, h => by cases h

/-- Hinting changes no filter of the plan. -/
theorem sameFilters_hint :
    ∀ (plan : Plan) (wanted : List (Column × Scalar)) (strict : Bool) (hinted : Plan),
      hint host plan wanted strict = some hinted → SameFilters host plan hinted
  | .projection exprs input, wanted, strict, hinted, h => by
    rw [hint] at h
    split at h
    · cases h
    · obtain ⟨inside, hinside, rfl⟩ := Option.map_eq_some_iff.mp h
      obtain ⟨hsize, hfilters⟩ := sameFilters_hint input _ _ inside hinside
      exact ⟨by rw [Plan.size, Plan.size, hsize], hfilters⟩
  | .join spec left right, wanted, strict, hinted, h => by
    rw [hint] at h
    simp only at h
    split at h
    · cases h
    split at h
    · cases h
    split at h
    · cases h
    cases h
    set right' := (hint host right (rightWanted host left.schema right.schema wanted)
      (strict && right.isTableScan)).getD right
    have hright : SameFilters host right right' := Option.getD_of ⟨rfl, id⟩
      fun inside hhint => sameFilters_hint right _ _ inside hhint
    have hleft : SameFilters host left ((anchoredLeft host spec left right').getD left) := by
      apply Option.getD_of ⟨rfl, id⟩
      intro left' hanchored
      obtain ⟨_, _, _, -, -, -, hscan⟩ := anchoredLeft_eq_some hanchored
      exact (sameFilters_anchorNodeScan left _ left' hscan).1
    refine ⟨by rw [Plan.size, Plan.size, hleft.1, hright.1], ?_⟩
    rw [Plan.hintsCoveredByFilters, Plan.hintsCoveredByFilters, Bool.and_eq_true, Bool.and_eq_true]
    exact fun hcovered => ⟨hleft.2 hcovered.1, hright.2 hcovered.2⟩
  | .tableScan scan, wanted, strict, hinted, h => by
    obtain ⟨_, _, _, _, -, rfl, -⟩ := hintScan_eq_some h
    exact ⟨rfl, id⟩
  | .filter .., _, _, _, h => by cases h
  | .other .., _, _, _, h => by cases h

/-! ## The rule on one node and on a whole plan -/

/-- Two plans with one schema and the same rows. -/
def Equivalent (db : Database) (host : Host) (plan changed : Plan) : Prop :=
  changed.schema = plan.schema ∧ db.rows host changed = db.rows host plan

/-- A filter is rewritten to one with the same predicate. -/
lemma rewrite_filter (predicate : Expr) (input : Plan) :
    ∃ input', rewrite host (.filter predicate input) = .filter predicate input' ∧
      SameFilters host input input' := by
  rw [rewrite]
  split
  · exact ⟨input, rfl, rfl, id⟩
  · cases hhint : hint host input (wantedEqualities predicate) (equality predicate).isSome with
    | none => exact ⟨input, rfl, rfl, id⟩
    | some hinted => exact ⟨hinted, rfl, sameFilters_hint input _ _ hinted hhint⟩

/-- The rule at one node: the filter sees only rows that pass its equalities. -/
theorem equivalent_rewrite (hdb : db.Sound) (hcovered : plan.hintsCoveredByFilters host = true) :
    Equivalent db host plan (rewrite host plan) := by
  cases plan with
  | filter predicate input =>
    rw [Plan.hintsCoveredByFilters, Bool.and_eq_true] at hcovered
    rw [rewrite]
    split
    · exact ⟨rfl, rfl⟩
    cases hhint : hint host input (wantedEqualities predicate) (equality predicate).isSome with
    | none => exact ⟨rfl, rfl⟩
    | some hinted =>
      obtain ⟨hschema, hrows⟩ := agrees_hint hdb input _ _ hinted hcovered.1 hhint
      refine ⟨hschema, ?_⟩
      show (db.rows host (.filter predicate hinted)) = _
      rw [Database.rows, Database.rows, hschema]
      -- a kept row passes the equalities, on which both inputs agree
      have hsees : ∀ rows : Multiset Row,
          rows.filter (fun row => db.holds host input.schema predicate row = true) =
            (rows.filter fun row =>
              db.passes host input.schema (wantedEqualities predicate) row = true).filter
              fun row => db.holds host input.schema predicate row = true := by
        intro rows
        rw [Multiset.filter_filter]
        apply Multiset.filter_congr
        intro row _
        exact ⟨fun h => ⟨h, passes_of_holds hdb h⟩, fun h => h.1⟩
      rw [hsees, hrows, ← hsees]
  | tableScan scan => exact ⟨rfl, rfl⟩
  | projection exprs input => exact ⟨rfl, rfl⟩
  | join spec left right => exact ⟨rfl, rfl⟩
  | other node schema inputs => exact ⟨rfl, rfl⟩

lemma size_le_sizeList {plans : List Plan} (h : plan ∈ plans) :
    plan.size ≤ Plan.sizeList plans := by
  induction plans with
  | nil => cases h
  | cons first plans ih =>
    rw [Plan.sizeList]
    rcases mem_cons.mp h with rfl | h
    · omega
    · have := ih h
      omega

/-- Rewriting keeps the size of a plan. -/
lemma size_rewrite (plan : Plan) : (rewrite host plan).size = plan.size := by
  cases plan with
  | filter predicate input =>
    obtain ⟨input', hrewrite, hsize, -⟩ := @rewrite_filter host predicate input
    rw [hrewrite, Plan.size, Plan.size, hsize]
  | tableScan scan => rfl
  | projection exprs input => rfl
  | join spec left right => rfl
  | other node schema inputs => rfl

/-- The inputs of a node. -/
def Plan.inputs : Plan → List Plan
  | .tableScan _ => []
  | .filter _ input => [input]
  | .projection _ input => [input]
  | .join _ left right => [left, right]
  | .other _ _ inputs => inputs

lemma size_lt_of_mem_inputs (h : input ∈ plan.inputs) : input.size < plan.size := by
  cases plan with
  | tableScan scan => cases h
  | filter predicate inside =>
    rw [mem_singleton.mp h, Plan.size]
    omega
  | projection exprs inside =>
    rw [mem_singleton.mp h, Plan.size]
    omega
  | join spec left right =>
    rw [Plan.size]
    rcases mem_cons.mp h with rfl | h
    · omega
    · rw [mem_singleton.mp h]
      omega
  | other node schema inputs =>
    have : input.size ≤ Plan.sizeList inputs := size_le_sizeList h
    rw [Plan.size]
    omega

/-- Mapping inputs depends on the inputs alone. -/
lemma mapInputs_congr {f g : Plan → Plan} (h : ∀ input ∈ plan.inputs, f input = g input) :
    plan.mapInputs f = plan.mapInputs g := by
  cases plan with
  | tableScan scan => rfl
  | filter predicate input => rw [Plan.mapInputs, Plan.mapInputs, h input mem_cons_self]
  | projection exprs input => rw [Plan.mapInputs, Plan.mapInputs, h input mem_cons_self]
  | join spec left right =>
    rw [Plan.mapInputs, Plan.mapInputs, h left mem_cons_self,
      h right (mem_cons_of_mem _ mem_cons_self)]
  | other node schema inputs =>
    have hinputs : ∀ input ∈ inputs, f input = g input := h
    rw [Plan.mapInputs, Plan.mapInputs, map_congr_left hinputs]

/-- The equation of the pass: rewrite, then go into the inputs. -/
theorem storedEqualityHints_eq (plan : Plan) :
    storedEqualityHints host plan = (rewrite host plan).mapInputs (storedEqualityHints host) := by
  apply MeasuredFix.fix_eq Plan.size
  intro f g plan hfg
  apply mapInputs_congr
  intro input hinput
  have hsize := size_lt_of_mem_inputs hinput
  rw [size_rewrite] at hsize
  exact hfg input hsize

lemma covered_of_mem_list {plans : List Plan} (h : Plan.hintsCoveredByFiltersList host plans = true) :
    ∀ plan ∈ plans, plan.hintsCoveredByFilters host = true := by
  induction plans with
  | nil => exact nofun
  | cons first plans ih =>
    rw [Plan.hintsCoveredByFiltersList, Bool.and_eq_true] at h
    rw [forall_mem_cons]
    exact ⟨h.1, ih h.2⟩

/-- The inputs of a rewritten node are covered if the node was. -/
lemma covered_inputs_rewrite (h : plan.hintsCoveredByFilters host = true) :
    ∀ input ∈ (rewrite host plan).inputs, input.hintsCoveredByFilters host = true := by
  cases plan with
  | tableScan scan => exact nofun
  | filter predicate input =>
    rw [Plan.hintsCoveredByFilters, Bool.and_eq_true] at h
    obtain ⟨input', hrewrite, -, hfilters⟩ := @rewrite_filter host predicate input
    rw [hrewrite]
    intro inside hinside
    rw [mem_singleton.mp hinside]
    exact hfilters h.2
  | projection exprs input =>
    intro inside hinside
    rw [mem_singleton.mp hinside]
    exact h
  | join spec left right =>
    rw [Plan.hintsCoveredByFilters, Bool.and_eq_true] at h
    show ∀ input ∈ [left, right], input.hintsCoveredByFilters host = true
    simp [h.1, h.2]
  | other node schema inputs => exact covered_of_mem_list h

lemma rowsList_eq_map (plans : List Plan) : db.rowsList host plans = plans.map (db.rows host) := by
  induction plans with
  | nil => rfl
  | cons plan plans ih => rw [Database.rowsList, ih, map_cons]

/-- A node over equivalent inputs is equivalent. -/
lemma equivalent_mapInputs {f : Plan → Plan}
    (h : ∀ input ∈ plan.inputs, Equivalent db host input (f input)) :
    Equivalent db host plan (plan.mapInputs f) := by
  cases plan with
  | tableScan scan => exact ⟨rfl, rfl⟩
  | filter predicate input =>
    obtain ⟨hschema, hrows⟩ := h input mem_cons_self
    refine ⟨hschema, ?_⟩
    rw [Plan.mapInputs, Database.rows, Database.rows, hschema, hrows]
  | projection exprs input =>
    obtain ⟨hschema, hrows⟩ := h input mem_cons_self
    refine ⟨rfl, ?_⟩
    rw [Plan.mapInputs, Database.rows, Database.rows, hschema, hrows]
  | join spec left right =>
    obtain ⟨hleft, hleftRows⟩ := h left mem_cons_self
    obtain ⟨hright, hrightRows⟩ := h right (mem_cons_of_mem _ mem_cons_self)
    constructor
    · rw [Plan.mapInputs, Plan.schema, Plan.schema, hleft, hright]
    · rw [Plan.mapInputs, Database.rows, Database.rows, hleft, hleftRows, hright, hrightRows]
  | other node schema inputs =>
    refine ⟨rfl, ?_⟩
    rw [Plan.mapInputs, Database.rows, Database.rows, rowsList_eq_map, rowsList_eq_map, map_map,
      map_congr_left]
    intro input hinput
    exact (h input hinput).2

/-- The pass keeps the rows of every plan that its filters cover. -/
theorem equivalent_storedEqualityHints (hdb : db.Sound) (plan : Plan)
    (hcovered : plan.hintsCoveredByFilters host = true) :
    Equivalent db host plan (storedEqualityHints host plan) := by
  induction hn : plan.size using Nat.strong_induction_on generalizing plan with
  | _ n ih =>
    obtain ⟨hschema, hrows⟩ := equivalent_rewrite hdb hcovered
    have hinputs : Equivalent db host (rewrite host plan)
        ((rewrite host plan).mapInputs (storedEqualityHints host)) := by
      apply equivalent_mapInputs
      intro input hinput
      have hsize := size_lt_of_mem_inputs hinput
      rw [size_rewrite, hn] at hsize
      exact ih _ hsize input (covered_inputs_rewrite hcovered input hinput) rfl
    rw [storedEqualityHints_eq]
    exact ⟨hinputs.1.trans hschema, hinputs.2.trans hrows⟩

/-- The rewritten plan gives the rows of the original: scan hints, promoted joins and anchors
together, at every filter of the plan. -/
theorem storedEqualityHints_keeps_rows (db : Database) (host : Host) (hdb : db.Sound) (plan : Plan)
    (hcovered : plan.hintsCoveredByFilters host = true) :
    db.rows host (storedEqualityHints host plan) = db.rows host plan :=
  (equivalent_storedEqualityHints hdb plan hcovered).2

/-! ## A hint that the filter does not have -/

/-- Whether a stored row satisfies an anchor's equality. -/
def selectsRow (anchor : GraphReadAnchor) (row : TableRow) : Bool :=
  (equality anchor.equality).any fun (column, value) => !value.isNull && row column.name == value

/-- Nodes and one route of properties. The property scan ignores its hints, and an anchored node
scan returns the nodes that have a property row satisfying the anchor. -/
def indexedDatabase (nodes properties : List TableRow) : Database where
  scanRows scan :=
    match scan.source with
    | .graphRead .nodes _ none => nodes
    | .graphRead .nodes _ (some anchor) => nodes.filter fun node =>
        properties.any fun row => selectsRow anchor row && node "node_uuid" == row "node_uuid"
    | .graphRead (.properties _) _ _ => properties
    | _ => 0
  propertyRows _ := properties
  equal a b := a == b
  binary _ _ _ := .null
  computed _ _ _ := none
  otherJoin _ _ _ _ _ := 0
  otherNode _ _ _ := 0
  otherJoin_width _ _ _ _ _ := nofun
  otherNode_width _ _ _ := nofun

/-- Rows that satisfy the equality of an anchor are selected. -/
lemma selectsRow_of_satisfies {nodes properties : List TableRow} {anchor : GraphReadAnchor}
    {wanted : Column × Scalar} {row : TableRow} (h : equality anchor.equality = some wanted)
    (hrow : (indexedDatabase nodes properties).satisfies wanted row) :
    selectsRow anchor row = true := by
  rw [Database.satisfies, Database.eq] at hrow
  split at hrow
  · cases hrow
  · rename_i hnull
    simp only [Bool.or_eq_true, not_or, Bool.not_eq_true] at hnull
    have hequal : (row wanted.1.name == wanted.2) = true := Scalar.boolean.inj hrow
    rw [selectsRow, h]
    simp [hnull.2, hequal]

lemma keysMatch_indexedDatabase {nodes properties : List TableRow} {a b : Scalar}
    (h : (indexedDatabase nodes properties).keysMatch true (some a) (some b) = true) : a = b := by
  rw [Database.keysMatch] at h
  split at h
  · simp only [Bool.true_and, Bool.and_eq_true, Scalar.isNull, beq_iff_eq] at h
    rw [h.1, h.2]
  · exact beq_iff_eq.mp h

/-- The sample database satisfies the assumptions. -/
theorem indexedDatabase_sound (nodes properties : List TableRow) :
    (indexedDatabase nodes properties).Sound where
  equal_comm a b := by
    show (a == b) = (b == a)
    rw [Bool.beq_comm]
  hinted scan added := ⟨0, (add_zero _).symm, nofun⟩
  properties scan route schema anchor hsource row hrow := by
    show row ∈ (properties : Multiset TableRow)
    simp only [indexedDatabase, hsource] at hrow
    exact hrow
  anchored scan schema anchor hsource := by
    set keeps : TableRow → Bool := fun node =>
      properties.any fun row => selectsRow anchor row && node "node_uuid" == row "node_uuid" with hkeeps
    refine ⟨(nodes.filter fun node => !keeps node : List TableRow), ?_, ?_⟩
    · have hanchored : (scan.withAnchor anchor).source = .graphRead .nodes schema (some anchor) := by
        rw [TableScan.withAnchor, hsource]
      simp only [indexedDatabase, hsource, hanchored]
      rw [Multiset.coe_add, Multiset.coe_eq_coe]
      exact (filter_append_perm keeps nodes).symm
    · intro row hrow property hproperty wanted hequality hsatisfies
      have hnot : keeps row = false := by simpa using (mem_filter.mp hrow).2
      by_contra hmatch
      have huuid := keysMatch_indexedDatabase (Bool.not_eq_false _ ▸ hmatch)
      have hkept : keeps row = true := by
        rw [hkeeps, any_eq_true]
        exact ⟨property, hproperty, by simp [selectsRow_of_satisfies hequality hsatisfies, huuid]⟩
      rw [hkept] at hnot
      cases hnot

/-- Names are read as they stand and every predicate counts as total. -/
def plainHost : Host := ⟨fun name => ⟨none, name⟩, fun _ _ => true⟩

/-- `Filter(p.name = "ada")` over `nodes ⟕ properties`, where the property scan has some hints. -/
def namedAda (hints : List Expr) : Plan :=
  .filter (comparison (⟨some "p", "name"⟩, .utf8 "ada"))
    (.join ⟨.left, [(.column ⟨some "n", "node_uuid"⟩, .column ⟨some "p", "node_uuid"⟩)], none,
        false, false⟩
      (.tableScan ⟨"n", .graphRead .nodes [("node_uuid", .other)] none, ["node_uuid"], [], none⟩)
      (.tableScan ⟨"p", .graphRead (.properties "Entity")
          [("node_uuid", .other), ("ident", .int64), ("name", .utf8)] none,
        ["node_uuid", "ident", "name"], hints, none⟩))

/-- A node called ada whose `ident` is 8. -/
def adaDatabase : Database :=
  indexedDatabase [fun _ => .other "FixedSizeBinary(16)" [1]]
    [fun name =>
      if name = "node_uuid" then .other "FixedSizeBinary(16)" [1]
      else if name = "ident" then .int64 8
      else .utf8 "ada"]

/-- Without hints in the plan, the node is found before and after. -/
theorem storedEqualityHints_keeps_rows_sample :
    (namedAda []).hintsCoveredByFilters plainHost = true ∧
      adaDatabase.rows plainHost (storedEqualityHints plainHost (namedAda [])) =
        adaDatabase.rows plainHost (namedAda []) :=
  ⟨by decide +kernel, storedEqualityHints_keeps_rows adaDatabase plainHost
    (indexedDatabase_sound _ _) (namedAda []) (by decide +kernel)⟩

/-- A property scan that already has the hint `ident = 7` anchors the nodes by it, and the node
that only the filter's own equality selects is lost. -/
theorem storedEqualityHints_loses_row : adaDatabase.Sound ∧
      (adaDatabase.rows plainHost (namedAda [comparison (⟨some "p", "ident"⟩, .int64 7)])).card = 1 ∧
      (adaDatabase.rows plainHost (storedEqualityHints plainHost
        (namedAda [comparison (⟨some "p", "ident"⟩, .int64 7)]))).card = 0 :=
  ⟨indexedDatabase_sound _ _, by decide +kernel, by decide +kernel⟩

end GraphForge.Relational
