import GraphForge.Values.Order

/-!
# Where the Cypher order is an order

`cypherOrder` is reflexive and reverses under a swap for all values. It is transitive on the values
without an *indefinite* part: a NaN, a typed null of text or truth value, 64-bit-offset text and
lists. Each of these ties with every value of its rank, so adding any one indefinite value to the
others breaks transitivity. On definite values `min` and `max` do not depend on the order of the
rows or on how they are split into batches.
-/

namespace GraphForge.Values

open List Comparison

/-! ## Definite values -/

/-- Whether an unwrapped value is definite, given the answer for its parts. -/
def isDefinitePlain (definite : ScalarValue → Bool) (v : ScalarValue) : Bool :=
  match v with
  | .list .small _ _ _ elements => elements.all definite
  | .list .large _ _ _ _ => false
  | .utf8 text => text.isSome
  | .largeUtf8 _ => false
  | .boolean b => b.isSome
  | .struct fields _ => fields.all fun field => definite field.2
  | v => (scalarAsF64 v).all fun f => !f.isNaN

/-- No part of the value is a NaN, a typed null of text or truth value, or of a 64-bit-offset
type. -/
def isDefinite (v : ScalarValue) : Bool :=
  MeasuredFix.fix ScalarValue.size (fun definite v => isDefinitePlain definite (unwrapHet v)) v

lemma isDefinitePlain_congr {definite definite' : ScalarValue → Bool} {v : ScalarValue}
    (h : ∀ x, x.size < v.size → definite x = definite' x) :
    isDefinitePlain definite v = isDefinitePlain definite' v := by
  unfold isDefinitePlain
  split
  · apply all_congr_of_mem
    intro x hx
    exact h x (ScalarValue.size_lt_of_mem_list hx)
  · rfl
  · rfl
  · rfl
  · rfl
  · apply all_congr_of_mem
    intro field hfield
    exact h field.2 (ScalarValue.size_lt_of_mem_struct hfield)
  · rfl

/-- The equation of definiteness. -/
lemma isDefinite_eq (v : ScalarValue) :
    isDefinite v = isDefinitePlain isDefinite (unwrapHet v) := by
  apply MeasuredFix.fix_eq ScalarValue.size
  intro f g v hfg
  apply isDefinitePlain_congr
  intro x hx
  have := size_unwrapHet v
  exact hfg x (by omega)

variable {a b c v : ScalarValue} {order : ScalarValue → ScalarValue → Ordering}
  {definite : ScalarValue → Bool}

/-! ## Ranks -/

/-- Values of different ranks compare as their ranks. -/
lemma cypherPlainOrder_of_rank_ne (h : orderRank a ≠ orderRank b) :
    cypherPlainOrder order a b = compare (orderRank a) (orderRank b) := by
  unfold cypherPlainOrder
  rw [if_pos h]

lemma cypherPlainOrder_of_rank_lt (h : orderRank a < orderRank b) :
    cypherPlainOrder order a b = .lt := by
  rw [cypherPlainOrder_of_rank_ne h.ne, compare_lt_iff_lt.mpr h]

/-- A value that does not come after another has no higher rank. -/
lemma rank_le_of_ne_gt (h : cypherPlainOrder order a b ≠ .gt) : orderRank a ≤ orderRank b := by
  by_contra hgt
  rw [cypherPlainOrder_of_rank_ne (by omega), compare_gt_iff_gt.mpr (by omega)] at h
  exact h rfl

/-- Values that are neither lists, text, truth values nor structs are compared as numbers. -/
lemma cypherPlainOrder_numeric (hab : orderRank a = orderRank b)
    (h : orderRank a = 4 ∨ orderRank a = 0) : cypherPlainOrder order a b = numericOrder a b := by
  unfold cypherPlainOrder
  rw [if_neg (not_not.mpr hab)]
  split <;> first | rfl | simp [orderRank] at h

lemma isNumericScalar_of_rank (h : orderRank v = 4) : isNumericScalar v = true := by
  unfold orderRank at h
  split at h <;> first | omega | skip
  split at h
  · assumption
  · omega

/-- Numbers have one rank. -/
lemma orderRank_of_number {f : Binary64} (h : scalarAsF64 v = some f) : orderRank v = 4 := by
  have hnum : isNumericScalar v = true := by rw [isNumericScalar, h]; rfl
  cases v with
  | int n => exact if_pos hnum
  | float32 x => exact if_pos hnum
  | float64 x => exact if_pos hnum
  | _ => cases h

/-- Values of the lowest rank are no numbers. -/
lemma scalarAsF64_of_rank_zero (h : orderRank v = 0) : scalarAsF64 v = none := by
  unfold orderRank at h
  split at h <;> first | omega | skip
  split at h
  · omega
  · rename_i hnum
    simpa [isNumericScalar] using hnum

/-! ## What a definite value of each rank is -/

section
variable (hd : isDefinitePlain definite v = true)
include hd

/-- A definite value of the rank of lists is a list of definite values. -/
lemma list_of_rank (h : orderRank v = 1) :
    ∃ item type valid xs, v = .list .small item type valid xs ∧ ∀ x ∈ xs, definite x = true := by
  unfold orderRank at h
  split at h <;> first | omega | skip
  · exact ⟨_, _, _, _, rfl, all_eq_true.mp hd⟩
  · simp [isDefinitePlain] at hd
  · split at h <;> omega

/-- A definite value of the rank of texts is a text. -/
lemma text_of_rank (h : orderRank v = 2) : ∃ s, v = .utf8 (some s) := by
  unfold orderRank at h
  split at h <;> first | omega | skip
  · obtain ⟨s, hs⟩ := Option.isSome_iff_exists.mp hd
    exact ⟨s, by rw [hs]⟩
  · simp [isDefinitePlain] at hd
  · split at h <;> omega

/-- A definite value of the rank of truth values is one. -/
lemma truth_of_rank (h : orderRank v = 3) : ∃ b, v = .boolean (some b) := by
  unfold orderRank at h
  split at h <;> first | omega | skip
  · obtain ⟨b, hb⟩ := Option.isSome_iff_exists.mp hd
    exact ⟨b, by rw [hb]⟩
  · split at h <;> omega

/-- A definite value of the rank of maps is a struct of definite values. -/
lemma struct_of_rank (h : orderRank v = 5) :
    ∃ fields valid, v = .struct fields valid ∧ ∀ field ∈ fields, definite field.2 = true := by
  unfold orderRank at h
  split at h <;> first | omega | skip
  · exact ⟨_, _, rfl, all_eq_true.mp hd⟩
  · split at h <;> omega

/-- A definite value of the rank of numbers is one, and not NaN. -/
lemma number_of_rank (h : orderRank v = 4) : ∃ f, scalarAsF64 v = some f ∧ f.isNaN = false := by
  obtain ⟨f, hf⟩ := Option.isSome_iff_exists.mp (isNumericScalar_of_rank h)
  refine ⟨f, hf, ?_⟩
  have hall : (scalarAsF64 v).all (fun f => !f.isNaN) = true := by
    cases v with
    | list kind => cases kind <;> rfl
    | int n => exact hd
    | float32 x => exact hd
    | float64 x => exact hd
    | _ => rfl
  rw [hf] at hall
  simpa using hall

end

lemma orderRank_le (v : ScalarValue) : orderRank v ≤ 5 := by
  unfold orderRank
  split <;> first | omega | skip
  split <;> omega

/-! ## Reflexivity and reversal, for all values -/

/-- Numbers tie with themselves. -/
lemma numericOrder_self (v : ScalarValue) : numericOrder v v = .eq := by
  unfold numericOrder
  split
  · rename_i x y hx hy
    rw [hx] at hy
    cases hy
    unfold Binary64.partialCmp
    split
    · rfl
    · exact compare_eq_iff_eq.mpr rfl
  · rfl

/-- The order of numbers is antisymmetric. -/
lemma numericOrder_swap (a b : ScalarValue) : numericOrder a b = (numericOrder b a).swap := by
  unfold numericOrder
  cases scalarAsF64 a with
  | none => cases scalarAsF64 b <;> rfl
  | some x =>
    cases scalarAsF64 b with
    | none => rfl
    | some y =>
      simp only [Binary64.partialCmp, Bool.or_comm y.isNaN]
      split
      · rfl
      · exact @Std.OrientedCmp.eq_swap _ compare _ _ _

lemma cypherPlainOrder_self (h : ∀ x, x.size < v.size → order x x = .eq) :
    cypherPlainOrder order v v = .eq := by
  unfold cypherPlainOrder
  rw [if_neg (not_not.mpr rfl)]
  cases v with
  | list kind item type valid xs =>
    cases kind with
    | small =>
      apply compareLists_self
      intro x hx
      exact h x (ScalarValue.size_lt_of_mem_list hx)
    | _ => exact numericOrder_self _
  | utf8 text =>
    cases text with
    | none => exact numericOrder_self _
    | some text => exact compare_eq_iff_eq.mpr rfl
  | boolean truth =>
    cases truth with
    | none => exact numericOrder_self _
    | some truth => exact compare_eq_iff_eq.mpr rfl
  | struct fields valid =>
    apply compareLists_self
    intro e he
    rw [compareEntries, compare_eq_iff_eq.mpr rfl, h e.2 (size_lt_of_mem_sortedEntries he)]
    rfl
  | _ => exact numericOrder_self _

/-- Every value ties with itself. -/
theorem cypherOrder_self (v : ScalarValue) : cypherOrder v v = .eq := by
  induction hn : v.size using Nat.strong_induction_on generalizing v with
  | _ n ih =>
    rw [cypherOrder_eq]
    apply cypherPlainOrder_self
    intro x hx
    have := size_unwrapHet v
    exact ih x.size (by omega) x rfl

/-- The order of plain values is antisymmetric where that of their parts is. -/
lemma cypherPlainOrder_swap
    (h : ∀ x y, x.size + y.size < a.size + b.size → order x y = (order y x).swap) :
    cypherPlainOrder order a b = (cypherPlainOrder order b a).swap := by
  by_cases hrank : orderRank a = orderRank b
  · unfold cypherPlainOrder
    rw [if_neg (not_not.mpr hrank), if_neg (not_not.mpr hrank.symm)]
    split
    · apply compareLists_swap
      intro x hx y hy
      exact h x y (Nat.add_lt_add (ScalarValue.size_lt_of_mem_list hx)
        (ScalarValue.size_lt_of_mem_list hy))
    · exact Std.OrientedCmp.eq_swap
    · exact Std.OrientedCmp.eq_swap
    · rename_i x vx y vy
      apply compareLists_swap
      intro e he f hf
      have h1 := @size_lt_of_mem_sortedEntries x vx e he
      have h2 := @size_lt_of_mem_sortedEntries y vy f hf
      have hkey := @Std.OrientedCmp.eq_swap _ compare _ e.1 f.1
      rw [compareEntries, compareEntries, Ordering.swap_then, ← hkey, ← h e.2 f.2 (by omega)]
    · -- the arms of the swapped comparison are the swapped arms
      rename_i h1 h2 h3 h4
      split
      · exact (h1 _ _ _ _ _ _ _ _ rfl rfl).elim
      · exact (h2 _ _ rfl rfl).elim
      · exact (h3 _ _ rfl rfl).elim
      · exact (h4 _ _ _ _ rfl rfl).elim
      · exact numericOrder_swap a b
  · unfold cypherPlainOrder
    rw [if_pos hrank, if_pos (Ne.symm hrank)]
    exact Std.OrientedCmp.eq_swap

/-- The order is antisymmetric on all values. -/
theorem cypherOrder_swap (a b : ScalarValue) : cypherOrder a b = (cypherOrder b a).swap := by
  induction hn : a.size + b.size using Nat.strong_induction_on generalizing a b with
  | _ n ih =>
    rw [cypherOrder_eq, cypherOrder_eq b a]
    apply cypherPlainOrder_swap
    intro x y hxy
    have h1 := size_unwrapHet a
    have h2 := size_unwrapHet b
    exact ih _ (by omega) x y rfl

/-! ## Transitivity, for definite values -/

/-- Numbers compare as doubles. -/
lemma numericOrder_of_numbers {x y : Binary64} (ha : scalarAsF64 a = some x)
    (hb : scalarAsF64 b = some y) (hx : x.isNaN = false) (hy : y.isNaN = false) :
    numericOrder a b = compare x.rank y.rank := by
  simp only [numericOrder, ha, hb, Binary64.partialCmp, hx, hy, Bool.or_self, Bool.false_eq_true,
    if_false, Option.getD_some]

section
variable {S : ScalarValue → Prop} (horder : TotalPreorderOn S order)
  (hda : isDefinitePlain definite a = true) (hdb : isDefinitePlain definite b = true)
  (hdc : isDefinitePlain definite c = true)
  (hparts : ∀ x, x.size < max a.size (max b.size c.size) → definite x = true → S x)
  (h1 : cypherPlainOrder order a b ≠ .gt) (h2 : cypherPlainOrder order b c ≠ .gt)
include horder hda hdb hdc hparts h1 h2

/-- Of three definite values of one rank, given the order on their parts. -/
lemma cypherPlainOrder_trans_of_rank (hab : orderRank a = orderRank b)
    (hbc : orderRank b = orderRank c) : cypherPlainOrder order a c ≠ .gt := by
  have hrank := orderRank_le a
  have hcases : orderRank a = 0 ∨ orderRank a = 1 ∨ orderRank a = 2 ∨ orderRank a = 3 ∨
      orderRank a = 4 ∨ orderRank a = 5 := by omega
  rcases hcases with h | h | h | h | h | h
  · -- everything without a rank of its own ties
    rw [cypherPlainOrder_numeric (hab.trans hbc) (.inr h), numericOrder, scalarAsF64_of_rank_zero h]
    exact nofun
  · obtain ⟨_, _, _, xs, rfl, hxs⟩ := list_of_rank hda h
    obtain ⟨_, _, _, ys, rfl, hys⟩ := list_of_rank hdb (hab ▸ h)
    obtain ⟨_, _, _, zs, rfl, hzs⟩ := list_of_rank hdc (hbc ▸ hab ▸ h)
    refine compareLists_trans horder ?_ ?_ ?_ h1 h2
    · exact fun x hx => hparts x (by simp [ScalarValue.size_lt_of_mem_list hx]) (hxs x hx)
    · exact fun x hx => hparts x (by simp [ScalarValue.size_lt_of_mem_list hx]) (hys x hx)
    · exact fun x hx => hparts x (by simp [ScalarValue.size_lt_of_mem_list hx]) (hzs x hx)
  · obtain ⟨s, rfl⟩ := text_of_rank hda h
    obtain ⟨t, rfl⟩ := text_of_rank hdb (hab ▸ h)
    obtain ⟨u, rfl⟩ := text_of_rank hdc (hbc ▸ hab ▸ h)
    exact (totalPreorderOn_compare fun _ : String => True).trans s t u trivial trivial trivial h1 h2
  · obtain ⟨s, rfl⟩ := truth_of_rank hda h
    obtain ⟨t, rfl⟩ := truth_of_rank hdb (hab ▸ h)
    obtain ⟨u, rfl⟩ := truth_of_rank hdc (hbc ▸ hab ▸ h)
    exact (totalPreorderOn_compare fun _ : Bool => True).trans s t u trivial trivial trivial h1 h2
  · obtain ⟨x, hx, hxn⟩ := number_of_rank hda h
    obtain ⟨y, hy, hyn⟩ := number_of_rank hdb (hab ▸ h)
    obtain ⟨z, hz, hzn⟩ := number_of_rank hdc (hbc ▸ hab ▸ h)
    rw [cypherPlainOrder_numeric hab (.inl h), numericOrder_of_numbers hx hy hxn hyn] at h1
    rw [cypherPlainOrder_numeric hbc (.inl (hab ▸ h)), numericOrder_of_numbers hy hz hyn hzn] at h2
    rw [cypherPlainOrder_numeric (hab.trans hbc) (.inl h), numericOrder_of_numbers hx hz hxn hzn]
    exact (totalPreorderOn_compare fun _ : ℤ => True).trans _ _ _ trivial trivial trivial h1 h2
  · obtain ⟨xs, vx, rfl, hxs⟩ := struct_of_rank hda h
    obtain ⟨ys, vy, rfl, hys⟩ := struct_of_rank hdb (hab ▸ h)
    obtain ⟨zs, vz, rfl, hzs⟩ := struct_of_rank hdc (hbc ▸ hab ▸ h)
    have hdef {fs : Fields} (hfs : ∀ field ∈ fs, definite field.2 = true) :
        ∀ e ∈ sortedEntries fs, definite e.2 = true := by
      intro e he
      obtain ⟨field, hfield, rfl⟩ := mem_sortedEntries.mp he
      exact hfs field hfield
    refine compareLists_trans horder.entries ?_ ?_ ?_ h1 h2
    · exact fun e he => hparts _ (by simp [@size_lt_of_mem_sortedEntries xs vx e he]) (hdef hxs e he)
    · exact fun e he => hparts _ (by simp [@size_lt_of_mem_sortedEntries ys vy e he]) (hdef hys e he)
    · exact fun e he => hparts _ (by simp [@size_lt_of_mem_sortedEntries zs vz e he]) (hdef hzs e he)

/-- The order of plain values is transitive where that of their parts is. -/
lemma cypherPlainOrder_trans : cypherPlainOrder order a c ≠ .gt := by
  have hab := rank_le_of_ne_gt h1
  have hbc := rank_le_of_ne_gt h2
  by_cases hrank : orderRank a = orderRank c
  · exact cypherPlainOrder_trans_of_rank horder hda hdb hdc hparts h1 h2 (by omega) (by omega)
  · rw [cypherPlainOrder_of_rank_lt (by omega)]
    exact nofun

end

/-- On definite values the Cypher order is a total preorder. -/
theorem totalPreorderOn_definite : TotalPreorderOn (isDefinite · = true) cypherOrder := by
  -- by induction on a bound for the size of the values
  suffices hsize : ∀ n, TotalPreorderOn (fun v => isDefinite v = true ∧ v.size < n) cypherOrder by
    refine ⟨fun v _ => cypherOrder_self v, fun a b _ _ => cypherOrder_swap a b, ?_⟩
    intro a b c ha hb hc
    exact (hsize (a.size + b.size + c.size + 1)).trans a b c ⟨ha, by omega⟩ ⟨hb, by omega⟩
      ⟨hc, by omega⟩
  intro n
  induction n with
  | zero =>
    refine ⟨fun v _ => cypherOrder_self v, fun a b _ _ => cypherOrder_swap a b, ?_⟩
    intro a _ _ ha
    omega
  | succ n ih =>
    refine ⟨fun v _ => cypherOrder_self v, fun a b _ _ => cypherOrder_swap a b, ?_⟩
    intro a b c ⟨ha, hna⟩ ⟨hb, hnb⟩ ⟨hc, hnc⟩ h1 h2
    rw [cypherOrder_eq] at h1 h2 ⊢
    rw [isDefinite_eq] at ha hb hc
    refine cypherPlainOrder_trans ih ha hb hc ?_ h1 h2
    intro x hx hdef
    have h1 := size_unwrapHet a
    have h2 := size_unwrapHet b
    have h3 := size_unwrapHet c
    exact ⟨hdef, by omega⟩

/-! ## Definite values that tie with a given one -/

/-- A header no heterogeneous layout has, so that a struct made of such fields is plain. -/
def markedHeader (name : String) : FieldHeader := ⟨name, true, [("plain", "")]⟩

variable (fields : Fields)

variable (g : ScalarValue → ScalarValue)

/-- A struct with the names of `fields` and other values. -/
def markedFields : Fields :=
  fields.map fun field => (markedHeader field.1.name, g field.2)

/-- Only a struct whose first field has no metadata is recognised. -/
lemma recognizeLayout_of_metadata {field : TypeField} {fields : List TypeField}
    (h : field.1.metadata.isEmpty = false) :
    recognizeLayout (.struct (field :: fields)) = .ok none ∨
      recognizeLayout (.struct (field :: fields)) = .error .schema := by
  have hmatch : ∀ name type nullable, fieldMatches field name type nullable = false := by
    intro name type nullable
    simp [fieldMatches, fieldHeader, h]
  have hscalar : scalarPayloadsMatch (field :: fields) = false := by
    simp [scalarPayloadsMatch, scalarFields, hmatch]
  have hconstant : constantDepth (field :: fields) = .error .schema := by
    unfold constantDepth
    split
    · rename_i heq
      cases heq
      simp [hmatch]
    · rfl
  simp only [recognizeLayout, hscalar, hconstant, head?_cons, Option.any_some, hmatch,
    Bool.and_false, Bool.false_and, Bool.false_eq_true, if_false]
  cases (field :: fields).find? (·.1.name == TAG) with
  | none => exact .inl rfl
  | some tag =>
    simp only
    split
    · exact .inl rfl
    · split
      · exact .inr rfl
      · exact .inr rfl

lemma unwrapHet_struct (valid : Bool) : unwrapHet (.struct fields valid) =
      (decodeHet (.struct fields valid)).getD (.struct fields valid) := by
  rw [unwrapHet]
  exact nofun

/-- A marked struct is not unwrapped. -/
lemma unwrapHet_markedFields (valid : Bool) :
    unwrapHet (.struct (markedFields fields g) valid) = .struct (markedFields fields g) valid := by
  have hnone : decodeHet (.struct (markedFields fields g) valid) = none := by
    unfold decodeHet decodeHetScalar
    cases fields with
    | nil => rfl
    | cons field fields =>
      rcases @recognizeLayout_of_metadata (markedHeader field.1.name, (g field.2).dataType)
        (ScalarValue.fieldTypes (markedFields fields g)) rfl with h | h
      · simp only [markedFields, map_cons, ScalarValue.fieldTypes] at h ⊢
        rw [h]
        rfl
      · simp only [markedFields, map_cons, ScalarValue.fieldTypes] at h ⊢
        rw [h]
        rfl
  rw [unwrapHet_struct, hnone]
  rfl

/-- Marking the fields does not change the order of the entries. -/
lemma sortedEntries_markedFields :
    sortedEntries (markedFields fields g) = (sortedEntries fields).map fun e => (e.1, g e.2) := by
  unfold sortedEntries markedFields
  rw [map_insertionSort (fun x y : String × ScalarValue => x.1 ≤ y.1)
    (fun x y : String × ScalarValue => x.1 ≤ y.1) (fun e => (e.1, g e.2)) _ fun _ _ _ _ => Iff.rfl,
    map_map, map_map]
  rfl

/-- `a` and `c` are definite, tie with `v`, and tie with each other only if `v` is definite. -/
structure Twins (v a c : ScalarValue) : Prop where
  definite_left : isDefinite a = true
  definite_right : isDefinite c = true
  left : cypherOrder a v = .eq
  right : cypherOrder c v = .eq
  tie : cypherOrder a c = .eq → isDefinite v = true

/-- One definite value that ties with a definite `v`. -/
lemma Twins.of_definite (hv : isDefinite v = true) : Twins v v v :=
  ⟨hv, hv, cypherOrder_self v, cypherOrder_self v, fun _ => hv⟩

/-- The twins of the parts of a value, as functions. -/
lemma exists_twin_functions {u : ScalarValue}
    (h : ∀ x, x.size < u.size → ∃ a c, Twins x a c) :
    ∃ lo hi : ScalarValue → ScalarValue, ∀ x, x.size < u.size → Twins x (lo x) (hi x) := by
  have htotal : ∀ x, ∃ p : ScalarValue × ScalarValue, x.size < u.size → Twins x p.1 p.2 := by
    intro x
    by_cases hx : x.size < u.size
    · obtain ⟨a, c, hac⟩ := h x hx
      exact ⟨(a, c), fun _ => hac⟩
    · exact ⟨(x, x), fun h => absurd h hx⟩
  choose f hf using htotal
  exact ⟨fun x => (f x).1, fun x => (f x).2, hf⟩

/-- Twins of the elements make twins of the list. -/
lemma twins_of_list {item : FieldHeader} {type : DataType} {valid : Bool} {xs : List ScalarValue}
    {lo hi : ScalarValue → ScalarValue} (hv : unwrapHet v = .list .small item type valid xs)
    (h : ∀ x ∈ xs, Twins x (lo x) (hi x)) :
    Twins v (.list .small item type true (xs.map lo)) (.list .small item type true (xs.map hi)) := by
  have horder : ∀ f : ScalarValue → ScalarValue, (∀ x ∈ xs, cypherOrder (f x) x = .eq) →
      cypherOrder (.list .small item type true (xs.map f)) v = .eq := by
    intro f hf
    rw [cypherOrder_eq, hv]
    show compareLists cypherOrder (xs.map f) xs = .eq
    nth_rewrite 2 [← map_id xs]
    exact compareLists_map_eq_iff.mpr hf
  have hdef : ∀ f : ScalarValue → ScalarValue, (∀ x ∈ xs, isDefinite (f x) = true) →
      isDefinite (.list .small item type true (xs.map f)) = true := by
    intro f hf
    rw [isDefinite_eq]
    show (xs.map f).all isDefinite = true
    simpa using hf
  refine ⟨hdef lo fun x hx => (h x hx).definite_left, hdef hi fun x hx => (h x hx).definite_right,
    horder lo fun x hx => (h x hx).left, horder hi fun x hx => (h x hx).right, ?_⟩
  intro htie
  rw [cypherOrder_eq] at htie
  have htie' : ∀ x ∈ xs, cypherOrder (lo x) (hi x) = .eq := compareLists_map_eq_iff.mp htie
  rw [isDefinite_eq, hv]
  exact all_eq_true.mpr fun x hx => (h x hx).tie (htie' x hx)

/-- Twins of the fields make twins of the struct. -/
lemma twins_of_struct {fields : Fields} {valid : Bool} {lo hi : ScalarValue → ScalarValue}
    (hv : unwrapHet v = .struct fields valid)
    (h : ∀ field ∈ fields, Twins field.2 (lo field.2) (hi field.2)) :
    Twins v (.struct (markedFields fields lo) true) (.struct (markedFields fields hi) true) := by
  have hentry : ∀ e ∈ sortedEntries fields, Twins e.2 (lo e.2) (hi e.2) := by
    intro e he
    obtain ⟨field, hfield, rfl⟩ := mem_sortedEntries.mp he
    exact h field hfield
  have hkey : ∀ (k : String) (x y : ScalarValue),
      compareEntries cypherOrder (k, x) (k, y) = cypherOrder x y := by
    intro k x y
    rw [compareEntries, compare_eq_iff_eq.mpr rfl]
    rfl
  have horder : ∀ f : ScalarValue → ScalarValue,
      (∀ e ∈ sortedEntries fields, cypherOrder (f e.2) e.2 = .eq) →
      cypherOrder (.struct (markedFields fields f) true) v = .eq := by
    intro f hf
    rw [cypherOrder_eq, hv, unwrapHet_markedFields]
    show compareLists (compareEntries cypherOrder) (sortedEntries (markedFields fields f))
      (sortedEntries fields) = .eq
    rw [sortedEntries_markedFields]
    nth_rewrite 2 [← map_id (sortedEntries fields)]
    exact compareLists_map_eq_iff.mpr fun e he => (hkey e.1 (f e.2) e.2).trans (hf e he)
  have hdef : ∀ f : ScalarValue → ScalarValue, (∀ field ∈ fields, isDefinite (f field.2) = true) →
      isDefinite (.struct (markedFields fields f) true) = true := by
    intro f hf
    rw [isDefinite_eq, unwrapHet_markedFields]
    show (markedFields fields f).all (fun field => isDefinite field.2) = true
    rw [markedFields, all_map]
    exact all_eq_true.mpr hf
  refine ⟨hdef lo fun x hx => (h x hx).definite_left, hdef hi fun x hx => (h x hx).definite_right,
    horder lo fun e he => (hentry e he).left, horder hi fun e he => (hentry e he).right, ?_⟩
  intro htie
  rw [cypherOrder_eq, unwrapHet_markedFields, unwrapHet_markedFields] at htie
  have htie' : compareLists (compareEntries cypherOrder) (sortedEntries (markedFields fields lo))
      (sortedEntries (markedFields fields hi)) = .eq := htie
  rw [sortedEntries_markedFields, sortedEntries_markedFields, compareLists_map_eq_iff] at htie'
  rw [isDefinite_eq, hv]
  refine all_eq_true.mpr fun field hfield => ?_
  have hmem : (field.1.name, field.2) ∈ sortedEntries fields :=
    mem_sortedEntries.mpr ⟨field, hfield, rfl⟩
  exact (h field hfield).tie ((hkey _ _ _).symm.trans (htie' _ hmem))

/-- A value without parts that ties with all of its rank. -/
lemma twins_of_leaf {u : ScalarValue} (hv : unwrapHet v = u)
    (hac : isDefinite a = true ∧ isDefinite c = true ∧ cypherOrder a c = .lt)
    (hau : cypherPlainOrder cypherOrder (unwrapHet a) u = .eq)
    (hcu : cypherPlainOrder cypherOrder (unwrapHet c) u = .eq) : Twins v a c := by
  refine ⟨hac.1, hac.2.1, ?_, ?_, ?_⟩
  · rw [cypherOrder_eq, hv, hau]
  · rw [cypherOrder_eq, hv, hcu]
  · intro h
    rw [hac.2.2] at h
    cases h

/-- A NaN ties with zero and with one. -/
lemma twins_of_nan {f : Binary64} (hrank : orderRank (unwrapHet v) = 4)
    (hf : scalarAsF64 (unwrapHet v) = some f) (hnan : f.isNaN = true) :
    Twins v (.float64 (some (Binary64.ofInt 0))) (.float64 (some (Binary64.ofInt 1))) := by
  have htie : ∀ x : Binary64, cypherPlainOrder cypherOrder (.float64 (some x)) (unwrapHet v) = .eq := by
    intro x
    rw [cypherPlainOrder_numeric (by rw [hrank]; rfl) (.inl rfl), numericOrder, hf]
    simp [scalarAsF64, Binary64.partialCmp, hnan]
  exact twins_of_leaf rfl (by decide +kernel) (htie _) (htie _)

/-- Every value has definite twins. -/
lemma exists_twins (v : ScalarValue) : ∃ a c, Twins v a c := by
  induction hn : v.size using Nat.strong_induction_on generalizing v with
  | _ n ih =>
    by_cases hdef : isDefinite v = true
    · exact ⟨v, v, .of_definite hdef⟩
    obtain ⟨lo, hi, hparts⟩ := @exists_twin_functions (unwrapHet v) fun x hx => by
      have := size_unwrapHet v
      exact ih x.size (by omega) x rfl
    rw [isDefinite_eq, isDefinitePlain.eq_def] at hdef
    -- one case for each way of being indefinite
    split at hdef
    · rename_i hu
      refine ⟨_, _, @twins_of_list v _ _ _ _ lo hi hu fun x hx => hparts x ?_⟩
      rw [hu]
      exact ScalarValue.size_lt_of_mem_list hx
    · rename_i hu
      exact ⟨.list .small (.plain "item" true) .null true [],
        .list .small (.plain "item" true) .null true [.null],
        twins_of_leaf hu (by decide +kernel) rfl rfl⟩
    · rename_i text hu
      cases text with
      | some s => exact absurd rfl hdef
      | none =>
        exact ⟨.utf8 (some ""), .utf8 (some "a"),
          twins_of_leaf hu (by decide +kernel) rfl rfl⟩
    · rename_i hu
      exact ⟨.utf8 (some ""), .utf8 (some "a"),
        twins_of_leaf hu (by decide +kernel) rfl rfl⟩
    · rename_i truth hu
      cases truth with
      | some b => exact absurd rfl hdef
      | none =>
        exact ⟨.boolean (some false), .boolean (some true),
          twins_of_leaf hu (by decide +kernel) rfl rfl⟩
    · rename_i fields valid hu
      refine ⟨_, _, @twins_of_struct v _ _ lo hi hu fun field hfield => hparts field.2 ?_⟩
      rw [hu]
      exact ScalarValue.size_lt_of_mem_struct hfield
    · cases hf : scalarAsF64 (unwrapHet v) with
      | none =>
        rw [hf] at hdef
        exact absurd rfl hdef
      | some f =>
        rw [hf] at hdef
        exact ⟨_, _, twins_of_nan (orderRank_of_number hf) hf (by simpa using hdef)⟩

/-! ## The accumulator -/

variable (isMax : Bool)

/-- The comparison under which the accumulator looks for a least value. -/
def extremeOrder (a b : ScalarValue) : Ordering :=
  if isMax then cypherOrder b a else cypherOrder a b

/-- The rows that are not null. -/
def nonNulls (rows : List ScalarValue) : List ScalarValue := rows.filter fun v => !v.isNull

/-- The order of an extremum is total on definite values. -/
lemma totalPreorderOn_extremeOrder :
    TotalPreorderOn (isDefinite · = true) (extremeOrder isMax) := by
  cases isMax with
  | false => exact totalPreorderOn_definite
  | true => exact totalPreorderOn_definite.flip

lemma extremeOrder_eq_iff : extremeOrder isMax a b = .eq ↔ cypherOrder a b = .eq := by
  cases isMax with
  | false => exact Iff.rfl
  | true =>
    show cypherOrder b a = .eq ↔ cypherOrder a b = .eq
    rw [cypherOrder_swap a b]
    cases cypherOrder b a <;> decide

/-- A value replaces the best one when it comes first. -/
lemma takes_iff {acc : ExtremeAcc} (hb : acc.best = some b) :
    acc.takes v = true ↔ extremeOrder acc.isMax v b = .lt := by
  rw [ExtremeAcc.takes, hb]
  unfold extremeOrder
  cases acc.isMax with
  | false => simp
  | true =>
    simp only [Bool.true_and, Bool.not_true, Bool.false_and, Bool.or_false, beq_iff_eq, if_true]
    rw [cypherOrder_swap b v]
    cases cypherOrder v b <;> simp

/-- One row keeps the better value. -/
lemma update_eq (acc : ExtremeAcc) (v : ScalarValue) : acc.update v = ⟨acc.isMax, acc.dtype,
      if v.isNull then acc.best else keepBest (extremeOrder acc.isMax) acc.best v⟩ := by
  unfold ExtremeAcc.update
  split
  · rfl
  cases hb : acc.best with
  | none => simp [ExtremeAcc.takes, hb, keepBest]
  | some b =>
    by_cases h : acc.takes v = true
    · rw [if_pos h, keepBest, if_pos ((takes_iff hb).mp h)]
    · rw [if_neg h, keepBest, if_neg fun hlt => h ((takes_iff hb).mpr hlt), ← hb]

/-- A batch keeps the best value that is not null. -/
lemma updateBatch_eq (acc : ExtremeAcc) (rows : List ScalarValue) :
    acc.updateBatch rows = ⟨acc.isMax, acc.dtype,
      runningBest (extremeOrder acc.isMax) acc.best (nonNulls rows)⟩ := by
  induction rows generalizing acc with
  | nil => rfl
  | cons v rows ih =>
    show (acc.update v).updateBatch rows = _
    rw [ih, update_eq]
    by_cases hnull : v.isNull = true
    · simp [hnull, nonNulls, runningBest]
    · simp [hnull, nonNulls, runningBest]

lemma evaluate_updateBatch (dtype : DataType) (rows : List ScalarValue) :
    (ExtremeAcc.updateBatch ⟨isMax, dtype, none⟩ rows).evaluate =
      (runningBest (extremeOrder isMax) none (nonNulls rows)).getD (nullScalar dtype) := by
  rw [updateBatch_eq]
  rfl

/-- The null of a type is null. -/
lemma isNull_nullScalar : ∀ type : DataType, (nullScalar type).isNull = true
  | .int type => by cases type <;> rfl
  | .dictionary key value => by
    rw [nullScalar, ScalarValue.isNull]
    exact isNull_nullScalar value
  | .struct _ | .null | .boolean | .float32 | .float64 | .utf8 | .largeUtf8 | .time64Nanosecond
  | .fixedSizeBinary _ | .flat _ _ | .list _ _ _ => rfl

variable {isMax : Bool} {dtype : DataType} {rows : List ScalarValue}

/-- The accumulator holds a best value of the rows. -/
lemma isBest_nonNulls (h : ∀ v ∈ rows, isDefinite v = true) :
    IsBest (extremeOrder isMax) (nonNulls rows)
      (runningBest (extremeOrder isMax) none (nonNulls rows)) := by
  have hspec := @runningBest_isBest _ _ _ (totalPreorderOn_extremeOrder isMax) [] (nonNulls rows)
    none (by simp) (fun v hv => h v (mem_filter.mp hv).1) rfl
  rwa [nil_append] at hspec

section
variable {batches : List (List ScalarValue)} (h : ∀ rows ∈ batches, ∀ v ∈ rows, isDefinite v = true)
include h

/-- The states that the merge does not skip are the bests of the batches that have one. -/
lemma nonNulls_states : nonNulls (batches.flatMap fun rows =>
        (ExtremeAcc.updateBatch ⟨isMax, dtype, none⟩ rows).state) =
      batches.filterMap fun rows => runningBest (extremeOrder isMax) none (nonNulls rows) := by
  induction batches with
  | nil => rfl
  | cons rows batches ih =>
    obtain ⟨hrows, hrest⟩ := forall_mem_cons.mp h
    have hbest := @isBest_nonNulls isMax rows hrows
    rw [flatMap_cons, ExtremeAcc.state, evaluate_updateBatch, nonNulls, filter_append,
      ← nonNulls, ← nonNulls, ih hrest, filterMap_cons]
    cases hb : runningBest (extremeOrder isMax) none (nonNulls rows) with
    | none => simp [nonNulls, isNull_nullScalar]
    | some b =>
      rw [hb] at hbest
      have hnull : b.isNull = false := by simpa using (mem_filter.mp hbest.1).2
      simp [nonNulls, hnull]

/-- The best of the bests of the batches is a best of all rows. -/
lemma isBest_batches : IsBest (extremeOrder isMax) (nonNulls batches.flatten)
      (runningBest (extremeOrder isMax) none (batches.filterMap fun rows =>
        runningBest (extremeOrder isMax) none (nonNulls rows))) := by
  have horder := totalPreorderOn_extremeOrder isMax
  have hmem : ∀ v, v ∈ nonNulls batches.flatten ↔ ∃ rows ∈ batches, v ∈ nonNulls rows := by
    intro v
    simp only [nonNulls, mem_filter, mem_flatten]
    constructor
    · intro ⟨⟨rows, hrows, hv⟩, hnull⟩
      exact ⟨rows, hrows, hv, hnull⟩
    · intro ⟨rows, hrows, hv, hnull⟩
      exact ⟨⟨rows, hrows, hv⟩, hnull⟩
  have hdef : ∀ v ∈ nonNulls batches.flatten, isDefinite v = true := by
    intro v hv
    obtain ⟨rows, hrows, hvr⟩ := (hmem v).mp hv
    exact h rows hrows v (mem_filter.mp hvr).1
  -- each best is a row of its batch, and a batch with rows has one
  have hsub : ∀ b ∈ batches.filterMap fun rows =>
      runningBest (extremeOrder isMax) none (nonNulls rows), b ∈ nonNulls batches.flatten := by
    intro b hb
    obtain ⟨rows, hrows, hrb⟩ := mem_filterMap.mp hb
    have hbest := @isBest_nonNulls isMax rows (h rows hrows)
    rw [hrb] at hbest
    exact (hmem b).mpr ⟨rows, hrows, hbest.1⟩
  have hspec := @runningBest_isBest _ _ _ horder [] _ none (by simp)
    (fun b hb => hdef b (hsub b hb)) rfl
  apply IsBest.of_bests horder hspec hdef hsub
  intro v hv
  obtain ⟨rows, hrows, hvr⟩ := (hmem v).mp hv
  have hbest := @isBest_nonNulls isMax rows (h rows hrows)
  cases hb : runningBest (extremeOrder isMax) none (nonNulls rows) with
  | none =>
    rw [hb] at hbest
    rw [show nonNulls rows = [] from hbest] at hvr
    cases hvr
  | some b =>
    rw [hb] at hbest
    exact ⟨b, mem_filterMap.mpr ⟨rows, hrows, hb⟩, hbest.2 v hvr⟩

end

/-- Best values of the same rows tie. -/
lemma cypherOrder_bests {vs ws : List ScalarValue} {x y : Option ScalarValue}
    (hdef : ∀ v ∈ vs, isDefinite v = true) (hmem : ∀ v, v ∈ vs ↔ v ∈ ws)
    (hx : IsBest (extremeOrder isMax) vs x) (hy : IsBest (extremeOrder isMax) ws y)
    (default : ScalarValue) : cypherOrder (x.getD default) (y.getD default) = .eq := by
  cases x with
  | none =>
    have hvs : vs = [] := hx
    cases y with
    | none => exact cypherOrder_self default
    | some c =>
      have := (hmem c).mpr hy.1
      rw [hvs] at this
      cases this
  | some b =>
    cases y with
    | none =>
      have hws : ws = [] := hy
      have := (hmem b).mp hx.1
      rw [hws] at this
      cases this
    | some c =>
      rw [← extremeOrder_eq_iff isMax]
      exact hx.eq_of_mem_iff (totalPreorderOn_extremeOrder isMax) hdef hmem hy

/-- The order of the rows does not matter to which are not null. -/
lemma mem_nonNulls_of_perm {rows rows' : List ScalarValue} (h : rows.Perm rows') (v : ScalarValue) :
    v ∈ nonNulls rows ↔ v ∈ nonNulls rows' := by
  unfold nonNulls
  rw [mem_filter, mem_filter, h.mem_iff]

/-! ## The laws, and exactly where they hold -/

/-- The Cypher order is a total preorder on `S`, and `min` and `max` of values of `S` depend
neither on their order nor on a split into batches. -/
structure OrderLaws (S : ScalarValue → Prop) : Prop where
  preorder : TotalPreorderOn S cypherOrder
  eq_trans : ∀ a b c, S a → S b → S c → cypherOrder a b = .eq → cypherOrder b c = .eq →
    cypherOrder a c = .eq
  perm : ∀ (isMax : Bool) (dtype : DataType) (rows rows' : List ScalarValue),
    (∀ v ∈ rows, S v) → rows.Perm rows' →
    cypherOrder (extremeOf isMax dtype rows) (extremeOf isMax dtype rows') = .eq
  batches : ∀ (isMax : Bool) (dtype : DataType) (rows : List ScalarValue)
    (batches : List (List ScalarValue)), (∀ v ∈ rows, S v) → rows.Perm batches.flatten →
    cypherOrder (extremeOf isMax dtype rows) (extremeOfBatches isMax dtype batches) = .eq

/-- The laws hold on definite values. -/
theorem orderLaws_definite : OrderLaws (isDefinite · = true) where
  preorder := totalPreorderOn_definite
  eq_trans _ _ _ ha hb hc := totalPreorderOn_definite.eq_trans ha hb hc
  perm isMax dtype rows rows' hdef hperm := by
    rw [extremeOf, extremeOf, evaluate_updateBatch, evaluate_updateBatch]
    exact cypherOrder_bests (fun v hv => hdef v (mem_filter.mp hv).1)
      (mem_nonNulls_of_perm hperm) (isBest_nonNulls hdef)
      (isBest_nonNulls fun v hv => hdef v (hperm.mem_iff.mpr hv)) _
  batches isMax dtype rows batches hdef hperm := by
    have hbatches : ∀ b ∈ batches, ∀ v ∈ b, isDefinite v = true := fun b hb v hv =>
      hdef v (hperm.mem_iff.mpr (mem_flatten.mpr ⟨b, hb, hv⟩))
    rw [extremeOf, extremeOfBatches, ExtremeAcc.mergeBatch, evaluate_updateBatch,
      evaluate_updateBatch, nonNulls_states hbatches]
    exact cypherOrder_bests (fun v hv => hdef v (mem_filter.mp hv).1)
      (mem_nonNulls_of_perm hperm) (isBest_nonNulls hdef) (isBest_batches hbatches) _

/-- A value can join the definite ones without breaking the laws exactly when it is definite. -/
theorem orderLaws_iff (v : ScalarValue) :
    OrderLaws (fun x => isDefinite x = true ∨ x = v) ↔ isDefinite v = true := by
  constructor
  · intro h
    obtain ⟨a, c, htwins⟩ := exists_twins v
    apply htwins.tie
    -- `a` ties with `v` and `v` ties with `c`
    have hvc : cypherOrder v c = .eq := by
      rw [cypherOrder_swap, htwins.right]
      rfl
    exact h.eq_trans a v c (.inl htwins.definite_left) (.inr rfl) (.inl htwins.definite_right)
      htwins.left hvc
  · intro h
    have hset : (fun x => isDefinite x = true ∨ x = v) = (isDefinite · = true) := by
      funext x
      rw [eq_iff_iff]
      constructor
      · intro hx
        rcases hx with hx | hx
        · exact hx
        · rw [hx]
          exact h
      · exact Or.inl
    rw [hset]
    exact orderLaws_definite

/-- A NaN ties with `0` and with `1`; with it the minimum of a column depends on the batches. -/
theorem cypherOrder_nan_breaks_laws :
    let zero : ScalarValue := .float64 (some (Binary64.ofInt 0))
    let one : ScalarValue := .float64 (some (Binary64.ofInt 1))
    let nan : ScalarValue := .float64 (some ⟨0x7ff8000000000000⟩)
    (cypherOrder zero nan = .eq ∧ cypherOrder nan one = .eq ∧ cypherOrder zero one = .lt) ∧
      cypherOrder (extremeOf false .float64 [zero, one, nan])
        (extremeOfBatches false .float64 [[one], [nan, zero]]) = .lt := by
  decide +kernel

end GraphForge.Values
