import GraphForge.Lib.Lists
import GraphForge.Lib.MeasuredFix
import GraphForge.Values.Kinds

/-!
# Cypher equality and the hash that goes with it

`cypherValueEq` is three-valued equality of Cypher values; `feedEqualityHash` lists what
`cypher_equality_hash` writes to the hasher, `none` for a value that equals nothing. Both open
tagged values, compare numbers across types, temporal values by their components, graph entities
by identity and maps by their entries. Each is the body of the source function, given the function
that answers its recursive calls, tied by the size of the values.
-/

namespace GraphForge.Values

/-! ## Equality -/

/-- The components of a temporal value of one kind. -/
inductive TemporalParts where
  | date (days : Int64)
  | localDateTime (parts : Int64 × Int64)
  | time (parts : Int64 × Int32)
  | dateTime (parts : Int64 × Int64 × Int32 × Option String)
  | duration (parts : Int64 × Int64 × Int64 × Int64)
  deriving DecidableEq

/-- The parts of a temporal value of a kind. -/
def temporalParts (fields : Fields) (valid : Bool) : TemporalKind → Option TemporalParts
  | .date => (dateStructValue fields valid).map .date
  | .localDateTime => (localdatetimeStructParts fields valid).map .localDateTime
  | .time => (timeStructParts fields valid).map .time
  | .dateTime => (datetimeStructParts fields valid).map .dateTime
  | .duration => (durationStructParts fields valid).map .duration

/-- `temporal_value_eq`: of one kind and with equal components. -/
def temporalValueEq : ScalarValue → ScalarValue → Option Bool
  | .struct a va, .struct b vb =>
    if temporalKind (.struct a va) ≠ temporalKind (.struct b vb) then some false
    else do
      let kind ← temporalKind (.struct a va)
      let l ← temporalParts a va kind
      let r ← temporalParts b vb kind
      return l == r
  | _, _ => some false

/-- The last arms of `cypher_value_eq`: numbers, then same-typed scalars. -/
def cypherScalarEq (ops : ScalarOps) (l r : ScalarValue) : Option Bool :=
  if isNumericScalar l && isNumericScalar r then
    match scalarAsI128 l, scalarAsI128 r with
    | some li, some ri => some (li == ri)
    | _, _ => do
      let lf ← scalarAsF64 l
      let rf ← scalarAsF64 r
      return lf.eq rf
  else if l.discriminant = r.discriminant then some (ops.eq l r)
  else some false

section Loops

variable (eq : ScalarValue → ScalarValue → Option Bool)

/-- The loop of `cypher_seq_eq`. -/
def seqEqLoop (sawNull : Bool) : List (ScalarValue × ScalarValue) → Option Bool
  | [] => if sawNull then none else some true
  | (x, y) :: rest =>
    match eq x y with
    | some false => some false
    | none => seqEqLoop true rest
    | some true => seqEqLoop sawNull rest

/-- `cypher_seq_eq`. -/
def cypherSeqEq (a b : List ScalarValue) : Option Bool :=
  if a.length ≠ b.length then some false else seqEqLoop eq false (a.zip b)

/-- The loop of `cypher_struct_eq` over the sorted keys. -/
def structEqLoop (a b : Fields) (sawNull : Bool) : List String → Option Bool
  | [] => if sawNull then none else some true
  | key :: keys =>
    match a.columnByName key, b.columnByName key with
    | some x, some y =>
      match eq x y with
      | some false => some false
      | none => structEqLoop a b true keys
      | some true => structEqLoop a b sawNull keys
    | _, _ => none

/-- The keys of a struct in ascending order. -/
def sortedKeys (fields : Fields) : List String := fields.names.insertionSort (· ≤ ·)

/-- `cypher_struct_eq`. -/
def cypherStructEq (a b : Fields) : Option Bool :=
  if sortedKeys a ≠ sortedKeys b then some false else structEqLoop eq a b false (sortedKeys a)

/-- Equality of the identity fields of two entities; an entity without one equals nothing. -/
def identityEq (a b : Fields) (name : String) : Option Bool :=
  match a.columnByName name, b.columnByName name with
  | some l, some r => eq l r
  | _, _ => some false

/-- `entity_identity_eq`. -/
def entityIdentityEq (a b : Fields) : Option Bool :=
  if entityKind a ≠ entityKind b then some false
  else match entityKind a with
    | none => none
    | some .node => identityEq eq a b "node_uuid"
    | some .relationship => identityEq eq a b "edge_uuid"
    | some .path =>
      match identityEq eq a b "nodes" with
      | none => none
      | some true => identityEq eq a b "relationships"
      | some false => some false

/-- A node or relationship against a bare 16-byte UUID. -/
def entityUuidEq (entity : Fields) (uuid : ScalarValue) (otherwise : Option Bool) : Option Bool :=
  match entityKind entity with
  | some .node => entity.columnByName "node_uuid" >>= (eq · uuid)
  | some .relationship => entity.columnByName "edge_uuid" >>= (eq · uuid)
  | _ => otherwise

/-- The arms of `cypher_value_eq` for two values that are neither null nor tagged. -/
def cypherPlainEq (ops : ScalarOps) (l r : ScalarValue) : Option Bool :=
  match l, r with
  | .list .small _ _ _ a, .list .small _ _ _ b => cypherSeqEq eq a b
  | .list .large _ _ _ a, .list .large _ _ _ b => cypherSeqEq eq a b
  | .struct a va, .struct b vb =>
    if (temporalKind (.struct a va)).isSome || (temporalKind (.struct b vb)).isSome then
      temporalValueEq (.struct a va) (.struct b vb)
    else if isEntityStruct a || isEntityStruct b then entityIdentityEq eq a b
    else cypherStructEq eq a b
  | .struct a va, .fixedSizeBinary 16 (some uuid) =>
    entityUuidEq eq a (.fixedSizeBinary 16 (some uuid))
      (cypherScalarEq ops (.struct a va) (.fixedSizeBinary 16 (some uuid)))
  | .fixedSizeBinary 16 (some uuid), .struct b vb =>
    entityUuidEq eq b (.fixedSizeBinary 16 (some uuid))
      (cypherScalarEq ops (.fixedSizeBinary 16 (some uuid)) (.struct b vb))
  | l, r => cypherScalarEq ops l r

/-- The body of `cypher_value_eq`. -/
def cypherValueEqBody (ops : ScalarOps) (l r : ScalarValue) : Option Bool :=
  if l.isNull || r.isNull then none
  else match decodeHet l with
    | some dl => eq dl r
    | none =>
      match decodeHet r with
      | some dr => eq l dr
      | none => cypherPlainEq eq ops l r

end Loops

/-- `cypher_value_eq`. -/
def cypherValueEq (ops : ScalarOps) (l r : ScalarValue) : Option Bool :=
  MeasuredFix.fix pairSize
    (fun eq p => cypherValueEqBody (fun x y => eq (x, y)) ops p.1 p.2) (l, r)

/-! ## The equality hash -/

/-- One write to the hasher. -/
inductive HashToken where
  | u8 (n : ℕ)
  | u64 (n : ℕ)
  | usize (n : ℕ)
  | i32 (n : Int32)
  | i64 (n : Int64)
  | str (s : String)
  | discriminant (v : ScalarValue.Variant)
  | scalar (words : List ℕ)
  deriving DecidableEq

/-- The variants whose payload `ScalarValue`'s own `Hash` feeds. -/
def isHashedVariant : ScalarValue → Bool
  | .boolean _ | .utf8 _ | .largeUtf8 _ | .time64Nanosecond _ | .fixedSizeBinary _ _ => true
  | .flat variant _ _ => !([FlatVariant.float16, .union, .runEndEncoded].contains variant)
  | _ => false

/-- What the hash of the components writes, after the tag of temporal values. -/
def TemporalParts.tokens : TemporalParts → List HashToken
  | .date days => [.u8 0, .i64 days]
  | .localDateTime (days, nanos) => [.u8 1, .i64 days, .i64 nanos]
  | .time (nanos, offset) => [.u8 2, .i64 nanos, .i32 offset]
  | .dateTime (days, nanos, offset, none) =>
    [.u8 3, .i64 days, .i64 nanos, .i32 offset, .usize 0]
  | .dateTime (days, nanos, offset, some zone) =>
    [.u8 3, .i64 days, .i64 nanos, .i32 offset, .usize 1, .str zone]
  | .duration (months, days, seconds, nanos) =>
    [.u8 4, .i64 months, .i64 days, .i64 seconds, .i64 nanos]

/-- `feed_temporal_hash`. -/
def feedTemporalHash (fields : Fields) (valid : Bool) (kind : TemporalKind) :
    Option (List HashToken) :=
  (temporalParts fields valid kind).map fun parts => .u8 4 :: parts.tokens

/-- The last arms of `feed_equality_hash`: numbers, then scalars by type and payload. -/
def feedScalarHash (ops : ScalarOps) (v : ScalarValue) : Option (List HashToken) :=
  match scalarAsF64 v with
  | some f => if f.isNaN then none else some [.u8 2, .u64 f.canonical.bits.toNat]
  | none =>
    some (.u8 3 :: .discriminant v.discriminant ::
      if isHashedVariant v then [.scalar (ops.hash v)] else [])

section Loops

variable (feed : ScalarValue → Option (List HashToken))

/-- `feed_seq_hash`. -/
def feedSeqHash (tag : ℕ) (elements : List ScalarValue) : Option (List HashToken) :=
  (elements.mapM feed).map fun tokens => .u8 tag :: .usize elements.length :: tokens.flatten

/-- `feed_entity_hash`. -/
def feedEntityHash (fields : Fields) : EntityKind → Option (List HashToken)
  | .node => fields.columnByName "node_uuid" >>= feed
  | .relationship => fields.columnByName "edge_uuid" >>= feed
  | .path => do
    let nodes ← fields.columnByName "nodes" >>= feed
    let relationships ← fields.columnByName "relationships" >>= feed
    return nodes ++ relationships

/-- `feed_map_hash`. -/
def feedMapHash (fields : Fields) : Option (List HashToken) :=
  ((sortedKeys fields).mapM fun key => fields.columnByName key >>= feed).map fun tokens =>
    .u8 5 :: .usize (sortedKeys fields).length :: (sortedKeys fields).map .str ++ tokens.flatten

/-- The arms of `feed_equality_hash` for a value that is neither null nor tagged. -/
def feedPlainHash (ops : ScalarOps) : ScalarValue → Option (List HashToken)
  | .list .small _ _ _ elements => feedSeqHash feed 0 elements
  | .list .large _ _ _ elements => feedSeqHash feed 1 elements
  | .struct fields valid =>
    match temporalKind (.struct fields valid) with
    | some kind => feedTemporalHash fields valid kind
    | none =>
      match entityKind fields with
      | some kind => feedEntityHash feed fields kind
      | none => feedMapHash feed fields
  | v => feedScalarHash ops v

/-- The body of `feed_equality_hash`. -/
def feedEqualityHashBody (ops : ScalarOps) (v : ScalarValue) : Option (List HashToken) :=
  if v.isNull then none
  else match decodeHet v with
    | some decoded => feed decoded
    | none => feedPlainHash feed ops v

end Loops

/-- `feed_equality_hash`: the writes, or `none` for a value that is never equal to anything. -/
def feedEqualityHash (ops : ScalarOps) (v : ScalarValue) : Option (List HashToken) :=
  MeasuredFix.fix ScalarValue.size (fun feed v => feedEqualityHashBody feed ops v) v

/-- `cypher_equality_hash`, where `finish` is what `DefaultHasher` makes of the writes. -/
def cypherEqualityHash (ops : ScalarOps) (finish : List HashToken → UInt64) (v : ScalarValue) :
    Option UInt64 :=
  (feedEqualityHash ops v).map finish

/-! ## The recursive equations -/

section Guarded

variable {eq eq' : ScalarValue → ScalarValue → Option Bool}

lemma seqEqLoop_congr {pairs : List (ScalarValue × ScalarValue)}
    (h : ∀ p ∈ pairs, eq p.1 p.2 = eq' p.1 p.2) (sawNull : Bool) :
    seqEqLoop eq sawNull pairs = seqEqLoop eq' sawNull pairs := by
  induction pairs generalizing sawNull with
  | nil => rfl
  | cons p pairs ih =>
    have hrest := ih fun q hq => h q (List.mem_cons_of_mem _ hq)
    simp only [seqEqLoop, h p List.mem_cons_self, hrest]

section
variable {a b : Fields}
  (h : ∀ name x y, a.columnByName name = some x → b.columnByName name = some y → eq x y = eq' x y)
include h

lemma structEqLoop_congr (sawNull : Bool) (keys : List String) :
    structEqLoop eq a b sawNull keys = structEqLoop eq' a b sawNull keys := by
  induction keys generalizing sawNull with
  | nil => rfl
  | cons key keys ih =>
    rw [structEqLoop, structEqLoop]
    split
    · rename_i x y hx hy
      rw [h key x y hx hy, ih true, ih sawNull]
    · rfl

lemma identityEq_congr (name : String) : identityEq eq a b name = identityEq eq' a b name := by
  unfold identityEq
  split
  · rename_i x y hx hy
    exact h name x y hx hy
  · rfl

end

lemma entityUuidEq_congr {entity : Fields} {uuid : ScalarValue} {otherwise : Option Bool}
    (h : ∀ name x, entity.columnByName name = some x → eq x uuid = eq' x uuid) :
    entityUuidEq eq entity uuid otherwise = entityUuidEq eq' entity uuid otherwise := by
  have hbind : ∀ name, (entity.columnByName name >>= (eq · uuid)) =
      (entity.columnByName name >>= (eq' · uuid)) := by
    intro name
    cases hcol : entity.columnByName name with
    | none => rfl
    | some x => exact h name x hcol
  simp only [entityUuidEq, hbind]

section
variable {ops : ScalarOps} {l r : ScalarValue}
  (h : ∀ x y, x.size + y.size < l.size + r.size → eq x y = eq' x y)
include h

/-- Equality of plain values depends on that of their parts alone. -/
lemma cypherPlainEq_congr : cypherPlainEq eq ops l r = cypherPlainEq eq' ops l r := by
  have hseq : ∀ a b : List ScalarValue,
      (∀ x ∈ a, ∀ y ∈ b, eq x y = eq' x y) → cypherSeqEq eq a b = cypherSeqEq eq' a b := by
    intro a b hab
    unfold cypherSeqEq
    rw [seqEqLoop_congr]
    intro p hp
    exact hab p.1 (List.of_mem_zip hp).1 p.2 (List.of_mem_zip hp).2
  have hcols : ∀ (a b : Fields) (va vb : Bool), l = .struct a va → r = .struct b vb →
      ∀ name x y, a.columnByName name = some x → b.columnByName name = some y →
        eq x y = eq' x y := by
    intro a b va vb hl hr name x y hx hy
    have h1 := @Fields.size_lt_of_columnByName a name x va hx
    have h2 := @Fields.size_lt_of_columnByName b name y vb hy
    exact h x y (by rw [hl, hr]; omega)
  unfold cypherPlainEq
  split
  · apply hseq
    intro x hx y hy
    exact h x y (Nat.add_lt_add (ScalarValue.size_lt_of_mem_list hx)
      (ScalarValue.size_lt_of_mem_list hy))
  · apply hseq
    intro x hx y hy
    exact h x y (Nat.add_lt_add (ScalarValue.size_lt_of_mem_list hx)
      (ScalarValue.size_lt_of_mem_list hy))
  · rename_i a va b vb
    have hab := hcols a b va vb rfl rfl
    simp only [entityIdentityEq, cypherStructEq, identityEq_congr hab, structEqLoop_congr hab]
  · rename_i a va uuid
    apply entityUuidEq_congr
    intro name x hx
    have := @Fields.size_lt_of_columnByName a name x va hx
    exact h x _ (by omega)
  · rename_i uuid b vb
    apply entityUuidEq_congr
    intro name x hx
    have := @Fields.size_lt_of_columnByName b name x vb hx
    exact h x _ (by omega)
  · rfl

lemma cypherValueEqBody_congr : cypherValueEqBody eq ops l r = cypherValueEqBody eq' ops l r := by
  unfold cypherValueEqBody
  split
  · rfl
  split
  · rename_i dl hdl
    have := size_decodeHet hdl
    exact h dl r (by omega)
  · split
    · rename_i dr hdr
      have := size_decodeHet hdr
      exact h l dr (by omega)
    · exact cypherPlainEq_congr h

end

variable {feed feed' : ScalarValue → Option (List HashToken)}

section
variable {ops : ScalarOps} {v : ScalarValue} (h : ∀ x, x.size < v.size → feed x = feed' x)
include h

/-- The feed of a plain value depends on those of its parts alone. -/
lemma feedPlainHash_congr : feedPlainHash feed ops v = feedPlainHash feed' ops v := by
  have hseq : ∀ tag xs, (∀ x ∈ xs, feed x = feed' x) →
      feedSeqHash feed tag xs = feedSeqHash feed' tag xs := by
    intro tag xs hxs
    unfold feedSeqHash
    rw [List.mapM_congr_of_mem hxs]
  unfold feedPlainHash
  split
  · apply hseq
    intro x hx
    exact h x (ScalarValue.size_lt_of_mem_list hx)
  · apply hseq
    intro x hx
    exact h x (ScalarValue.size_lt_of_mem_list hx)
  · rename_i fields valid
    have hbind : ∀ name, (Fields.columnByName fields name >>= feed) =
        (Fields.columnByName fields name >>= feed') := by
      intro name
      cases hcol : Fields.columnByName fields name with
      | none => rfl
      | some x => exact h x (Fields.size_lt_of_columnByName hcol)
    have hentity : ∀ kind, feedEntityHash feed fields kind = feedEntityHash feed' fields kind := by
      intro kind
      cases kind <;> simp only [feedEntityHash, hbind]
    have hmap : feedMapHash feed fields = feedMapHash feed' fields := by
      simp only [feedMapHash, hbind]
    simp only [hentity, hmap]
  · rfl

lemma feedEqualityHashBody_congr :
    feedEqualityHashBody feed ops v = feedEqualityHashBody feed' ops v := by
  unfold feedEqualityHashBody
  split
  · rfl
  · split
    · rename_i d hd
      exact h d (size_decodeHet hd)
    · exact feedPlainHash_congr h

end

end Guarded

/-- The equation of equality. -/
theorem cypherValueEq_eq (ops : ScalarOps) (l r : ScalarValue) :
    cypherValueEq ops l r = cypherValueEqBody (cypherValueEq ops) ops l r := by
  apply MeasuredFix.fix_eq pairSize
  intro f g p hfg
  apply cypherValueEqBody_congr
  intro x y hxy
  exact hfg (x, y) hxy

/-- The equation of the feed. -/
theorem feedEqualityHash_eq (ops : ScalarOps) (v : ScalarValue) :
    feedEqualityHash ops v = feedEqualityHashBody (feedEqualityHash ops) ops v := by
  apply MeasuredFix.fix_eq ScalarValue.size
  intro f g v hfg
  exact feedEqualityHashBody_congr hfg

end GraphForge.Values
