import GraphForge.Digest
import GraphForge.Values.OrderTheorems

/-!
# Sort keys

`cypherOrderKey` writes a value as text, for a sort that compares text. The key of a list is the
keys of its elements, each closed by a bar, and an end mark. Numbers have keys of one length, but
the key of a text inside a list is closed by a bar that comes after most characters, the keys rank
maps and nulls where the Cypher order does not, and all maps share one key.
-/

namespace GraphForge.Values

open List Comparison

/-! ## The keys -/

/-- `ordered_f64_key`: set the sign bit of a nonnegative pattern, complement a negative one. -/
def orderedF64Key (f : Binary64) : List Char :=
  hexText (Bytes.beBytes 8
    (if f.negative then 2 ^ 64 - 1 - f.bits.toNat else f.bits.toNat + 2 ^ 63))

/-- `ordered_i128_key`: flip the sign bit of the two's complement. -/
def orderedI128Key (value : ℤ) : List Char :=
  hexText (Bytes.beBytes 16 ((value + 2 ^ 127) % 2 ^ 128).toNat)

/-- `numeric_order_key`: both parts have fixed width. -/
def numericOrderKey (primary : Binary64) (residual : ℤ) : List Char :=
  "80:num:".toList ++ orderedF64Key primary.canonical ++ ':' :: orderedI128Key residual

/-- The key of a struct: temporal values with a zone by instant, everything else by kind alone. -/
def structOrderKey (fields : Fields) (valid : Bool) : List Char :=
  if isTimeStruct (ScalarValue.dataType (.struct fields valid)) then
    match timeStructParts fields valid with
    | none => "99:null".toList
    | some (nanos, offset) =>
      "55:time:".toList ++ orderedI128Key (nanos.toInt - offset.toInt * 1000000000) ++ ':' ::
        orderedI128Key offset.toInt
  else if isDatetimeStruct (ScalarValue.dataType (.struct fields valid)) then
    match datetimeStructParts fields valid with
    | none => "99:null".toList
    | some (days, nanos, offset, zone) =>
      "55:datetime:".toList ++
        orderedI128Key (days.toInt * 86400000000000 + nanos.toInt - offset.toInt * 1000000000) ++
        ':' :: orderedI128Key offset.toInt ++
        ':' :: match zone with
          | none => ['0']
          | some zone => '1' :: zone.toList
  else if isPathStruct fields then "50:path".toList
  else if isRelStruct fields then "30:rel".toList
  else if isNodeStruct fields then "20:node".toList
  else "10:map".toList

/-- `cypher_list_order_key`. -/
def listOrderKey (key : ScalarValue → List Char) (elements : List ScalarValue) : List Char :=
  (elements.flatMap fun v => key v ++ ['|']) ++ "00:end".toList

/-- The key of an unwrapped value, given the keys of its parts. -/
def plainOrderKey (key : ScalarValue → List Char) (v : ScalarValue) : List Char :=
  if v.isNull then "99:null".toList
  else match v with
    | .struct fields valid => structOrderKey fields valid
    | .list .small _ _ _ elements => "40:list:".toList ++ listOrderKey key elements
    | .list .large _ _ _ elements => "40:list:".toList ++ listOrderKey key elements
    | .utf8 (some text) => "60:str:".toList ++ text.toList
    | .largeUtf8 (some text) => "60:str:".toList ++ text.toList
    | .boolean (some b) => "70:bool:".toList ++ [if b then '1' else '0']
    | .int (.int64 (some n)) =>
      numericOrderKey (Binary64.ofInt n.toInt) (n.toInt - (Binary64.ofInt n.toInt).toI128)
    | .float64 (some f) => if f.isNaN then "90:nan".toList else numericOrderKey f 0
    | _ => "98:other".toList

variable (v : ScalarValue)

/-- The characters of `cypher_order_key`. -/
def orderKeyText : List Char :=
  MeasuredFix.fix ScalarValue.size (fun key v => plainOrderKey key (unwrapHet v)) v

/-- `cypher_order_key`. -/
def cypherOrderKey : String := String.ofList (orderKeyText v)

lemma plainOrderKey_congr {key key' : ScalarValue → List Char} {v : ScalarValue}
    (h : ∀ x, x.size < v.size → key x = key' x) : plainOrderKey key v = plainOrderKey key' v := by
  have hlist : ∀ xs : List ScalarValue, (∀ x ∈ xs, key x = key' x) →
      listOrderKey key xs = listOrderKey key' xs := by
    intro xs hxs
    unfold listOrderKey
    congr 1
    apply flatMap_congr
    intro x hx
    rw [hxs x hx]
  unfold plainOrderKey
  split
  · rfl
  split <;> first | rfl | skip
  · rw [hlist]
    intro x hx
    exact h x (ScalarValue.size_lt_of_mem_list hx)
  · rw [hlist]
    intro x hx
    exact h x (ScalarValue.size_lt_of_mem_list hx)

theorem orderKeyText_eq : orderKeyText v = plainOrderKey orderKeyText (unwrapHet v) := by
  apply MeasuredFix.fix_eq ScalarValue.size
  intro f g v hfg
  apply plainOrderKey_congr
  intro x hx
  have := size_unwrapHet v
  exact hfg x (by omega)

/-! ## Comparing keys -/

/-- Comparison of texts, character by character. -/
abbrev compareText : List Char → List Char → Ordering := compareLists compare

lemma compare_self (c : Char) : compare c c = .eq := compare_eq_iff_eq.mpr rfl

lemma compare_eq_compareText (s t : String) : compare s t = compareText s.toList t.toList :=
  (compareLists_eq_compare String.lt_iff_toList_lt String.lt_iff_toList_lt).symm

/-- A number compares as its leading digit, then its last. -/
lemma compare_digits (x y : ℕ) :
    (compare (x / 16) (y / 16)).then (compare (x % 16) (y % 16)) = compare x y := by
  rcases lt_trichotomy (x / 16) (y / 16) with h | h | h
  · rw [compare_lt_iff_lt.mpr h, compare_lt_iff_lt.mpr (by omega : x < y)]
    rfl
  · rw [h, compare_eq_iff_eq.mpr rfl]
    show compare (x % 16) (y % 16) = compare x y
    exact compare_congr (by omega) (by omega)
  · rw [compare_gt_iff_gt.mpr h, compare_gt_iff_gt.mpr (by omega : y < x)]
    rfl

lemma map_toNat_lt_iff (xs ys : List UInt8) :
    xs.map UInt8.toNat < ys.map UInt8.toNat ↔ xs < ys := by
  induction xs generalizing ys with
  | nil => cases ys <;> simp
  | cons x xs ih =>
    cases ys with
    | nil => simp
    | cons y ys =>
      rw [map_cons, map_cons, cons_lt_cons_iff, cons_lt_cons_iff, ih,
        UInt8.lt_iff_toNat_lt, UInt8.toNat_inj]

/-- Hexadecimal text compares as the bytes do. -/
lemma compareText_hexText (xs ys : List UInt8) : compareText (hexText xs) (hexText ys) =
      compareLists compare (xs.map UInt8.toNat) (ys.map UInt8.toNat) := by
  have hdigit : ∀ m n : Fin 16, compare (hexDigit m) (hexDigit n) = compare m.val n.val := by
    decide +kernel
  induction xs generalizing ys with
  | nil => cases ys <;> simp [hexText]
  | cons x xs ih =>
    cases ys with
    | nil => simp [hexText]
    | cons y ys =>
      have hx := x.toNat_lt
      have hy := y.toNat_lt
      have hcons : ∀ (b : UInt8) (bs : List UInt8), hexText (b :: bs) =
          hexDigit (b.toNat / 16) :: hexDigit (b.toNat % 16) :: hexText bs := fun b bs => rfl
      rw [hcons, hcons, map_cons, map_cons, compareLists_cons_cons, ← ih, compareText,
        compareLists_cons_cons, compareLists_cons_cons,
        hdigit ⟨x.toNat / 16, by omega⟩ ⟨y.toNat / 16, by omega⟩,
        hdigit ⟨x.toNat % 16, by omega⟩ ⟨y.toNat % 16, by omega⟩, ← Ordering.then_assoc,
        compare_digits]

/-- Hexadecimal numbers of one width compare as numbers. -/
lemma compareText_hex {n v w : ℕ} (hv : v < 256 ^ n) (hw : w < 256 ^ n) :
    compareText (hexText (Bytes.beBytes n v)) (hexText (Bytes.beBytes n w)) = compare v w := by
  rw [compareText_hexText]
  apply compareLists_eq_compare (f := fun v => (Bytes.beBytes n v).map UInt8.toNat)
  · rw [map_toNat_lt_iff, Bytes.beBytes_lt_iff hv hw]
  · rw [map_toNat_lt_iff, Bytes.beBytes_lt_iff hw hv]

/-! ## Numbers -/

/-- The number that `ordered_f64_key` spells. -/
def orderedBits (f : Binary64) : ℕ :=
  if f.negative then 2 ^ 64 - 1 - f.bits.toNat else f.bits.toNat + 2 ^ 63

lemma orderedBits_lt (f : Binary64) : orderedBits f < 256 ^ 8 := by
  have h := f.toNat_bits
  have hm := f.magnitude_lt
  unfold orderedBits
  split <;> simp_all <;> omega

/-- Apart from negative zero, the spelled numbers are in the order of the doubles. -/
lemma orderedBits_lt_iff {f g : Binary64} (hf : f.negative = true → 0 < f.magnitude)
    (hg : g.negative = true → 0 < g.magnitude) :
    orderedBits f < orderedBits g ↔ f.rank < g.rank := by
  have hbf := f.toNat_bits
  have hbg := g.toNat_bits
  unfold orderedBits Binary64.rank
  cases hnf : f.negative <;> cases hng : g.negative <;> simp_all <;> omega

lemma compareText_orderedI128Key {r s : ℤ} (hr : -2 ^ 127 ≤ r ∧ r < 2 ^ 127)
    (hs : -2 ^ 127 ≤ s ∧ s < 2 ^ 127) :
    compareText (orderedI128Key r) (orderedI128Key s) = compare r s := by
  have hr' : (r + 2 ^ 127) % 2 ^ 128 = r + 2 ^ 127 := Int.emod_eq_of_lt (by omega) (by omega)
  have hs' : (s + 2 ^ 127) % 2 ^ 128 = s + 2 ^ 127 := Int.emod_eq_of_lt (by omega) (by omega)
  unfold orderedI128Key
  rw [hr', hs', compareText_hex (by norm_num; omega) (by norm_num; omega)]
  exact compare_congr (by omega) (by omega)

lemma length_orderedI128Key (r : ℤ) : (orderedI128Key r).length = 32 := by simp [orderedI128Key]

lemma natAbs_toInt_le (n : Int64) : n.toInt.natAbs ≤ 2 ^ 64 := by
  have h1 := n.toInt_lt
  have h2 := n.le_toInt
  omega

/-- What the key of a number spells: a double, and by how much an integer exceeds it. -/
def numberParts : ScalarValue → Option (Binary64 × ℤ)
  | .int (.int64 (some n)) =>
    some (Binary64.ofInt n.toInt, n.toInt - (Binary64.ofInt n.toInt).toI128)
  | .float64 (some f) => if f.isNaN then none else some (f, 0)
  | _ => none

lemma plainOrderKey_of_numberParts {v : ScalarValue} {f : Binary64} {r : ℤ}
    (h : numberParts v = some (f, r)) (key : ScalarValue → List Char) :
    plainOrderKey key v = numericOrderKey f r ∧ orderRank v = 4 ∧ scalarAsF64 v = some f ∧
      f.isNaN = false ∧ -2 ^ 127 ≤ r ∧ r < 2 ^ 127 := by
  unfold numberParts at h
  split at h
  case h_1 n =>
    obtain ⟨rfl, rfl⟩ := Prod.mk.injEq .. ▸ Option.some.inj h
    have hn := natAbs_toInt_le n
    have hi128 := Binary64.natAbs_toI128_ofInt hn
    exact ⟨rfl, rfl, rfl, Binary64.isNaN_ofInt hn, by omega, by omega⟩
  case h_2 g =>
    split at h
    · cases h
    · rename_i hnan
      obtain ⟨rfl, rfl⟩ := Prod.mk.injEq .. ▸ Option.some.inj h
      refine ⟨?_, rfl, rfl, Bool.not_eq_true _ ▸ hnan, by omega, by omega⟩
      show (if g.isNaN then _ else _) = _
      rw [if_neg hnan]
  case h_3 => cases h

/-- Keys of numbers compare as the doubles, then as the residuals, whatever follows them. -/
lemma compareText_numericOrderKey {f g : Binary64} {r s : ℤ} (hf : f.isNaN = false)
    (hg : g.isNaN = false) (hr : -2 ^ 127 ≤ r ∧ r < 2 ^ 127) (hs : -2 ^ 127 ≤ s ∧ s < 2 ^ 127)
    (us vs : List Char) :
    compareText (numericOrderKey f r ++ us) (numericOrderKey g s ++ vs) =
      ((compare f.rank g.rank).then (compare r s)).then (compareText us vs) := by
  have hprimary : compareText (orderedF64Key f.canonical) (orderedF64Key g.canonical) =
      compare f.rank g.rank := by
    have hpos := Binary64.magnitude_pos_of_negative_canonical hf
    have hpos' := Binary64.magnitude_pos_of_negative_canonical hg
    rw [← Binary64.rank_canonical hf, ← Binary64.rank_canonical hg,
      ← compare_congr (orderedBits_lt_iff hpos hpos') (orderedBits_lt_iff hpos' hpos)]
    exact compareText_hex (orderedBits_lt _) (orderedBits_lt _)
  have hlen : ∀ f : Binary64, (orderedF64Key f).length = 16 := by simp [orderedF64Key]
  unfold numericOrderKey
  simp only [append_assoc, cons_append]
  rw [compareText, compareLists_append_left compare_self, compareLists_append (by rw [hlen, hlen]),
    compareLists_cons_cons, compare_self,
    compareLists_append (by rw [length_orderedI128Key, length_orderedI128Key])]
  show (compareText _ _).then ((compareText _ _).then _) = _
  rw [hprimary, compareText_orderedI128Key hr hs, ← Ordering.then_assoc]

/-! ## Kinds of keys -/

/-- The kinds of keys, in the order of their tags. -/
inductive KeyKind where
  | map
  | node
  | rel
  | list
  | path
  | datetime
  | time
  | text
  | truth
  | number
  | nan
  | other
  | null
  deriving DecidableEq, Repr

/-- The start of every key of a kind. -/
def KeyKind.tag : KeyKind → List Char
  | .map => "10:map".toList
  | .node => "20:node".toList
  | .rel => "30:rel".toList
  | .list => "40:list:".toList
  | .path => "50:path".toList
  | .datetime => "55:datetime:".toList
  | .time => "55:time:".toList
  | .text => "60:str:".toList
  | .truth => "70:bool:".toList
  | .number => "80:num:".toList
  | .nan => "90:nan".toList
  | .other => "98:other".toList
  | .null => "99:null".toList

/-- Whether the key of a kind is its tag alone. -/
def KeyKind.isBare : KeyKind → Bool
  | .map | .node | .rel | .path | .nan | .other | .null => true
  | _ => false

/-- What the key of a time or a datetime spells after its tag. -/
structure InstantParts where
  instant : ℤ
  offset : ℤ
  zone : List Char

/-- The parts of a time, which has no zone, or of a datetime. -/
def instantParts : ScalarValue → Option (KeyKind × InstantParts)
  | .struct fields valid =>
    if isTimeStruct (ScalarValue.dataType (.struct fields valid)) then
      match timeStructParts fields valid with
      | none => none
      | some (nanos, offset) =>
        some (.time, ⟨nanos.toInt - offset.toInt * 1000000000, offset.toInt, []⟩)
    else if isDatetimeStruct (ScalarValue.dataType (.struct fields valid)) then
      match datetimeStructParts fields valid with
      | none => none
      | some (days, nanos, offset, zone) =>
        some (.datetime,
          ⟨days.toInt * 86400000000000 + nanos.toInt - offset.toInt * 1000000000, offset.toInt,
            ':' :: match zone with
              | none => ['0']
              | some zone => '1' :: zone.toList⟩)
    else none
  | _ => none

namespace InstantParts

/-- The text of the parts. -/
def text (p : InstantParts) : List Char :=
  orderedI128Key p.instant ++ ':' :: orderedI128Key p.offset ++ p.zone

/-- The order that the text realises: instants, then offsets, then zones. -/
def order (p q : InstantParts) : Ordering :=
  ((compare p.instant q.instant).then (compare p.offset q.offset)).then (compareText p.zone q.zone)

/-- Instants and offsets that the keys spell in full. -/
def InRange (p : InstantParts) : Prop :=
  (-2 ^ 127 ≤ p.instant ∧ p.instant < 2 ^ 127) ∧ -2 ^ 127 ≤ p.offset ∧ p.offset < 2 ^ 127

/-- Texts of parts compare as their order, when what follows does not mix with the zones. -/
lemma compareText_text {p q : InstantParts} (hp : p.InRange) (hq : q.InRange) {us vs : List Char}
    {rest : Ordering}
    (hzone : compareText (p.zone ++ us) (q.zone ++ vs) = (compareText p.zone q.zone).then rest) :
    compareText (p.text ++ us) (q.text ++ vs) = (p.order q).then rest := by
  have hlen : (orderedI128Key p.instant).length = (orderedI128Key q.instant).length := by
    rw [length_orderedI128Key, length_orderedI128Key]
  have hlen' : (orderedI128Key p.offset).length = (orderedI128Key q.offset).length := by
    rw [length_orderedI128Key, length_orderedI128Key]
  unfold text order
  simp only [append_assoc, cons_append]
  rw [compareText, compareLists_append hlen, compareLists_cons_cons, compare_self,
    compareLists_append hlen']
  show (compareText _ _).then ((compareText _ _).then (compareText _ _)) = _
  rw [compareText_orderedI128Key hp.1 hq.1, compareText_orderedI128Key hp.2 hq.2, hzone,
    Ordering.then_assoc, Ordering.then_assoc]

end InstantParts

lemma plainOrderKey_of_instantParts {v : ScalarValue} {kind : KeyKind} {p : InstantParts}
    (h : instantParts v = some (kind, p)) (key : ScalarValue → List Char) :
    plainOrderKey key v = kind.tag ++ p.text ∧ p.InRange := by
  cases v with
  | struct fields valid =>
    simp only [instantParts] at h
    cases valid with
    | false => simp [timeStructParts, datetimeStructParts] at h
    | true =>
      show structOrderKey fields true = _ ∧ _
      unfold structOrderKey InstantParts.InRange
      split at h
      case isTrue htime =>
        rw [if_pos htime]
        split at h
        · cases h
        · rename_i nanos offset _
          cases h
          have h1 := nanos.toInt_lt
          have h2 := nanos.le_toInt
          have h3 := offset.toInt_lt
          have h4 := offset.le_toInt
          refine ⟨by rw [InstantParts.text, append_nil, ← append_assoc]; rfl, ?_, ?_⟩
          · constructor <;> dsimp only <;> omega
          · constructor <;> dsimp only <;> omega
      case isFalse htime =>
        rw [if_neg htime]
        split at h
        case isFalse => cases h
        case isTrue hdatetime =>
          rw [if_pos hdatetime]
          split at h
          · cases h
          · rename_i days nanos offset zone _
            cases h
            have h1 := nanos.toInt_lt
            have h2 := nanos.le_toInt
            have h3 := offset.toInt_lt
            have h4 := offset.le_toInt
            have h5 := days.toInt_lt
            have h6 := days.le_toInt
            refine ⟨by rw [InstantParts.text, ← append_assoc, ← append_assoc]; rfl, ?_, ?_⟩
            · constructor <;> dsimp only <;> omega
            · constructor <;> dsimp only <;> omega
  | _ => cases h

/-- What the unwrapped values of each kind are. -/
inductive KeyShape : KeyKind → ScalarValue → Prop
  | bare {kind : KeyKind} {v : ScalarValue} : kind.isBare = true →
      (∀ key, plainOrderKey key v = kind.tag) → KeyShape kind v
  | list (item : FieldHeader) (type : DataType) (xs : List ScalarValue) :
      KeyShape .list (.list .small item type true xs)
  | largeList (item : FieldHeader) (type : DataType) (xs : List ScalarValue) :
      KeyShape .list (.list .large item type true xs)
  | datetime {v : ScalarValue} {p : InstantParts} :
      instantParts v = some (.datetime, p) → KeyShape .datetime v
  | time {v : ScalarValue} {p : InstantParts} :
      instantParts v = some (.time, p) → KeyShape .time v
  | text (s : String) : KeyShape .text (.utf8 (some s))
  | largeText (s : String) : KeyShape .text (.largeUtf8 (some s))
  | truth (b : Bool) : KeyShape .truth (.boolean (some b))
  | number {v : ScalarValue} {f : Binary64} {r : ℤ} :
      numberParts v = some (f, r) → KeyShape .number v

lemma exists_keyShape_struct (fields : Fields) : ∃ kind, KeyShape kind (.struct fields true) := by
  by_cases htime : isTimeStruct (ScalarValue.dataType (.struct fields true)) = true
  · cases hparts : timeStructParts fields true with
    | none =>
      refine ⟨.null, .bare rfl fun key => ?_⟩
      show structOrderKey fields true = _
      rw [structOrderKey, if_pos htime, hparts]
      rfl
    | some parts =>
      exact ⟨.time, .time (by rw [instantParts, if_pos htime, hparts])⟩
  by_cases hdatetime : isDatetimeStruct (ScalarValue.dataType (.struct fields true)) = true
  · cases hparts : datetimeStructParts fields true with
    | none =>
      refine ⟨.null, .bare rfl fun key => ?_⟩
      show structOrderKey fields true = _
      rw [structOrderKey, if_neg htime, if_pos hdatetime, hparts]
      rfl
    | some parts =>
      exact ⟨.datetime, .datetime (by rw [instantParts, if_neg htime, if_pos hdatetime, hparts])⟩
  have hkey : ∀ key, plainOrderKey key (.struct fields true) =
      if isPathStruct fields then "50:path".toList
      else if isRelStruct fields then "30:rel".toList
      else if isNodeStruct fields then "20:node".toList
      else "10:map".toList := by
    intro key
    show structOrderKey fields true = _
    rw [structOrderKey, if_neg htime, if_neg hdatetime]
  by_cases hpath : isPathStruct fields = true
  · exact ⟨.path, .bare rfl fun key => by rw [hkey, if_pos hpath]; rfl⟩
  by_cases hrel : isRelStruct fields = true
  · exact ⟨.rel, .bare rfl fun key => by rw [hkey, if_neg hpath, if_pos hrel]; rfl⟩
  by_cases hnode : isNodeStruct fields = true
  · exact ⟨.node, .bare rfl fun key => by rw [hkey, if_neg hpath, if_neg hrel, if_pos hnode]; rfl⟩
  · exact ⟨.map, .bare rfl fun key => by rw [hkey, if_neg hpath, if_neg hrel, if_neg hnode]; rfl⟩

/-- Every value has a kind. -/
lemma exists_keyShape : ∃ kind, KeyShape kind v := by
  by_cases hnull : v.isNull = true
  · exact ⟨.null, .bare rfl fun key => if_pos hnull⟩
  have hkey : ∀ key, plainOrderKey key v = _ := fun key => if_neg hnull
  cases v with
  | struct fields valid =>
    obtain rfl : valid = true := by simpa [ScalarValue.isNull] using hnull
    exact exists_keyShape_struct fields
  | list size item type valid xs =>
    obtain rfl : valid = true := by simpa [ScalarValue.isNull] using hnull
    cases size with
    | small => exact ⟨.list, .list item type xs⟩
    | large => exact ⟨.list, .largeList item type xs⟩
    | _ => exact ⟨.other, .bare rfl hkey⟩
  | utf8 text =>
    cases text with
    | none => exact absurd rfl hnull
    | some s => exact ⟨.text, .text s⟩
  | largeUtf8 text =>
    cases text with
    | none => exact absurd rfl hnull
    | some s => exact ⟨.text, .largeText s⟩
  | boolean b =>
    cases b with
    | none => exact absurd rfl hnull
    | some b => exact ⟨.truth, .truth b⟩
  | float64 f =>
    cases f with
    | none => exact absurd rfl hnull
    | some f =>
      by_cases hnan : f.isNaN = true
      · exact ⟨.nan, .bare rfl fun key => (hkey key).trans (if_pos hnan)⟩
      · exact ⟨.number, .number (if_neg hnan)⟩
  | int n =>
    cases n with
    | int64 n =>
      cases n with
      | none => exact absurd rfl hnull
      | some n => exact ⟨.number, .number rfl⟩
    | _ => exact ⟨.other, .bare rfl hkey⟩
  | _ => exact ⟨.other, .bare rfl hkey⟩

/-- The key of a value starts with the tag of its kind. -/
lemma KeyShape.exists_key {kind : KeyKind} (h : KeyShape kind v) (key : ScalarValue → List Char) :
    ∃ rest, plainOrderKey key v = kind.tag ++ rest := by
  cases h with
  | bare _ hkey => exact ⟨[], by rw [hkey, append_nil]⟩
  | list item type xs => exact ⟨_, rfl⟩
  | largeList item type xs => exact ⟨_, rfl⟩
  | datetime hparts => exact ⟨_, (plainOrderKey_of_instantParts hparts key).1⟩
  | time hparts => exact ⟨_, (plainOrderKey_of_instantParts hparts key).1⟩
  | text s => exact ⟨_, rfl⟩
  | largeText s => exact ⟨_, rfl⟩
  | truth b => exact ⟨_, rfl⟩
  | number hparts =>
    obtain ⟨hkey, -⟩ := plainOrderKey_of_numberParts hparts key
    exact ⟨_, hkey.trans (append_assoc _ _ _)⟩

/-- Tags of different kinds differ within their first four characters. -/
lemma KeyKind.compareText_tag {i j : KeyKind} (h : i ≠ j) (us vs : List Char) :
    compareText i.tag j.tag ≠ .eq ∧
      compareText (i.tag ++ us) (j.tag ++ vs) = compareText i.tag j.tag := by
  cases i <;> cases j <;> first | exact absurd rfl h | exact ⟨by decide, rfl⟩

/-! ## Texts closed by a bar -/

/-- `t` continues `s` with a character that does not come after the bar. -/
def ContinuesBelowBar (s t : List Char) : Prop := ∃ c rest, c ≤ '|' ∧ t = s ++ c :: rest

lemma compareText_bar {s t : List Char} (hst : ¬ContinuesBelowBar s t)
    (hts : ¬ContinuesBelowBar t s) (us vs : List Char) :
    compareText (s ++ '|' :: us) (t ++ '|' :: vs) = (compareText s t).then (compareText us vs) := by
  induction s generalizing t with
  | nil =>
    cases t with
    | nil => simp [compareText]
    | cons c t =>
      have hc : '|' < c := by
        by_contra hle
        exact hst ⟨c, t, not_lt.mp hle, rfl⟩
      simp [compareText, compare_lt_iff_lt.mpr hc]
  | cons d s ih =>
    cases t with
    | nil =>
      have hd : '|' < d := by
        by_contra hle
        exact hts ⟨d, s, not_lt.mp hle, rfl⟩
      simp [compareText, compare_gt_iff_gt.mpr hd]
    | cons c t =>
      rw [cons_append, cons_append, compareText, compareLists_cons_cons, compareLists_cons_cons]
      by_cases hdc : d = c
      · have hrest := ih (t := t)
          (fun ⟨e, rest, he, heq⟩ => hst ⟨e, rest, he, by rw [hdc, heq]; rfl⟩)
          (fun ⟨e, rest, he, heq⟩ => hts ⟨e, rest, he, by rw [hdc, heq]; rfl⟩)
        rw [compareText] at hrest
        rw [hrest, Ordering.then_assoc]
      · rcases lt_or_gt_of_ne hdc with h | h
        · rw [compare_lt_iff_lt.mpr h]
          rfl
        · rw [compare_gt_iff_gt.mpr h]
          rfl

/-! ## Values whose keys are in order -/

/-- The positions that a comparison of two lists reads, up to the first that decides. -/
def comparedPairs (order : ScalarValue → ScalarValue → Ordering) :
    List ScalarValue → List ScalarValue → List (ScalarValue × ScalarValue)
  | x :: xs, y :: ys => (x, y) :: if order x y = .eq then comparedPairs order xs ys else []
  | _, _ => []

/-- Pairs whose keys compare as the values do; `inList` when the keys stand inside the key of a
list, where a bar follows them. Only the positions of two lists that decide are constrained. -/
inductive KeyAligned : Bool → ScalarValue → ScalarValue → Prop
  | tie (inList : Bool) {x y : ScalarValue} :
      orderKeyText x = orderKeyText y → cypherOrder x y = .eq → KeyAligned inList x y
  | kinds (inList : Bool) {x y : ScalarValue} {i j : KeyKind} :
      KeyShape i (unwrapHet x) → KeyShape j (unwrapHet y) → i ≠ j →
      compareText i.tag j.tag = cypherOrder x y → KeyAligned inList x y
  | truth (inList : Bool) {x y : ScalarValue} {p q : Bool} :
      unwrapHet x = .boolean (some p) → unwrapHet y = .boolean (some q) → KeyAligned inList x y
  | number (inList : Bool) {x y : ScalarValue} {f g : Binary64} {r s : ℤ} :
      numberParts (unwrapHet x) = some (f, r) → numberParts (unwrapHet y) = some (g, s) →
      (f.rank ≠ g.rank ∨ r = s) → KeyAligned inList x y
  | text {inList : Bool} {x y : ScalarValue} {s t : String} :
      unwrapHet x = .utf8 (some s) → unwrapHet y = .utf8 (some t) →
      (inList = true →
        ¬ContinuesBelowBar s.toList t.toList ∧ ¬ContinuesBelowBar t.toList s.toList) →
      KeyAligned inList x y
  | instant {inList : Bool} {x y : ScalarValue} {kind : KeyKind} {p q : InstantParts} :
      instantParts (unwrapHet x) = some (kind, p) → instantParts (unwrapHet y) = some (kind, q) →
      p.order q = cypherOrder x y →
      (inList = true → ¬ContinuesBelowBar p.zone q.zone ∧ ¬ContinuesBelowBar q.zone p.zone) →
      KeyAligned inList x y
  | list (inList : Bool) {x y : ScalarValue} {item item' : FieldHeader} {type type' : DataType}
      {xs ys : List ScalarValue} :
      unwrapHet x = .list .small item type true xs →
      unwrapHet y = .list .small item' type' true ys →
      (∀ p ∈ comparedPairs cypherOrder xs ys, KeyAligned true p.1 p.2) → KeyAligned inList x y

/-- Values of different kinds and ranks are ordered by rank, so their tags must compare as the
ranks do. -/
lemma KeyAligned.of_ranks {inList : Bool} {x y : ScalarValue} {i j : KeyKind}
    (hx : KeyShape i (unwrapHet x)) (hy : KeyShape j (unwrapHet y)) (hkinds : i ≠ j)
    (hranks : orderRank (unwrapHet x) ≠ orderRank (unwrapHet y))
    (h : compareText i.tag j.tag = compare (orderRank (unwrapHet x)) (orderRank (unwrapHet y))) :
    KeyAligned inList x y := by
  refine .kinds inList hx hy hkinds (h.trans ?_)
  rw [cypherOrder_eq, cypherPlainOrder_of_rank_ne hranks]

/-- What may follow the two keys: nothing, or inside a list a bar and anything. -/
def Follows (inList : Bool) (us vs : List Char) : Prop :=
  if inList then ∃ us' vs', us = '|' :: us' ∧ vs = '|' :: vs' else us = [] ∧ vs = []

/-- Every key starts with a digit after zero, so the end mark of a list comes before it. -/
lemma head_orderKeyText : ∃ c rest, orderKeyText v = c :: rest ∧ '0' < c := by
  obtain ⟨kind, hshape⟩ := exists_keyShape (unwrapHet v)
  obtain ⟨rest, hkey⟩ := hshape.exists_key _ orderKeyText
  have htag : ∃ c tail, kind.tag = c :: tail ∧ '0' < c := by
    cases kind <;> exact ⟨_, _, rfl, by decide⟩
  obtain ⟨c, tail, htag, hc⟩ := htag
  exact ⟨c, tail ++ rest, by rw [orderKeyText_eq, hkey, htag, cons_append], hc⟩

/-- Keys of lists, when the keys of the compared elements compare as the elements do. -/
lemma compareText_listOrderKey {order : ScalarValue → ScalarValue → Ordering}
    {xs ys : List ScalarValue} (h : ∀ p ∈ comparedPairs order xs ys, ∀ us vs,
      compareText (orderKeyText p.1 ++ '|' :: us) (orderKeyText p.2 ++ '|' :: vs) =
        (order p.1 p.2).then (compareText us vs)) (us vs : List Char) :
    compareText (listOrderKey orderKeyText xs ++ us) (listOrderKey orderKeyText ys ++ vs) =
      (compareLists order xs ys).then (compareText us vs) := by
  have hcons : ∀ (x : ScalarValue) (xs : List ScalarValue) (us : List Char),
      listOrderKey orderKeyText (x :: xs) ++ us =
        orderKeyText x ++ '|' :: (listOrderKey orderKeyText xs ++ us) := by
    intro x xs us
    simp [listOrderKey]
  -- the end mark against any element
  have hend : ∀ (x : ScalarValue) (us vs : List Char),
      compareText (listOrderKey orderKeyText [] ++ us) (orderKeyText x ++ vs) = .lt ∧
        compareText (orderKeyText x ++ vs) (listOrderKey orderKeyText [] ++ us) = .gt := by
    intro x us vs
    obtain ⟨c, rest, hx, hc⟩ := head_orderKeyText x
    have hnil : listOrderKey orderKeyText [] ++ us = '0' :: ("0:end".toList ++ us) := rfl
    rw [hx, hnil, cons_append, compareText, compareLists_cons_cons, compareLists_cons_cons,
      compare_lt_iff_lt.mpr hc, compare_gt_iff_gt.mpr hc]
    exact ⟨rfl, rfl⟩
  induction xs generalizing ys with
  | nil =>
    cases ys with
    | nil => exact compareLists_append_left compare_self _ us vs
    | cons y ys =>
      rw [hcons, (hend y us _).1, compareLists_nil_cons]
      rfl
  | cons x xs ih =>
    cases ys with
    | nil =>
      rw [hcons, (hend x vs _).2, compareLists_cons_nil]
      rfl
    | cons y ys =>
      rw [comparedPairs, forall_mem_cons] at h
      rw [hcons, hcons, h.1, compareLists_cons_cons, Ordering.then_assoc]
      -- where this position decides, the rest is not read
      cases hxy : order x y with
      | eq =>
        rw [if_pos hxy] at h
        exact congrArg (Ordering.then .eq) (ih h.2)
      | lt => rfl
      | gt => rfl

lemma compareText_of_follows {us vs : List Char} (h : Follows true us vs) :
    ∃ us' vs', us = '|' :: us' ∧ vs = '|' :: vs' ∧ compareText us vs = compareText us' vs' := by
  obtain ⟨us', vs', rfl, rfl⟩ := h
  exact ⟨us', vs', rfl, rfl, compareLists_append_left compare_self ['|'] us' vs'⟩

/-- Texts that end a key: nothing follows them, or inside a list a bar that does not mix with
them. -/
lemma compareText_append_of_follows {inList : Bool} {s t us vs : List Char}
    (hbar : inList = true → ¬ContinuesBelowBar s t ∧ ¬ContinuesBelowBar t s)
    (hfollows : Follows inList us vs) :
    compareText (s ++ us) (t ++ vs) = (compareText s t).then (compareText us vs) := by
  cases inList with
  | false =>
    obtain ⟨rfl, rfl⟩ := hfollows
    rw [append_nil, append_nil]
    exact Ordering.then_eq.symm
  | true =>
    obtain ⟨us', vs', rfl, rfl, hrest⟩ := compareText_of_follows hfollows
    rw [hrest]
    exact compareText_bar (hbar rfl).1 (hbar rfl).2 us' vs'

/-- Numbers that differ as doubles, or exceed them by the same, compare as their keys do. -/
lemma cypherPlainOrder_number {x y : ScalarValue} {f g : Binary64} {r s : ℤ}
    {order : ScalarValue → ScalarValue → Ordering} (hx : numberParts x = some (f, r))
    (hy : numberParts y = some (g, s)) (h : f.rank ≠ g.rank ∨ r = s) :
    cypherPlainOrder order x y = (compare f.rank g.rank).then (compare r s) := by
  obtain ⟨-, hrx, hfx, hnanx, -⟩ := plainOrderKey_of_numberParts hx orderKeyText
  obtain ⟨-, hry, hfy, hnany, -⟩ := plainOrderKey_of_numberParts hy orderKeyText
  rw [cypherPlainOrder_numeric (hrx.trans hry.symm) (.inl hrx),
    numericOrder_of_numbers hfx hfy hnanx hnany]
  rcases h with hne | rfl
  · rcases lt_or_gt_of_ne hne with hlt | hgt
    · rw [compare_lt_iff_lt.mpr hlt]
      rfl
    · rw [compare_gt_iff_gt.mpr hgt]
      rfl
  · rw [compare_eq_iff_eq.mpr rfl]
    exact Ordering.then_eq.symm

/-- Keys of an aligned pair compare as the values do, and where the values tie what follows
decides. -/
theorem compareText_of_aligned {inList : Bool} {x y : ScalarValue} (h : KeyAligned inList x y) :
    ∀ us vs, Follows inList us vs → compareText (orderKeyText x ++ us) (orderKeyText y ++ vs) =
        (cypherOrder x y).then (compareText us vs) := by
  induction h with
  | tie inList hkey horder =>
    intro us vs _
    rw [hkey, horder]
    exact compareLists_append_left compare_self _ us vs
  | kinds inList hx hy hne horder =>
    intro us vs _
    obtain ⟨restx, hkx⟩ := hx.exists_key _ orderKeyText
    obtain ⟨resty, hky⟩ := hy.exists_key _ orderKeyText
    obtain ⟨hdecides, htags⟩ := KeyKind.compareText_tag hne (restx ++ us) (resty ++ vs)
    rw [orderKeyText_eq, orderKeyText_eq, hkx, hky, append_assoc, append_assoc, htags, horder]
    rw [horder] at hdecides
    cases hxy : cypherOrder _ _ with
    | eq => exact absurd hxy hdecides
    | lt => rfl
    | gt => rfl
  | @truth inList x y p q hx hy =>
    intro us vs _
    rw [orderKeyText_eq, orderKeyText_eq, cypherOrder_eq, hx, hy]
    show compareText ("70:bool:".toList ++ [if p then '1' else '0'] ++ us)
      ("70:bool:".toList ++ [if q then '1' else '0'] ++ vs) = (compare p q).then (compareText us vs)
    rw [append_assoc, append_assoc, compareText, compareLists_append_left compare_self,
      @compareLists_append _ _ [if p then '1' else '0'] [if q then '1' else '0'] rfl us vs]
    congr 1
    cases p <;> cases q <;> decide
  | number inList hx hy hparts =>
    intro us vs _
    obtain ⟨hkx, -, -, hnanx, hrange⟩ := plainOrderKey_of_numberParts hx orderKeyText
    obtain ⟨hky, -, -, hnany, hrange'⟩ := plainOrderKey_of_numberParts hy orderKeyText
    rw [orderKeyText_eq, orderKeyText_eq, cypherOrder_eq, hkx, hky,
      compareText_numericOrderKey hnanx hnany hrange hrange',
      cypherPlainOrder_number hx hy hparts]
  | @text inList x y s t hx hy hbar =>
    intro us vs hfollows
    rw [orderKeyText_eq, orderKeyText_eq, cypherOrder_eq, hx, hy]
    show compareText ("60:str:".toList ++ s.toList ++ us) ("60:str:".toList ++ t.toList ++ vs) =
      (compare s t).then (compareText us vs)
    rw [append_assoc, append_assoc, compareText, compareLists_append_left compare_self,
      compare_eq_compareText]
    exact compareText_append_of_follows hbar hfollows
  | instant hx hy horder hbar =>
    intro us vs hfollows
    obtain ⟨hkx, hp⟩ := plainOrderKey_of_instantParts hx orderKeyText
    obtain ⟨hky, hq⟩ := plainOrderKey_of_instantParts hy orderKeyText
    rw [orderKeyText_eq, orderKeyText_eq, hkx, hky, ← horder, append_assoc, append_assoc,
      compareText, compareLists_append_left compare_self]
    exact InstantParts.compareText_text hp hq (compareText_append_of_follows hbar hfollows)
  | @list inList x y item item' type type' xs ys hx hy _ ih =>
    intro us vs _
    rw [orderKeyText_eq, orderKeyText_eq, cypherOrder_eq, hx, hy]
    show compareText ("40:list:".toList ++ listOrderKey orderKeyText xs ++ us)
      ("40:list:".toList ++ listOrderKey orderKeyText ys ++ vs) =
      (compareLists cypherOrder xs ys).then (compareText us vs)
    rw [append_assoc, append_assoc, compareText, compareLists_append_left compare_self]
    apply compareText_listOrderKey
    intro p hp us' vs'
    rw [ih p hp _ _ ⟨us', vs', rfl, rfl⟩]
    congr 1
    exact compareLists_append_left compare_self ['|'] us' vs'

lemma compare_cypherOrderKey (x y : ScalarValue) :
    compare (cypherOrderKey x) (cypherOrderKey y) =
      compareText (orderKeyText x) (orderKeyText y) := by
  rw [compare_eq_compareText, cypherOrderKey, cypherOrderKey, String.toList_ofList,
    String.toList_ofList]

/-- Whether a value is a list that the order compares by elements. -/
def isSmallList : Bool :=
  match unwrapHet v with
  | .list .small _ _ true _ => true
  | _ => false

/-- Values that tie, and whose keys compare alike, have one key. -/
lemma KeyAligned.of_tie {x y : ScalarValue}
    (h : compare (cypherOrderKey x) (cypherOrderKey y) = cypherOrder x y)
    (htie : cypherOrder x y = .eq) : KeyAligned false x y := by
  have hkey : cypherOrderKey x = cypherOrderKey y := compare_eq_iff_eq.mp (h.trans htie)
  exact .tie false (String.ofList_injective hkey) htie

/-- Times or datetimes whose keys compare as they do are ordered by their parts. -/
lemma KeyAligned.of_instants {x y : ScalarValue} {kind : KeyKind} {p q : InstantParts}
    (hx : instantParts (unwrapHet x) = some (kind, p))
    (hy : instantParts (unwrapHet y) = some (kind, q))
    (h : compare (cypherOrderKey x) (cypherOrderKey y) = cypherOrder x y) :
    KeyAligned false x y := by
  obtain ⟨hkx, hp⟩ := plainOrderKey_of_instantParts hx orderKeyText
  obtain ⟨hky, hq⟩ := plainOrderKey_of_instantParts hy orderKeyText
  have htext : compareText p.text q.text = p.order q := by
    have hnothing := @InstantParts.compareText_text p q hp hq [] [] .eq
      (by rw [append_nil, append_nil]; exact Ordering.then_eq.symm)
    rw [append_nil, append_nil] at hnothing
    exact hnothing.trans Ordering.then_eq
  rw [compare_cypherOrderKey, orderKeyText_eq x, orderKeyText_eq y, hkx, hky, compareText,
    compareLists_append_left compare_self] at h
  exact .instant hx hy (htext.symm.trans h) (by intro hin; cases hin)

/-- Numbers whose keys compare as they do differ as doubles or not at all. -/
lemma KeyAligned.of_numbers {x y : ScalarValue} {f g : Binary64} {r s : ℤ}
    (hx : numberParts (unwrapHet x) = some (f, r)) (hy : numberParts (unwrapHet y) = some (g, s))
    (h : compare (cypherOrderKey x) (cypherOrderKey y) = cypherOrder x y) :
    KeyAligned false x y := by
  obtain ⟨hkx, hrx, hfx, hnanx, hr⟩ := plainOrderKey_of_numberParts hx orderKeyText
  obtain ⟨hky, hry, hfy, hnany, hs⟩ := plainOrderKey_of_numberParts hy orderKeyText
  have htext := compareText_numericOrderKey hnanx hnany hr hs [] []
  rw [append_nil, append_nil, ← hkx, ← hky, ← orderKeyText_eq, ← orderKeyText_eq,
    ← compare_cypherOrderKey, h, cypherOrder_eq,
    cypherPlainOrder_numeric (hrx.trans hry.symm) (.inl hrx),
    numericOrder_of_numbers hfx hfy hnanx hnany] at htext
  refine .number false hx hy (or_iff_not_imp_left.mpr fun hrank => ?_)
  rw [not_not.mp hrank, compare_eq_iff_eq.mpr rfl] at htext
  exact compare_eq_iff_eq.mp (htext.trans Ordering.then_eq).symm

/-- Alignment is exact for two values of one kind that are not both lists: what keeps them from
being aligned makes their keys disagree. -/
lemma KeyAligned.of_agrees {x y : ScalarValue} {kind : KeyKind}
    (hx : KeyShape kind (unwrapHet x)) (hy : KeyShape kind (unwrapHet y))
    (hlists : ¬(isSmallList x = true ∧ isSmallList y = true))
    (h : compare (cypherOrderKey x) (cypherOrderKey y) = cypherOrder x y) :
    KeyAligned false x y := by
  have hplain := cypherOrder_eq x y
  unfold isSmallList at hlists
  generalize hvx : unwrapHet x = a at hx hplain hlists
  generalize hvy : unwrapHet y = b at hy hplain hlists
  cases hx with
  | bare hbare hkx =>
    cases hy with
    | bare _ hky =>
      have hkey : orderKeyText x = orderKeyText y := by
        rw [orderKeyText_eq, orderKeyText_eq y, hvx, hvy, hkx, hky]
      rw [cypherOrderKey, cypherOrderKey, hkey, compare_eq_iff_eq.mpr rfl] at h
      exact .tie false hkey h.symm
    | _ => cases hbare
  | list =>
    cases hy with
    | bare hbare => cases hbare
    | list => exact absurd ⟨rfl, rfl⟩ hlists
    | largeList => exact .of_tie h hplain
  | largeList =>
    cases hy with
    | bare hbare => cases hbare
    | list => exact .of_tie h hplain
    | largeList => exact .of_tie h hplain
  | datetime hparts =>
    cases hy with
    | bare hbare => cases hbare
    | datetime hparts' => exact .of_instants (hvx ▸ hparts) (hvy ▸ hparts') h
  | time hparts =>
    cases hy with
    | bare hbare => cases hbare
    | time hparts' => exact .of_instants (hvx ▸ hparts) (hvy ▸ hparts') h
  | text s =>
    cases hy with
    | bare hbare => cases hbare
    | text t => exact .text hvx hvy (by intro hin; cases hin)
    | largeText t => exact .of_tie h hplain
  | largeText s =>
    cases hy with
    | bare hbare => cases hbare
    | text t => exact .of_tie h hplain
    | largeText t => exact .of_tie h hplain
  | truth p =>
    cases hy with
    | bare hbare => cases hbare
    | truth q => exact .truth false hvx hvy
  | number hparts =>
    cases hy with
    | bare hbare => cases hbare
    | number hparts' => exact .of_numbers (hvx ▸ hparts) (hvy ▸ hparts') h

end GraphForge.Values
