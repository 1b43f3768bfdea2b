import GraphForge.Values.Equality

/-!
# Equal values hash alike

`cypher_equality_hash` mirrors the arms of `cypher_value_eq`: whenever two values are equal, both
are hashable and the hasher sees the same writes. By induction on the size of the two values, with
one lemma for each pair of arms.
-/

namespace GraphForge.Values

open List

/-- The contract of Rust's `Hash` and `Eq` on the variants whose payload is hashed. -/
structure ScalarOps.Lawful (ops : ScalarOps) : Prop where
  hash_eq : ∀ l r, isHashedVariant l = true → l.discriminant = r.discriminant →
    ops.eq l r = true → ops.hash l = ops.hash r

/-- Both are there, and are the same. -/
def Agree {α : Type} (x y : Option α) : Prop := ∃ a, x = some a ∧ y = some a

/-- Both values are hashable, with the same writes. -/
def SharesFeed (ops : ScalarOps) (l r : ScalarValue) : Prop :=
  ∃ tokens, feedEqualityHash ops l = some tokens ∧ feedEqualityHash ops r = some tokens

variable {ops : ScalarOps} {l r v d : ScalarValue}
variable {eq : ScalarValue → ScalarValue → Option Bool}
  {feed : ScalarValue → Option (List HashToken)}

/-! ## Nulls and tagged values -/

/-- A wrapped value feeds what it wraps. -/
lemma feedEqualityHash_of_decode (hnull : v.isNull = false) (hd : decodeHet v = some d) :
    feedEqualityHash ops v = feedEqualityHash ops d := by
  rw [feedEqualityHash_eq, feedEqualityHashBody, hnull, hd]
  rfl

/-- A plain value feeds its own content. -/
lemma feedEqualityHash_of_plain (hnull : v.isNull = false) (hd : decodeHet v = none) :
    feedEqualityHash ops v = feedPlainHash (feedEqualityHash ops) ops v := by
  rw [feedEqualityHash_eq, feedEqualityHashBody, hnull, hd]
  rfl

/-! ## Variants with arms of their own -/

lemma eq_small_of_discriminant (h : v.discriminant = .list) :
    ∃ item type valid xs, v = .list .small item type valid xs := by
  cases v with
  | list kind => cases kind <;> first | exact ⟨_, _, _, _, rfl⟩ | cases h
  | _ => cases h

lemma eq_large_of_discriminant (h : v.discriminant = .largeList) :
    ∃ item type valid xs, v = .list .large item type valid xs := by
  cases v with
  | list kind => cases kind <;> first | exact ⟨_, _, _, _, rfl⟩ | cases h
  | _ => cases h

lemma eq_struct_of_discriminant (h : v.discriminant = .struct) :
    ∃ fields valid, v = .struct fields valid := by
  cases v with
  | struct fields valid => exact ⟨fields, valid, rfl⟩
  | list kind => cases kind <;> cases h
  | _ => cases h

/-! ## Scalars -/

/-- What is neither a list nor a struct feeds a scalar. -/
lemma feedPlainHash_scalar (hlist : v.discriminant ≠ .list) (hlarge : v.discriminant ≠ .largeList)
    (hstruct : v.discriminant ≠ .struct) : feedPlainHash feed ops v = feedScalarHash ops v := by
  unfold feedPlainHash
  split
  · exact absurd rfl hlist
  · exact absurd rfl hlarge
  · exact absurd rfl hstruct
  · rfl

/-- A number is neither a list nor a struct. -/
lemma discriminant_of_numeric (h : isNumericScalar v = true) :
    v.discriminant ≠ .list ∧ v.discriminant ≠ .largeList ∧ v.discriminant ≠ .struct := by
  cases v <;> simp_all [isNumericScalar, scalarAsF64, ScalarValue.discriminant]

/-- Among values that are not null, being a number is a matter of the variant. -/
lemma isNumericScalar_congr (hd : l.discriminant = r.discriminant) (hr : r.isNull = false)
    (h : isNumericScalar l = true) : isNumericScalar r = true := by
  cases l <;> simp [isNumericScalar, scalarAsF64] at h
  all_goals
    cases r with
    | list kind => cases kind <;> simp [ScalarValue.discriminant] at hd
    | _ =>
      simp [ScalarValue.discriminant, ScalarValue.isNull, isNumericScalar, scalarAsF64] at hd hr ⊢
      try exact hr

lemma isHashedVariant_congr (hd : l.discriminant = r.discriminant) :
    isHashedVariant l = isHashedVariant r := by
  cases l with
  | list kind =>
    cases kind <;> cases r with
    | list kind' => rfl
    | _ => simp [ScalarValue.discriminant] at hd
  | flat variant parameters payload =>
    cases r with
    | list kind' => cases kind' <;> simp [ScalarValue.discriminant] at hd
    | flat variant' parameters' payload' =>
      simp only [ScalarValue.discriminant, ScalarValue.Variant.flat.injEq] at hd
      simp only [isHashedVariant, hd]
    | _ => simp [ScalarValue.discriminant] at hd
  | _ =>
    cases r with
    | list kind' => cases kind' <;> simp [ScalarValue.discriminant] at hd
    | _ => first | rfl | simp [ScalarValue.discriminant] at hd

/-- Numbers that are equal, exactly or as doubles, are hashed by the same bits. -/
lemma feedScalarHash_of_numeric_eq (hl : isNumericScalar l = true) (hr : isNumericScalar r = true)
    (h : cypherScalarEq ops l r = some true) :
    Agree (feedScalarHash ops l) (feedScalarHash ops r) := by
  obtain ⟨lf, hlf⟩ := Option.isSome_iff_exists.mp hl
  obtain ⟨rf, hrf⟩ := Option.isSome_iff_exists.mp hr
  -- whichever comparison is made, the doubles are numbers with one representative
  have hclass : lf.isNaN = false ∧ rf.isNaN = false ∧ lf.canonical = rf.canonical := by
    unfold cypherScalarEq at h
    rw [hl, hr] at h
    simp only [Bool.and_self, if_true] at h
    split at h
    · rename_i li ri hli hri
      cases l <;> simp only [scalarAsI128, reduceCtorEq] at hli
      cases r <;> simp only [scalarAsI128, reduceCtorEq] at hri
      simp only [scalarAsF64, hli, hri, Option.map_some, Option.some.injEq] at hlf hrf
      simp only [Option.some.injEq, beq_iff_eq] at h
      subst hlf hrf h
      have := Binary64.isNaN_ofInt (IntScalar.natAbs_le_of_value hli)
      exact ⟨this, this, rfl⟩
    · rw [hlf, hrf] at h
      simp only [Option.bind_eq_bind, Option.bind_some, Option.pure_def, Option.some.injEq] at h
      have hcanon := Binary64.canonical_eq_of_eq h
      simp only [Binary64.eq, Bool.and_eq_true, Bool.not_eq_true'] at h
      exact ⟨h.1.1, h.1.2, hcanon⟩
  obtain ⟨hln, hrn, hcanon⟩ := hclass
  refine ⟨[.u8 2, .u64 lf.canonical.bits.toNat], ?_, ?_⟩
  · simp only [feedScalarHash, hlf, hln, Bool.false_eq_true, if_false]
  · simp only [feedScalarHash, hrf, hrn, Bool.false_eq_true, if_false, hcanon]

/-- Equal scalars of one variant feed the same. -/
lemma feedScalarHash_of_same_variant (hops : ops.Lawful) (hlnull : l.isNull = false)
    (hrnull : r.isNull = false) (hd : l.discriminant = r.discriminant)
    (hnum : ¬ (isNumericScalar l = true ∧ isNumericScalar r = true)) (h : ops.eq l r = true) :
    Agree (feedScalarHash ops l) (feedScalarHash ops r) := by
  have hl : scalarAsF64 l = none := by
    by_contra hne
    have hl : isNumericScalar l = true := Option.isSome_iff_ne_none.mpr hne
    exact hnum ⟨hl, isNumericScalar_congr hd hrnull hl⟩
  have hr : scalarAsF64 r = none := by
    by_contra hne
    have hr : isNumericScalar r = true := Option.isSome_iff_ne_none.mpr hne
    exact hnum ⟨isNumericScalar_congr hd.symm hlnull hr, hr⟩
  simp only [feedScalarHash, hl, hr, ← hd, ← isHashedVariant_congr hd]
  by_cases hh : isHashedVariant l = true
  · rw [hops.hash_eq l r hh hd h]
    exact ⟨_, rfl, rfl⟩
  · rw [if_neg hh, if_neg hh]
    exact ⟨_, rfl, rfl⟩

/-- The last arms. The variants that have arms of their own are never equal here: their partner is
of another variant. -/
lemma sharesFeed_of_scalarEq (hops : ops.Lawful) (hlnull : l.isNull = false)
    (hrnull : r.isNull = false) (hown : l.discriminant = r.discriminant →
      l.discriminant ≠ .list ∧ l.discriminant ≠ .largeList ∧ l.discriminant ≠ .struct)
    (h : cypherScalarEq ops l r = some true) :
    Agree (feedPlainHash feed ops l) (feedPlainHash feed ops r) := by
  by_cases hnum : isNumericScalar l = true ∧ isNumericScalar r = true
  · obtain ⟨h1, h2, h3⟩ := discriminant_of_numeric hnum.1
    obtain ⟨h4, h5, h6⟩ := discriminant_of_numeric hnum.2
    rw [feedPlainHash_scalar h1 h2 h3, feedPlainHash_scalar h4 h5 h6]
    exact feedScalarHash_of_numeric_eq hnum.1 hnum.2 h
  have hnum' : (isNumericScalar l && isNumericScalar r) = false := by
    rw [← Bool.not_eq_true, Bool.and_eq_true]
    exact hnum
  unfold cypherScalarEq at h
  rw [hnum'] at h
  simp only [Bool.false_eq_true, if_false] at h
  split at h
  · rename_i hd
    obtain ⟨h1, h2, h3⟩ := hown hd
    rw [feedPlainHash_scalar h1 h2 h3, feedPlainHash_scalar (hd ▸ h1) (hd ▸ h2) (hd ▸ h3)]
    exact feedScalarHash_of_same_variant hops hlnull hrnull hd hnum (Option.some.inj h)
  · cases h

/-! ## Lists -/

/-- Lists are equal when their elements are. -/
lemma of_seqEqLoop {sawNull : Bool} {pairs : List (ScalarValue × ScalarValue)}
    (h : seqEqLoop eq sawNull pairs = some true) :
    sawNull = false ∧ ∀ p ∈ pairs, eq p.1 p.2 = some true := by
  induction pairs generalizing sawNull with
  | nil =>
    unfold seqEqLoop at h
    split at h
    · cases h
    · rename_i hs
      exact ⟨by simpa using hs, by simp⟩
  | cons p pairs ih =>
    unfold seqEqLoop at h
    split at h
    · cases h
    · exact absurd (ih h).1 (by decide)
    · rename_i hp
      obtain ⟨hs, hall⟩ := ih h
      exact ⟨hs, forall_mem_cons.mpr ⟨hp, hall⟩⟩

/-- Agreeing feeds of the parts make agreeing feeds. -/
lemma mapM_agree {α β γ : Type} {f : α → Option γ} {g : β → Option γ} {xs : List α} {ys : List β}
    (h : Forall₂ (fun x y => Agree (f x) (g y)) xs ys) : Agree (xs.mapM f) (ys.mapM g) := by
  induction h with
  | nil => exact ⟨[], rfl, rfl⟩
  | cons h _ ih =>
    obtain ⟨t, hf, hg⟩ := h
    obtain ⟨ts, hfs, hgs⟩ := ih
    exact ⟨t :: ts, by simp [mapM_cons, hf, hfs], by simp [mapM_cons, hg, hgs]⟩

/-- Equal lists feed the same, if their elements do. -/
lemma feedSeqHash_of_seqEq {a b : List ScalarValue} (tag : ℕ) (h : cypherSeqEq eq a b = some true)
    (ih : ∀ x ∈ a, ∀ y ∈ b, eq x y = some true → SharesFeed ops x y) :
    Agree (feedSeqHash (feedEqualityHash ops) tag a) (feedSeqHash (feedEqualityHash ops) tag b) := by
  unfold cypherSeqEq at h
  split at h
  · cases h
  rename_i hlen
  have hlen' : a.length = b.length := not_not.mp hlen
  have hall := (of_seqEqLoop h).2
  obtain ⟨tokens, ha, hb⟩ := mapM_agree (forall₂_iff_zip.mpr ⟨hlen', fun {x y} hp =>
    ih x (of_mem_zip hp).1 y (of_mem_zip hp).2 (hall (x, y) hp)⟩)
  rw [feedSeqHash, feedSeqHash, ha, hb, hlen']
  exact ⟨_, rfl, rfl⟩

/-! ## Structs -/

variable {a b : Fields} {va vb : Bool}

/-- Equal temporal values feed the same. -/
lemma feedPlainHash_of_temporalEq (h : temporalValueEq (.struct a va) (.struct b vb) = some true) :
    Agree (feedPlainHash feed ops (.struct a va)) (feedPlainHash feed ops (.struct b vb)) := by
  rw [temporalValueEq] at h
  split at h
  · cases h
  rename_i hkind
  have hkind' := not_not.mp hkind
  simp only [Option.bind_eq_bind, Option.bind_eq_some_iff, Option.pure_def, Option.some.injEq,
    beq_iff_eq] at h
  obtain ⟨kind, hka, parts, hpa, parts', hpb, rfl⟩ := h
  refine ⟨.u8 4 :: parts.tokens, ?_, ?_⟩
  · simp only [feedPlainHash, hka, feedTemporalHash, hpa, Option.map_some]
  · simp only [feedPlainHash, ← hkind', hka, feedTemporalHash, hpb, Option.map_some]

/-- Entities are equal by the identity they both have. -/
lemma of_identityEq {name : String} (h : identityEq eq a b name = some true) :
    ∃ x y, a.columnByName name = some x ∧ b.columnByName name = some y ∧ eq x y = some true := by
  unfold identityEq at h
  split at h
  · rename_i x y hx hy
    exact ⟨x, y, hx, hy, h⟩
  · cases h

/-- Equal entities feed the same. -/
lemma feedPlainHash_of_identityEq (hta : temporalKind (.struct a va) = none)
    (htb : temporalKind (.struct b vb) = none) (h : entityIdentityEq eq a b = some true)
    (ih : ∀ name x y, a.columnByName name = some x → b.columnByName name = some y →
      eq x y = some true → SharesFeed ops x y) :
    Agree (feedPlainHash (feedEqualityHash ops) ops (.struct a va))
      (feedPlainHash (feedEqualityHash ops) ops (.struct b vb)) := by
  have hshare : ∀ name, identityEq eq a b name = some true →
      Agree (a.columnByName name >>= feedEqualityHash ops)
        (b.columnByName name >>= feedEqualityHash ops) := by
    intro name hname
    obtain ⟨x, y, hx, hy, hxy⟩ := of_identityEq hname
    rw [hx, hy]
    exact ih name x y hx hy hxy
  unfold entityIdentityEq at h
  split at h
  · cases h
  rename_i hsame
  simp only [feedPlainHash, hta, htb, ← not_not.mp hsame]
  cases hkind : entityKind a with
  | none =>
    rw [hkind] at h
    cases h
  | some kind =>
    rw [hkind] at h
    cases kind with
    | node => exact hshare _ h
    | relationship => exact hshare _ h
    | path =>
      simp only at h
      split at h
      · cases h
      · rename_i hnodes
        obtain ⟨tokens, h1, h2⟩ := hshare _ hnodes
        obtain ⟨tokens', h3, h4⟩ := hshare _ h
        simp only [feedEntityHash, h1, h2, h3, h4]
        exact ⟨_, rfl, rfl⟩
      · cases h

/-- Maps are equal when the values of each key are. -/
lemma of_structEqLoop {sawNull : Bool} {keys : List String}
    (h : structEqLoop eq a b sawNull keys = some true) :
    sawNull = false ∧ ∀ key ∈ keys, ∃ x y,
      a.columnByName key = some x ∧ b.columnByName key = some y ∧ eq x y = some true := by
  induction keys generalizing sawNull with
  | nil =>
    unfold structEqLoop at h
    split at h
    · cases h
    · rename_i hs
      exact ⟨by simpa using hs, by simp⟩
  | cons key keys ih =>
    unfold structEqLoop at h
    split at h
    · rename_i x y hx hy
      split at h
      · cases h
      · exact absurd (ih h).1 (by decide)
      · rename_i hxy
        obtain ⟨hs, hall⟩ := ih h
        exact ⟨hs, forall_mem_cons.mpr ⟨⟨x, y, hx, hy, hxy⟩, hall⟩⟩
    · cases h

lemma mem_sortedKeys {fields : Fields} {name : String} :
    name ∈ sortedKeys fields ↔ name ∈ fields.names := mem_insertionSort _

/-- Maps: the same keys, and equal values under each. A map with the one reserved name that does
not make it an entity is hashed by that field, which both maps have. -/
lemma feedPlainHash_of_structEq (hta : temporalKind (.struct a va) = none)
    (htb : temporalKind (.struct b vb) = none) (hentity : isEntityStruct a = false)
    (h : cypherStructEq eq a b = some true)
    (ih : ∀ name x y, a.columnByName name = some x → b.columnByName name = some y →
      eq x y = some true → SharesFeed ops x y) :
    Agree (feedPlainHash (feedEqualityHash ops) ops (.struct a va))
      (feedPlainHash (feedEqualityHash ops) ops (.struct b vb)) := by
  unfold cypherStructEq at h
  split at h
  · cases h
  rename_i hkeys
  have hkeys' : sortedKeys a = sortedKeys b := not_not.mp hkeys
  have hall := (of_structEqLoop h).2
  have hshare : ∀ key ∈ sortedKeys a, Agree (a.columnByName key >>= feedEqualityHash ops)
      (b.columnByName key >>= feedEqualityHash ops) := by
    intro key hkey
    obtain ⟨x, y, hx, hy, hxy⟩ := hall key hkey
    rw [hx, hy]
    exact ih key x y hx hy hxy
  have hnames : ∀ name, name ∈ a.names ↔ name ∈ b.names := by
    intro name
    rw [← mem_sortedKeys, ← mem_sortedKeys, hkeys']
  have hkind := entityKind_congr hnames
  simp only [feedPlainHash, hta, htb, ← hkind]
  cases hka : entityKind a with
  | none =>
    obtain ⟨tokens, h1, h2⟩ := mapM_agree (forall₂_same.mpr hshare)
    simp only [feedMapHash, ← hkeys', h1, h2]
    exact ⟨_, rfl, rfl⟩
  | some kind =>
    obtain ⟨rfl, hname⟩ := relationship_of_not_isEntityStruct hentity hka
    exact hshare "edge_uuid" (mem_sortedKeys.mpr hname)

/-- A node or relationship hashes as its identity, so as the bare UUID it equals. -/
lemma feedPlainHash_of_uuidEq {uuid : ScalarValue} {otherwise : Option Bool}
    (h : entityUuidEq eq a uuid otherwise = some true) (hother : otherwise ≠ some true)
    (ih : ∀ name x, a.columnByName name = some x → eq x uuid = some true → SharesFeed ops x uuid) :
    Agree (feedPlainHash (feedEqualityHash ops) ops (.struct a va))
      (feedEqualityHash ops uuid) := by
  have hshare : ∀ name, (a.columnByName name >>= (eq · uuid)) = some true →
      Agree (a.columnByName name >>= feedEqualityHash ops) (feedEqualityHash ops uuid) := by
    intro name hname
    cases hcol : a.columnByName name with
    | none =>
      rw [hcol] at hname
      cases hname
    | some x =>
      rw [hcol] at hname
      exact ih name x hcol hname
  unfold entityUuidEq at h
  split at h
  · rename_i hkind
    simp only [feedPlainHash, temporalKind_eq_none_of_entityKind hkind, hkind]
    exact hshare _ h
  · rename_i hkind
    simp only [feedPlainHash, temporalKind_eq_none_of_entityKind hkind, hkind]
    exact hshare _ h
  · exact absurd h hother

/-- A struct never equals a value of another variant in the last arms. -/
lemma cypherScalarEq_ne_of_discriminant (hnum : isNumericScalar l = false ∨ isNumericScalar r = false)
    (hd : l.discriminant ≠ r.discriminant) : cypherScalarEq ops l r ≠ some true := by
  have hand : (isNumericScalar l && isNumericScalar r) = false := by
    rcases hnum with h | h <;> simp [h]
  unfold cypherScalarEq
  rw [hand, if_neg Bool.false_ne_true, if_neg hd]
  decide

/-! ## All values -/

/-- Of two values that are neither null nor tagged. -/
lemma sharesFeed_of_plainEq (hops : ops.Lawful)
    (hlnull : l.isNull = false) (hrnull : r.isNull = false)
    (hldec : decodeHet l = none) (hrdec : decodeHet r = none)
    (ih : ∀ x y, x.size + y.size < l.size + r.size → cypherValueEq ops x y = some true →
      SharesFeed ops x y)
    (h : cypherPlainEq (cypherValueEq ops) ops l r = some true) : SharesFeed ops l r := by
  unfold SharesFeed
  rw [feedEqualityHash_of_plain hlnull hldec, feedEqualityHash_of_plain hrnull hrdec]
  unfold cypherPlainEq at h
  split at h
  · apply feedSeqHash_of_seqEq 0 h
    intro x hx y hy
    exact ih x y (Nat.add_lt_add (ScalarValue.size_lt_of_mem_list hx)
      (ScalarValue.size_lt_of_mem_list hy))
  · apply feedSeqHash_of_seqEq 1 h
    intro x hx y hy
    exact ih x y (Nat.add_lt_add (ScalarValue.size_lt_of_mem_list hx)
      (ScalarValue.size_lt_of_mem_list hy))
  · rename_i a va b vb
    have hcols : ∀ name x y, Fields.columnByName a name = some x →
        Fields.columnByName b name = some y → cypherValueEq ops x y = some true →
        SharesFeed ops x y := by
      intro name x y hx hy
      have h1 := @Fields.size_lt_of_columnByName a name x va hx
      have h2 := @Fields.size_lt_of_columnByName b name y vb hy
      exact ih x y (by omega)
    split at h
    · exact feedPlainHash_of_temporalEq h
    rename_i htemporal
    simp only [Bool.or_eq_true, not_or, Bool.not_eq_true, Option.isSome_eq_false_iff,
      Option.isNone_iff_eq_none] at htemporal
    split at h
    · exact feedPlainHash_of_identityEq htemporal.1 htemporal.2 h hcols
    · rename_i hentity
      simp only [Bool.or_eq_true, not_or, Bool.not_eq_true] at hentity
      exact feedPlainHash_of_structEq htemporal.1 htemporal.2 hentity.1 h hcols
  · rename_i a va uuid
    apply feedPlainHash_of_uuidEq h (cypherScalarEq_ne_of_discriminant (.inl rfl) nofun)
    intro name x hx
    have := @Fields.size_lt_of_columnByName a name x va hx
    exact ih x _ (by omega)
  · rename_i uuid b vb
    obtain ⟨tokens, hb, huuid⟩ := @feedPlainHash_of_uuidEq ops _ b vb _ _ h
      (cypherScalarEq_ne_of_discriminant (.inr rfl) nofun) (by
        intro name x hx
        have := @Fields.size_lt_of_columnByName b name x vb hx
        exact ih x _ (by omega))
    exact ⟨tokens, huuid, hb⟩
  · rename_i hsmall hlarge hstruct _ _
    apply sharesFeed_of_scalarEq hops hlnull hrnull _ h
    intro hd
    -- a partner of the same variant would have met the arm for it
    refine ⟨?_, ?_, ?_⟩
    · intro hl
      obtain ⟨_, _, _, _, rfl⟩ := eq_small_of_discriminant hl
      obtain ⟨_, _, _, _, rfl⟩ := eq_small_of_discriminant (hd ▸ hl)
      exact hsmall _ _ _ _ _ _ _ _ rfl rfl
    · intro hl
      obtain ⟨_, _, _, _, rfl⟩ := eq_large_of_discriminant hl
      obtain ⟨_, _, _, _, rfl⟩ := eq_large_of_discriminant (hd ▸ hl)
      exact hlarge _ _ _ _ _ _ _ _ rfl rfl
    · intro hl
      obtain ⟨_, _, rfl⟩ := eq_struct_of_discriminant hl
      obtain ⟨_, _, rfl⟩ := eq_struct_of_discriminant (hd ▸ hl)
      exact hstruct _ _ _ _ rfl rfl

/-- **Equality and hash agree.** Values that are equal are both hashable, with the same writes. -/
theorem sharesFeed_of_valueEq (hops : ops.Lawful) :
    ∀ (l r : ScalarValue), cypherValueEq ops l r = some true → SharesFeed ops l r := by
  intro l r h
  -- by induction on the size of the two values together
  induction hn : l.size + r.size using Nat.strong_induction_on generalizing l r with
  | _ n ih =>
    have ih' : ∀ x y, x.size + y.size < l.size + r.size → cypherValueEq ops x y = some true →
        SharesFeed ops x y := fun x y hxy h => ih _ (hn ▸ hxy) x y h rfl
    rw [cypherValueEq_eq, cypherValueEqBody] at h
    split at h
    · cases h
    rename_i hnull
    simp only [Bool.or_eq_true, not_or, Bool.not_eq_true] at hnull
    split at h
    · rename_i dl hdl
      have := size_decodeHet hdl
      unfold SharesFeed
      rw [feedEqualityHash_of_decode hnull.1 hdl]
      exact ih' dl r (by omega) h
    rename_i hldec
    split at h
    · rename_i dr hdr
      have := size_decodeHet hdr
      unfold SharesFeed
      rw [feedEqualityHash_of_decode hnull.2 hdr]
      exact ih' l dr (by omega) h
    · rename_i hrdec
      exact sharesFeed_of_plainEq hops hnull.1 hnull.2 hldec hrdec ih' h

/-- For every hasher: equal values have one hash, and a value without a hash equals nothing. -/
theorem cypherEqualityHash_agrees (hops : ops.Lawful) (finish : List HashToken → UInt64) :
    (∀ a b, cypherValueEq ops a b = some true →
      ∃ hash, cypherEqualityHash ops finish a = some hash ∧
        cypherEqualityHash ops finish b = some hash) ∧
    (∀ a, cypherEqualityHash ops finish a = none →
      ∀ b, cypherValueEq ops a b ≠ some true ∧ cypherValueEq ops b a ≠ some true) := by
  have hagree : ∀ a b, cypherValueEq ops a b = some true →
      ∃ hash, cypherEqualityHash ops finish a = some hash ∧
        cypherEqualityHash ops finish b = some hash := by
    intro a b h
    obtain ⟨tokens, ha, hb⟩ := sharesFeed_of_valueEq hops a b h
    refine ⟨finish tokens, ?_, ?_⟩
    · rw [cypherEqualityHash, ha]
      rfl
    · rw [cypherEqualityHash, hb]
      rfl
  refine ⟨hagree, ?_⟩
  intro a hnone b
  constructor
  · intro h
    obtain ⟨hash, ha, -⟩ := hagree a b h
    rw [hnone] at ha
    cases ha
  · intro h
    obtain ⟨hash, -, ha⟩ := hagree b a h
    rw [hnone] at ha
    cases ha

/-- Equality and hash of the payload, for text, truth values and bytes. -/
def payloadOps : ScalarOps where
  eq
    | .utf8 a, .utf8 b => a == b
    | .boolean a, .boolean b => a == b
    | .fixedSizeBinary _ a, .fixedSizeBinary _ b => a == b
    | _, _ => false
  hash
    | .utf8 (some text) => text.toList.map Char.toNat
    | .boolean (some b) => [b.toNat]
    | .fixedSizeBinary _ (some bytes) => bytes.map UInt8.toNat
    | _ => []

/-- Comparison and hashing of the payloads agree. -/
lemma payloadOps_lawful : payloadOps.Lawful := by
  constructor
  intro l r _ _ h
  simp only [payloadOps] at h ⊢
  split at h
  · rw [eq_of_beq h]
  · rw [eq_of_beq h]
  · -- the width is neither compared nor hashed
    rename_i bytes _ bytes' _ _
    rw [eq_of_beq h]
    cases bytes' <;> rfl
  · cases h

/-- `{age: 1, who: node}` against `{who: uuid, age: 1.0}`: numbers across types, fields in another
order, a whole node against its bare identity. -/
theorem cypherEqualityHash_agrees_sample :
    let uuid : ScalarValue := .fixedSizeBinary 16 (some (replicate 16 7))
    let node : ScalarValue := .struct [(.plain "node_uuid" false, uuid),
      (.plain "name" true, .utf8 (some "ada"))] true
    let a : ScalarValue := .struct [(.plain "age" true, .int (.int64 (some 1))),
      (.plain "who" true, node)] true
    let b : ScalarValue := .struct [(.plain "who" true, uuid),
      (.plain "age" true, .float64 (some (Binary64.ofInt 1)))] true
    let finish := fun tokens : List HashToken => tokens.length.toUInt64
    cypherValueEq payloadOps a b = some true ∧
      ∃ hash, cypherEqualityHash payloadOps finish a = some hash ∧
        cypherEqualityHash payloadOps finish b = some hash := by
  have h : cypherValueEq payloadOps
      (.struct [(.plain "age" true, .int (.int64 (some 1))),
        (.plain "who" true, .struct [(.plain "node_uuid" false,
            .fixedSizeBinary 16 (some (replicate 16 7))),
          (.plain "name" true, .utf8 (some "ada"))] true)] true)
      (.struct [(.plain "who" true, .fixedSizeBinary 16 (some (replicate 16 7))),
        (.plain "age" true, .float64 (some (Binary64.ofInt 1)))] true) = some true := by
    decide +kernel
  exact ⟨h, (cypherEqualityHash_agrees payloadOps_lawful _).1 _ _ h⟩

end GraphForge.Values
