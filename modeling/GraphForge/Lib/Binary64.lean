import Mathlib.Data.Nat.Log
import Mathlib.Tactic.Ring

/-!
# IEEE 754 double precision, at the level of bits

A double is its 64 bits. Comparison reads them as a sign and a magnitude: of two numbers the one
with the larger signed magnitude is the larger, and a NaN is the pattern whose magnitude is above
that of infinity. Integers convert by rounding to nearest, ties to even, which is monotone.
-/

/-- A double precision number. -/
structure Binary64 where
  bits : BitVec 64
  deriving DecidableEq, Repr, Inhabited

/-- A single precision number. -/
structure Binary32 where
  bits : BitVec 32
  deriving DecidableEq, Repr, Inhabited

namespace Binary64

/-! ## Fields and comparison -/

variable (f : Binary64)

/-- Exponent and fraction, without the sign. -/
def magnitude : ℕ := f.bits.toNat % 2 ^ 63

/-- The sign bit. -/
def negative : Bool := 2 ^ 63 ≤ f.bits.toNat

/-- `is_nan`: above the pattern of infinity. -/
def isNaN : Bool := 2047 * 2 ^ 52 < f.magnitude

/-- The signed magnitude: the place of a number in the numeric order. -/
def rank : ℤ := if f.negative then -(f.magnitude : ℤ) else f.magnitude

/-- `partial_cmp`. -/
def partialCmp (f g : Binary64) : Option Ordering :=
  if f.isNaN || g.isNaN then none else some (compare f.rank g.rank)

/-- `==`. -/
def eq (f g : Binary64) : Bool := !f.isNaN && !g.isNaN && f.rank == g.rank

/-- The number with the given sign and magnitude. -/
def ofFields (negative : Bool) (magnitude : ℕ) : Binary64 :=
  ⟨BitVec.ofNat 64 (magnitude + if negative then 2 ^ 63 else 0)⟩

/-- `0.0`. -/
def zero : Binary64 := ⟨0⟩

/-- The one representative of both zeros; every other number is its own. -/
def canonical : Binary64 := if f.eq zero then zero else f

/-- The bit pattern is the magnitude, and the sign above it. -/
lemma toNat_bits : f.bits.toNat = f.magnitude + if f.negative then 2 ^ 63 else 0 := by
  unfold magnitude negative
  by_cases h : 2 ^ 63 ≤ f.bits.toNat
  · simp only [h, decide_true, if_true]
    omega
  · simp only [h, decide_false, Bool.false_eq_true, if_false]
    omega

lemma magnitude_lt : f.magnitude < 2 ^ 63 := Nat.mod_lt _ (by norm_num)

/-- Sign and magnitude determine a number. -/
lemma ext_fields {f g : Binary64} (hm : f.magnitude = g.magnitude)
    (hs : f.negative = g.negative) : f = g := by
  have hbits : f.bits.toNat = g.bits.toNat := by rw [toNat_bits, toNat_bits, hm, hs]
  exact congrArg Binary64.mk (BitVec.eq_of_toNat_eq hbits)

lemma magnitude_ofFields {negative : Bool} {m : ℕ} (h : m < 2 ^ 63) :
    (ofFields negative m).magnitude = m := by
  unfold ofFields magnitude
  rw [BitVec.toNat_ofNat]
  split <;> omega

/-- Numbers that compare equal have one representative, so one bit pattern. -/
theorem canonical_eq_of_eq {f g : Binary64} (h : f.eq g = true) : f.canonical = g.canonical := by
  simp only [eq, Bool.and_eq_true, Bool.not_eq_true', beq_iff_eq] at h
  obtain ⟨⟨hf, hg⟩, hrank⟩ := h
  have hzero : zero.isNaN = false ∧ zero.rank = 0 := by decide
  have hcanon : ∀ x : Binary64, x.isNaN = false → (x.eq zero = true ↔ x.rank = 0) := by
    intro x hx
    simp [eq, hx, hzero.1, hzero.2]
  unfold canonical
  by_cases h0 : f.rank = 0
  · rw [if_pos ((hcanon f hf).mpr h0), if_pos ((hcanon g hg).mpr (hrank ▸ h0))]
  rw [if_neg (fun h => h0 ((hcanon f hf).mp h)),
    if_neg (fun h => h0 (hrank.trans ((hcanon g hg).mp h)))]
  -- away from zero the signed magnitude determines both fields
  unfold rank at hrank h0
  apply ext_fields
  · split at hrank <;> split at hrank <;> omega
  · cases hfs : f.negative <;> cases hgs : g.negative <;> simp [hfs, hgs] at hrank h0 ⊢ <;> omega

/-- The representative has the rank of its number. -/
lemma rank_canonical {f : Binary64} (h : f.isNaN = false) : f.canonical.rank = f.rank := by
  have hzero : zero.isNaN = false ∧ zero.rank = 0 := by decide
  unfold canonical
  split
  · rename_i heq
    simp only [eq, h, hzero, Bool.not_false, Bool.true_and, beq_iff_eq] at heq
    rw [heq, hzero.2]
  · rfl

/-- Negative zero is no representative. -/
lemma magnitude_pos_of_negative_canonical {f : Binary64} (h : f.isNaN = false)
    (hneg : f.canonical.negative = true) : 0 < f.canonical.magnitude := by
  have hzero : zero.isNaN = false ∧ zero.rank = 0 ∧ zero.negative = false := by decide
  unfold canonical at hneg ⊢
  split at hneg
  · rw [hzero.2.2] at hneg
    cases hneg
  · rename_i hne
    rw [if_neg hne]
    apply Nat.pos_of_ne_zero
    intro hmagnitude
    apply hne
    have hrank : f.rank = 0 := by simp [rank, hmagnitude]
    simp [eq, h, hzero.1, hzero.2.1, hrank]

/-! ## Conversions -/

/-- `n / 2 ^ s` to nearest, ties to even. -/
def nearest (n s : ℕ) : ℕ :=
  if 2 ^ s < 2 * (n % 2 ^ s) ∨ (2 ^ s = 2 * (n % 2 ^ s) ∧ n / 2 ^ s % 2 = 1)
    then n / 2 ^ s + 1 else n / 2 ^ s

/-- The significand of `n`, with its leading bit at position 52 after rounding. -/
def significand (n : ℕ) : ℕ :=
  if Nat.log2 n ≤ 52 then n * 2 ^ (52 - Nat.log2 n) else nearest n (Nat.log2 n - 52)

/-- The magnitude of the double nearest to `n`. A significand that rounds up to the next power of
two carries into the exponent. -/
def roundNat (n : ℕ) : ℕ :=
  if n = 0 then 0 else (Nat.log2 n + 1022) * 2 ^ 52 + significand n

/-- `n as f64`. -/
def ofInt (n : ℤ) : Binary64 := ofFields (n < 0) (roundNat n.natAbs)

/-- `f64::from` of a single precision number, which is exact. -/
def ofBinary32 (f : Binary32) : Binary64 :=
  let negative : Bool := 2 ^ 31 ≤ f.bits.toNat
  let exponent := f.bits.toNat / 2 ^ 23 % 2 ^ 8
  let fraction := f.bits.toNat % 2 ^ 23
  let magnitude :=
    if exponent = 255 then
      2047 * 2 ^ 52 + if fraction = 0 then 0 else 2 ^ 51 + fraction % 2 ^ 22 * 2 ^ 29
    else if exponent = 0 then
      -- a subnormal number has room for its leading bit here
      if fraction = 0 then 0
      else (Nat.log2 fraction + 873) * 2 ^ 52 + fraction * 2 ^ (52 - Nat.log2 fraction)
    else (exponent + 896) * 2 ^ 52 + fraction * 2 ^ 29
  ofFields negative magnitude

/-- The integer part of a magnitude. -/
def truncMagnitude (m : ℕ) : ℕ :=
  let exponent := m / 2 ^ 52
  let significand := if exponent = 0 then m else m % 2 ^ 52 + 2 ^ 52
  if 1075 ≤ exponent then significand * 2 ^ (exponent - 1075)
  else significand / 2 ^ (1075 - max 1 exponent)

/-- `f as i128`: truncation, saturating, with NaN read as zero. -/
def toI128 : ℤ :=
  if f.isNaN then 0
  else if f.negative then max (-2 ^ 127) (-(truncMagnitude f.magnitude : ℤ))
  else min (2 ^ 127 - 1) (truncMagnitude f.magnitude)

/-- Rounding goes to one of the two neighbours. -/
lemma nearest_bounds (n s : ℕ) : n / 2 ^ s ≤ nearest n s ∧ nearest n s ≤ n / 2 ^ s + 1 := by
  unfold nearest
  split <;> omega

/-- Rounding is monotone. -/
lemma nearest_mono {n m : ℕ} (s : ℕ) (h : n ≤ m) : nearest n s ≤ nearest m s := by
  have hdiv : n / 2 ^ s ≤ m / 2 ^ s := Nat.div_le_div_right h
  have hn := nearest_bounds n s
  have hm := nearest_bounds m s
  by_cases hq : n / 2 ^ s = m / 2 ^ s
  · -- equal quotients, so the remainders are in the order of the numbers
    have hr : n % 2 ^ s ≤ m % 2 ^ s := by
      have h1 := Nat.div_add_mod n (2 ^ s)
      have h2 := Nat.div_add_mod m (2 ^ s)
      rw [hq] at h1
      omega
    unfold nearest
    split <;> split <;> omega
  · omega

/-- A rounded significand has 53 bits, or is the next power of two. -/
lemma significand_bounds {n : ℕ} (h : n ≠ 0) : 2 ^ 52 ≤ significand n ∧ significand n ≤ 2 ^ 53 := by
  have hlow : 2 ^ Nat.log2 n ≤ n := Nat.log2_self_le h
  have hhigh : n < 2 ^ (Nat.log2 n + 1) := Nat.lt_log2_self
  unfold significand
  split
  · have hpow : 2 ^ Nat.log2 n * 2 ^ (52 - Nat.log2 n) = 2 ^ 52 := by
      rw [← Nat.pow_add]
      congr 1
      omega
    have hpow' : 2 ^ (Nat.log2 n + 1) * 2 ^ (52 - Nat.log2 n) = 2 ^ 53 := by
      rw [← Nat.pow_add]
      congr 1
      omega
    constructor
    · calc 2 ^ 52 = 2 ^ Nat.log2 n * 2 ^ (52 - Nat.log2 n) := hpow.symm
        _ ≤ n * 2 ^ (52 - Nat.log2 n) := Nat.mul_le_mul_right _ hlow
    · calc n * 2 ^ (52 - Nat.log2 n) ≤ 2 ^ (Nat.log2 n + 1) * 2 ^ (52 - Nat.log2 n) :=
            Nat.mul_le_mul_right _ hhigh.le
        _ = 2 ^ 53 := hpow'
  · have hb := nearest_bounds n (Nat.log2 n - 52)
    have hq : 2 ^ 52 ≤ n / 2 ^ (Nat.log2 n - 52) := by
      rw [Nat.le_div_iff_mul_le (Nat.two_pow_pos _), ← Nat.pow_add]
      refine le_trans (Nat.pow_le_pow_right (by norm_num) ?_) hlow
      omega
    have hq' : n / 2 ^ (Nat.log2 n - 52) < 2 ^ 53 := by
      rw [Nat.div_lt_iff_lt_mul (Nat.two_pow_pos _), ← Nat.pow_add]
      refine lt_of_lt_of_le hhigh (Nat.pow_le_pow_right (by norm_num) ?_)
      omega
    omega

lemma significand_mono {n m : ℕ} (h : n ≤ m) (hlog : Nat.log2 n = Nat.log2 m) :
    significand n ≤ significand m := by
  unfold significand
  rw [hlog]
  split
  · exact Nat.mul_le_mul_right _ h
  · exact nearest_mono _ h

/-- Conversion from naturals is monotone in the bit patterns. -/
theorem roundNat_mono {n m : ℕ} (h : n ≤ m) : roundNat n ≤ roundNat m := by
  unfold roundNat
  by_cases hn : n = 0
  · rw [if_pos hn]
    exact Nat.zero_le _
  have hm : m ≠ 0 := by omega
  rw [if_neg hn, if_neg hm]
  have hlog : Nat.log2 n ≤ Nat.log2 m := by
    rw [Nat.log2_eq_log_two, Nat.log2_eq_log_two]
    exact Nat.log_mono_right h
  by_cases heq : Nat.log2 n = Nat.log2 m
  · have hs := significand_mono h heq
    omega
  -- a smaller exponent leaves no significand that could catch up
  have hsn := (significand_bounds hn).2
  have hsm := (significand_bounds hm).1
  have hexp : (Nat.log2 n + 1 + 1022) * 2 ^ 52 ≤ (Nat.log2 m + 1022) * 2 ^ 52 :=
    Nat.mul_le_mul_right _ (by omega)
  calc (Nat.log2 n + 1022) * 2 ^ 52 + significand n
      ≤ (Nat.log2 n + 1022) * 2 ^ 52 + 2 ^ 53 := Nat.add_le_add_left hsn _
    _ = (Nat.log2 n + 1 + 1022) * 2 ^ 52 + 2 ^ 52 := by ring
    _ ≤ (Nat.log2 m + 1022) * 2 ^ 52 + significand m := Nat.add_le_add hexp hsm

/-- Naturals up to 64 bits convert to finite numbers. -/
lemma roundNat_lt {n : ℕ} (h : n ≤ 2 ^ 64) : roundNat n ≤ 1087 * 2 ^ 52 := by
  have hmono := roundNat_mono h
  have hmax : roundNat (2 ^ 64) = 1087 * 2 ^ 52 := by decide +kernel
  omega

lemma magnitude_ofInt {n : ℤ} (h : n.natAbs ≤ 2 ^ 64) :
    (ofInt n).magnitude = roundNat n.natAbs := by
  apply magnitude_ofFields
  have := roundNat_lt h
  omega

/-- An integer of 64 bits does not convert to NaN. -/
lemma isNaN_ofInt {n : ℤ} (h : n.natAbs ≤ 2 ^ 64) : (ofInt n).isNaN = false := by
  unfold isNaN
  rw [magnitude_ofInt h]
  have := roundNat_lt h
  simp only [decide_eq_false_iff_not]
  omega

/-- A number converted from 64 bits converts back to less than 65 bits. -/
lemma natAbs_toI128_ofInt {n : ℤ} (h : n.natAbs ≤ 2 ^ 64) : (ofInt n).toI128.natAbs < 2 ^ 65 := by
  have hmag : (ofInt n).magnitude ≤ 1087 * 2 ^ 52 := by
    rw [magnitude_ofInt h]
    exact roundNat_lt h
  have htrunc : truncMagnitude (ofInt n).magnitude < 2 ^ 65 := by
    unfold truncMagnitude
    dsimp only
    have hsig : (if (ofInt n).magnitude / 2 ^ 52 = 0 then (ofInt n).magnitude
        else (ofInt n).magnitude % 2 ^ 52 + 2 ^ 52) < 2 ^ 53 := by
      split <;> omega
    split
    · have hpow : 2 ^ ((ofInt n).magnitude / 2 ^ 52 - 1075) ≤ 2 ^ 12 :=
        Nat.pow_le_pow_right (by norm_num) (by omega)
      calc _ < 2 ^ 53 * 2 ^ ((ofInt n).magnitude / 2 ^ 52 - 1075) :=
            Nat.mul_lt_mul_of_pos_right hsig (Nat.two_pow_pos _)
        _ ≤ 2 ^ 53 * 2 ^ 12 := Nat.mul_le_mul_left _ hpow
        _ = 2 ^ 65 := by norm_num
    · refine lt_of_le_of_lt (Nat.div_le_self _ _) ?_
      omega
  unfold toI128
  split
  · decide
  · split <;> omega

end Binary64
