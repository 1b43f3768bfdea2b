import Mathlib.Tactic.Linarith

/-!
# Fixed-width integers as bytes

Little-endian and big-endian encodings of a natural number in a given number of bytes,
their inverse, and the fact that comparing big-endian texts byte by byte compares the
numbers they encode.
-/

namespace Bytes

open Nat

/-! ## Little-endian -/

/-- The low `n` bytes of `v`, least significant first. -/
def leBytes : ℕ → ℕ → List UInt8
  | 0, _ => []
  | n + 1, v => UInt8.ofNat v :: leBytes n (v / 256)

/-- The number whose bytes, least significant first, are given. -/
def ofLeBytes : List UInt8 → ℕ
  | [] => 0
  | b :: bs => b.toNat + 256 * ofLeBytes bs

@[simp] lemma length_leBytes (n v : ℕ) : (leBytes n v).length = n := by
  induction n generalizing v with
  | zero => rfl
  | succ n ih => simp [leBytes, ih]

variable (bs : List UInt8)

/-- Bytes spell a number of their width. -/
lemma ofLeBytes_lt : ofLeBytes bs < 256 ^ bs.length := by
  induction bs with
  | nil => simp [ofLeBytes]
  | cons b bs ih =>
    have hb : b.toNat < 256 := b.toNat_lt
    rw [ofLeBytes, List.length_cons, pow_succ]
    omega

/-- A number of the width is read back from its bytes. -/
lemma ofLeBytes_leBytes {n v : ℕ} (h : v < 256 ^ n) : ofLeBytes (leBytes n v) = v := by
  induction n generalizing v with
  | zero => simp at h; simp [leBytes, ofLeBytes, h]
  | succ n ih =>
    have hv : v / 256 < 256 ^ n := by
      rw [div_lt_iff_lt_mul (by norm_num), ← pow_succ]
      exact h
    rw [leBytes, ofLeBytes, ih hv, UInt8.toNat_ofNat']
    omega

/-- Bytes are those of the number they spell. -/
lemma leBytes_ofLeBytes : leBytes bs.length (ofLeBytes bs) = bs := by
  induction bs with
  | nil => rfl
  | cons b bs ih =>
    have hb : b.toNat < 256 := b.toNat_lt
    have hdiv : (b.toNat + 256 * ofLeBytes bs) / 256 = ofLeBytes bs := by omega
    rw [List.length_cons, leBytes, ofLeBytes, hdiv, ih]
    congr 1
    rw [← UInt8.toNat_inj, UInt8.toNat_ofNat']
    omega

/-! ## Big-endian -/

/-- The low `n` bytes of `v`, most significant first. -/
def beBytes : ℕ → ℕ → List UInt8
  | 0, _ => []
  | n + 1, v => UInt8.ofNat (v / 256 ^ n) :: beBytes n (v % 256 ^ n)

/-- The number whose bytes, most significant first, are given. -/
def ofBeBytes : List UInt8 → ℕ
  | [] => 0
  | b :: bs => b.toNat * 256 ^ bs.length + ofBeBytes bs

@[simp] lemma length_beBytes (n v : ℕ) : (beBytes n v).length = n := by
  induction n generalizing v with
  | zero => rfl
  | succ n ih => simp [beBytes, ih]

/-- Bytes spell a number of their width. -/
lemma ofBeBytes_lt : ofBeBytes bs < 256 ^ bs.length := by
  induction bs with
  | nil => simp [ofBeBytes]
  | cons b bs ih =>
    have hb : b.toNat + 1 ≤ 256 := b.toNat_lt
    rw [ofBeBytes, List.length_cons, pow_succ]
    have := mul_le_mul_right (256 ^ bs.length) hb
    linarith

/-- The top byte of a number of the width is not truncated. -/
private lemma toNat_top {n v : ℕ} (h : v < 256 ^ (n + 1)) :
    (UInt8.ofNat (v / 256 ^ n)).toNat = v / 256 ^ n := by
  refine mod_eq_of_lt ?_
  rw [div_lt_iff_lt_mul (by positivity)]
  rw [pow_succ] at h
  linarith

/-- A number of the width is read back from its bytes. -/
lemma ofBeBytes_beBytes {n v : ℕ} (h : v < 256 ^ n) : ofBeBytes (beBytes n v) = v := by
  induction n generalizing v with
  | zero => simp at h; simp [beBytes, ofBeBytes, h]
  | succ n ih =>
    rw [beBytes, ofBeBytes, length_beBytes, toNat_top h, ih (mod_lt _ (by positivity))]
    exact div_add_mod' v (256 ^ n)

/-- Bytes are those of the number they spell. -/
lemma beBytes_ofBeBytes : beBytes bs.length (ofBeBytes bs) = bs := by
  induction bs with
  | nil => rfl
  | cons b bs ih =>
    have hlt := ofBeBytes_lt bs
    have hpos : 0 < 256 ^ bs.length := by positivity
    have hdiv : (b.toNat * 256 ^ bs.length + ofBeBytes bs) / 256 ^ bs.length = b.toNat := by
      rw [mul_comm, mul_add_div hpos, div_eq_of_lt hlt, add_zero]
    have hmod : (b.toNat * 256 ^ bs.length + ofBeBytes bs) % 256 ^ bs.length = ofBeBytes bs := by
      rw [mul_comm, mul_add_mod, mod_eq_of_lt hlt]
    rw [List.length_cons, beBytes, ofBeBytes, hdiv, hmod, ih, UInt8.ofNat_toNat]

/-- Byte-by-byte comparison of big-endian texts is comparison of the numbers. -/
lemma beBytes_lt_iff {n v w : ℕ} (hv : v < 256 ^ n) (hw : w < 256 ^ n) :
    beBytes n v < beBytes n w ↔ v < w := by
  induction n generalizing v w with
  | zero => simp at hv hw; simp [beBytes, hv, hw]
  | succ n ih =>
    have hpos : 0 < 256 ^ n := by positivity
    rw [beBytes, beBytes, List.cons_lt_cons_iff, ih (mod_lt _ hpos) (mod_lt _ hpos),
      UInt8.lt_iff_toNat_lt, ← UInt8.toNat_inj, toNat_top hv, toNat_top hw]
    have hdv := div_add_mod' v (256 ^ n)
    have hdw := div_add_mod' w (256 ^ n)
    constructor
    · rintro (h | ⟨h, h'⟩)
      · have := mul_le_mul_right (256 ^ n) (succ_le_of_lt h)
        rw [succ_mul] at this
        omega
      · rw [h] at hdv
        omega
    · intro h
      rcases lt_trichotomy (v / 256 ^ n) (w / 256 ^ n) with h' | h' | h'
      · exact Or.inl h'
      · rw [h'] at hdv
        exact Or.inr ⟨h', by omega⟩
      · have := mul_le_mul_right (256 ^ n) (succ_le_of_lt h')
        rw [succ_mul] at this
        omega

end Bytes
