import GraphForge.Lib.Sha256
import Mathlib.Tactic.IntervalCases

/-!
# Digests and their hexadecimal text
-/

namespace GraphForge

/-- What SHA-256 returns: 32 bytes. -/
def Digest := { bytes : List UInt8 // bytes.length = 32 }
  deriving DecidableEq

/-- The digest of a message. -/
def sha256 (message : List UInt8) : Digest := ⟨Sha256.hash message, Sha256.length_hash message⟩

/-- The lowercase hexadecimal digit of a number below sixteen. -/
def hexDigit (n : ℕ) : Char := Char.ofNat (if n < 10 then 48 + n else 87 + n)

/-- Two digits per byte. -/
def hexText (bytes : List UInt8) : List Char :=
  bytes.flatMap fun b => [hexDigit (b.toNat / 16), hexDigit (b.toNat % 16)]

/-- `byte.is_ascii_digit() || (b'a'..=b'f').contains(&byte)`. -/
def isLowerHex (c : Char) : Bool := ('0' ≤ c && c ≤ '9') || ('a' ≤ c && c ≤ 'f')

lemma isLowerHex_hexDigit {n : ℕ} (h : n < 16) : isLowerHex (hexDigit n) = true := by
  interval_cases n <;> decide

@[simp] lemma length_hexText (bytes : List UInt8) : (hexText bytes).length = 2 * bytes.length := by
  induction bytes with
  | nil => rfl
  | cons b bytes ih =>
    rw [hexText] at ih ⊢
    simp
    omega

lemma isLowerHex_of_mem_hexText {bytes : List UInt8} {c : Char} (h : c ∈ hexText bytes) :
    isLowerHex c = true := by
  obtain ⟨b, _, hc⟩ := List.mem_flatMap.mp h
  have hb := b.toNat_lt
  rcases List.mem_cons.mp hc with rfl | hc
  · apply isLowerHex_hexDigit
    omega
  · rw [List.mem_singleton.mp hc]
    apply isLowerHex_hexDigit
    omega

lemma hexDigit_injOn {m n : ℕ} (hm : m < 16) (hn : n < 16) (h : hexDigit m = hexDigit n) :
    m = n := by
  interval_cases m <;> interval_cases n <;> first | rfl | exact absurd h (by decide)

lemma hexText_injective : Function.Injective hexText := by
  intro bytes
  induction bytes with
  | nil =>
    intro bytes' h
    cases bytes' with
    | nil => rfl
    | cons b' bytes' => simp [hexText] at h
  | cons b bytes ih =>
    intro bytes' h
    cases bytes' with
    | nil => simp [hexText] at h
    | cons b' bytes' =>
      simp only [hexText, List.flatMap_cons, List.cons_append, List.nil_append,
        List.cons.injEq] at h
      have hb := b.toNat_lt
      have hb' := b'.toNat_lt
      have hhigh := hexDigit_injOn (by omega) (by omega) h.1
      have hlow := hexDigit_injOn (by omega) (by omega) h.2.1
      rw [ih h.2.2, UInt8.toNat_inj.mp (by omega : b.toNat = b'.toNat)]

end GraphForge
