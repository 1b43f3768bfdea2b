import GraphForge.Lib.Bytes
import GraphForge.Lib.Lists

/-!
# SHA-256

The hash function of FIPS 180-4 on byte lists, with words as natural numbers below
`2 ^ 32`.
-/

namespace Sha256

open Bytes

/-- Fractional parts of the cube roots of the first 64 primes. -/
def roundConstants : List ℕ :=
  [0x428a2f98, 0x71374491, 0xb5c0fbcf, 0xe9b5dba5, 0x3956c25b, 0x59f111f1,
   0x923f82a4, 0xab1c5ed5, 0xd807aa98, 0x12835b01, 0x243185be, 0x550c7dc3,
   0x72be5d74, 0x80deb1fe, 0x9bdc06a7, 0xc19bf174, 0xe49b69c1, 0xefbe4786,
   0x0fc19dc6, 0x240ca1cc, 0x2de92c6f, 0x4a7484aa, 0x5cb0a9dc, 0x76f988da,
   0x983e5152, 0xa831c66d, 0xb00327c8, 0xbf597fc7, 0xc6e00bf3, 0xd5a79147,
   0x06ca6351, 0x14292967, 0x27b70a85, 0x2e1b2138, 0x4d2c6dfc, 0x53380d13,
   0x650a7354, 0x766a0abb, 0x81c2c92e, 0x92722c85, 0xa2bfe8a1, 0xa81a664b,
   0xc24b8b70, 0xc76c51a3, 0xd192e819, 0xd6990624, 0xf40e3585, 0x106aa070,
   0x19a4c116, 0x1e376c08, 0x2748774c, 0x34b0bcb5, 0x391c0cb3, 0x4ed8aa4a,
   0x5b9cca4f, 0x682e6ff3, 0x748f82ee, 0x78a5636f, 0x84c87814, 0x8cc70208,
   0x90befffa, 0xa4506ceb, 0xbef9a3f7, 0xc67178f2]

/-- Fractional parts of the square roots of the first 8 primes. -/
def initialState : List ℕ :=
  [0x6a09e667, 0xbb67ae85, 0x3c6ef372, 0xa54ff53a, 0x510e527f, 0x9b05688c, 0x1f83d9ab, 0x5be0cd19]

/-- Addition of 32 bits. -/
def add (a b : ℕ) : ℕ := (a + b) % 2 ^ 32

/-- Rotation of 32 bits to the right. -/
def rotr (n a : ℕ) : ℕ := (a >>> n) ||| (a <<< (32 - n) % 2 ^ 32)

/-- The message followed by `0x80`, zeros and its bit length, a multiple of 64 bytes. -/
def pad (message : List UInt8) : List UInt8 :=
  message ++ 0x80 :: List.replicate ((119 - message.length % 64) % 64) 0 ++
    beBytes 8 (8 * message.length)

/-- The next word of the message schedule, from the last sixteen, latest first. -/
def nextWord (latest : List ℕ) : ℕ :=
  let w15 := latest.getD 14 0
  let w2 := latest.getD 1 0
  let s0 := rotr 7 w15 ^^^ rotr 18 w15 ^^^ (w15 >>> 3)
  let s1 := rotr 17 w2 ^^^ rotr 19 w2 ^^^ (w2 >>> 10)
  add (add (latest.getD 15 0) s0) (add (latest.getD 6 0) s1)

/-- Extend the schedule, kept latest first, by `n` words. -/
def extend : ℕ → List ℕ → List ℕ
  | 0, ws => ws
  | n + 1, ws => extend n (nextWord ws :: ws)

variable (state : List ℕ)

/-- One round, with the sum of its constant and its schedule word. -/
def round (kw : ℕ) : List ℕ :=
  match state with
  | [a, b, c, d, e, f, g, h] =>
    let s1 := rotr 6 e ^^^ rotr 11 e ^^^ rotr 25 e
    let ch := (e &&& f) ^^^ ((2 ^ 32 - 1 - e) &&& g)
    let t1 := add (add h s1) (add ch kw)
    let s0 := rotr 2 a ^^^ rotr 13 a ^^^ rotr 22 a
    let maj := (a &&& b) ^^^ (a &&& c) ^^^ (b &&& c)
    [add t1 (add s0 maj), a, b, c, add d t1, e, f, g]
  | _ => state

/-- Work one block of 64 bytes into the state. -/
def compress (block : List UInt8) : List ℕ :=
  let schedule := (extend 48 ((block.chunks 4).map ofBeBytes).reverse).reverse
  let final := (roundConstants.zipWith add schedule).foldl round state
  state.zipWith add final

/-- The digest of a message, 32 bytes. -/
def hash (message : List UInt8) : List UInt8 :=
  (((pad message).chunks 64).foldl compress initialState).flatMap (beBytes 4)

example : hash [0x61, 0x62, 0x63] =
    [0xba, 0x78, 0x16, 0xbf, 0x8f, 0x01, 0xcf, 0xea, 0x41, 0x41, 0x40, 0xde, 0x5d, 0xae, 0x22, 0x23,
      0xb0, 0x03, 0x61, 0xa3, 0x96, 0x17, 0x7a, 0x9c, 0xb4, 0x10, 0xff, 0x61, 0xf2, 0x00, 0x15, 0xad] := by
  decide +kernel

lemma length_round (kw : ℕ) : (round state kw).length = state.length := by
  unfold round
  split <;> rfl

lemma length_foldl_round (kws state : List ℕ) : (kws.foldl round state).length = state.length := by
  induction kws generalizing state with
  | nil => rfl
  | cons kw kws ih => rw [List.foldl_cons, ih, length_round]

lemma length_compress (block : List UInt8) : (compress state block).length = state.length := by
  unfold compress
  rw [List.length_zipWith, length_foldl_round, Nat.min_self]

lemma length_foldl_compress (blocks : List (List UInt8)) (state : List ℕ) :
    (blocks.foldl compress state).length = state.length := by
  induction blocks generalizing state with
  | nil => rfl
  | cons block blocks ih => rw [List.foldl_cons, ih, length_compress]

lemma length_hash (message : List UInt8) : (hash message).length = 32 := by
  unfold hash
  have hwords : ∀ ns : List ℕ, (ns.flatMap (beBytes 4)).length = 4 * ns.length := by
    intro ns
    induction ns with
    | nil => rfl
    | cons n ns ih =>
      rw [List.flatMap_cons, List.length_append, length_beBytes, ih, List.length_cons]
      omega
  rw [hwords, length_foldl_compress]
  rfl

end Sha256
