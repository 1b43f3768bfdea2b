import GraphForge.Lib.Bytes
import GraphForge.Lib.Lists

/-!
# XXH64

The 64-bit xxHash with seed zero on byte lists, with words as natural numbers below
`2 ^ 64`.
-/

namespace Xxh64

open Bytes

/-- The primes of the algorithm. -/
def prime1 : ℕ := 11400714785074694791
/-- The second prime. -/
def prime2 : ℕ := 14029467366897019727
/-- The third prime. -/
def prime3 : ℕ := 1609587929392839161
/-- The fourth prime. -/
def prime4 : ℕ := 9650029242287828579
/-- The fifth prime. -/
def prime5 : ℕ := 2870177450012600261

/-- Rotation of 64 bits to the left. -/
def rotl (n a : ℕ) : ℕ := (a <<< n) % 2 ^ 64 ||| (a >>> (64 - n))

/-- Work a lane into an accumulator. -/
def round (acc lane : ℕ) : ℕ := rotl 31 ((acc + lane * prime2) % 2 ^ 64) * prime1 % 2 ^ 64

/-- Work a stripe of 32 bytes into the four accumulators. -/
def stripe (accs : List ℕ) (bytes : List UInt8) : List ℕ :=
  accs.zipWith round ((bytes.chunks 8).map ofLeBytes)

/-- Merge one accumulator. -/
def mergeRound (h acc : ℕ) : ℕ := ((h ^^^ round 0 acc) * prime1 + prime4) % 2 ^ 64

/-- The state before the bytes that fill no stripe. -/
def start (bytes : List UInt8) : ℕ :=
  if bytes.length < 32 then prime5
  else
    let accs := ((bytes.take (bytes.length / 32 * 32)).chunks 32).foldl stripe
      [(prime1 + prime2) % 2 ^ 64, prime2, 0, 2 ^ 64 - prime1]
    let h := ((accs.zipWith (fun acc n => rotl n acc) [1, 7, 12, 18]).sum) % 2 ^ 64
    accs.foldl mergeRound h

/-- Consume eight bytes. -/
def word8 (h : ℕ) (bytes : List UInt8) : ℕ :=
  (rotl 27 (h ^^^ round 0 (ofLeBytes bytes)) * prime1 + prime4) % 2 ^ 64

/-- Consume four bytes. -/
def word4 (h : ℕ) (bytes : List UInt8) : ℕ :=
  (rotl 23 (h ^^^ ofLeBytes bytes * prime1 % 2 ^ 64) * prime2 + prime3) % 2 ^ 64

/-- Consume one byte. -/
def word1 (h : ℕ) (b : UInt8) : ℕ := rotl 11 (h ^^^ b.toNat * prime5 % 2 ^ 64) * prime1 % 2 ^ 64

/-- The bytes that fill no stripe: words of eight, one word of four, single bytes. -/
def tail (h : ℕ) (bytes : List UInt8) : ℕ :=
  let h := ((bytes.take (bytes.length / 8 * 8)).chunks 8).foldl word8 h
  let rest := bytes.drop (bytes.length / 8 * 8)
  if rest.length < 4 then rest.foldl word1 h
  else (rest.drop 4).foldl word1 (word4 h (rest.take 4))

/-- The final mix. -/
def avalanche (h : ℕ) : ℕ :=
  let h := (h ^^^ (h >>> 33)) * prime2 % 2 ^ 64
  let h := (h ^^^ (h >>> 29)) * prime3 % 2 ^ 64
  h ^^^ (h >>> 32)

/-- The checksum of a message. -/
def hash (bytes : List UInt8) : ℕ :=
  avalanche (tail ((start bytes + bytes.length) % 2 ^ 64) (bytes.drop (bytes.length / 32 * 32)))

example : hash [0x61, 0x62, 0x63] = 0x44bc2cf5ad770999 := by decide +kernel

example : hash ((List.range 45).map UInt8.ofNat) = 0x10fdd84d6409abdf := by decide +kernel

end Xxh64
