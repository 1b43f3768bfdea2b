import GraphForge.Lib.Bytes
import GraphForge.Lib.Outcome

/-!
# Reading a byte string by offsets

Slicing and indexing abort a program when they leave the string; a checked read reports
an error of the program's own. `Access ε` tells the two apart, so that "never reads
outside the input" is a statement about outcomes. The lemmas relate a read at an offset
to a decomposition of what the string holds from that offset on, in both directions.
-/

namespace Slices

open List Bytes Except

variable {α : Type} {ε : Type}

/-- How a reader fails. -/
inductive Access (ε : Type) where
  /-- The program aborts: a slice or an index is out of range. -/
  | outOfBounds
  /-- The program returns an error. -/
  | refused (e : ε)
  deriving DecidableEq, Repr

/-- `xs[lo..hi]`. -/
def slice (xs : List α) (lo hi : ℕ) : Except (Access ε) (List α) :=
  if lo ≤ hi ∧ hi ≤ xs.length then .ok ((xs.drop lo).take (hi - lo)) else .error .outOfBounds

/-- `xs[i]`. -/
def index (xs : List α) (i : ℕ) : Except (Access ε) α := ofOption .outOfBounds xs[i]?

/-- `xs.get(lo..lo + n).ok_or(e)`. -/
def get (e : ε) (n : ℕ) (xs : List α) (lo : ℕ) : Except (Access ε) (List α) :=
  if lo + n ≤ xs.length then .ok ((xs.drop lo).take n) else .error (.refused e)

/-- A checked read of a little-endian number. -/
def getLe (e : ε) (n : ℕ) (bytes : List UInt8) (lo : ℕ) : Except (Access ε) ℕ := do
  let piece ← get e n bytes lo
  return ofLeBytes piece

/-- A check of the program itself. -/
def refuse (p : Prop) [Decidable p] (e : ε) : Except (Access ε) Unit :=
  refuseIf p (.refused e)

/-- The program did not abort. -/
def InBounds (a : Access ε) : Prop := a ≠ .outOfBounds

/-- A check that passes says that what it refuses does not hold. -/
lemma ends_refuse {p : Prop} [Decidable p] {e : ε} : (refuse p e).Ends InBounds (fun _ => ¬p) :=
  ends_refuseIf fun _ => nofun

/-! ## What a read says of the string -/

variable {xs piece rest : List α} {lo hi n : ℕ}

/-- What stands at an offset splits into a piece of any length that fits and the rest. -/
lemma drop_eq_append (h : lo + n ≤ xs.length) :
    xs.drop lo = (xs.drop lo).take n ++ xs.drop (lo + n) ∧ ((xs.drop lo).take n).length = n := by
  refine ⟨?_, ?_⟩
  · rw [← drop_drop, take_append_drop]
  · rw [length_take, length_drop]
    omega

/-- Slicing within the bounds gives the piece that stands there. -/
lemma ends_slice {E : Access ε → Prop} (lo n : ℕ) (h : lo + n ≤ xs.length) :
    (slice xs lo (lo + n)).Ends E
      (fun piece => xs.drop lo = piece ++ xs.drop (lo + n) ∧ piece.length = n) := by
  unfold slice
  rw [if_pos ⟨by omega, h⟩, Nat.add_sub_cancel_left]
  exact .ok (drop_eq_append h)

/-- Indexing within the bounds gives the element that stands there. -/
lemma ends_index {E : Access ε → Prop} (h : lo < xs.length) :
    (index xs lo).Ends E (fun x => xs.drop lo = x :: xs.drop (lo + 1)) := by
  unfold index
  rw [List.getElem?_eq_getElem h]
  exact .ok (drop_eq_getElem_cons h)

/-- A checked read fails inside the bounds or gives the piece that stands there. -/
lemma ends_get {e : ε} : (get e n xs lo).Ends InBounds
      (fun piece => xs.drop lo = piece ++ xs.drop (lo + n) ∧ piece.length = n ∧
        lo + n ≤ xs.length) := by
  unfold get
  by_cases h : lo + n ≤ xs.length
  · rw [if_pos h]
    exact .ok ⟨(drop_eq_append h).1, (drop_eq_append h).2, h⟩
  · rw [if_neg h]
    exact .error nofun

/-- A checked read of a number gives the number whose bytes stand there. -/
lemma ends_getLe {e : ε} {bytes : List UInt8} : (getLe e n bytes lo).Ends InBounds
      (fun v => v < 256 ^ n ∧ bytes.drop lo = leBytes n v ++ bytes.drop (lo + n) ∧
        lo + n ≤ bytes.length) := by
  unfold getLe
  apply ends_get.bind
  intro piece hpiece
  obtain ⟨hdrop, hlength, hbounds⟩ := hpiece
  have hlt := ofLeBytes_lt piece
  have hle := leBytes_ofLeBytes piece
  rw [hlength] at hlt hle
  exact .ok ⟨hlt, by rw [hle]; exact hdrop, hbounds⟩

/-! ## What the string says of a read -/

section
variable (h : xs.drop lo = piece ++ rest)
include h

/-- Behind a piece stands what follows it. -/
lemma drop_after (hhi : hi = lo + piece.length) : xs.drop hi = rest := by
  rw [hhi, ← drop_drop, h, drop_left]

/-- Offset, piece and rest make up the length. -/
lemma length_of_drop (hlo : lo ≤ xs.length) : lo + piece.length + rest.length = xs.length := by
  have := congrArg List.length h
  rw [length_drop, length_append] at this
  omega

/-- Slicing off the piece that stands at an offset. -/
lemma slice_eq (hlo : lo ≤ xs.length) (hhi : hi = lo + piece.length) :
    (slice xs lo hi : Except (Access ε) _) = .ok piece := by
  have hlength := length_of_drop h hlo
  unfold slice
  rw [if_pos ⟨by omega, by omega⟩, h, hhi, Nat.add_sub_cancel_left, take_left]

end

/-- Indexing the element that stands at an offset. -/
lemma index_eq {x : α} (h : xs.drop lo = x :: rest) :
    (index xs lo : Except (Access ε) _) = .ok x := by
  unfold index
  rw [← head?_drop, h]
  rfl

/-- A checked read of the piece that stands at an offset. -/
lemma get_eq (h : xs.drop lo = piece ++ rest) (hlo : lo ≤ xs.length) (hn : piece.length = n)
    (e : ε) : get e n xs lo = .ok piece := by
  have hlength := length_of_drop h hlo
  unfold get
  rw [if_pos (by omega), h, ← hn, take_left]

/-- A checked read of the number whose bytes stand at an offset. -/
lemma getLe_eq {bytes after : List UInt8} {v : ℕ} (h : bytes.drop lo = leBytes n v ++ after)
    (hlo : lo ≤ bytes.length) (hv : v < 256 ^ n) (e : ε) : getLe e n bytes lo = .ok v := by
  unfold getLe
  rw [get_eq h hlo (length_leBytes n v)]
  simp only [bind, Except.bind, ofLeBytes_leBytes hv]
  rfl

end Slices
