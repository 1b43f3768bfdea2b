import GraphForge.Digest

/-!
# UUIDs

A UUID is sixteen bytes, compared byte by byte. The model keeps the number those bytes
are the big-endian text of: the two orders agree (`Uuid.lt_iff_toBytes_lt`), and the
arithmetic on `u128` that partitions the key space is arithmetic on it.
-/

namespace GraphForge

/-- A UUID, by its big-endian value. -/
abbrev Uuid := Fin (2 ^ 128)

/-- Named, so that literals and membership tests use the same instances in every module. -/
instance instNeZeroUuid : NeZero (2 ^ 128) := inferInstance

instance instLawfulBEqUuid : LawfulBEq Uuid := inferInstance

namespace Uuid

variable (u : Uuid)

/-- The sixteen bytes of a UUID. -/
def toBytes : List UInt8 := Bytes.beBytes 16 u.val

/-- The UUID with the given bytes; `none` when they are not sixteen. -/
def ofBytes (bs : List UInt8) : Option Uuid :=
  if h : bs.length = 16 then
    some ⟨Bytes.ofBeBytes bs, by have := Bytes.ofBeBytes_lt bs; rw [h] at this; exact this⟩
  else none

private lemma val_lt_pow : u.val < 256 ^ 16 := u.isLt

@[simp] lemma length_toBytes : u.toBytes.length = 16 := Bytes.length_beBytes 16 u.val

@[simp] lemma ofBytes_toBytes : ofBytes u.toBytes = some u := by
  rw [ofBytes, dif_pos (length_toBytes u)]
  exact congrArg some (Fin.ext (Bytes.ofBeBytes_beBytes (val_lt_pow u)))

lemma toBytes_of_ofBytes {bs : List UInt8} {u : Uuid} (h : ofBytes bs = some u) :
    u.toBytes = bs := by
  unfold ofBytes at h
  split at h
  next hlen =>
    obtain rfl := Option.some.inj h
    rw [toBytes, ← hlen, Bytes.beBytes_ofBeBytes]
  · simp at h

/-- The canonical text: lowercase hexadecimal in groups of 8, 4, 4, 4 and 12 digits. -/
def hyphenated : String :=
  let digits := hexText u.toBytes
  String.ofList (digits.take 8 ++ '-' :: ((digits.drop 8).take 4 ++ '-' ::
    ((digits.drop 12).take 4 ++ '-' :: ((digits.drop 16).take 4 ++ '-' :: digits.drop 20))))

/-- Dropping the hyphens from the text leaves the digits. -/
private lemma filter_hyphenated : u.hyphenated.toList.filter isLowerHex = hexText u.toBytes := by
  have hall : ∀ piece : List Char, piece ⊆ hexText u.toBytes → piece.filter isLowerHex = piece := by
    intro piece hpiece
    rw [List.filter_eq_self]
    intro c hc
    exact isLowerHex_of_mem_hexText (hpiece hc)
  have hdash : isLowerHex '-' = false := by decide
  have hdrop : ∀ n, (hexText u.toBytes).drop n ⊆ hexText u.toBytes := fun n => List.drop_subset n _
  have htake : ∀ m n, ((hexText u.toBytes).drop n).take m ⊆ hexText u.toBytes := fun m n c hc =>
    hdrop n (List.take_subset m _ hc)
  simp only [hyphenated, String.toList_ofList, List.filter_append, List.filter_cons, hdash,
    Bool.false_eq_true, if_false]
  rw [hall _ (List.take_subset 8 _), hall _ (htake 4 8), hall _ (htake 4 12), hall _ (htake 4 16),
    hall _ (hdrop 20)]
  have hjoin : ∀ m n, ((hexText u.toBytes).drop n).take m ++ (hexText u.toBytes).drop (n + m) =
      (hexText u.toBytes).drop n := by
    intro m n
    rw [← List.drop_drop, List.take_append_drop]
  rw [hjoin 4 16, hjoin 4 12, hjoin 4 8, List.take_append_drop]

lemma hyphenated_injective : Function.Injective hyphenated := by
  intro u v h
  have hdigits : hexText u.toBytes = hexText v.toBytes := by
    rw [← filter_hyphenated, ← filter_hyphenated, h]
  have hbytes := hexText_injective hdigits
  have := ofBytes_toBytes u
  rw [hbytes, ofBytes_toBytes] at this
  exact (Option.some.inj this).symm

/-- UUIDs compare as their bytes do. -/
lemma lt_iff_toBytes_lt (u v : Uuid) : u < v ↔ u.toBytes < v.toBytes :=
  (Bytes.beBytes_lt_iff (val_lt_pow u) (val_lt_pow v)).symm

end Uuid

end GraphForge
