import Mathlib.Order.Lattice
import Mathlib.Algebra.Ring.Nat

/-!
# Machine arithmetic and errors of the storage crate
-/

namespace GraphForge

/-- `u64::checked_add`. -/
def checkedAdd (a b : ℕ) : Option ℕ := if a + b < 2 ^ 64 then some (a + b) else none

/-- `u64::saturating_add`. -/
def saturatingAdd (a b : ℕ) : ℕ := min (2 ^ 64 - 1) (a + b)

/-- `as_bytes`: the UTF-8 bytes of a text. -/
def bytesOf (text : String) : List UInt8 := text.toUTF8.data.toList

/-- `char::is_control`: the general category Cc. -/
def isControl (c : Char) : Bool := c.val < 0x20 || (0x7f ≤ c.val && c.val ≤ 0x9f)

/-- `char::is_whitespace`: the property White_Space. -/
def isWhitespace (c : Char) : Bool :=
  (0x09 ≤ c.val && c.val ≤ 0x0d) || c.val == 0x20 || c.val == 0x85 || c.val == 0xa0 ||
    c.val == 0x1680 || (0x2000 ≤ c.val && c.val ≤ 0x200a) || c.val == 0x2028 || c.val == 0x2029 ||
    c.val == 0x202f || c.val == 0x205f || c.val == 0x3000

/-- The codes of project errors. -/
inductive ProjectErrorCode where
  | projectCorrupt
  | unsupportedProjectFormat
  | resourceLimit
  | idempotencyConflict
  | checkpointRegistryCorrupt
  deriving DecidableEq, Repr, Inhabited

/-- The classes of error the storage crate reports, each with its text. -/
inductive GfError where
  /-- An I/O failure, or a value that a correct caller never passes. -/
  | storage (message : String)
  /-- Data that is present but does not pass its own integrity checks. -/
  | validation (message : String)
  /-- An admission limit: `GF_RESOURCE_LIMIT`. -/
  | resourceLimit (message : String)
  /-- A failure of the project artifact, under its code. -/
  | project (code : ProjectErrorCode) (message : String)
  deriving DecidableEq, Repr, Inhabited

end GraphForge
