import GraphForge.Prelude
import GraphForge.Uuid
import Mathlib.Data.Prod.Lex

/-!
# Property overlays: data model

A property route is a set of immutable fragments. Every fragment holds rows sorted by
UUID, each the complete property state of its entity or a tombstone; the fragment's
identity ranks its rows against those of other fragments.
-/

namespace GraphForge.PropertyOverlay

/-! ## Fragments and rows -/

/-- Newest-wins authority of one immutable fragment. -/
structure PropertyFragmentId where
  generation : ℕ
  ordinal : ℕ
  deriving DecidableEq, Repr

/-- The derived order: by generation, then by ordinal. -/
instance : LinearOrder PropertyFragmentId :=
  LinearOrder.lift' (fun id => toLex (id.generation, id.ordinal)) fun a b h => by
    cases a; cases b
    simpa using toLex_inj.mp h

/-- Complete logical property state for one UUID. The map of values is given by its
entries in key order. -/
structure PropertySnapshotRow (L : Type) where
  uuid : Uuid
  tombstone : Bool
  values : List (String × L)
  deriving DecidableEq, Repr

/-- An immutable fragment: strictly sorted rows, and tombstones without values. -/
structure PropertyFragment (L : Type) where
  id : PropertyFragmentId
  rows : List (PropertySnapshotRow L)
  sorted : rows.Pairwise (·.uuid < ·.uuid)
  tombstones : ∀ row ∈ rows, row.tombstone = true → row.values = []

/-- `row` is the state a route gives its UUID: the newest row of that UUID, and live. -/
def NewestLive {L : Type} (fragments : List (PropertyFragment L)) (row : PropertySnapshotRow L) :
    Prop :=
  ∃ f ∈ fragments, row ∈ f.rows ∧ row.tombstone = false ∧
    ∀ g ∈ fragments, ∀ r ∈ g.rows, r.uuid = row.uuid → g.id ≤ f.id

/-- Explicit bounded merge limits. -/
structure PropertyOverlayLimits where
  maxBufferedRows : ℕ
  maxOpenRuns : ℕ
  maxBufferedBytes : ℕ
  maxRowBytes : ℕ
  deriving DecidableEq, Repr

/-! ## Errors -/

/-- Why an overlay read fails. -/
inductive OverlayError where
  | invalidLimits
  | tombstoneCarriesValues
  | unsortedUuids
  | rowOutsideRange
  | rowExceedsByteLimit
  | byteChargeOverflows
  | liveByteChargeOverflows
  | liveByteBudgetExceeded
  | spillRecordExceedsByteLimit
  | arrowBatchExceedsAdmission
  /-- The byte admission of a fragment's Parquet pages. -/
  | pageAdmission (message : String)
  /-- A spilled line that `serde_json` cannot decode. -/
  | spool
  /-- The `expect` of a merge whose heap names a cursor without a row. -/
  | heapRowMissing
  | cursorClosed
  /-- An error of the Parquet decoder that feeds the merge. -/
  | decoder (message : String)
  deriving DecidableEq, Repr

namespace OverlayError

/-- The text of the error; the refusals of this component carry its prefix. -/
def message : OverlayError → String
  | invalidLimits => "property overlay: property overlay merge limits are invalid"
  | tombstoneCarriesValues => "property overlay: property tombstone carries live values"
  | unsortedUuids => "property overlay: property fragment UUIDs are duplicate or unsorted"
  | rowOutsideRange =>
    "property overlay: property fragment row lies outside its declared UUID range"
  | rowExceedsByteLimit => "property overlay: property snapshot row exceeds byte limit"
  | byteChargeOverflows => "property overlay: property snapshot byte charge overflows"
  | liveByteChargeOverflows => "property overlay: property live-byte charge overflows"
  | liveByteBudgetExceeded => "property overlay: property live-byte budget exceeded"
  | spillRecordExceedsByteLimit => "property overlay: property spill record exceeds byte limit"
  | arrowBatchExceedsAdmission =>
    "property overlay: property Arrow batch exceeds pre-decode live-byte admission"
  | pageAdmission message => "property overlay: " ++ message
  | spool => "property overlay spool: "
  | heapRowMissing => "heap row exists"
  | cursorClosed => "property overlay: property merge cursor is closed"
  | decoder message => message

/-- The errors by which a byte limit refuses a read. -/
def IsByteLimit : OverlayError → Prop
  | rowExceedsByteLimit | byteChargeOverflows | liveByteChargeOverflows
  | liveByteBudgetExceeded | spillRecordExceedsByteLimit | arrowBatchExceedsAdmission
  | pageAdmission _ => True
  | _ => False

instance : DecidablePred IsByteLimit := fun e => by
  cases e <;> unfold IsByteLimit <;> infer_instance

end OverlayError

/-! ## The live-byte budget -/

/-- Bytes charged against a ceiling; decoders and merges share one budget. -/
structure LiveByteBudget where
  max : ℕ
  used : ℕ
  deriving DecidableEq, Repr

namespace LiveByteBudget

variable (budget : LiveByteBudget)

/-- Charge `bytes`, or refuse. -/
def charge (bytes : ℕ) : Except OverlayError LiveByteBudget :=
  match checkedAdd budget.used bytes with
  | none => throw .liveByteChargeOverflows
  | some next =>
    if budget.max < next then throw .liveByteBudgetExceeded
    else pure { budget with used := next }

/-- Give `bytes` back. -/
def release (bytes : ℕ) : LiveByteBudget :=
  { budget with used := budget.used - bytes }

/-- Whether a charge would be admitted. -/
def canCharge (bytes : ℕ) : Bool :=
  (checkedAdd budget.used bytes).any (· ≤ budget.max)

end LiveByteBudget

end GraphForge.PropertyOverlay
