import GraphForge.PropertyOverlay.SnapshotMerge
import GraphForge.UuidSet

/-!
# The streaming route merge

`visitRouteStreaming` resolves a route without writing. It merges the fragments through a
heap like the spooled merge does, but opens a fragment only when the merge has come as far
as the fragment's least UUID, and it reads only what the nominated UUIDs need: fragments
and row groups are skipped by the UUID bounds their statistics declare.

The decoders of a read share a live-byte budget. An open fragment holds its source and its
pages, and a batch is charged while it is decoded and then row by row. Overlapping fragments
that do not fit beside each other are refused, because a read must not write. What Arrow,
Parquet and `serde_json` make of the sizes is a parameter, and so is the admission of the
pages. The query memory that a scan may bring along is left out.
-/

namespace GraphForge.PropertyOverlay

open Except

/-! ## Stored fragments -/

/-- A row group: the bounds its statistics declare for its UUIDs, if they declare any, and
its rows. -/
structure RowGroup (L : Type) where
  bounds : Option (Uuid × Uuid)
  rows : List (PropertySnapshotRow L)

/-- A fragment as it is stored, in row groups whose declared bounds hold. -/
structure StoredFragment (L : Type) extends PropertyFragment L where
  groups : List (RowGroup L)
  rows_eq : rows = groups.flatMap RowGroup.rows
  truthful : ∀ g ∈ groups, ∀ b ∈ g.bounds, ∀ row ∈ g.rows, b.1 ≤ row.uuid ∧ row.uuid ≤ b.2

variable {L : Type}

/-- The smallest and largest UUID of row groups, from their statistics; `none` when any row
group lacks them. `range` is that of the groups before. -/
def uuidRange : Option (Uuid × Uuid) → List (RowGroup L) → Option (Uuid × Uuid)
  | range, [] => range
  | range, g :: groups =>
    match g.bounds with
    | none => none
    | some (min, max) =>
      match range with
      | none => uuidRange (some (min, max)) groups
      | some (low, high) => uuidRange (some (Min.min low min, Max.max high max)) groups

/-- The UUID range a fragment's footer declares. -/
def StoredFragment.range (f : StoredFragment L) : Option (Uuid × Uuid) := uuidRange none f.groups

/-- The row groups that can hold a nominated UUID. -/
def selectGroups (wanted : UuidMembership) (groups : List (RowGroup L)) : List (RowGroup L) :=
  groups.filter fun g => g.bounds.all fun b => wanted.mayContainInRange b.1 b.2

/-- Whether every UUID that can fall in the groups is nominated. -/
def groupsFullyCovered (wanted : UuidMembership) (groups : List (RowGroup L)) : Bool :=
  groups.all fun g => g.bounds.any fun b => wanted.containsEveryInRange b.1 b.2

variable (uuids : Option UuidMembership)

/-- The rows a fragment's decoder delivers: those of the selected row groups, and of these
only the nominated ones unless whole groups are nominated. -/
def projectedFragmentRows (f : StoredFragment L) : List (PropertySnapshotRow L) :=
  match uuids with
  | none => f.groups.flatMap RowGroup.rows
  | some wanted =>
    let groups := selectGroups wanted f.groups
    if !groups.isEmpty && !groupsFullyCovered wanted groups then
      (groups.flatMap RowGroup.rows).filter fun row => wanted.containsUuid row.uuid
    else groups.flatMap RowGroup.rows

/-! ## The live-byte budget of a read -/

/-- The sizes the decoders of a read meet: the bytes of a fragment's source, those of its pages
unless these are not admitted, those of a batch in Arrow, and those of the text of a row's
values. -/
structure DecoderSizes (L : Type) where
  source : PropertyFragmentId → ℕ
  pages : PropertyFragmentId → Except String ℕ
  arrow : PropertyFragmentId → List (PropertySnapshotRow L) → ℕ
  valuesLen : List (String × L) → ℕ

/-- `RouteRead`: one streaming read of a route, and the sizes it meets. -/
structure RouteRead (L : Type) where
  uuids : Option UuidMembership
  limits : PropertyOverlayLimits
  sizes : DecoderSizes L

/-- A step of a read, over the budget that its decoders share. -/
abbrev BudgetM := StateT LiveByteBudget (Except OverlayError)

/-- Charge the shared budget, or refuse. -/
def chargeLive (bytes : ℕ) : BudgetM Unit := fun budget => do
  let budget ← budget.charge bytes
  return ((), budget)

/-- Give bytes back to the shared budget. -/
def releaseLive (bytes : ℕ) : BudgetM Unit := modify (·.release bytes)

variable (read : RouteRead L)

namespace RouteRead

/-- `snapshot_charge`. -/
def snapshotCharge (row : PropertySnapshotRow L) : ℕ :=
  saturatingAdd (16 + 1) (read.sizes.valuesLen row.values)

/-- `admitted_batch_rows`. -/
def admittedBatchRows : ℕ :=
  min (max 1 (min read.limits.maxBufferedRows 4096))
    (max 1 (read.limits.maxBufferedBytes / 4 / read.limits.maxRowBytes))

/-- The bytes reserved for a batch before it is decoded. -/
def batchReservation : ℕ := read.limits.maxBufferedBytes / 4

/-- Admit a batch: the reservations for Arrow's copy and for the decoded one give way to the charges
of the rows. -/
def admitBatch (id : PropertyFragmentId) (batch : List (PropertySnapshotRow L)) : BudgetM Unit := do
  chargeLive read.batchReservation
  refuseIf (read.batchReservation < read.sizes.arrow id batch)
    OverlayError.arrowBatchExceedsAdmission
  chargeLive read.batchReservation
  let charges := batch.map read.snapshotCharge
  refuseIf (charges.any (read.limits.maxRowBytes < ·)) OverlayError.rowExceedsByteLimit
  releaseLive read.batchReservation
  chargeLive (charges.foldl saturatingAdd 0)
  releaseLive read.batchReservation

end RouteRead

/-- A row that a decoder has still to deliver. The first row of a batch comes with the batch, which
is admitted before it. -/
structure PendingRow (L : Type) where
  row : PropertySnapshotRow L
  batch : Option (List (PropertySnapshotRow L))

/-- The rows of one batch. -/
def batchRows : List (PropertySnapshotRow L) → List (PendingRow L)
  | [] => []
  | row :: rest => ⟨row, some (row :: rest)⟩ :: rest.map (⟨·, none⟩)

/-- The rows of a fragment as its decoder delivers them, in batches. -/
def pendingRows (f : StoredFragment L) : List (PendingRow L) :=
  ((projectedFragmentRows read.uuids f).chunks read.admittedBatchRows).flatMap batchRows

/-- `next_admitted` on a row that is left. Its charge ends with the delivery. -/
def nextAdmitted (id : PropertyFragmentId) (next : PendingRow L) :
    BudgetM (PropertySnapshotRow L) := do
  next.batch.forM (read.admitBatch id)
  releaseLive (read.snapshotCharge next.row)
  return next.row

/-! ## Cursors -/

/-- One open fragment, apart from the row it offers: the rows its decoder has still to
deliver, the UUID of the last one, and the bytes reserved while the fragment is open. -/
structure Cursor (L : Type) where
  rows : List (PendingRow L)
  id : PropertyFragmentId
  range : Option (Uuid × Uuid)
  prior : Option Uuid
  reservation : ℕ

/-- Move to the next row this read wants, validating the fragment's order. The row is
offered with the authority of its fragment. -/
def advance (id : PropertyFragmentId) (range : Option (Uuid × Uuid)) (reservation : ℕ) :
    Option Uuid → List (PendingRow L) → BudgetM (Option (SpoolRecord L × Cursor L))
  | _, [] => do
    -- a batch is reserved to learn that there is none; then the decoder is closed
    chargeLive read.batchReservation
    releaseLive read.batchReservation
    releaseLive reservation
    return none
  | prior, next :: rows => do
    let row ← nextAdmitted read id next
    refuseIf (row.tombstone && !row.values.isEmpty) OverlayError.tombstoneCarriesValues
    refuseIf (prior.any (row.uuid ≤ ·)) OverlayError.unsortedUuids
    refuseIf (range.any fun r => row.uuid < r.1 || r.2 < row.uuid) OverlayError.rowOutsideRange
    if read.uuids.any (!·.containsUuid row.uuid) then
      advance id range reservation (some row.uuid) rows
    else return some (SpoolRecord.ofRow id row, ⟨rows, id, range, some row.uuid, reservation⟩)

/-- `advance` from where a cursor stands. -/
def Cursor.advance (c : Cursor L) : BudgetM (Option (SpoolRecord L × Cursor L)) :=
  PropertyOverlay.advance read c.id c.range c.reservation c.prior c.rows

/-- `open_projected_fragment`: the source and the pages are charged until the decoder is closed. -/
def openProjectedFragment (f : StoredFragment L) : BudgetM (Cursor L) := do
  let source := read.sizes.source f.id
  chargeLive source
  let pages ← (read.sizes.pages f.id).mapError OverlayError.pageAdmission
  chargeLive pages
  return ⟨pendingRows read f, f.id, f.range, none, saturatingAdd pages source⟩

/-- The cursors of a streaming merge. A cursor is closed when its fragment is exhausted. -/
abbrev StreamCursors (L : Type) := CursorHeap (SpoolRecord.sortKey (L := L)) (Cursor L)

/-- The UUID of the row the merge would take next. -/
def frontier (cursors : StreamCursors L) : Option Uuid :=
  cursors.peek.map fun key => (ofLex key).1

/-! ## The merge -/

/-- The least UUID a fragment can hold; without a declared range, any. -/
def StoredFragment.min (f : StoredFragment L) : Uuid := f.range.elim 0 Prod.fst

/-- The fragments to open, by least UUID. A fragment whose range holds no nominated UUID is
left out. -/
def planFragments (fragments : List (StoredFragment L)) : List (StoredFragment L) :=
  (fragments.filter fun f => uuids.all fun wanted =>
      f.range.all fun r => wanted.mayContainInRange r.1 r.2).insertionSort
    fun f g => toLex (f.min, f.id) ≤ toLex (g.min, g.id)

/-- Open the fragments that could hold the frontier UUID or an earlier one; what is left of
the plan. -/
def openFragments : List (StoredFragment L) → StreamCursors L →
    BudgetM (List (StoredFragment L) × StreamCursors L)
  | [], cursors => return ([], cursors)
  | f :: plan, cursors =>
    if (frontier cursors).any (· < f.min) then return (f :: plan, cursors)
    else do
      let cursor ← openProjectedFragment read f
      let slot ← cursor.advance read
      match slot with
      | none => openFragments plan cursors
      | some head => openFragments plan (cursors.append (some head))

/-- Take off the older snapshots of a UUID. -/
def dropShadowed (uuid : Uuid) : ℕ → StreamCursors L → BudgetM (StreamCursors L)
  | 0, cursors => return cursors
  | fuel + 1, cursors =>
    if frontier cursors = some uuid then
      match cursors.pop with
      | none => return cursors
      | some (_, index, cursors) => do
        let (_, cursors) ← cursors.takeHead (Cursor.advance read) OverlayError.cursorClosed index
        dropShadowed uuid fuel cursors
    else return cursors

/-- The merge loop; the rows it emits. -/
def streamLoop : ℕ → List (StoredFragment L) → StreamCursors L →
    BudgetM (List (PropertySnapshotRow L))
  | 0, _, _ => return []
  | fuel + 1, plan, cursors => do
    let (plan, cursors) ← openFragments read plan cursors
    match cursors.pop with
    | none => return []
    | some (key, index, cursors) =>
      let (newest, cursors) ← cursors.takeHead (Cursor.advance read) OverlayError.cursorClosed index
      let cursors ← dropShadowed read (ofLex key).1 fuel cursors
      let rows ← streamLoop fuel plan cursors
      return if newest.tombstone then rows else newest.toRow :: rows

/-- Visit the newest live snapshot of each nominated UUID of a route in UUID order; the rows
emitted, for a visitor that never stops early. The budget is twice that of one decoder: a base
fragment is read beside the overlay that rewrites some of its UUIDs. -/
def visitRouteStreaming (fragments : List (StoredFragment L)) :
    Except OverlayError (List (PropertySnapshotRow L)) :=
  let plan := planFragments read.uuids fragments
  (streamLoop read ((plan.map fun f => f.rows.length).sum + 1) plan CursorHeap.empty).run'
    ⟨min (2 ^ 64 - 1) (read.limits.maxBufferedBytes * 2), 0⟩

end GraphForge.PropertyOverlay
