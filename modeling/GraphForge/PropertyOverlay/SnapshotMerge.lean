import GraphForge.PropertyOverlay.Basic
import GraphForge.Lib.CursorHeap
import GraphForge.Lib.NewestWins

/-!
# The spooled newest-wins merge

`visitNewestPropertySnapshots` resolves a route in bounded memory: rows are buffered,
sorted and spilled to runs, the runs are compacted level by level, and a last k-way merge
emits the newest live row of every UUID. Every merge on the way keeps only the first row
of a UUID, so shadowed rows vanish early, but a tombstone is kept until the last merge.

The spill files are modelled line by line; `serde_json` is a parameter.
-/

namespace GraphForge.PropertyOverlay

open Except

/-! ## Spool records -/

/-- A row as it is spilled, with the authority of its fragment. -/
structure SpoolRecord (L : Type) where
  uuid : Uuid
  generation : ℕ
  ordinal : ℕ
  tombstone : Bool
  values : List (String × L)
  deriving DecidableEq, Repr

namespace SpoolRecord
variable {L : Type}

variable (r : SpoolRecord L)

/-- The authority of the fragment the record came from. -/
def id : PropertyFragmentId := ⟨r.generation, r.ordinal⟩

/-- By UUID, and for one UUID newest first. -/
def sortKey : Uuid ×ₗ PropertyFragmentIdᵒᵈ :=
  NewestWins.sortKey uuid id r

/-- The record of a row of the fragment `id`. -/
def ofRow (id : PropertyFragmentId) (row : PropertySnapshotRow L) : SpoolRecord L :=
  ⟨row.uuid, id.generation, id.ordinal, row.tombstone, row.values⟩

/-- The row of a record. -/
def toRow : PropertySnapshotRow L := ⟨r.uuid, r.tombstone, r.values⟩

end SpoolRecord

/-- What the merge takes from `serde_json`: the line of a record, its inverse, and the
length of the text of a record's values. -/
structure SpoolCodec (L : Type) where
  encode : SpoolRecord L → List UInt8
  decode : List UInt8 → Option (SpoolRecord L)
  valuesLen : List (String × L) → ℕ

/-- A spill file: its lines, without the newlines. -/
abbrev Run := List (List UInt8)

variable {L : Type} (codec : SpoolCodec L)

/-- The bytes charged for a record held in memory. -/
def recordCharge (r : SpoolRecord L) : ℕ :=
  saturatingAdd (16 + 8 + 8 + 1) (codec.valuesLen r.values)

/-- Read the next record of a spill file, refusing a line longer than `maxEncodedBytes`
with its newline. -/
def readSpool (maxEncodedBytes : ℕ) : Run → Except OverlayError (Option (SpoolRecord L × Run))
  | [] => pure none
  | line :: rest =>
    if maxEncodedBytes < line.length + 1 then throw .spillRecordExceedsByteLimit
    else match codec.decode line with
      | none => throw .spool
      | some record => pure (some (record, rest))

/-- Sort a buffer and write it to a spill file. -/
def writeSortedRun (rows : List (SpoolRecord L)) : Run :=
  (rows.insertionSort (·.sortKey ≤ ·.sortKey)).map codec.encode

/-! ## One k-way merge -/

/-- The cursors of a merge over spill files. -/
abbrev SpoolCursors (L : Type) := CursorHeap (SpoolRecord.sortKey (L := L)) Run

/-- Open a cursor on every run. -/
def openRuns (maxEncodedBytes : ℕ) (runs : List Run) : Except OverlayError (SpoolCursors L) :=
  runs.foldlM (fun cursors run => do
    let slot ← readSpool codec maxEncodedBytes run
    return cursors.append slot) CursorHeap.empty

/-- The bytes charged for the rows the cursors hold. -/
def cursorBytes (cursors : SpoolCursors L) : ℕ :=
  cursors.slots.foldl (fun total slot =>
    saturatingAdd total (slot.elim 0 fun s => recordCharge codec s.1)) 0

/-- Charge for the row cursor `index` took up, if it took one up. -/
def chargeSlot (budget : LiveByteBudget) (cursors : SpoolCursors L) (index : ℕ) :
    Except OverlayError LiveByteBudget :=
  match cursors.slots[index]? with
  | some (some (next, _)) => budget.charge (recordCharge codec next)
  | _ => pure budget

/-- The merge loop: take rows in order and keep the first of every UUID. `resolved` is the
UUID resolved last. -/
def mergeLoop : ℕ → SpoolCursors L → LiveByteBudget → Option Uuid →
    Except OverlayError (List (SpoolRecord L) × LiveByteBudget)
  | 0, _, budget, _ => pure ([], budget)
  | fuel + 1, cursors, budget, resolved =>
    match cursors.pop with
    | none => pure ([], budget)
    | some (_, index, cursors) => do
      let (row, cursors) ←
        cursors.takeHead (readSpool codec budget.max) OverlayError.heapRowMissing index
      let budget ← chargeSlot codec (budget.release (recordCharge codec row)) cursors index
      if resolved = some row.uuid then
        mergeLoop fuel cursors budget resolved
      else
        let (rows, budget) ← mergeLoop fuel cursors budget (some row.uuid)
        return (row :: rows, budget)

/-- Merge runs into the rows that are the newest of their UUID, tombstones included. -/
def mergeRuns (runs : List Run) (budget : LiveByteBudget) :
    Except OverlayError (List (SpoolRecord L) × LiveByteBudget) := do
  let cursors ← openRuns codec budget.max runs
  let budget ← budget.charge (cursorBytes codec cursors)
  mergeLoop codec (runs.map List.length).sum cursors budget none

/-! ## Compaction of runs -/

/-- Add a run to the first level; a level that reaches the fan-in is merged into one run
of the next. The fan-in is at least two, so a new level never fills at once. -/
def addRun (fanIn : ℕ) : List (List Run) → Run → LiveByteBudget →
    Except OverlayError (List (List Run) × LiveByteBudget)
  | [], run, budget => pure ([[run]], budget)
  | level :: levels, run, budget =>
    if (level ++ [run]).length < fanIn then pure ((level ++ [run]) :: levels, budget)
    else do
      let (rows, budget) ← mergeRuns codec (level ++ [run]) budget
      let (levels, budget) ← addRun fanIn levels (rows.map codec.encode) budget
      return ([] :: levels, budget)

/-- One pass over too many runs: merge every group of `maxOpenRuns` into one. -/
def mergePass (maxOpenRuns : ℕ) (runs : List Run) (budget : LiveByteBudget) :
    Except OverlayError (List Run × LiveByteBudget) :=
  (runs.chunks maxOpenRuns).foldlM (fun (next, budget) chunk => do
    let (rows, budget) ← mergeRuns codec chunk budget
    return (next ++ [rows.map codec.encode], budget)) ([], budget)

/-- Passes until at most `maxOpenRuns` runs are left. -/
def mergePasses (maxOpenRuns : ℕ) : ℕ → List Run → LiveByteBudget →
    Except OverlayError (List Run × LiveByteBudget)
  | 0, runs, budget => pure (runs, budget)
  | fuel + 1, runs, budget =>
    if runs.length ≤ maxOpenRuns then pure (runs, budget)
    else do
      let (runs, budget) ← mergePass codec maxOpenRuns runs budget
      mergePasses maxOpenRuns fuel runs budget

/-! ## The whole merge -/

/-- What pulling a row from a decoder gives. The decoder shares the byte budget: `used`
says what the pull makes of the bytes charged so far. -/
structure PulledRow (L : Type) where
  row : Except OverlayError (PropertySnapshotRow L)
  used : ℕ → ℕ

/-- The rows of one fragment as its decoder delivers them; `closed` says what closing the
decoder makes of the bytes charged so far. -/
structure SnapshotInput (L : Type) where
  id : PropertyFragmentId
  rows : List (PulledRow L)
  closed : ℕ → ℕ

/-- The state between two rows: the buffer and its charge, the levels of runs, and the
shared budget. -/
structure SpoolState (L : Type) where
  buffer : List (SpoolRecord L)
  bufferedBytes : ℕ
  levels : List (List Run)
  budget : LiveByteBudget

variable (limits : PropertyOverlayLimits)

variable (st : SpoolState L)

/-- Write the buffer to a run and add it to the levels. -/
def spill : Except OverlayError (SpoolState L) := do
  let run := writeSortedRun codec st.buffer
  let budget := st.budget.release st.bufferedBytes
  let (levels, budget) ← addRun codec limits.maxOpenRuns st.levels run budget
  return ⟨[], 0, levels, budget⟩

/-- Whether the buffer has to be spilled before a row of the given charge is buffered. -/
def mustSpill (charge : ℕ) : Bool :=
  !st.buffer.isEmpty &&
    ((checkedAdd st.bufferedBytes charge).all (limits.maxBufferedBytes < ·) ||
      !st.budget.canCharge charge)

/-- Spill when asked to. -/
def spillIf (cond : Bool) (limits : PropertyOverlayLimits) (st : SpoolState L) :
    Except OverlayError (SpoolState L) :=
  if cond then spill codec limits st else pure st

/-- Buffer a record, spilling before it or after it where a limit asks for it. -/
def bufferRecord (record : SpoolRecord L) : Except OverlayError (SpoolState L) := do
  let charge := recordCharge codec record
  refuseIf (limits.maxRowBytes < charge) .rowExceedsByteLimit
  let st ← spillIf codec (mustSpill limits st charge) limits st
  match checkedAdd st.bufferedBytes charge with
  | none => throw .byteChargeOverflows
  | some bufferedBytes =>
    let budget ← st.budget.charge charge
    let buffer := st.buffer ++ [record]
    spillIf codec (buffer.length = limits.maxBufferedRows) limits
      ⟨buffer, bufferedBytes, st.levels, budget⟩

/-- One row of a fragment: check it and buffer its record. `prior` is the UUID of the row
before it. -/
def spoolRow (id : PropertyFragmentId) (prior : Option Uuid) (st : SpoolState L)
    (pulled : PulledRow L) : Except OverlayError (Option Uuid × SpoolState L) := do
  let st := { st with budget := { st.budget with used := pulled.used st.budget.used } }
  let row ← pulled.row
  refuseIf (row.tombstone && !row.values.isEmpty) .tombstoneCarriesValues
  refuseIf (prior.any (row.uuid ≤ ·)) .unsortedUuids
  let st ← bufferRecord codec limits st (SpoolRecord.ofRow id row)
  return (some row.uuid, st)

/-- All rows of a fragment. -/
def spoolInput (input : SnapshotInput L) : Except OverlayError (SpoolState L) := do
  let (_, st) ← input.rows.foldlM
    (fun (prior, st) pulled => spoolRow codec limits input.id prior st pulled) (none, st)
  return { st with budget := { st.budget with used := input.closed st.budget.used } }

/-- Whether the limits are refused at once. -/
def PropertyOverlayLimits.invalid : Bool :=
  limits.maxBufferedRows == 0 || limits.maxOpenRuns < 2 || limits.maxBufferedBytes == 0 ||
    limits.maxRowBytes == 0 || limits.maxBufferedBytes < limits.maxRowBytes

/-- Resolve the fragments in bounded memory; the rows emitted, in order. -/
def visitNewestPropertySnapshots (inputs : List (SnapshotInput L))
    (limits : PropertyOverlayLimits) (budget : LiveByteBudget) :
    Except OverlayError (List (PropertySnapshotRow L)) := do
  refuseIf limits.invalid .invalidLimits
  let st ← inputs.foldlM (spoolInput codec limits) ⟨[], 0, [], budget⟩
  let st ← spillIf codec (!st.buffer.isEmpty) limits st
  let runs := st.levels.flatten
  let (runs, budget) ← mergePasses codec limits.maxOpenRuns runs.length runs st.budget
  if runs.isEmpty then
    return []
  else
    let (rows, _) ← mergeRuns codec runs budget
    return (rows.filter fun r => !r.tombstone).map SpoolRecord.toRow

end GraphForge.PropertyOverlay
