import GraphForge.Adjacency.ShardWriter
import GraphForge.Lib.Bytes
import GraphForge.Lib.CursorHeap

/-!
# Building shards by external sort

An `EntryGroup` accumulates edges and, whenever its buffer reaches the chunk budget,
spills one sorted run per direction. To finish a direction the builder merges runs until
at most a fan-in of them is left, and streams the merge of those into a shard writer.
A run is a file of its own format; the spill session charges the bytes of all runs
against an optional cap.
-/

namespace GraphForge.Adjacency

open Bytes Except

namespace KeyedEntry

/-- The order of `(key, edge, neighbor)` tuples. -/
def tuple (e : KeyedEntry) : ℕ ×ₗ ℕ ×ₗ ℕ := toLex (e.key, toLex (e.edge, e.neighbor))

lemma tuple_injective : Function.Injective tuple := by
  intro a b h
  cases a
  cases b
  simpa [tuple] using h

instance : LinearOrder KeyedEntry := LinearOrder.lift' tuple tuple_injective

end KeyedEntry

/-! ## Options -/

/-- Bounded build policy: the fields that decide how entries are spilled and cut. -/
structure AdjacencyBuildOptions where
  chunkRows : ℕ
  spillMaxBytes : Option ℕ
  memoryBudgetBytes : Option ℕ
  shardMaxEdges : ℕ
  shardMaxNodes : ℕ
  mergeFanIn : ℕ
  deriving DecidableEq, Repr

/-- The bytes of an entry in a run. -/
def bytesPerKeyedEntry : ℕ := 24

/-- The sizes in effect once the optional memory budget is applied. -/
def AdjacencyBuildOptions.effective (o : AdjacencyBuildOptions) : AdjacencyBuildOptions :=
  let chunk := max o.chunkRows 1
  -- a budget of zero, or one below four entries, does not shrink the chunk
  let entryBudget := o.memoryBudgetBytes.getD 0 / (bytesPerKeyedEntry * 4)
  { o with
    shardMaxEdges := max o.shardMaxEdges 1
    shardMaxNodes := max o.shardMaxNodes 1
    mergeFanIn := max o.mergeFanIn 2
    chunkRows := if 0 < entryBudget then min chunk (max entryBudget 1) else chunk }

/-! ## The spill session -/

/-- A spilled run: its path and the bytes of its file. -/
structure SpillRun where
  path : String
  file : List UInt8
  deriving DecidableEq, Repr

/-- The spill directory of one build. -/
structure SpillSession where
  /-- `route_component::component` -/
  component : String → String
  root : String
  bytesCurrent : ℕ
  peakBytes : ℕ
  maxBytes : Option ℕ
  runCounter : ℕ

/-- `Direction::as_str`. -/
def Direction.asStr : Direction → String
  | .outgoing => "out"
  | .incoming => "in"

/-- The error of a session that exceeds its cap. -/
def spillExceeded (max : ℕ) : GfError :=
  .resourceLimit s!"adjacency build spill exceeded max_bytes ({max})"

namespace SpillSession

/-- `next_run_path`: a path that no earlier run of the session has. -/
def nextRunPath (s : SpillSession) (label : String) (direction : Direction) :
    String × SpillSession :=
  let stem := s.root ++ "/" ++ s.component label
  let dir := direction.asStr
  let id := s.runCounter
  (s!"{stem}.{dir}.{id}.run", { s with runCounter := s.runCounter + 1 })

/-- Refuse bytes beyond the cap. -/
def checkCap : Option ℕ → ℕ → Except GfError Unit
  | none, _ => .ok ()
  | some max, current => refuseIf (max < current) (spillExceeded max)

/-- `account_write`: the bytes count before they are written, and the peak is kept. -/
def accountWrite (s : SpillSession) (bytes : ℕ) : Except GfError SpillSession := do
  let current := saturatingAdd s.bytesCurrent bytes
  checkCap s.maxBytes current
  return { s with bytesCurrent := current, peakBytes := max s.peakBytes current }

/-- `remove_run`: a merged run is deleted and its bytes are given back. -/
def removeRun (s : SpillSession) (run : SpillRun) : SpillSession :=
  { s with bytesCurrent := s.bytesCurrent - run.file.length }

end SpillSession

/-! ## Run files -/

/-- `GFADJRUN`. -/
def spillRunMagic : List UInt8 := [0x47, 0x46, 0x41, 0x44, 0x4a, 0x52, 0x55, 0x4e]

/-- The version of the run format. -/
def spillRunVersion : ℕ := 1

/-- Magic, version and entry count. -/
def runHeader (count : ℕ) : List UInt8 :=
  spillRunMagic ++ leBytes 4 spillRunVersion ++ leBytes 8 count

/-- The bytes of an entry in a run. -/
def KeyedEntry.toBytes (e : KeyedEntry) : List UInt8 :=
  leBytes 8 e.key ++ leBytes 8 e.edge ++ leBytes 8 e.neighbor

/-- `write_keyed_run`. -/
def writeKeyedRun (path : String) (entries : List KeyedEntry) (spill : SpillSession) :
    Except GfError (SpillRun × SpillSession) := do
  let spill ← spill.accountWrite (20 + entries.length * bytesPerKeyedEntry)
  return (⟨path, runHeader entries.length ++ entries.flatMap KeyedEntry.toBytes⟩, spill)

/-- `read_exact`: the next `n` bytes of a file and what follows them. -/
def readExact (n : ℕ) (file : List UInt8) : Except GfError (List UInt8 × List UInt8) := do
  refuseIf (file.length < n) (.storage "failed to fill whole buffer")
  return file.splitAt n

/-- An open run behind the entry it offers. -/
structure RunCursor where
  file : List UInt8
  remaining : ℕ
  deriving DecidableEq, Repr

namespace RunCursor

/-- Read the next entry, if the header counts one. -/
def pull (c : RunCursor) : Except GfError (Option (KeyedEntry × RunCursor)) :=
  if c.remaining = 0 then .ok none else do
    let (buf, file) ← readExact 24 c.file
    let entry : KeyedEntry :=
      ⟨ofLeBytes (buf.take 8), ofLeBytes ((buf.drop 8).take 8), ofLeBytes ((buf.drop 16).take 8)⟩
    return some (entry, ⟨file, c.remaining - 1⟩)

/-- Read the header. -/
def openRun (run : SpillRun) : Except GfError RunCursor := do
  let path := run.path
  let (magic, file) ← readExact 8 run.file
  refuseIf (magic ≠ spillRunMagic)
    (.storage s!"adjacency spill run {path} has invalid magic")
  let (version, file) ← readExact 4 file
  refuseIf (ofLeBytes version ≠ spillRunVersion)
    (.storage s!"adjacency spill run {path} has unsupported version")
  let (count, file) ← readExact 8 file
  return ⟨file, ofLeBytes count⟩

end RunCursor

/-- `keyed_run_count`: the count that the header of a run declares. -/
def keyedRunCount (run : SpillRun) : Except GfError ℕ := do
  let path := run.path
  let (header, _) ← readExact 20 run.file
  refuseIf (header.take 8 ≠ spillRunMagic ∨ ofLeBytes ((header.drop 8).take 4) ≠ spillRunVersion)
    (.storage s!"adjacency spill run {path} has invalid header")
  return ofLeBytes ((header.drop 12).take 8)

/-! ## Merging runs -/

/-- The open cursors of a merge beside the heap of the entries they offer. -/
abbrev RunCursors := CursorHeap (id : KeyedEntry → KeyedEntry) RunCursor

/-- Open the next run behind those already open. -/
def appendRun (cursors : RunCursors) (run : SpillRun) : Except GfError RunCursors := do
  let cursor ← RunCursor.openRun run
  let slot ← cursor.pull
  return cursors.append slot

/-- `open_run_cursors`. -/
def openRunCursors (runs : List SpillRun) : Except GfError RunCursors :=
  runs.foldlM appendRun .empty

section
variable {B : Type} (emit : B → KeyedEntry → Except GfError B)

/-- Emit the least entry, then refill its cursor. The heap only names cursors that offer
an entry, so the lookup never misses. -/
def mergeLoop : ℕ → RunCursors → B → Except GfError B
  | 0, _, b => .ok b
  | fuel + 1, cursors, b =>
    match cursors.pop with
    | none => .ok b
    | some (entry, i, cursors) => do
      let b ← emit b entry
      let next ← cursors.takeHead RunCursor.pull (GfError.storage "index out of bounds") i
      mergeLoop fuel next.2 b

/-- Merge the runs, in order of `(key, edge, neighbor, run)`. -/
def mergeKeyedRuns (runs : List SpillRun) (b : B) : Except GfError B := do
  let cursors ← openRunCursors runs
  mergeLoop emit (runs.map (·.file.length)).sum cursors b

end

/-- What the writer of a merged run appends for an entry. -/
def appendEntry (file : List UInt8) (e : KeyedEntry) : Except GfError (List UInt8) :=
  .ok (file ++ e.toBytes)

/-- The entries of runs, one run after the other. -/
def addRunCount (total : ℕ) (run : SpillRun) : Except GfError ℕ := do
  let count ← keyedRunCount run
  return saturatingAdd total count

/-- `merge_keyed_runs_to_run`. -/
def mergeKeyedRunsToRun (inputs : List SpillRun) (output : String) (spill : SpillSession) :
    Except GfError (SpillRun × SpillSession) := do
  let count ← inputs.foldlM addRunCount 0
  let spill ← spill.accountWrite
    (saturatingAdd 20 (min (2 ^ 64 - 1) (count * bytesPerKeyedEntry)))
  let file ← mergeKeyedRuns appendEntry inputs (runHeader count)
  return (⟨output, file⟩, spill)

/-- Merge one chunk of runs into a new run; a chunk of one run passes through. -/
def compactChunk (label : String) (direction : Direction)
    (state : List SpillRun × SpillSession) (chunk : List SpillRun) :
    Except GfError (List SpillRun × SpillSession) :=
  match chunk with
  | [run] => .ok (state.1 ++ [run], state.2)
  | chunk => do
    let (output, spill) := state.2.nextRunPath label direction
    let (run, spill) ← mergeKeyedRunsToRun chunk output spill
    return (state.1 ++ [run], chunk.foldl SpillSession.removeRun spill)

/-- Passes of merging until at most `fanIn` runs are left. -/
def compactLoop (fanIn : ℕ) (label : String) (direction : Direction) :
    ℕ → List SpillRun → SpillSession → Except GfError (List SpillRun × SpillSession)
  | 0, runs, spill => .ok (runs, spill)
  | fuel + 1, runs, spill =>
    if fanIn < runs.length then do
      let (runs, spill) ← (runs.chunks fanIn).foldlM (compactChunk label direction) ([], spill)
      compactLoop fanIn label direction fuel runs spill
    else .ok (runs, spill)

/-- `compact_keyed_runs`: merge runs in rounds until no more than the fan-in remain. -/
def compactKeyedRuns (runs : List SpillRun) (fanIn : ℕ) (label : String) (direction : Direction)
    (spill : SpillSession) : Except GfError (List SpillRun × SpillSession) :=
  compactLoop (max fanIn 2) label direction runs.length runs spill

/-! ## Groups -/

/-- Per-relation (or union) accumulator. -/
structure EntryGroup where
  buffer : List BuildEntry
  outRuns : List SpillRun
  inRuns : List SpillRun
  label : String
  deriving DecidableEq, Repr

namespace EntryGroup

/-- An empty group. -/
def withLabel (label : String) : EntryGroup := ⟨[], [], [], label⟩

/-- The runs of one direction. -/
def runs (g : EntryGroup) : Direction → List SpillRun
  | .outgoing => g.outRuns
  | .incoming => g.inRuns

/-- The group with other runs of one direction. -/
def setRuns (g : EntryGroup) (runs : List SpillRun) : Direction → EntryGroup
  | .outgoing => { g with outRuns := runs }
  | .incoming => { g with inRuns := runs }

/-- Spill the buffer of a direction as a sorted run. -/
def spillDirection (direction : Direction) (label : String) (g : EntryGroup)
    (spill : SpillSession) : Except GfError (EntryGroup × SpillSession) := do
  let (path, spill) := spill.nextRunPath label direction
  let (run, spill) ← writeKeyedRun path (sortKeyed (g.buffer.map (·.keyed direction))) spill
  return (g.setRuns (g.runs direction ++ [run]) direction, spill)

/-- Out: `(src, edge, dst)`; In: `(dst, edge, src)`. -/
def flush (g : EntryGroup) (spill : SpillSession) : Except GfError (EntryGroup × SpillSession) :=
  if g.buffer = [] then .ok (g, spill) else do
    let label := if g.label = "" then "group" else g.label
    let (g, spill) ← g.spillDirection .outgoing label spill
    let (g, spill) ← g.spillDirection .incoming label spill
    return ({ g with buffer := [] }, spill)

/-- `push`: one more entry, and a spill when the buffer is full. -/
def push (chunkRows : ℕ) (state : EntryGroup × SpillSession) (entry : BuildEntry) :
    Except GfError (EntryGroup × SpillSession) :=
  let g := { state.1 with buffer := state.1.buffer ++ [entry] }
  if chunkRows ≤ g.buffer.length then g.flush state.2 else .ok (g, state.2)

/-- Spill what is buffered beside earlier runs, and compact the runs of the direction. -/
def prepareDirection (direction : Direction) (options : AdjacencyBuildOptions) (g : EntryGroup)
    (spill : SpillSession) : Except GfError (EntryGroup × SpillSession) :=
  if g.runs direction = [] then .ok (g, spill) else do
    let (g, spill) ← g.flush spill
    let (runs, spill) ← compactKeyedRuns (g.runs direction) options.mergeFanIn g.label direction
      spill
    return (g.setRuns runs direction, spill)

section
variable {R : Type} (write : ℕ → ℕ → CsrIndex → Except GfError R)

/-- Note the greatest key beside the writer. -/
def emit (state : Option ℕ × ShardedCsrWriter R) (e : KeyedEntry) :
    Except GfError (Option ℕ × ShardedCsrWriter R) := do
  let w ← state.2.emit write e
  return (some (state.1.elim e.key (max · e.key)), w)

/-- Feed the merged runs, or the sorted buffer of a group that never spilled. -/
def emitAll (direction : Direction) (g : EntryGroup) (start : Option ℕ × ShardedCsrWriter R) :
    Except GfError (Option ℕ × ShardedCsrWriter R) :=
  if g.runs direction = [] then
    (sortKeyed (g.buffer.map (·.keyed direction))).foldlM (emit write) start
  else mergeKeyedRuns (emit write) (g.runs direction) start

/-- Write the shards of one direction, up to the largest key. -/
def writeShardedCsr (direction : Direction) (options : AdjacencyBuildOptions) (g : EntryGroup) :
    Except GfError (ShardSet R) := do
  let (maxKey, w) ← g.emitAll write direction
    (none, .create options.shardMaxEdges options.shardMaxNodes)
  w.finish write (maxKey.elim 0 (saturatingAdd · 1))

/-- `finish_sharded_csr`: prepare one direction, then write its shards. -/
def finishShardedCsr (direction : Direction) (options : AdjacencyBuildOptions) (g : EntryGroup)
    (spill : SpillSession) : Except GfError (ShardSet R × EntryGroup × SpillSession) := do
  let (g, spill) ← g.prepareDirection direction options spill
  let set ← g.writeShardedCsr write direction options
  return (set, g, spill)

/-- The shard sets of both directions of a group that received the entries. -/
def build (options : AdjacencyBuildOptions) (label : String) (spill : SpillSession)
    (entries : List BuildEntry) : Except GfError (ShardSet R × ShardSet R) := do
  let options := options.effective
  let (g, spill) ← entries.foldlM (push options.chunkRows) (withLabel label, spill)
  let (outSet, g, spill) ← g.finishShardedCsr write .outgoing options spill
  let (inSet, _, _) ← g.finishShardedCsr write .incoming options spill
  return (outSet, inSet)

end

end EntryGroup

end GraphForge.Adjacency
