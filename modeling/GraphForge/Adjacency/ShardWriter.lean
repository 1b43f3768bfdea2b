import GraphForge.Adjacency.Csr

/-!
# Writing a CSR as bounded shards

Two builders cut a sequence of entries sorted by `(key, edge)` into shards of bounded
entries and rows. `ShardedCsrWriter` receives the entries one by one and flushes the
open shard when the next entry does not fit. `writeShardedCsrFromSorted` first decides
all boundaries by searching the packed sequence and then encodes the shards, which no
longer depend on one another. What writing one shard does with it is left to the
argument `write` (its ordinal, its first node, its content).
-/

namespace GraphForge.Adjacency

/-- Default maximum of entries in one persisted shard. -/
def defaultCsrShardEdges : ℕ := 1048576

/-- Default maximum of rows in one persisted shard. -/
def defaultCsrShardNodes : ℕ := 1048576

/-- `max_edges.clamp(1, DEFAULT_CSR_SHARD_EDGES)`. -/
def shardEdgeLimit (maxEdges : ℕ) : ℕ := max 1 (min maxEdges defaultCsrShardEdges)

/-- `max_nodes.clamp(1, DEFAULT_CSR_SHARD_NODES)`. -/
def shardNodeLimit (maxNodes : ℕ) : ℕ := max 1 (min maxNodes defaultCsrShardNodes)

lemma shardEdgeLimit_pos (maxEdges : ℕ) : 0 < shardEdgeLimit maxEdges := Nat.le_max_left _ _

lemma shardNodeLimit_pos (maxNodes : ℕ) : 0 < shardNodeLimit maxNodes := Nat.le_max_left _ _

/-! ## The streaming writer -/

/-- Row-emitting bounded sink. `R` is what writing a shard returns. -/
structure ShardedCsrWriter (R : Type) where
  maxEdges : ℕ
  maxNodes : ℕ
  records : List R
  /-- The open shard, and its first node once it has an entry. -/
  shard : CsrIndex
  firstNode : Option ℕ
  lastKey : Option ℕ
  edgeCount : ℕ
  peakShardEdges : ℕ
  peakShardNodes : ℕ

/-- What a finished writer publishes: the records of all shards and the counts of the
manifest. -/
structure ShardSet (R : Type) where
  records : List R
  edgeCount : ℕ
  nodeCount : ℕ
  deriving DecidableEq, Repr

/-- Append an entry to the row `row`, the last one or a later one; the rows between are
empty. -/
def CsrIndex.push (c : CsrIndex) (row : ℕ) (e : KeyedEntry) : CsrIndex :=
  -- `while node_count() <= local` pushes the current edge count
  let offsets := c.offsets ++ List.replicate (row + 1 - c.nodeCount) c.edgeCount
  let edgeIds := c.edgeIds ++ [e.edge]
  ⟨offsets.dropLast ++ [edgeIds.length], edgeIds, c.neighborIds ++ [e.neighbor]⟩

namespace ShardedCsrWriter
variable {R : Type}

/-- A writer that has seen nothing. -/
def create (maxEdges maxNodes : ℕ) : ShardedCsrWriter R where
  maxEdges := shardEdgeLimit maxEdges
  maxNodes := shardNodeLimit maxNodes
  records := []
  shard := .start
  firstNode := none
  lastKey := none
  edgeCount := 0
  peakShardEdges := 0
  peakShardNodes := 0

/-- Whether the open shard has no room for an entry of row `key`. -/
def mustFlush (w : ShardedCsrWriter R) (key : ℕ) : Bool :=
  w.maxEdges ≤ w.shard.edgeIds.length || w.firstNode.any fun first => w.maxNodes ≤ key - first

variable (write : ℕ → ℕ → CsrIndex → Except GfError R)

/-- Write the open shard, if it has an entry, and start a new one. -/
def flush (w : ShardedCsrWriter R) : Except GfError (ShardedCsrWriter R) :=
  match w.firstNode with
  | none => pure w
  | some first => do
    let record ← write w.records.length first w.shard
    return { w with
      records := w.records ++ [record]
      shard := .start
      firstNode := none
      lastKey := none }

/-- Append an entry to the open shard. -/
def append (w : ShardedCsrWriter R) (e : KeyedEntry) : Except GfError (ShardedCsrWriter R) := do
  let first := w.firstNode.getD e.key
  Except.refuseIf (e.key < w.lastKey.getD e.key)
    (.storage "CSR shard sink received unsorted row keys")
  let shard := w.shard.push (e.key - first) e
  return { w with
    shard := shard
    firstNode := some first
    lastKey := some e.key
    edgeCount := saturatingAdd w.edgeCount 1
    peakShardEdges := max w.peakShardEdges shard.edgeCount
    peakShardNodes := max w.peakShardNodes shard.nodeCount }

/-- `emit`: one more entry, in a new shard when the open one has no room. -/
def emit (w : ShardedCsrWriter R) (e : KeyedEntry) : Except GfError (ShardedCsrWriter R) :=
  if w.mustFlush e.key then do
    let w ← w.flush write
    w.append e
  else w.append e

/-- `finish`: write the last shard. -/
def finish (w : ShardedCsrWriter R) (nodeCount : ℕ) : Except GfError (ShardSet R) := do
  let w ← w.flush write
  return ⟨w.records, w.edgeCount, nodeCount⟩

/-- The positions of the entries before which `emit` flushes the open shard, when the
entry at position `i` comes next. -/
def flushPositions (w : ShardedCsrWriter R) : ℕ → List KeyedEntry → Except GfError (List ℕ)
  | _, [] => pure []
  | i, e :: es => do
    let w' ← w.emit write e
    let rest ← w'.flushPositions (i + 1) es
    return if w.mustFlush e.key then i :: rest else rest

end ShardedCsrWriter

/-- Emit a sequence of entries into a new writer and finish it. -/
def streamShards {R : Type} (write : ℕ → ℕ → CsrIndex → Except GfError R) (maxEdges maxNodes : ℕ)
    (entries : List KeyedEntry) (nodeCount : ℕ) : Except GfError (ShardSet R) := do
  let w ← entries.foldlM (ShardedCsrWriter.emit write) (.create maxEdges maxNodes)
  w.finish write nodeCount

/-! ## The builder from a sorted sequence -/

/-- The key of a packed entry, `key << 32 | edge_id`. -/
def packedKey (entry : UInt64) : ℕ := (entry >>> 32).toNat

/-- The edge of a packed entry. -/
def packedEdge (entry : UInt64) : ℕ := (entry &&& 0xffffffff).toNat

/-- The entry that a packed one stands for; its neighbor is `neighbors[edge_id - 1]`.
`none` where the code indexes out of bounds. -/
def unpack (neighbors : List UInt32) (entry : UInt64) : Option KeyedEntry :=
  match packedEdge entry with
  | 0 => none
  | edge + 1 => neighbors[edge]?.map fun neighbor =>
      ⟨packedKey entry, edge + 1, neighbor.toNat⟩

/-- The boundaries of the shards from position `start` on. Every pass of the loop
advances, so the length of the sequence bounds their number. -/
def shardBounds (maxEdges maxNodes : ℕ) (sorted : List UInt64) : ℕ → ℕ → List (ℕ × ℕ)
  | 0, _ => []
  | fuel + 1, start =>
    match sorted[start]? with
    | none => []
    | some entry =>
      let first := packedKey entry
      let byNodes := start +
        (sorted.drop start).partitionPoint fun e => packedKey e - first < maxNodes
      let stop := min byNodes (start + maxEdges)
      (start, stop) :: shardBounds maxEdges maxNodes sorted fuel stop

/-- `offsets[key - first + 1] += 1`; `none` where the subtraction or the index is out of
range. -/
def countRow (first : ℕ) (offsets : List ℕ) (e : KeyedEntry) : Option (List ℕ) :=
  if first ≤ e.key ∧ e.key - first + 1 < offsets.length then
    some (offsets.modify (e.key - first + 1) (· + 1))
  else none

/-- Add to every member the sum of those before it, and `sum`. -/
def accumulate : ℕ → List ℕ → List ℕ
  | _, [] => []
  | sum, n :: ns => (sum + n) :: accumulate (sum + n) ns

/-- The content of the shard over the rows `first ..= last`: count the entries of every
row, then add the counts up. -/
def shardOf (first last : ℕ) (entries : List KeyedEntry) : Option CsrIndex := do
  let counts ← entries.foldlM (countRow first) (List.replicate (last - first + 2) 0)
  return ⟨accumulate 0 counts, entries.map (·.edge), entries.map (·.neighbor)⟩

section
variable {R : Type} (write : ℕ → ℕ → CsrIndex → Except GfError R)

/-- `ShardSetWriter::write_shard`: encode and write one shard. -/
def writeShard (ordinal first last : ℕ) (entries : List KeyedEntry) : Option (Except GfError R) := do
  let shard ← shardOf first last entries
  return write ordinal first shard

/-- Write the shard of the slice between two boundaries. -/
def writeSlice (sorted : List UInt64) (neighbors : List UInt32) (ordinal : ℕ) (bound : ℕ × ℕ) :
    Option (Except GfError R) := do
  let slice := (sorted.take bound.2).drop bound.1
  let first ← slice.head?
  let last ← slice.getLast?
  let entries ← slice.mapM (unpack neighbors)
  writeShard write ordinal (packedKey first) (packedKey last) entries

/-- Write one sharded CSR from packed entries already ordered by `(key, edge)`. The
shards are written independently of one another; the first refusal is reported. -/
def writeShardedCsrFromSorted (sorted : List UInt64) (neighbors : List UInt32)
    (maxEdges maxNodes : ℕ) : Option (Except GfError (ShardSet R)) := do
  let bounds := shardBounds (shardEdgeLimit maxEdges) (shardNodeLimit maxNodes) sorted
    sorted.length 0
  let results ← bounds.zipIdx.mapM fun bound => writeSlice write sorted neighbors bound.2 bound.1
  let nodeCount := (sorted.getLast?.map fun entry => packedKey entry + 1).getD 0
  return do
    let records ← results.mapM id
    return ⟨records, sorted.length, nodeCount⟩

end

end GraphForge.Adjacency
