import GraphForge.Adjacency.ShardStore

/-!
# Opening a shard set and reading its rows

Opening checks the manifest and the presence and length of every shard; a row is then
read from the shards that cover it, each through a cache of decoded shards that other
indexes may share. The row functions are written over an arbitrary way to `fetch` a
shard: through the cache, in the monad that carries it, or directly from the files.
-/

namespace GraphForge.Adjacency

open Except

/-! ## Opening -/

/-- An opened shard set. `owner` keys its entries in a shared cache. -/
structure ShardedCsrIndex where
  manifest : CsrShardManifest
  owner : ℕ
  deriving DecidableEq, Repr

/-- What the loop over the shards carries: the first node of the shard before, and the
sum of the edge counts. -/
structure OpenState where
  priorFirst : Option ℕ
  edges : ℕ
  deriving DecidableEq, Repr

/-- The checks of one shard of the manifest: boundaries, declared lengths, name, and the
presence and length of its file. -/
def admitShard (dir : Directory) (nodeCount : ℕ) (state : OpenState) (shard : CsrShardRecord) :
    Except GfError OpenState := do
  let name := String.ofList shard.file
  refuseIf (shard.nodeCount = 0 ∨
      (checkedAdd shard.firstNode shard.nodeCount).all (nodeCount < ·) = true ∨
      state.priorFirst.any (shard.firstNode < ·) = true)
    (corruptIndex "invalid CSR shard boundary ordering")
  let edges ← ofOption (corruptIndex "CSR manifest edge count overflow")
    (checkedAdd state.edges shard.edgeCount)
  let decoded ← (decodedBytes shard.nodeCount shard.edgeCount).mapError corruptStructure
  let limit ← (encodedLimit shard.nodeCount shard.edgeCount).mapError corruptStructure
  refuseIf (shard.decodedBytes ≠ decoded ∨ shard.encodedBytes > limit ∨
      shard.sha256.length ≠ 64 ∨ ¬ shard.sha256.all isLowerHex = true)
    (corruptIndex "CSR shard admission metadata disagrees")
  refuseIf (¬ isNormalPathComponent shard.file = true)
    (corruptIndex "invalid CSR shard file name")
  -- presence and length only; checksums stay on the first row touch
  let bytes ← (dir shard.file).mapError (shardIoError shard.file)
  refuseIf (bytes.length ≠ shard.encodedBytes)
    (corruptIndex s!"CSR shard {name} length does not match its manifest")
  return ⟨some shard.firstNode, edges⟩

/-- `ShardedCsrIndex::open_with_cache`, from the manifest that was read at `path`. -/
def openShardSet (dir : Directory) (path : String) (manifest : CsrShardManifest) (owner : ℕ) :
    Except GfError ShardedCsrIndex := do
  let version := manifest.version
  refuseIf (manifest.version ≠ shardedCsrVersion)
    (.storage s!"unsupported sharded CSR format version {version}; recreate the index ({path})")
  refuseIf (manifest.format ≠ "graphforge.csr-shards")
    (.storage s!"unsupported sharded CSR manifest {path}")
  refuseIf (¬ isNormalPathComponent manifest.shardDir = true)
    (corruptIndex "invalid CSR shard directory name")
  let state ← manifest.shards.foldlM (admitShard dir manifest.nodeCount) ⟨none, 0⟩
  refuseIf (state.edges ≠ manifest.edgeCount)
    (corruptIndex "CSR shard manifest counts disagree")
  return ⟨manifest, owner⟩

/-! ## The cache of decoded shards -/

/-- One decoded shard retained by the cache, under the index that decoded it. -/
structure CachedShard where
  owner : ℕ
  file : List Char
  csr : CsrIndex
  decodedBytes : ℕ
  lastUsed : ℕ
  deriving DecidableEq, Repr

/-- Byte-budgeted least-recently-used cache of decoded shards. -/
structure DecodedShardCache where
  entries : List CachedShard
  retainedBytes : ℕ
  budgetBytes : ℕ
  externalBytes : ℕ
  tick : ℕ
  deriving DecidableEq, Repr

namespace DecodedShardCache

/-- `DecodedShardCache::new`. -/
def new (budgetBytes : ℕ) : DecodedShardCache := ⟨[], 0, max budgetBytes 1, 0, 0⟩

variable (c : DecodedShardCache)

/-- Bytes decoded shards may occupy: the budget less what its other consumers hold. -/
def capacity : ℕ := c.budgetBytes - c.externalBytes

/-- The entry of a shard. -/
def position (owner : ℕ) (file : List Char) : Option ℕ :=
  c.entries.findIdx? fun entry => entry.owner = owner ∧ entry.file = file

/-- Mark an entry the most recently used. -/
def noteHit (index : ℕ) : DecodedShardCache :=
  { c with
    tick := c.tick + 1
    entries := c.entries.modify index fun entry => { entry with lastUsed := c.tick + 1 } }

/-- The first of the least recently used entries. -/
def victim : ℕ :=
  c.entries.findIdx fun entry => c.entries.all (entry.lastUsed ≤ ·.lastUsed)

/-- `evict_one`: the least recently used entry goes. -/
def evictOne : DecodedShardCache :=
  match c.entries[c.victim]? with
  | none => c
  | some removed => { c with
      entries := c.entries.eraseIdx c.victim
      retainedBytes := c.retainedBytes - removed.decodedBytes }

/-- Evict while `need` more bytes would not fit; every eviction removes an entry, so the
number of entries bounds the passes of the loop. -/
def makeRoom (need : ℕ) : ℕ → DecodedShardCache → DecodedShardCache
  | 0, c => c
  | fuel + 1, c =>
    if c.entries ≠ [] ∧ c.retainedBytes + need > c.capacity then makeRoom need fuel c.evictOne
    else c

/-- Insert a fully authenticated shard, evicting least-recently-used entries first. -/
def insert (owner : ℕ) (file : List Char) (csr : CsrIndex) (decodedBytes : ℕ) : DecodedShardCache :=
  let room := makeRoom decodedBytes c.entries.length { c with tick := c.tick + 1 }
  { room with
    retainedBytes := room.retainedBytes + decodedBytes
    entries := room.entries ++ [⟨owner, file, csr, decodedBytes, c.tick + 1⟩] }

/-- Drop every entry that `owner` decoded. -/
def removeOwner (owner : ℕ) : DecodedShardCache :=
  let kept := c.entries.filter (·.owner ≠ owner)
  { c with entries := kept, retainedBytes := (kept.map (·.decodedBytes)).sum }

/-- Record that another consumer holds `bytes` of the budget. -/
def setExternalBytes (bytes : ℕ) : DecodedShardCache :=
  makeRoom 0 c.entries.length { c with externalBytes := bytes }

end DecodedShardCache

/-- Fallible computations that use the cache. -/
abbrev CacheM := ExceptT GfError (StateM DecodedShardCache)

/-- A shard through the cache: a hit refreshes its entry, a miss reads the shard and
retains it, and a failed read leaves the cache as it was. -/
def fetchCached (read : CsrShardRecord → Except GfError CsrIndex) (owner : ℕ)
    (record : CsrShardRecord) : CacheM CsrIndex := ExceptT.mk fun cache =>
  match cache.position owner record.file with
  | some index => match cache.entries[index]? with
    | some entry => (.ok entry.csr, cache.noteHit index)
    | none => (.error (.storage "CSR shard cache position"), cache)
  | none => match read record with
    | .error e => (.error e, cache)
    | .ok csr => (.ok csr, cache.insert owner record.file csr record.decodedBytes)

/-! ## Rows -/

/-- The shards of a row, the last one first: from the last shard that starts at or before
`node`, backwards as long as the shards reach it. -/
def shardsFromEnd (shards : List CsrShardRecord) (node : ℕ) : List CsrShardRecord :=
  let stop := shards.partitionPoint (·.firstNode ≤ node)
  (shards.take stop).reverse.takeWhile fun r => node < saturatingAdd r.firstNode r.nodeCount

namespace ShardedCsrIndex
variable {m : Type → Type} [Monad m]

/-- Apply `map` to the part of a row that a shard holds. -/
def mapRecordRow {T : Type} (fetch : CsrShardRecord → m CsrIndex) (record : CsrShardRecord)
    (node : ℕ) (map : CsrRow → T) : m T := do
  let csr ← fetch record
  return map (csr.row (node - record.firstNode))

/-- Append the entries that a shard holds of a row to the output. -/
def extendRow (fetch : CsrShardRecord → m CsrIndex) (node : ℕ) (output : List (ℕ × ℕ))
    (record : CsrShardRecord) : m (List (ℕ × ℕ)) := do
  let entries ← mapRecordRow fetch record node CsrRow.iter
  return output ++ entries

/-- Read one logical row without loading unrelated shards. -/
def row (fetch : CsrShardRecord → m CsrIndex) (index : ShardedCsrIndex) (node : ℕ) :
    m (List (ℕ × ℕ)) :=
  if index.manifest.nodeCount ≤ node then pure []
  else (shardsFromEnd index.manifest.shards node).reverse.foldlM (extendRow fetch node) []

/-- Add the entries that a shard holds of a row to the total. -/
def addRowLen [MonadExceptOf GfError m] (fetch : CsrShardRecord → m CsrIndex) (node total : ℕ)
    (record : CsrShardRecord) : m ℕ := do
  let count ← mapRecordRow fetch record node CsrRow.len
  match checkedAdd total count with
  | none => throw (.storage "CSR degree exceeds u64")
  | some total => pure total

/-- Count a logical row without concatenating it. -/
def rowLen [MonadExceptOf GfError m] (fetch : CsrShardRecord → m CsrIndex)
    (index : ShardedCsrIndex) (node : ℕ) : m ℕ :=
  if index.manifest.nodeCount ≤ node then pure 0
  else (shardsFromEnd index.manifest.shards node).foldlM (addRowLen fetch node) 0

/-- The loop of `rowChunk`: `skip` entries are still to be skipped, and `output` has been
copied. -/
def chunkLoop (fetch : CsrShardRecord → m CsrIndex) (node limit : ℕ) :
    List CsrShardRecord → ℕ → List (ℕ × ℕ) → m (List (ℕ × ℕ))
  | [], _, output => pure output
  | record :: records, skip, output => do
    let (skip, output) ← mapRecordRow fetch record node fun row =>
      if row.len ≤ skip then (skip - row.len, output)
      else (0, output ++ (row.iter.drop skip).take (limit - output.length))
    if output.length = limit then pure output else chunkLoop fetch node limit records skip output

/-- Copy at most `limit` entries after a logical row offset. -/
def rowChunk (fetch : CsrShardRecord → m CsrIndex) (index : ShardedCsrIndex)
    (node skip limit : ℕ) : m (List (ℕ × ℕ)) :=
  if index.manifest.nodeCount ≤ node ∨ limit = 0 then pure []
  else chunkLoop fetch node limit (shardsFromEnd index.manifest.shards node).reverse skip []

end ShardedCsrIndex

end GraphForge.Adjacency
