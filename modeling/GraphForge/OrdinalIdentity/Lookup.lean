import GraphForge.OrdinalIdentity.Manifest
import GraphForge.Lib.FifoCache
import GraphForge.Lib.HiddenState

/-!
# Looking up node UUIDs

A lookup takes a batch of node ids in any order. It drops those that a tombstone run lists,
groups the others by ordinal range and block, answers what it can from the blocks it holds, and
reads the rest in runs that may span several blocks. What it read goes into a cache with a byte
budget. The answers are put back in the order of the batch.

A file is its bytes, and the corruption checksum is an argument.
-/

namespace GraphForge.OrdinalIdentity

open Except

open List (partitionPoint)

/-! ## The open handle -/

/-- The limits of a reader. -/
structure Limits where
  maxRequested : ℕ
  coalesceGapBytes : ℕ
  maxCoalescedReadBytes : ℕ
  maxTombstoneCacheBytes : ℕ
  maxOrdinalCacheBytes : ℕ
  deriving DecidableEq, Repr

/-- A range of ordinals whose file is open. -/
structure OpenRange where
  descriptor : OrdinalRange
  file : List UInt8
  /-- A caller relies on the recorded order, so every block served must ascend. -/
  verifyOrder : Bool

/-- Tombstones whose file is open. -/
structure OpenTombstones where
  blocks : List TombstoneBlock
  file : List UInt8

/-- A block in the cache, and whether its identities ascend. -/
structure CachedOrdinalBlock where
  bytes : List UInt8
  ascends : Bool

/-- Blocks of ordinals, by range and index. -/
abbrev OrdinalBlockCache := FifoCache (ℕ × ℕ) CachedOrdinalBlock
/-- Blocks of tombstones, by file and index. -/
abbrev TombstoneBlockCache := FifoCache (ℕ × ℕ) (List ℕ)

/-- The two caches of a reader. -/
structure Caches where
  ordinal : OrdinalBlockCache
  tombstone : TombstoneBlockCache

/-- A reader: its ranges, its tombstones and its limits. -/
structure Handle where
  ranges : List OpenRange
  tombstones : List OpenTombstones
  limits : Limits

/-- The charge of the cache itself. -/
def tombstoneCacheFixedCharge : ℕ := 64
/-- The charge of a cached block. -/
def tombstoneCacheEntryCharge : ℕ := 192

/-- The caches of a fresh handle. -/
def Caches.fresh : Caches := ⟨FifoCache.empty 0, FifoCache.empty tombstoneCacheFixedCharge⟩

/-- Lookups fail, and they change the caches. -/
abbrev LookupM := ExceptT OrdinalError (StateM Caches)

/-! ## Bytes -/

/-- `file.seek(offset)`, then `read_exact` of `length` bytes. -/
def readExact (file : List UInt8) (offset length : ℕ) : Except OrdinalError (List UInt8) :=
  if offset + length ≤ file.length then .ok ((file.drop offset).take length) else .error .io

/-- `&buffer[start..start + length]`. -/
def slice (buffer : List UInt8) (start length : ℕ) : Except OrdinalError (List UInt8) :=
  if start + length ≤ buffer.length then .ok ((buffer.drop start).take length)
  else .error .aborted

/-- Record `i` of a file of records of one width. -/
def recordAt (width : ℕ) (packed : List UInt8) (i : ℕ) : List UInt8 :=
  (packed.drop (i * width)).take width

/-- `uuids_strictly_ascend`. -/
def uuidsStrictlyAscend (packed : List UInt8) : Bool :=
  (List.range (packed.length / uuidWidth - 1)).all fun i =>
    recordAt uuidWidth packed i < recordAt uuidWidth packed (i + 1)

/-- The big-endian ids of packed tombstones. -/
def decodeIds (bytes : List UInt8) : List ℕ :=
  (List.range (bytes.length / tombstoneWidth)).map fun i =>
    Bytes.ofBeBytes (recordAt tombstoneWidth bytes i)

/-- `first + count - 1` on machine words. The sum may wrap around, and then the difference wraps
back. -/
def lastOf (first count : ℕ) : ℕ := ((first + count) % 2 ^ 64 + (2 ^ 64 - 1)) % 2 ^ 64

/-- The error of a block that does not ascend though the order is recorded. -/
def contradictsOrder : OrdinalError :=
  .invalidDescriptor "ordinal UUIDs contradict the recorded UUID order"

/-! ## Tombstones -/

/-- The charge of a cached block with its identifiers. -/
def tombstoneEntryCharge (ids : List ℕ) : ℕ :=
  FifoCache.saturatingAdd tombstoneCacheEntryCharge (ids.length * 8)

/-- Retain a decoded block, if it fits at all. -/
def retainTombstones (maximum : ℕ) (key : ℕ × ℕ) (ids : List ℕ) (cache : TombstoneBlockCache) :
    TombstoneBlockCache :=
  let charge := tombstoneEntryCharge ids
  if FifoCache.saturatingAdd tombstoneCacheFixedCharge charge ≤ maximum then
    (FifoCache.makeRoom tombstoneEntryCharge charge maximum cache.order cache).2.push key ids charge
  else cache

section
variable (checksum : List UInt8 → ℕ)

/-- Read, authenticate and decode one tombstone block. -/
def fetchTombstoneBlock (run : OpenTombstones) (block : TombstoneBlock) :
    Except OrdinalError (List ℕ) := do
  let bytes ← readExact run.file block.offset (block.count * tombstoneWidth)
  refuseIf (checksum bytes ≠ block.xxh64) .authentication
  let ids := decodeIds bytes
  refuseIf (ids.head? ≠ some block.first ∨ ids.getLast? ≠ some block.last ∨ ¬ids.IsChain (· < ·))
    (.invalidDescriptor "tombstone block fences are noncanonical")
  return ids

variable (limits : Limits)

/-- `read_tombstone_block`. -/
def readTombstoneBlock (runIndex : ℕ) (run : OpenTombstones) (block : TombstoneBlock) :
    LookupM (List ℕ) := do
  let caches ← readState
  match caches.tombstone.get? (runIndex, block.offset) with
  | some ids => return ids
  | none =>
    let ids ← fromExcept (fetchTombstoneBlock checksum run block)
    updateState fun caches => { caches with
      tombstone := retainTombstones limits.maxTombstoneCacheBytes (runIndex, block.offset) ids
        caches.tombstone }
    return ids

/-- One block of `lookup_tombstones`: it is read only when an id is asked for in its fence. -/
def collectDeleted (requested : List ℕ) (runIndex : ℕ) (run : OpenTombstones) (deleted : List ℕ)
    (block : TombstoneBlock) : LookupM (List ℕ) := do
  if requested.any fun id => block.first ≤ id ∧ id ≤ block.last then
    let ids ← readTombstoneBlock checksum limits runIndex run block
    return deleted ++ ids.filter (· ∈ requested)
  else return deleted

/-- `lookup_tombstones`: the requested ids that some run lists. -/
def lookupTombstones (handle : Handle) (requested : List ℕ) : LookupM (List ℕ) :=
  handle.tombstones.zipIdx.foldlM (fun deleted run =>
    run.1.blocks.foldlM (collectDeleted checksum handle.limits requested run.2 run.1) deleted) []

/-! ## Ordinal blocks -/

/-- What is resolved so far. -/
abbrev Resolved := ℕ → Option Uuid

/-- The ids of a sorted list from `first` to `last`. -/
def between (ids : List ℕ) (first last : ℕ) : List ℕ :=
  (ids.take (partitionPoint (· ≤ last) ids)).drop (partitionPoint (· < first) ids)

variable (firstNodeId : ℕ)

variable (block : OrdinalBlock)

/-- The first node of a block. -/
def OrdinalBlock.firstId : ℕ :=
  firstNodeId + block.offset / uuidWidth

/-- The last node of a block. -/
def OrdinalBlock.lastId : ℕ :=
  lastOf (block.firstId firstNodeId) block.count

/-- One id of `resolve_block_ids`. -/
def resolveId (bufferStart : ℕ) (buffer : List UInt8) (resolved : Resolved) (id : ℕ) :
    Except OrdinalError Resolved := do
  let start := block.offset - bufferStart + (id - block.firstId firstNodeId) * uuidWidth
  let bytes ← slice buffer start uuidWidth
  let uuid ← ofOption .aborted (Uuid.ofBytes bytes)
  return fun i => if i = id then some uuid else resolved i

/-- `resolve_block_ids`: the requested ids of a block, from a buffer that starts `bufferStart`
bytes into the file. -/
def resolveBlockIds (bufferStart : ℕ) (buffer : List UInt8) (ids : List ℕ) (resolved : Resolved) :
    Except OrdinalError Resolved :=
  (between ids (block.firstId firstNodeId) (block.lastId firstNodeId)).foldlM
    (resolveId firstNodeId block bufferStart buffer) resolved

/-- The blocks that hold a requested id, with their positions. -/
def selectBlocks (range : OrdinalRange) (ids : List ℕ) : List (OrdinalBlock × ℕ) :=
  range.blocks.zipIdx.filter fun block =>
    partitionPoint (· < block.1.firstId range.firstNodeId) ids ≠
      partitionPoint (· ≤ block.1.lastId range.firstNodeId) ids

variable (range : OpenRange)

variable (rangeIndex : ℕ)

variable (cache : OrdinalBlockCache)

/-- One selected block of `serve_cached_blocks`: answered from the cache, or still to be read. -/
def serveCachedBlock (ids : List ℕ) (acc : List (OrdinalBlock × ℕ) × Resolved)
    (block : OrdinalBlock × ℕ) : Except OrdinalError (List (OrdinalBlock × ℕ) × Resolved) :=
  match cache.get? (rangeIndex, block.2) with
  | none => .ok (acc.1 ++ [block], acc.2)
  | some cached => do
    refuseIf (range.verifyOrder = true ∧ cached.ascends = false) contradictsOrder
    let resolved ← resolveBlockIds range.descriptor.firstNodeId block.1 block.1.offset cached.bytes
      ids acc.2
    return (acc.1, resolved)

/-- `serve_cached_blocks`. -/
def serveCachedBlocks (selected : List (OrdinalBlock × ℕ)) (ids : List ℕ) (resolved : Resolved) :
    Except OrdinalError (List (OrdinalBlock × ℕ) × Resolved) :=
  selected.foldlM (serveCachedBlock range rangeIndex cache ids) ([], resolved)

/-- The offset behind a block. -/
def OrdinalBlock.finish : ℕ := block.offset + block.count * uuidWidth

/-- Extend a read that starts at `first` and ends with `last`, as long as the gap and the total
length allow; then start the next read. -/
def coalesceFrom (limits : Limits) (first last : OrdinalBlock × ℕ) :
    List (OrdinalBlock × ℕ) → List ((OrdinalBlock × ℕ) × (OrdinalBlock × ℕ))
  | [] => [(first, last)]
  | block :: rest =>
    if block.1.offset - last.1.finish > limits.coalesceGapBytes ∨
        block.1.finish - first.1.offset > limits.maxCoalescedReadBytes then
      (first, last) :: coalesceFrom limits block block rest
    else coalesceFrom limits first block rest

/-- The reads for the selected blocks: the first and the last block of each. -/
def coalesce : List (OrdinalBlock × ℕ) → List ((OrdinalBlock × ℕ) × (OrdinalBlock × ℕ))
  | [] => []
  | block :: rest => coalesceFrom limits block block rest

/-- `authenticate_run`: every block of one contiguous read against its checksum. -/
def authenticateRun (runStart : ℕ) (blocks : List (OrdinalBlock × ℕ)) (buffer : List UInt8) :
    Except OrdinalError Unit := do
  blocks.forM fun block => do
    let bytes ← slice buffer (block.1.offset - runStart) (block.1.count * uuidWidth)
    refuseIf (checksum bytes ≠ block.1.xxh64) .authentication
  refuseIf (range.verifyOrder = true ∧ uuidsStrictlyAscend buffer = false) contradictsOrder

/-- `OrdinalBlockCache::insert`. -/
def retainOrdinal (maximum : ℕ) (key : ℕ × ℕ) (block : CachedOrdinalBlock)
    (cache : OrdinalBlockCache) : OrdinalBlockCache :=
  let charge := block.bytes.length
  if charge > maximum ∨ (cache.get? key).isSome then cache
  else
    match FifoCache.makeRoom (·.bytes.length) charge maximum cache.order cache with
    | (true, room) => room.push key block charge
    | (false, room) => room

/-- One block of a read: its ids are resolved, and the block is retained. -/
def takeBlock (rangeIndex runStart : ℕ) (buffer : List UInt8) (ids : List ℕ) (resolved : Resolved)
    (block : OrdinalBlock × ℕ) : LookupM Resolved := do
  let resolved ← fromExcept (resolveBlockIds range.descriptor.firstNodeId block.1 runStart buffer
    ids resolved)
  let bytes ← fromExcept (slice buffer (block.1.offset - runStart) (block.1.count * uuidWidth))
  updateState fun caches => { caches with
    ordinal := retainOrdinal limits.maxOrdinalCacheBytes (rangeIndex, block.2)
      ⟨bytes, uuidsStrictlyAscend bytes⟩ caches.ordinal }
  return resolved

/-- One coalesced read, from the block `run.1` to the block `run.2`. -/
def readRun (ids : List ℕ) (resolved : Resolved) (run : (OrdinalBlock × ℕ) × (OrdinalBlock × ℕ)) :
    LookupM Resolved := do
  let length := run.2.1.finish - run.1.1.offset
  fromExcept (refuseIf (length > limits.maxCoalescedReadBytes)
    (.invalidDescriptor "ordinal block exceeds read bound"))
  let buffer ← fromExcept (readExact range.file run.1.1.offset length)
  let blocks := (range.descriptor.blocks.zipIdx.take (run.2.2 + 1)).drop run.1.2
  fromExcept (authenticateRun checksum range run.1.1.offset blocks buffer)
  blocks.foldlM (takeBlock limits range rangeIndex run.1.1.offset buffer ids) resolved

/-- Whether two held blocks meet in the wrong order. -/
def seamInverted (rangeIndex lower upper : ℕ) : Bool :=
  match cache.get? (rangeIndex, lower), cache.get? (rangeIndex, upper) with
  | some lower, some upper =>
    upper.bytes.take uuidWidth ≤ lower.bytes.drop (lower.bytes.length - uuidWidth)
  | _, _ => false

/-- `check_cached_seams`. -/
def checkCachedSeams (touched : List ℕ) : Except OrdinalError Unit :=
  refuseIf (range.verifyOrder = true ∧ touched.any (fun index =>
    (0 < index && seamInverted cache rangeIndex (index - 1) index) ||
      seamInverted cache rangeIndex index (index + 1)) = true) contradictsOrder

/-- `read_range_coalesced`. -/
def readRangeCoalesced (ids : List ℕ) (resolved : Resolved) : LookupM Resolved := do
  let touched := selectBlocks range.descriptor ids
  let caches ← readState
  let (selected, resolved) ← fromExcept
    (serveCachedBlocks range rangeIndex caches.ordinal touched ids resolved)
  let resolved ← (coalesce limits selected).foldlM
    (readRun checksum limits range rangeIndex ids) resolved
  let caches ← readState
  fromExcept (checkCachedSeams range rangeIndex caches.ordinal (touched.map (·.2)))
  return resolved

/-! ## Lookups -/

/-- One range of a lookup. -/
def lookupRange (live : List ℕ) (resolved : Resolved) (range : OpenRange × ℕ) :
    LookupM Resolved := do
  let first := range.1.descriptor.firstNodeId
  let ids := between live first (lastOf first range.1.descriptor.count)
  if ids.isEmpty then return resolved
  else readRangeCoalesced checksum limits range.1 range.2 ids resolved

/-- The distinct ids of a batch, in ascending order. -/
def uniqueIds (requested : List ℕ) : List ℕ := (requested.insertionSort (· ≤ ·)).dedup

/-- `lookup_node_uuids_pinned`, without its metrics. -/
def lookupNodeUuidsPinned (handle : Handle) (requested : List ℕ) : LookupM (List (Option Uuid)) := do
  fromExcept (refuseIf (requested.length > handle.limits.maxRequested)
    (.requestLimit requested.length handle.limits.maxRequested))
  let unique := uniqueIds requested
  let deleted ← lookupTombstones checksum handle unique
  let live := unique.filter (· ∉ deleted)
  let resolved ← handle.ranges.zipIdx.foldlM (lookupRange checksum handle.limits live)
    fun _ => none
  return requested.map resolved

end

/-! ## A session -/

/-- The handle of a manifest and its files; opening reads no byte of them. Once a caller has asked
`uuid_order_matches_ordinals`, an order that the manifest records is verified on what is served. -/
def openHandle (m : Manifest) (files : List Char → List UInt8) (limits : Limits)
    (reliesOnOrder : Bool) : Handle where
  ranges := m.ordinalRanges.map fun range =>
    ⟨range, files range.artifact.name, reliesOnOrder && m.uuidOrderMatchesOrdinals == some true⟩
  tombstones := m.tombstones.map fun run => ⟨run.blocks, files run.artifact.name⟩
  limits := limits

/-- The outcomes of a sequence of lookups through one handle. Each batch comes with whether a
caller relies on the recorded order by then. -/
def lookupAll (checksum : List UInt8 → ℕ) (m : Manifest) (files : List Char → List UInt8)
    (limits : Limits) : List (Bool × List ℕ) → Caches → List (Except OrdinalError (List (Option Uuid)))
  | [], _ => []
  | batch :: batches, caches =>
    let after := (lookupNodeUuidsPinned checksum (openHandle m files limits batch.1) batch.2).run.run
      caches
    after.1 :: lookupAll checksum m files limits batches after.2

end GraphForge.OrdinalIdentity
