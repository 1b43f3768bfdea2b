import GraphForge.Uuid
import GraphForge.Adjacency.ShardStore

/-!
# The ordinal identity manifest

The authority that maps node ids to UUIDs is a set of immutable files under one manifest. Ordinal
ranges pack the UUIDs of consecutive ids, tombstone runs list deleted ids, and forward runs hold
the reverse map. Files are read in blocks of 64 KiB, and the manifest fences every block.
-/

namespace GraphForge.OrdinalIdentity

open Except

/-! ## Constants -/

/-- The bytes of a UUID. -/
def uuidWidth : ℕ := 16
/-- The bytes of a forward record: a UUID and its ordinal. -/
def forwardRecordWidth : ℕ := uuidWidth + 8
/-- The bytes of a tombstone. -/
def tombstoneWidth : ℕ := 8
/-- The bytes of a full block of tombstones. -/
def tombstoneBlockBytes : ℕ := 64 * 1024
/-- The bytes of a full block of ordinals. -/
def ordinalBlockBytes : ℕ := 64 * 1024
/-- The bytes that a stream holds at a time. -/
def streamBytes : ℕ := 1024 * 1024

/-! ## Descriptors -/

/-- The kinds of artifacts. -/
inductive ArtifactKind where
  | forwardIdentities | ordinalUuids | nodeTombstones
  deriving DecidableEq, Repr

/-- One immutable generation-bound file. -/
structure Artifact where
  name : List Char
  kind : ArtifactKind
  generation : ℕ
  bytes : ℕ
  sha256 : List Char
  xxh64 : ℕ
  deriving DecidableEq, Repr

/-- A block of a range of ordinals, and its checksum. -/
structure OrdinalBlock where
  offset : ℕ
  count : ℕ
  xxh64 : ℕ
  deriving DecidableEq, Repr

/-- A packed contiguous range of UUIDs. -/
structure OrdinalRange where
  firstNodeId : ℕ
  count : ℕ
  artifact : Artifact
  blocks : List OrdinalBlock
  deriving DecidableEq, Repr

/-- A block of tombstones, the least and greatest in it, and its checksum. -/
structure TombstoneBlock where
  offset : ℕ
  count : ℕ
  first : ℕ
  last : ℕ
  xxh64 : ℕ
  deriving DecidableEq, Repr

/-- The deletions of one generation. -/
structure TombstoneRun where
  generation : ℕ
  artifact : Artifact
  blocks : List TombstoneBlock
  deriving DecidableEq, Repr

/-- What a generation publishes about its ordinals. -/
structure Manifest where
  topologyGeneration : ℕ
  forwardIdentities : List Artifact
  ordinalRanges : List OrdinalRange
  tombstones : List TombstoneRun
  /-- Whether UUIDs increase with the ids, as the publisher recorded it. -/
  uuidOrderMatchesOrdinals : Option Bool
  deriving DecidableEq, Repr

/-! ## Errors -/

/-- The errors of publishing and reading. -/
inductive OrdinalError where
  | io
  | invalidDescriptor (message : String)
  | generationMismatch (expected found : ℕ)
  | authentication
  | requestLimit (requested maximum : ℕ)
  /-- The program aborts: a slice is out of range. -/
  | aborted
  deriving DecidableEq, Repr

/-! ## Validation -/

/-- `require_kind`. -/
def requireKind (artifact : Artifact) (kind : ArtifactKind) (topologyGeneration : ℕ) :
    Except OrdinalError Unit := do
  refuseIf (artifact.kind ≠ kind ∨ artifact.generation = 0 ∨
      artifact.generation > topologyGeneration ∨ artifact.sha256.length ≠ 64 ∨
      ¬artifact.sha256.all isLowerHex ∨ ¬Adjacency.isNormalPathComponent artifact.name)
    (.invalidDescriptor "artifact binding is noncanonical")
  refuseIf (kind = .forwardIdentities ∧ ¬forwardRecordWidth ∣ artifact.bytes)
    (.invalidDescriptor "forward identity artifact is truncated")

/-- The forward runs, after one of generation `prior`. -/
def validateForwardRuns (topologyGeneration : ℕ) : ℕ → List Artifact → Except OrdinalError Unit
  | _, [] => .ok ()
  | prior, run :: runs => do
    requireKind run .forwardIdentities topologyGeneration
    refuseIf (run.generation ≤ prior)
      (.invalidDescriptor "forward runs are not in canonical generation order")
    validateForwardRuns topologyGeneration run.generation runs

/-- The fences from position `index` on, with `remaining` records to cover. -/
def validateOrdinalBlocks : ℕ → ℕ → List OrdinalBlock → Except OrdinalError Unit
  | _, _, [] => .ok ()
  | index, remaining, block :: blocks => do
    let count := min remaining (ordinalBlockBytes / uuidWidth)
    refuseIf (block.offset ≠ index * ordinalBlockBytes ∨ block.count ≠ count)
      (.invalidDescriptor "ordinal block fences are noncanonical")
    validateOrdinalBlocks (index + 1) (remaining - count) blocks

/-- `u64::div_ceil`. -/
def divCeil (a b : ℕ) : ℕ := (a + (b - 1)) / b

/-- `validate_ordinal_block_fences`. -/
def validateOrdinalBlockFences (range : OrdinalRange) : Except OrdinalError Unit := do
  refuseIf (range.blocks.length ≠ divCeil range.count (ordinalBlockBytes / uuidWidth))
    (.invalidDescriptor "ordinal block fences are noncanonical")
  validateOrdinalBlocks 0 range.count range.blocks

/-- The ordinal ranges, after one that ends at `priorEnd`. -/
def validateOrdinalRanges (topologyGeneration : ℕ) : ℕ → List OrdinalRange →
    Except OrdinalError Unit
  | _, [] => .ok ()
  | priorEnd, range :: ranges => do
    requireKind range.artifact .ordinalUuids topologyGeneration
    refuseIf (range.count = 0) (.invalidDescriptor "ordinal range is empty")
    refuseIf (2 ^ 64 ≤ range.firstNodeId + (range.count - 1))
      (.invalidDescriptor "ordinal range overflows")
    refuseIf (range.firstNodeId = 0 ∨ range.firstNodeId ≤ priorEnd)
      (.invalidDescriptor "ordinal ranges overlap or descend")
    refuseIf (2 ^ 64 ≤ range.count * uuidWidth)
      (.invalidDescriptor "ordinal byte length overflows")
    refuseIf (range.artifact.bytes ≠ range.count * uuidWidth)
      (.invalidDescriptor "ordinal artifact length is not packed")
    validateOrdinalBlockFences range
    validateOrdinalRanges topologyGeneration (range.firstNodeId + (range.count - 1)) ranges

/-- The fences from position `index` on, with `remaining` ids to cover above `priorLast`. -/
def validateTombstoneBlocks : ℕ → ℕ → ℕ → List TombstoneBlock → Except OrdinalError Unit
  | _, _, _, [] => .ok ()
  | index, remaining, priorLast, block :: blocks => do
    let count := min remaining (tombstoneBlockBytes / tombstoneWidth)
    refuseIf (block.offset ≠ index * tombstoneBlockBytes ∨ block.count ≠ count ∨
        block.first = 0 ∨ block.first > block.last ∨ block.first ≤ priorLast)
      (.invalidDescriptor "tombstone block fences are noncanonical")
    validateTombstoneBlocks (index + 1) (remaining - count) block.last blocks

/-- `validate_tombstone_block_fences`. -/
def validateTombstoneBlockFences (run : TombstoneRun) : Except OrdinalError Unit := do
  let total := run.artifact.bytes / tombstoneWidth
  refuseIf (run.blocks.length ≠ divCeil total (tombstoneBlockBytes / tombstoneWidth))
    (.invalidDescriptor "tombstone block fences are noncanonical")
  validateTombstoneBlocks 0 total 0 run.blocks

/-- `validate_tombstone_descriptors`, after a run of generation `prior`. -/
def validateTombstoneRuns (topologyGeneration : ℕ) : ℕ → List TombstoneRun →
    Except OrdinalError Unit
  | _, [] => .ok ()
  | prior, run :: runs => do
    requireKind run.artifact .nodeTombstones topologyGeneration
    refuseIf (run.generation = 0 ∨ run.generation ≤ prior ∨
        run.generation ≠ run.artifact.generation ∨ ¬tombstoneWidth ∣ run.artifact.bytes)
      (.invalidDescriptor "tombstone runs are noncanonical")
    validateTombstoneBlockFences run
    validateTombstoneRuns topologyGeneration run.generation runs

/-- All files that a manifest names. -/
def Manifest.artifacts (m : Manifest) : List Artifact :=
  m.forwardIdentities ++ m.ordinalRanges.map (·.artifact) ++ m.tombstones.map (·.artifact)

/-- `validate_manifest`. -/
def validateManifest (m : Manifest) (expectedGeneration : ℕ) : Except OrdinalError Unit := do
  refuseIf (m.topologyGeneration ≠ expectedGeneration)
    (.generationMismatch expectedGeneration m.topologyGeneration)
  refuseIf (¬(m.artifacts.map (·.name)).Nodup)
    (.invalidDescriptor "artifact filename is reused")
  refuseIf (m.forwardIdentities = [])
    (.invalidDescriptor "forward identity authority is absent")
  refuseIf (m.forwardIdentities.length > streamBytes / forwardRecordWidth)
    (.invalidDescriptor "forward run count exceeds bounded admission cursors")
  validateForwardRuns m.topologyGeneration 0 m.forwardIdentities
  validateOrdinalRanges m.topologyGeneration 0 m.ordinalRanges
  validateTombstoneRuns m.topologyGeneration 0 m.tombstones

end GraphForge.OrdinalIdentity
