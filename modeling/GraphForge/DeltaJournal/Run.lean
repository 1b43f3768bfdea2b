import GraphForge.Lib.Slices
import GraphForge.Prelude
import GraphForge.Uuid

/-!
# Delta runs

A delta run is one immutable file of framed property mutations: a checksummed header with
the number of records, the records, each checksummed on its own, and a checksum of the
whole file. `encodeDeltaRun` writes such a file and `decodeDeltaRun` reads untrusted bytes.
The payloads are JSON texts.
-/

namespace GraphForge.DeltaJournal

open Bytes Slices Except

/-! ## Errors -/

/-- The errors of corrupt runs. -/
def corrupt (message : String) : GfError := .project .projectCorrupt message

/-- The errors of formats that are not supported. -/
def unsupported (message : String) : GfError := .project .unsupportedProjectFormat message

/-- The errors of limits. -/
def resourceLimit (message : String) : GfError := .project .resourceLimit message

/-- The error of another format version. -/
def unsupportedRunVersion (version : ℕ) : GfError :=
  unsupported s!"unsupported graph delta run format version {version}"

/-! ## Operations -/

/-- Framed mutation discriminants. -/
inductive GraphDeltaOpKind where
  | upsertNode
  | deleteNode
  | upsertEdge
  | deleteEdge
  | setNodeProperty
  | removeNodeProperty
  | setEdgeProperty
  | removeEdgeProperty
  deriving DecidableEq, Repr

namespace GraphDeltaOpKind

/-- `kind as u8`. -/
def toU8 : GraphDeltaOpKind → UInt8
  | upsertNode => 1
  | deleteNode => 2
  | upsertEdge => 3
  | deleteEdge => 4
  | setNodeProperty => 5
  | removeNodeProperty => 6
  | setEdgeProperty => 7
  | removeEdgeProperty => 8

/-- `from_u8`. -/
def fromU8 (value : UInt8) : Except GfError GraphDeltaOpKind :=
  let other := value.toNat
  match value with
  | 1 => .ok upsertNode
  | 2 => .ok deleteNode
  | 3 => .ok upsertEdge
  | 4 => .ok deleteEdge
  | 5 => .ok setNodeProperty
  | 6 => .ok removeNodeProperty
  | 7 => .ok setEdgeProperty
  | 8 => .ok removeEdgeProperty
  | _ => .error (.validation s!"unsupported graph delta mutation kind {other}")

end GraphDeltaOpKind

/-- Typed payloads. UUIDs are their text here. -/
inductive GraphDeltaPayload where
  | upsertNode (nodeUuid : String) (typeIds : List ℕ)
  | upsertNodeV2 (nodeUuid : String) (nodeId : ℕ) (typeIds : List ℕ)
      (createdAtMicros updatedAtMicros : ℤ)
  | deleteNode (nodeUuid : String)
  | upsertEdge (edgeUuid srcUuid dstUuid relType : String)
  | upsertEdgeV2 (edgeUuid srcUuid dstUuid relType : String) (edgeId srcId dstId : ℕ)
      (createdAtMicros : ℤ)
  | deleteEdge (edgeUuid : String)
  | setNodeProperty (nodeUuid propertyStem key value : String)
  | removeNodeProperty (nodeUuid propertyStem key : String)
  | setEdgeProperty (edgeUuid propertyStem key value : String)
  | removeEdgeProperty (edgeUuid propertyStem key : String)
  deriving DecidableEq, Repr

/-- One framed mutation before encoding. -/
structure GraphDeltaOp where
  operationUuid : Uuid
  kind : GraphDeltaOpKind
  payload : GraphDeltaPayload
  deriving DecidableEq, Repr

/-- JSON of payloads and of property values, with the texts of its errors. -/
structure Json (L : Type) where
  toVec : GraphDeltaPayload → Except String (List UInt8)
  fromSlice : List UInt8 → Except String GraphDeltaPayload
  literalFromStr : String → Except String L

section
variable {L : Type} (json : Json L)

/-- `decode_graph_delta_value`. -/
def decodeGraphDeltaValue (encoded : String) : Except GfError L :=
  (json.literalFromStr encoded).mapError fun error =>
    unsupported s!"unsupported legacy GFDR property encoding: {error}"

namespace GraphDeltaPayload

/-- The kind that a payload must be recorded under. -/
def expectedKind : GraphDeltaPayload → GraphDeltaOpKind
  | upsertNode .. | upsertNodeV2 .. => .upsertNode
  | deleteNode .. => .deleteNode
  | upsertEdge .. | upsertEdgeV2 .. => .upsertEdge
  | deleteEdge .. => .deleteEdge
  | setNodeProperty .. => .setNodeProperty
  | removeNodeProperty .. => .removeNodeProperty
  | setEdgeProperty .. => .setEdgeProperty
  | removeEdgeProperty .. => .removeEdgeProperty

/-- A set needs a route and a value that decodes. -/
def validateSet (propertyStem value : String) : Except GfError Unit := do
  refuseIf (propertyStem = "")
    (unsupported "unsupported routing-free GFDR property payload")
  let _ ← decodeGraphDeltaValue json value

/-- A removal needs a route. -/
def validateRemove (propertyStem : String) : Except GfError Unit :=
  refuseIf (propertyStem = "")
    (unsupported "unsupported routing-free GFDR property removal payload")

/-- Topology payloads are refused; property payloads are checked. -/
def validateTypedValues : GraphDeltaPayload → Except GfError Unit
  | setNodeProperty _ stem _ value | setEdgeProperty _ stem _ value => validateSet json stem value
  | removeNodeProperty _ stem _ | removeEdgeProperty _ stem _ => validateRemove stem
  | upsertNode .. | upsertNodeV2 .. | deleteNode .. | upsertEdge .. | upsertEdgeV2 ..
  | deleteEdge .. => .error (unsupported
      "GFDR supports property mutations only; topology requires canonical publication")

/-- `GraphDeltaPayload::encode`. -/
def encode (payload : GraphDeltaPayload) : Except GfError (List UInt8) := do
  payload.validateTypedValues json
  (json.toVec payload).mapError fun error =>
    .validation s!"graph delta payload encode failed: {error}"

/-- `GraphDeltaPayload::decode`. -/
def decode (bytes : List UInt8) : Except GfError GraphDeltaPayload := do
  let payload ← (json.fromSlice bytes).mapError fun error =>
    corrupt s!"graph delta payload decode failed: {error}"
  payload.validateTypedValues json
  return payload

end GraphDeltaPayload

/-! ## Encoding -/

/-- The limits that bound a run. -/
structure GraphDeltaJournalLimits where
  maxRuns : ℕ
  maxRunBytes : ℕ
  maxRecordsPerRun : ℕ
  maxPayloadBytes : ℕ
  deriving DecidableEq, Repr

/-- `GFDR`. -/
def magic : List UInt8 := [0x47, 0x46, 0x44, 0x52]

/-- The version of the run format. -/
def graphDeltaRunFormatVersion : ℕ := 2

/-- The version of the record format. -/
def graphDeltaRecordVersion : ℕ := 2

/-- The one schema of payloads. -/
def schemaJsonV1 : ℕ := 1

variable (checksum : List UInt8 → ℕ)

variable (bytes : List UInt8)

/-- The checksum of a byte string as it is stored. -/
def sum8 : List UInt8 := leBytes 8 (checksum bytes)

/-- Magic, version, identities and record count. -/
def runHeader (runSequence : ℕ) (runUuid transactionUuid : Uuid) (recordCount : ℕ) : List UInt8 :=
  magic ++ (leBytes 4 graphDeltaRunFormatVersion ++ (leBytes 8 runSequence ++
    (runUuid.toBytes ++ (transactionUuid.toBytes ++ leBytes 4 recordCount))))

/-- A record without its checksum. -/
def recordBytes (operationUuid : Uuid) (opSequence : ℕ) (kind : GraphDeltaOpKind)
    (payload : List UInt8) : List UInt8 :=
  leBytes 2 graphDeltaRecordVersion ++ (operationUuid.toBytes ++ (leBytes 4 opSequence ++
    (kind.toU8 :: (leBytes 2 schemaJsonV1 ++ (leBytes 4 payload.length ++ payload)))))

/-- A record and its checksum. -/
def recordFrame (operationUuid : Uuid) (opSequence : ℕ) (kind : GraphDeltaOpKind)
    (payload : List UInt8) : List UInt8 :=
  recordBytes operationUuid opSequence kind payload ++
    sum8 checksum (recordBytes operationUuid opSequence kind payload)

/-- The body written so far and the operations seen. -/
structure EncodeState where
  body : List UInt8
  seenOps : List Uuid
  deriving DecidableEq, Repr

/-- Append the record of one operation. -/
def encodeRecord (limits : GraphDeltaJournalLimits) (state : EncodeState)
    (indexed : GraphDeltaOp × ℕ) : Except GfError EncodeState := do
  let op := indexed.1
  refuseIf (op.operationUuid ∈ state.seenOps)
    (.validation "graph delta run contains duplicate operation_uuid")
  refuseIf (op.payload.expectedKind ≠ op.kind)
    (.validation "graph delta operation kind does not match payload")
  let payload ← op.payload.encode json
  refuseIf (limits.maxPayloadBytes < payload.length)
    (resourceLimit "graph delta payload bytes")
  refuseIf (2 ^ 32 ≤ indexed.2) (.validation "op sequence overflow")
  refuseIf (2 ^ 32 ≤ payload.length) (.validation "graph delta payload length overflow")
  let body := state.body ++ recordFrame checksum op.operationUuid indexed.2 op.kind payload
  refuseIf (limits.maxRunBytes - 8 < body.length) (resourceLimit "graph delta run bytes")
  return ⟨body, op.operationUuid :: state.seenOps⟩

/-- `encode_delta_run`. -/
def encodeDeltaRun (runSequence : ℕ) (runUuid transactionUuid : Uuid)
    (operations : List GraphDeltaOp) (limits : GraphDeltaJournalLimits) :
    Except GfError (List UInt8) := do
  refuseIf (runSequence = 0 ∨ limits.maxRuns < runSequence)
    (.validation "graph delta run_sequence out of bounds")
  refuseIf (operations = [])
    (.validation "graph delta run must contain at least one operation")
  refuseIf (limits.maxRecordsPerRun < operations.length)
    (resourceLimit "graph delta records per run")
  refuseIf (2 ^ 32 ≤ operations.length) (.validation "graph delta record count overflow")
  let header := runHeader runSequence runUuid transactionUuid operations.length
  let state ← operations.zipIdx.foldlM (encodeRecord json checksum limits)
    ⟨header ++ sum8 checksum header, []⟩
  let bytes := state.body ++ sum8 checksum state.body
  refuseIf (limits.maxRunBytes < bytes.length) (resourceLimit "graph delta run bytes")
  return bytes

/-! ## Decoding -/

/-- Decoded framed record. -/
structure GraphDeltaRecord where
  recordVersion : ℕ
  operationUuid : Uuid
  opSequence : ℕ
  kind : GraphDeltaOpKind
  schemaId : ℕ
  payload : GraphDeltaPayload
  deriving DecidableEq, Repr

/-- One verified delta run. -/
structure GraphDeltaRun where
  runSequence : ℕ
  runUuid : Uuid
  transactionUuid : Uuid
  records : List GraphDeltaRecord
  bytes : List UInt8
  deriving DecidableEq, Repr

/-- `read_u16`. -/
def readU16 : List UInt8 → ℕ → Except (Access GfError) ℕ :=
  getLe (corrupt "graph delta truncated u16") 2

/-- `read_u32`. -/
def readU32 : List UInt8 → ℕ → Except (Access GfError) ℕ :=
  getLe (corrupt "graph delta truncated u32") 4

/-- `read_u64`. -/
def readU64 : List UInt8 → ℕ → Except (Access GfError) ℕ :=
  getLe (corrupt "graph delta truncated u64") 8

/-- `read_uuid`. -/
def readUuid (offset : ℕ) : Except (Access GfError) Uuid := do
  let piece ← get (corrupt "graph delta truncated uuid") 16 bytes offset
  ofOption (.refused (corrupt "graph delta invalid uuid")) (Uuid.ofBytes piece)

/-- An error of a callee, returned by `?`. -/
def propagate {A : Type} (x : Except GfError A) : Except (Access GfError) A :=
  x.mapError .refused

/-- The position in the file, the records read and the operations seen. -/
structure DecodeState where
  cursor : ℕ
  records : List GraphDeltaRecord
  seenOps : List Uuid
  deriving DecidableEq, Repr

/-- Read the record at the cursor, which has to end before `fileChecksumOffset`. -/
def decodeRecord (fileChecksumOffset : ℕ) (limits : GraphDeltaJournalLimits) (state : DecodeState)
    (expectedOpSequence : ℕ) : Except (Access GfError) DecodeState := do
  let start := state.cursor
  refuse (fileChecksumOffset < start + 2 + 16 + 4 + 1 + 2 + 4 + 8)
    (corrupt "graph delta run truncated mid-record")
  let recordVersion ← readU16 bytes start
  refuse (recordVersion ≠ graphDeltaRecordVersion) (unsupportedRunVersion recordVersion)
  let operationUuid ← readUuid bytes (start + 2)
  refuse (operationUuid ∈ state.seenOps)
    (corrupt "graph delta run has duplicated operation_uuid")
  let opSequence ← readU32 bytes (start + 18)
  refuse (opSequence ≠ expectedOpSequence)
    (corrupt "graph delta op_sequence reordered or gapped")
  let kindByte ← index bytes (start + 22)
  let kind ← propagate (GraphDeltaOpKind.fromU8 kindByte)
  let schemaId ← readU16 bytes (start + 23)
  refuse (schemaId ≠ schemaJsonV1) (unsupportedRunVersion schemaId)
  let payloadLen ← readU32 bytes (start + 25)
  refuse (limits.maxPayloadBytes < payloadLen) (resourceLimit "graph delta payload bytes")
  refuse (fileChecksumOffset < start + 29 + payloadLen + 8)
    (corrupt "graph delta record payload truncated")
  let payloadBytes ← slice bytes (start + 29) (start + 29 + payloadLen)
  let storedRecordChecksum ← slice bytes (start + 29 + payloadLen) (start + 29 + payloadLen + 8)
  let record ← slice bytes start (start + 29 + payloadLen)
  refuse (storedRecordChecksum ≠ sum8 checksum record)
    (corrupt "graph delta record checksum mismatch")
  let payload ← propagate (GraphDeltaPayload.decode json payloadBytes)
  refuse (payload.expectedKind ≠ kind) (corrupt "graph delta record kind/payload mismatch")
  return ⟨start + 29 + payloadLen + 8,
    state.records ++ [⟨recordVersion, operationUuid, opSequence, kind, schemaId, payload⟩],
    operationUuid :: state.seenOps⟩

/-- `decode_delta_run`. -/
def decodeDeltaRun (expectedSequence : Option ℕ) (limits : GraphDeltaJournalLimits) :
    Except (Access GfError) GraphDeltaRun := do
  refuse (limits.maxRunBytes < bytes.length) (resourceLimit "graph delta run bytes")
  refuse (bytes.length < 4 + 4 + 8 + 16 + 16 + 4 + 8 + 8)
    (corrupt "graph delta run truncated before header")
  let start ← slice bytes 0 4
  refuse (start ≠ magic) (corrupt "graph delta run magic mismatch")
  let formatVersion ← readU32 bytes 4
  refuse (formatVersion ≠ graphDeltaRunFormatVersion) (unsupportedRunVersion formatVersion)
  let runSequence ← readU64 bytes 8
  refuse (expectedSequence.any (runSequence ≠ ·)) (corrupt "graph delta run sequence mismatch")
  refuse (runSequence = 0 ∨ limits.maxRuns < runSequence)
    (corrupt "graph delta run sequence out of bounds")
  let runUuid ← readUuid bytes 16
  let transactionUuid ← readUuid bytes 32
  let recordCount ← readU32 bytes 48
  refuse (recordCount = 0 ∨ limits.maxRecordsPerRun < recordCount)
    (corrupt "graph delta record count invalid")
  let storedHeaderChecksum ← slice bytes 52 (52 + 8)
  let header ← slice bytes 0 52
  refuse (storedHeaderChecksum ≠ sum8 checksum header)
    (corrupt "graph delta run header checksum mismatch")
  let fileChecksumOffset := bytes.length - 8
  refuse (fileChecksumOffset ≤ 52 + 8) (corrupt "graph delta run truncated")
  let storedFileChecksum ← slice bytes fileChecksumOffset bytes.length
  let body ← slice bytes 0 fileChecksumOffset
  refuse (storedFileChecksum ≠ sum8 checksum body)
    (corrupt "graph delta run file checksum mismatch")
  let state ← (List.range recordCount).foldlM
    (decodeRecord json checksum bytes fileChecksumOffset limits) ⟨52 + 8, [], []⟩
  refuse (state.cursor ≠ fileChecksumOffset)
    (corrupt "graph delta run has trailing garbage before checksum")
  refuse (state.records.length ≠ recordCount) (corrupt "graph delta record count mismatch")
  return ⟨runSequence, runUuid, transactionUuid, state.records, bytes⟩

end

end GraphForge.DeltaJournal
