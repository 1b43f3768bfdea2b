import GraphForge.Digest
import GraphForge.Adjacency.ShardWriter

/-!
# Persisted shards

A shard is one Arrow IPC file beside a manifest that records its rows, its lengths and
its checksums. Writing encodes and admits a shard; opening a shard set checks the
manifest and the presence and length of every file; reading one shard authenticates the
bytes against its record before Arrow decodes them. Arrow itself, the checksum and
SHA-256 are the arguments of a `ShardCodec`.
-/

namespace GraphForge.Adjacency

open Except

/-! ## Names -/

/-- The components of a path. -/
inductive PathComponent where
  | rootDir
  | curDir
  | parentDir
  | normal (name : List Char)
  deriving DecidableEq, Repr

/-- `Path::components`: a leading separator is the root, `.` counts only at the front,
and repeated or trailing separators count for nothing. -/
def pathComponents (path : List Char) : List PathComponent :=
  let later (part : List Char) : Option PathComponent :=
    if part = [] ∨ part = ['.'] then none
    else if part = ['.', '.'] then some .parentDir
    else some (.normal part)
  match path.splitOn '/' with
  | [] => []
  | [] :: rest => (if rest = [] then [] else [.rootDir]) ++ rest.filterMap later
  | ['.'] :: rest => .curDir :: rest.filterMap later
  | first :: rest => (first :: rest).filterMap later

/-- A name that is a single plain path component. -/
def isNormalPathComponent (value : List Char) : Bool :=
  match pathComponents value with
  | [.normal _] => true
  | _ => false

/-- `{ordinal:020}.csr`. -/
def shardFileName (ordinal : ℕ) : List Char :=
  (List.range 20).reverse.map (fun i => Char.ofNat (48 + ordinal / 10 ^ i % 10)) ++ ".csr".toList

/-! ## Records and manifests -/

/-- What the manifest knows of one shard. -/
structure CsrShardRecord where
  firstNode : ℕ
  nodeCount : ℕ
  edgeCount : ℕ
  file : List Char
  sha256 : List Char
  xxh64 : ℕ
  encodedBytes : ℕ
  decodedBytes : ℕ
  deriving DecidableEq, Repr

/-- What an index publishes about its shards. -/
structure CsrShardManifest where
  format : String
  version : ℕ
  nodeCount : ℕ
  edgeCount : ℕ
  shardDir : List Char
  shards : List CsrShardRecord
  deriving DecidableEq, Repr

/-- The version of the manifest. -/
def shardedCsrVersion : ℕ := 3

/-! ## Errors -/

/-- A derived-index object that is present but fails its own integrity checks. -/
def corruptIndex (message : String) : GfError := .validation message

/-- Re-label a structural failure of an index object as corruption. -/
def corruptStructure : GfError → GfError
  | .storage message => corruptIndex message
  | other => other

/-- The failures of the file system that a reader tells apart. -/
inductive IoFault where
  | notFound
  | other (message : String)
  deriving DecidableEq, Repr

/-- A declared shard that is absent is damage; any other failure stays an I/O error. -/
def shardIoError (file : List Char) : IoFault → GfError
  | .notFound =>
    let name := String.ofList file
    corruptIndex s!"missing CSR shard {name}"
  | .other message =>
    let name := String.ofList file
    .storage s!"read CSR shard {name}: {message}"

/-! ## Admission -/

/-- `codec::invalid`. -/
def invalidEncoding : GfError := .storage "invalid or oversized current CSR shard encoding"

/-- The most bytes of a shard that are not its columns. -/
def metadataMaxBytes : ℕ := 16 * 1024

/-- `u64::div_ceil(8)`. -/
def divCeil8 (n : ℕ) : ℕ := (n + 7) / 8

/-- The lengths of the seven buffers of a shard's record batch. -/
def bufferLengths (nodes edges : ℕ) : Except GfError (List ℕ) :=
  if nodes > defaultCsrShardNodes ∨ edges > defaultCsrShardEdges then throw invalidEncoding
  else pure [divCeil8 nodes, 8 * (nodes + 1), divCeil8 edges, divCeil8 edges, 8 * edges,
    divCeil8 edges, 8 * edges]

/-- The bytes of a decoded shard. -/
def decodedBytes (nodes edges : ℕ) : Except GfError ℕ := do
  return (← bufferLengths nodes edges).sum

/-- The most bytes of a shard file. -/
def encodedLimit (nodes edges : ℕ) : Except GfError ℕ := do
  return (← decodedBytes nodes edges) + metadataMaxBytes

/-- Admission for a freshly encoded shard before any byte reaches the file system. -/
def admitEncodedLen (bytesLen nodes edges : ℕ) : Except GfError Unit := do
  refuseIf (bytesLen > (← encodedLimit nodes edges)) invalidEncoding

/-! ## One shard -/

/-- The libraries behind the shard files: the Arrow IPC writer and reader, the check of
every allocation that a file declares, the corruption checksum and SHA-256. -/
structure ShardCodec where
  encode : CsrIndex → List UInt8
  preflight : List UInt8 → ℕ → ℕ → Except GfError Unit
  decode : List UInt8 → Except String CsrIndex
  checksum : List UInt8 → ℕ
  sha256 : List UInt8 → Digest

variable (codec : ShardCodec)

/-- Encode, admission and hash a shard; the record and the bytes of its file. -/
def writeCsrShard (ordinal first : ℕ) (shard : CsrIndex) :
    Except GfError (CsrShardRecord × List UInt8) := do
  shard.validate
  let decoded ← decodedBytes shard.nodeCount shard.edgeCount
  let bytes := codec.encode shard
  admitEncodedLen bytes.length shard.nodeCount shard.edgeCount
  codec.preflight bytes shard.nodeCount shard.edgeCount
  return ({
    firstNode := first
    nodeCount := shard.nodeCount
    edgeCount := shard.edgeCount
    file := shardFileName ordinal
    sha256 := hexText (codec.sha256 bytes).val
    xxh64 := codec.checksum bytes
    encodedBytes := bytes.length
    decodedBytes := decoded }, bytes)

/-- The files of a shard directory, by name. -/
abbrev Directory := List Char → Except IoFault (List UInt8)

/-- Read one shard file whose manifest declares `encodedBytes`. -/
def readShardFile (dir : Directory) (file : List Char) (encodedBytes limit : ℕ) :
    Except GfError (List UInt8) := do
  let name := String.ofList file
  refuseIf (encodedBytes > limit)
    (corruptIndex s!"CSR shard {name} declares more bytes than its encoding admits")
  let bytes ← (dir file).mapError (shardIoError file)
  refuseIf (bytes.length ≠ encodedBytes)
    (corruptIndex s!"CSR shard {name} length does not match its manifest")
  return bytes

/-- Read a shard and check it against its record before and after Arrow decodes it. -/
def readAuthenticatedShard (dir : Directory) (record : CsrShardRecord) :
    Except GfError CsrIndex := do
  let name := String.ofList record.file
  let decoded ← (decodedBytes record.nodeCount record.edgeCount).mapError corruptStructure
  let limit ← (encodedLimit record.nodeCount record.edgeCount).mapError corruptStructure
  refuseIf (record.decodedBytes ≠ decoded)
    (corruptIndex "CSR decoded-byte admission mismatch")
  let bytes ← readShardFile dir record.file record.encodedBytes limit
  refuseIf (codec.checksum bytes ≠ record.xxh64)
    (corruptIndex s!"CSR shard checksum mismatch: {name}")
  (codec.preflight bytes record.nodeCount record.edgeCount).mapError corruptStructure
  let csr ← (codec.decode bytes).mapError corruptIndex
  csr.validate.mapError corruptStructure
  refuseIf (csr.nodeCount ≠ record.nodeCount ∨ csr.edgeCount ≠ record.edgeCount)
    (corruptIndex "CSR shard count mismatch")
  return csr

/-! ## Publishing a shard set -/

/-- The file name of a CSR path; it has no separator. -/
def FileStem := { name : List Char // '/' ∉ name }

/-- The bytes that identify a shard set. -/
def shardSetIdentity (nodeCount edgeCount : ℕ) (records : List CsrShardRecord) : List UInt8 :=
  ("graphforge/csr-shards/v2".toList.map fun c => UInt8.ofNat c.toNat) ++ [0] ++
    Bytes.leBytes 8 nodeCount ++ Bytes.leBytes 8 edgeCount ++
    records.flatMap fun r => Bytes.leBytes 8 r.firstNode ++ Bytes.leBytes 8 r.nodeCount ++
      Bytes.leBytes 8 r.edgeCount ++ r.sha256.map fun c => UInt8.ofNat c.toNat

/-- The directory a shard set is published under, named by its identity. -/
def stableDir (stem : FileStem) (set : ShardSet (CsrShardRecord × List UInt8)) : List Char :=
  let identity := shardSetIdentity set.nodeCount set.edgeCount (set.records.map Prod.fst)
  stem.val ++ ".shards-".toList ++ (hexText (codec.sha256 identity).val).take 24 ++ ".d".toList

/-- The manifest published for a shard set. -/
def publishedManifest (stem : FileStem) (set : ShardSet (CsrShardRecord × List UInt8)) :
    CsrShardManifest where
  format := "graphforge.csr-shards"
  version := shardedCsrVersion
  nodeCount := set.nodeCount
  edgeCount := set.edgeCount
  shardDir := stableDir codec stem set
  shards := set.records.map Prod.fst

/-- The files published for a shard set. -/
def publishedFiles (set : ShardSet (CsrShardRecord × List UInt8)) : Directory := fun file =>
  match set.records.find? fun r => r.1.file = file with
  | none => .error .notFound
  | some r => .ok r.2

end GraphForge.Adjacency
