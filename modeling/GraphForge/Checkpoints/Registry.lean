import Mathlib.Data.List.Infix
import GraphForge.Lib.Outcome
import GraphForge.Prelude
import GraphForge.Uuid

/-!
# The checkpoint registry

The registry lists the active checkpoints of a project and the tombstones of deleted ones. It is
written as canonical JSON: `canonicalBytes` validates the registry first, so a registry that has
bytes is a valid one.
-/

namespace GraphForge.Checkpoints

open Except (refuseIf)

/-- The largest registry file. -/
def maxRegistryBytes : ℕ := 8 * 1024 * 1024

/-- The most active checkpoints. -/
def maxActive : ℕ := 1024

/-- The most deleted checkpoints on record. -/
def maxTombstones : ℕ := 4096

/-- The longest name. -/
def maxNameBytes : ℕ := 128

/-- The longest description. -/
def maxDescriptionBytes : ℕ := 1024

/-! ## Records -/

/-- A checkpoint: the generation it names, and the request that created it. -/
structure CheckpointRecord where
  checkpointUuid : Uuid
  name : String
  generationUuid : Uuid
  generationManifestSha256 : String
  description : Option String
  createdAt : ℤ
  createdBy : Option Uuid
  createOperationUuid : Uuid
  createRequestSha256 : String
  createdRevision : ℕ
  deriving DecidableEq

/-- A deleted checkpoint, and the request that deleted it. -/
structure CheckpointTombstone extends CheckpointRecord where
  deletedAt : ℤ
  deletedBy : Option Uuid
  deleteOperationUuid : Uuid
  deleteRequestSha256 : String
  deletedRevision : ℕ
  deriving DecidableEq

/-- The registry: active checkpoints and tombstones at a revision. -/
structure Registry where
  format : String
  formatVersion : ℕ
  revision : ℕ
  active : List CheckpointRecord
  tombstones : List CheckpointTombstone
  deriving DecidableEq

/-- The registry of a project without one. -/
def Registry.empty : Registry where
  format := "graphforge-checkpoints"
  formatVersion := 1
  revision := 0
  active := []
  tombstones := []

/-- What a commit is about to publish, and over what. -/
structure RegistryIntent where
  transactionUuid : Uuid
  previousRevision : Option ℕ
  previousSha256 : Option String
  nextRevision : ℕ
  nextSha256 : String
  registryTemp : String
  checksumTemp : String
  deriving DecidableEq

/-- What the registry code takes from other libraries: SHA-256, JSON, Unicode tables, and the pieces
in which the operating system writes a buffer. -/
structure Host where
  sha256 : List UInt8 → Digest
  nfc : String → String
  isAlphanumeric : Char → Bool
  registryToVec : Registry → List UInt8
  registryFromSlice : List UInt8 → Option Registry
  intentToVec : RegistryIntent → List UInt8
  intentFromSlice : List UInt8 → Option RegistryIntent
  pieces : List UInt8 → List (List UInt8)

/-- The errors of a registry that does not validate. -/
def registryCorrupt (message : String) : GfError := .project .checkpointRegistryCorrupt message

/-- `hex`: the digest as lowercase hexadecimal text. -/
def hex (digest : Digest) : String := String.ofList (hexText digest.1)

/-! ## Identities derived from requests -/

section Validate

variable (host : Host)

/-- `append_bytes`: length as four big-endian bytes, then the bytes. -/
def appendBytes (bytes : List UInt8) : List UInt8 := Bytes.beBytes 4 bytes.length ++ bytes

/-- The bytes of an optional actor. -/
def appendActor (actor : Option Uuid) : List UInt8 :=
  match actor with
  | some value => 1 :: value.toBytes
  | none => [0]

/-- `create_request_digest_values`: the digest of a request to create. -/
def createRequestDigestValues (operation : Uuid) (name : String) (description : Option String)
    (actor : Option Uuid) : Digest :=
  host.sha256
    (bytesOf "graphforge-checkpoint-create-request/1" ++ operation.toBytes
      ++ appendBytes (bytesOf name)
      ++ (match description with
        | some value => 1 :: appendBytes (bytesOf value)
        | none => [0])
      ++ appendActor actor)

/-- `delete_request_digest_values`: the digest of a request to delete. -/
def deleteRequestDigestValues (operation : Uuid) (name : String) (actor : Option Uuid) : Digest :=
  host.sha256
    (bytesOf "graphforge-checkpoint-delete-request/1" ++ operation.toBytes
      ++ appendBytes (bytesOf name) ++ appendActor actor)

/-- `uuid_v8`: the first sixteen bytes with the version and variant bits set. -/
def uuidV8 (fingerprint : Digest) : List UInt8 :=
  (((fingerprint.1.take 16).modify 6 fun byte => (byte &&& 0x0f) ||| 0x80).modify 8
    fun byte => (byte &&& 0x3f) ||| 0x80)

/-- `checkpoint_uuid`: the identifier follows from operation and request. -/
def checkpointUuid (operation : Uuid) (requestDigest : Digest) : List UInt8 :=
  uuidV8 (host.sha256
    (bytesOf "graphforge-checkpoint-uuid/1" ++ operation.toBytes ++ requestDigest.1))

/-! ## Validation -/

/-- `validate_name`. -/
def validateName (value : String) : Except GfError String := do
  let normalized := host.nfc value
  let text := value.toList
  refuseIf
    (normalized ≠ value ∨ text = [] ∨ maxNameBytes < (bytesOf value).length ∨
      text.head?.any isWhitespace ∨ text.getLast?.any isWhitespace ∨
      value = "." ∨ value = ".." ∨ [' ', ' '] <:+: text ∨
      ¬ text.all fun c => host.isAlphanumeric c || [' ', '_', '-', '.'].contains c)
    (.validation "checkpoint name is not canonical NFC content or violates the 1-128 byte grammar")
  return normalized

/-- `validate_description`. -/
def validateDescription (value : Option String) : Except GfError Unit :=
  refuseIf
    (value.any fun value =>
      maxDescriptionBytes < (bytesOf value).length || value.toList.any isControl)
    (.validation "checkpoint description exceeds 1024 UTF-8 bytes or contains controls")

/-- `validate_digest`: 64 lower-case hexadecimal digits. -/
def validateDigest (value : String) : Except GfError Unit :=
  refuseIf
    ((bytesOf value).length ≠ 64 ∨
      ¬ (bytesOf value).all fun byte => (48 ≤ byte && byte ≤ 57) || (97 ≤ byte && byte ≤ 102))
    (registryCorrupt "checkpoint digest is noncanonical")

/-- The identifier and the request digest are those that the other fields give. -/
def validateRecordIdentity (row : CheckpointRecord) : Except GfError Unit :=
  let request :=
    createRequestDigestValues host row.createOperationUuid row.name row.description row.createdBy
  refuseIf
    (row.createRequestSha256 ≠ hex request ∨
      row.checkpointUuid.toBytes ≠ checkpointUuid host row.createOperationUuid request)
    (registryCorrupt "checkpoint deterministic identity or create request digest is inconsistent")

/-- The content of a record; the errors name what it is. -/
def validateCheckpointContent (label : String) (row : CheckpointRecord) : Except GfError Unit := do
  let _ ← (validateName host row.name).mapError fun _ =>
    registryCorrupt (label ++ " name is invalid")
  (validateDescription row.description).mapError fun _ =>
    registryCorrupt (label ++ " description is invalid")
  validateDigest row.generationManifestSha256
  validateDigest row.createRequestSha256
  validateRecordIdentity host row

/-- The identities met so far. -/
structure SeenIdentities where
  names : List String
  checkpoints : List Uuid
  creates : List Uuid
  deletes : List Uuid

/-- One active checkpoint: content, revision, and identities that are new. -/
def validateActive (revision : ℕ) (seen : SeenIdentities) (row : CheckpointRecord) :
    Except GfError SeenIdentities := do
  validateCheckpointContent host "active checkpoint" row
  refuseIf
    (row.createdRevision = 0 ∨ revision < row.createdRevision ∨ row.name ∈ seen.names ∨
      row.checkpointUuid ∈ seen.checkpoints ∨ row.createOperationUuid ∈ seen.creates)
    (registryCorrupt "active checkpoint identities or revision are inconsistent")
  return { seen with
    names := row.name :: seen.names
    checkpoints := row.checkpointUuid :: seen.checkpoints
    creates := row.createOperationUuid :: seen.creates }

/-- One tombstone: content, revisions, and identities that are new. -/
def validateTombstone (revision : ℕ) (seen : SeenIdentities) (row : CheckpointTombstone) :
    Except GfError SeenIdentities := do
  let _ ← (validateName host row.name).mapError fun _ =>
    registryCorrupt "checkpoint tombstone name is invalid"
  (validateDescription row.description).mapError fun _ =>
    registryCorrupt "checkpoint tombstone description is invalid"
  validateDigest row.generationManifestSha256
  validateDigest row.createRequestSha256
  validateDigest row.deleteRequestSha256
  validateRecordIdentity host row.toCheckpointRecord
  let expectedDelete := deleteRequestDigestValues host row.deleteOperationUuid row.name row.deletedBy
  let creates := row.createOperationUuid :: seen.creates
  refuseIf
    (row.createdRevision = 0 ∨ row.deletedRevision ≤ row.createdRevision ∨
      revision < row.deletedRevision ∨ row.checkpointUuid ∈ seen.checkpoints ∨
      row.createOperationUuid ∈ seen.creates ∨ row.createOperationUuid ∈ seen.deletes ∨
      row.deleteOperationUuid ∈ seen.deletes ∨ row.deleteOperationUuid ∈ creates ∨
      row.deleteRequestSha256 ≠ hex expectedDelete)
    (registryCorrupt "checkpoint tombstone identities or revisions are inconsistent")
  return { seen with
    checkpoints := row.checkpointUuid :: seen.checkpoints
    creates := creates
    deletes := row.deleteOperationUuid :: seen.deletes }

/-- The windows of two of a list are strictly ascending under a comparison. -/
def windowsAscend {α : Type} (below : α → α → Bool) (rows : List α) : Bool :=
  (rows.zip rows.tail).all fun (former, latter) => below former latter

/-- `validate_registry`. -/
def validateRegistry (registry : Registry) : Except GfError Unit := do
  refuseIf
    (registry.format ≠ "graphforge-checkpoints" ∨ registry.formatVersion ≠ 1 ∨
      maxActive < registry.active.length ∨ maxTombstones < registry.tombstones.length)
    (registryCorrupt "checkpoint registry header or bounds are invalid")
  refuseIf
    (¬ windowsAscend
      (fun a b => decide (a.name < b.name ∨ (a.name = b.name ∧ a.checkpointUuid < b.checkpointUuid)))
      registry.active)
    (registryCorrupt "active checkpoints are not strictly sorted")
  refuseIf
    (¬ windowsAscend (fun a b => decide (a.deletedRevision < b.deletedRevision ∨
        (a.deletedRevision = b.deletedRevision ∧ a.checkpointUuid < b.checkpointUuid)))
      registry.tombstones)
    (registryCorrupt "checkpoint tombstones are not strictly sorted")
  let seen ← registry.active.foldlM (validateActive host registry.revision)
    { names := [], checkpoints := [], creates := [], deletes := [] }
  let _ ← registry.tombstones.foldlM (validateTombstone host registry.revision) seen

/-- The bytes of a valid registry: JSON and a newline. -/
def canonicalBytes (registry : Registry) : Except GfError (List UInt8) := do
  validateRegistry host registry
  let bytes := host.registryToVec registry ++ [10]
  refuseIf (maxRegistryBytes < bytes.length)
    (.project .resourceLimit "checkpoint registry exceeds 8 MiB")
  return bytes

end Validate

end GraphForge.Checkpoints
