import GraphForge.Checkpoints.Registry
import GraphForge.Lib.CrashFs

/-!
# Committing and recovering the registry

The registry and its checksum are two files, replaced by two renames. A durable intent names the
staged files before the first rename, and `recoverPair` uses it to finish or to undo the commit.
Every function is a program over the checkpoint directory, so that it can be cut after any step.
-/

namespace GraphForge.Checkpoints

open Except
open CrashFs (Step Program)

/-- The registry. -/
def registryFile : String := "registry.json"

/-- The checksum of the registry. -/
def checksumFile : String := "registry.json.sha256"

/-- The intent of the transaction under way. -/
def intentFile : String := "registry.txn.json"

/-- `.registry.{uuid}.{kind}.next`. -/
def privateName (uuid : Uuid) (kind : String) : String :=
  ".registry." ++ uuid.hyphenated ++ ("." ++ kind ++ ".next")

/-- The directory of the registry: its files by name. -/
abbrev Directory := CrashFs.Directory String UInt8

/-- Programs on that directory. -/
abbrev Fs := Program String UInt8 GfError

/-! ## Reading -/

section Reading

variable (host : Host)

variable (d : Directory)

/-- A file of the directory, at most `max` bytes long. -/
def readRegularBounded (name : String) (max : ℕ) : Except GfError (List UInt8) :=
  match d name with
  | none => .error (registryCorrupt "checkpoint registry file is missing")
  | some bytes => do
    refuseIf (max < bytes.length)
      (registryCorrupt "checkpoint registry file is linked, special, or oversized")
    return bytes

/-- The text of a checksum file: the digest and a newline. -/
def checksumText (digest : String) : List UInt8 := bytesOf digest ++ [10]

/-- `read_registry`: no files are an empty registry; otherwise bytes, checksum and canonical form
must agree. -/
def readRegistry : Except GfError Registry :=
  if d registryFile = none ∧ d checksumFile = none then .ok Registry.empty
  else do
    let bytes ← readRegularBounded d registryFile maxRegistryBytes
    let checksum ← readRegularBounded d checksumFile 128
    refuseIf (checksum ≠ checksumText (hex (host.sha256 bytes)))
      (registryCorrupt "registry checksum does not match exact bytes")
    let registry ← ofOption (registryCorrupt "registry JSON is malformed")
      (host.registryFromSlice bytes)
    let canonical ← canonicalBytes host registry
    refuseIf (canonical ≠ bytes) (registryCorrupt "registry JSON is noncanonical")
    return registry

/-- `read_valid_pair`: the registry and its digest, if there are files. -/
def readValidPair : Except GfError (Option (Registry × String)) :=
  if d registryFile = none ∧ d checksumFile = none then .ok none
  else do
    let registry ← readRegistry host d
    let canonical ← canonicalBytes host registry
    return some (registry, hex (host.sha256 canonical))

/-- The intent file, which must be canonical and name the private files of its transaction. -/
def readIntent : Except GfError RegistryIntent := do
  let bytes ← readRegularBounded d intentFile (16 * 1024)
  let intent ← ofOption (registryCorrupt "registry intent is malformed")
    (host.intentFromSlice bytes)
  refuseIf
    (host.intentToVec intent ++ [10] ≠ bytes ∨
      intent.registryTemp ≠ privateName intent.transactionUuid "json" ∨
      intent.checksumTemp ≠ privateName intent.transactionUuid "sha256")
    (registryCorrupt "registry intent is noncanonical or names unsafe files")
  return intent

/-- `validate_staged_pair`: the staged files are what the intent announces. -/
def validateStagedPair (intent : RegistryIntent) : Except GfError Unit := do
  let registryBytes ← readRegularBounded d intent.registryTemp maxRegistryBytes
  let checksumBytes ← readRegularBounded d intent.checksumTemp 128
  refuseIf
    (hex (host.sha256 registryBytes) ≠ intent.nextSha256 ∨
      checksumBytes ≠ checksumText intent.nextSha256)
    (registryCorrupt "registry staged pair does not match its durable intent")
  let registry ← ofOption (registryCorrupt "staged checkpoint registry is malformed")
    (host.registryFromSlice registryBytes)
  let canonical ← canonicalBytes host registry
  refuseIf (canonical ≠ registryBytes ∨ registry.revision ≠ intent.nextRevision)
    (registryCorrupt "registry staged pair is noncanonical or has the wrong revision")

end Reading

/-! ## Steps -/

/-- `prepare_temp_path`, and the unlinking of a staged file: nothing when it is not there. -/
def unlinkIfPresent (name : String) : Fs Unit := do
  let d ← Program.read
  if (d name).isSome then Program.perform (.unlink name) else return

/-- `write_new_synced`: create the file, then write the buffer piece by piece. -/
def writeNewSynced (host : Host) (name : String) (bytes : List UInt8) : Fs Unit := do
  let d ← Program.read
  if (d name).isSome then Program.ofExcept (.error (.storage "File exists"))
  else Program.performAll (.create name :: (host.pieces bytes).map (.append name))

/-- The error of a rename or unlink of a file that is not there. -/
def noSuchFile : GfError := .storage "No such file or directory"

/-- `make_visible` with `PublishMode::Replace`. -/
def makeVisible (source target : String) : Fs Unit := do
  let d ← Program.read
  if (d source).isSome then Program.perform (.rename source target)
  else Program.ofExcept (.error noSuchFile)

/-- Unlink a file that must be there. -/
def retire (name : String) : Fs Unit := do
  let d ← Program.read
  if (d name).isSome then Program.perform (.unlink name) else Program.ofExcept (.error noSuchFile)

/-- `cleanup_intent`: the staged files first, and the intent last. -/
def cleanupIntent (intent : RegistryIntent) : Fs Unit := do
  unlinkIfPresent intent.registryTemp
  unlinkIfPresent intent.checksumTemp
  retire intentFile

/-! ## Commit -/

/-- The intent of a commit over the pair that is in place. -/
def intentFor (host : Host) (previous : Option (Registry × String)) (uuid : Uuid)
    (registry : Registry) (next : List UInt8) : RegistryIntent where
  transactionUuid := uuid
  previousRevision := previous.map fun pair => pair.1.revision
  previousSha256 := previous.map fun pair => pair.2
  nextRevision := registry.revision
  nextSha256 := hex (host.sha256 next)
  registryTemp := privateName uuid "json"
  checksumTemp := privateName uuid "sha256"

/-- Stage the registry and its checksum under the private names of the transaction. -/
def stagePair (host : Host) (uuid : Uuid) (next : List UInt8) : Fs Unit := do
  unlinkIfPresent (privateName uuid "json")
  unlinkIfPresent (privateName uuid "sha256")
  writeNewSynced host (privateName uuid "json") next
  writeNewSynced host (privateName uuid "sha256") (checksumText (hex (host.sha256 next)))

/-- The part of `write_intent` before the intent becomes visible. -/
def stageIntent (host : Host) (intent : RegistryIntent) : Fs Unit := do
  unlinkIfPresent (privateName intent.transactionUuid "txn")
  writeNewSynced host (privateName intent.transactionUuid "txn") (host.intentToVec intent ++ [10])

/-- The renames of a commit, and the removal of its intent. -/
def publishPair (uuid : Uuid) : Fs Unit := do
  makeVisible (privateName uuid "txn") intentFile
  makeVisible (privateName uuid "json") registryFile
  makeVisible (privateName uuid "sha256") checksumFile
  retire intentFile

/-- `commit_registry`: stage the pair, stage the intent, publish. -/
def commitRegistry (host : Host) (registry : Registry) (uuid : Uuid) : Fs Unit := do
  let next ← Program.ofExcept (canonicalBytes host registry)
  let d ← Program.read
  let previous ← Program.ofExcept (readValidPair host d)
  stagePair host uuid next
  stageIntent host (intentFor host previous uuid registry next)
  publishPair uuid

/-! ## Recovery -/

/-- Undo the commit: the staged pair is validated, then removed with the intent. -/
def rollBack (host : Host) (intent : RegistryIntent) : Fs Unit := do
  let d ← Program.read
  Program.ofExcept (validateStagedPair host d intent)
  cleanupIntent intent

/-- The error of a recovery that finds neither the previous nor the next registry. -/
def notRecoverable : GfError :=
  registryCorrupt "registry transaction is not a validated previous or staged next state"

/-- Finish the commit: the registry has been replaced, and the staged checksum belongs to it. -/
def rollForward (host : Host) (intent : RegistryIntent) : Fs Unit := do
  let d ← Program.read
  let registryBytes ← Program.ofExcept (readRegularBounded d registryFile maxRegistryBytes)
  Program.ofExcept (refuseIf (hex (host.sha256 registryBytes) ≠ intent.nextSha256) notRecoverable)
  let checksumBytes ← Program.ofExcept (readRegularBounded d intent.checksumTemp 128)
  Program.ofExcept (refuseIf (checksumBytes ≠ checksumText intent.nextSha256) notRecoverable)
  makeVisible intent.checksumTemp checksumFile
  cleanupIntent intent
  let recovered ← Program.read
  let _ ← Program.ofExcept (readRegistry host recovered)

/-- The rest of `recover_pair` when the pair in place is neither the previous nor the next one. -/
def recoverUnpaired (host : Host) (intent : RegistryIntent) : Fs Unit := do
  let d ← Program.read
  if intent.previousRevision = none ∧ d registryFile = none ∧ d checksumFile = none then
    rollBack host intent
  else rollForward host intent

/-- `recover_pair` once the intent has been read. -/
def recoverIntent (host : Host) (intent : RegistryIntent) : Fs Unit := do
  let d ← Program.read
  match readValidPair host d with
  | .ok (some (current, digest)) =>
    if current.revision = intent.nextRevision ∧ digest = intent.nextSha256 then
      cleanupIntent intent
    else if some current.revision = intent.previousRevision ∧
        some digest = intent.previousSha256 then
      rollBack host intent
    else recoverUnpaired host intent
  | _ => recoverUnpaired host intent

/-- `recover_pair`. -/
def recoverPair (host : Host) : Fs Unit := do
  let d ← Program.read
  if d intentFile = none then
    let _ ← Program.ofExcept (readRegistry host d)
  else
    let intent ← Program.ofExcept (readIntent host d)
    recoverIntent host intent

end GraphForge.Checkpoints
