import GraphForge.Knowledge.Records

/-!
# The status ledger

Status events of assertions, in order of record. `superseded` is terminal: no other status of the
assertion follows it. A ledger is checked as a whole when it is built or read back; a merge checks
the staged events against the base one by one.
-/

namespace GraphForge.Knowledge

open Except

/-- The states of an assertion. -/
inductive AssertionStatus where
  | hypothesis | supported | refuted | disputed | retracted | superseded
  deriving DecidableEq, Repr

namespace AssertionStatus

/-- `AssertionStatus::as_str`. -/
def asStr : AssertionStatus → String
  | hypothesis => "hypothesis"
  | supported => "supported"
  | refuted => "refuted"
  | disputed => "disputed"
  | retracted => "retracted"
  | superseded => "superseded"

/-- `AssertionStatus::parse`. -/
def parse (value : String) : Except KnowledgeError AssertionStatus :=
  match value with
  | "hypothesis" => .ok hypothesis
  | "supported" => .ok supported
  | "refuted" => .ok refuted
  | "disputed" => .ok disputed
  | "retracted" => .ok retracted
  | "superseded" => .ok superseded
  | _ => .error (.invalid "assertion_status.status" "unknown registry value")

/-- Only `superseded` is terminal. -/
def isTerminal : AssertionStatus → Bool
  | superseded => true
  | _ => false

/-- A status is read back from its text. -/
lemma parse_asStr (status : AssertionStatus) : parse status.asStr = .ok status := by
  cases status <;> rfl

end AssertionStatus

/-- An assertion enters a state. -/
structure AssertionStatusEvent where
  statusEventUuid : Uuid
  assertionUuid : Uuid
  status : AssertionStatus
  confidenceUuid : Option Uuid
  reasoningUuid : Option Uuid
  provenanceUuid : Uuid
  recordedAtMicros : ℤ
  contractVersion : ℕ
  deriving DecidableEq, Repr

/-- The place of an event in the order of record. -/
def AssertionStatusEvent.key (e : AssertionStatusEvent) : RecordKey :=
  recordKey e.recordedAtMicros e.statusEventUuid

/-- The ledger: all events, in the order of record. -/
structure AssertionStatusLedger where
  events : List AssertionStatusEvent
  deriving DecidableEq, Repr

/-- The version of the records. -/
def assertionStatusContractVersion : ℕ := 1

/-- `validate_event`. -/
def validateEvent (row : AssertionStatusEvent) : Except KnowledgeError Unit := do
  refuseIf (row.contractVersion ≠ assertionStatusContractVersion)
    (.invalid "assertion_status.contract_version" "unsupported version")
  requireV7 row.statusEventUuid "status_event_uuid"
  requireV7 row.assertionUuid "assertion_uuid"
  requireV7Opt row.confidenceUuid "confidence_uuid"
  requireV7Opt row.reasoningUuid "reasoning_uuid"
  requireUuid row.provenanceUuid "provenance_uuid"

/-- The error of an event after the terminal one. -/
def supersededIsTerminal : KnowledgeError :=
  .invalid "assertion_status.status" "superseded is terminal"

/-- `validate_terminal_sequence`, with the assertions superseded so far. -/
def validateTerminalSequence : List Uuid → List AssertionStatusEvent → Except KnowledgeError Unit
  | _, [] => .ok ()
  | terminal, event :: events => do
    refuseIf (event.assertionUuid ∈ terminal ∧ event.status.isTerminal = false)
      supersededIsTerminal
    validateTerminalSequence
      (if event.status.isTerminal then event.assertionUuid :: terminal else terminal) events

variable (events : List AssertionStatusEvent)

/-- Every event on its own, and that no identifier is repeated. -/
def validateEvents : Except KnowledgeError Unit :=
  validateIds validateEvent (·.statusEventUuid) "status_event_uuid" [] events

/-- The error of a ledger over the limit. -/
def tooManyEvents (observed limit : ℕ) : KnowledgeError :=
  .limit "assertion_status_events" observed limit

/-- The order of record. -/
def sortEvents : List AssertionStatusEvent :=
  events.insertionSort (·.key ≤ ·.key)

namespace AssertionStatusLedger

/-- `new_with_limit`. -/
def newWithLimit (maxRows : ℕ) : Except KnowledgeError AssertionStatusLedger := do
  refuseIf (events.length > maxRows) (tooManyEvents events.length maxRows)
  validateEvents events
  validateTerminalSequence [] (sortEvents events)
  return ⟨sortEvents events⟩

/-- What a new staged event has to pass, given the assertions that the base supersedes. -/
def admitEvent (terminal : List Uuid) (_ : List AssertionStatusEvent)
    (event : AssertionStatusEvent) : Except KnowledgeError Unit := do
  refuseIf (event.assertionUuid ∈ terminal ∧ event.status.isTerminal = false)
    supersededIsTerminal
  validateEvent event

/-- The assertions that a ledger supersedes. -/
def terminalAssertions (ledger : AssertionStatusLedger) : List Uuid :=
  (ledger.events.filter (·.status.isTerminal)).map (·.assertionUuid)

/-- `merge_with_limit`. -/
def mergeWithLimit (base staged : AssertionStatusLedger) (maxRows : ℕ) :
    Except KnowledgeError AssertionStatusLedger := do
  let merged ← staged.events.foldlM
    (mergeRow (·.statusEventUuid) "status_event_uuid" (admitEvent base.terminalAssertions))
    (base.events, base.events.reverse)
  refuseIf (merged.1.length > maxRows) (tooManyEvents merged.1.length maxRows)
  return ⟨sortEvents merged.1⟩

end AssertionStatusLedger

/-! ## Batches -/

/-- A row of the stored table: identifiers are bytes and the status is text. -/
structure StatusRow where
  statusEventUuid : List UInt8
  assertionUuid : List UInt8
  status : String
  confidenceUuid : Option (List UInt8)
  reasoningUuid : Option (List UInt8)
  provenanceUuid : List UInt8
  recordedAt : ℤ
  contractVersion : ℕ
  deriving DecidableEq, Repr

/-- A record batch, and whether its schema is the schema of the ledger. -/
structure StatusBatch where
  schemaMatches : Bool
  rows : List StatusRow
  deriving DecidableEq, Repr

/-- An event as a row of the stored table. -/
def encodeRow (event : AssertionStatusEvent) : StatusRow where
  statusEventUuid := event.statusEventUuid.toBytes
  assertionUuid := event.assertionUuid.toBytes
  status := event.status.asStr
  confidenceUuid := event.confidenceUuid.map Uuid.toBytes
  reasoningUuid := event.reasoningUuid.map Uuid.toBytes
  provenanceUuid := event.provenanceUuid.toBytes
  recordedAt := event.recordedAtMicros
  contractVersion := event.contractVersion

/-- The event of a stored row. -/
def decodeRow (row : StatusRow) : Except KnowledgeError AssertionStatusEvent := do
  let statusEventUuid ← uuidAt row.statusEventUuid "status_event_uuid"
  let assertionUuid ← uuidAt row.assertionUuid "assertion_uuid"
  let status ← AssertionStatus.parse row.status
  let confidenceUuid ← optionalUuidAt row.confidenceUuid "confidence_uuid"
  let reasoningUuid ← optionalUuidAt row.reasoningUuid "reasoning_uuid"
  let provenanceUuid ← uuidAt row.provenanceUuid "provenance_uuid"
  return ⟨statusEventUuid, assertionUuid, status, confidenceUuid, reasoningUuid, provenanceUuid,
    row.recordedAt, row.contractVersion⟩

/-- One batch of `from_batches`. -/
def decodeBatch (batch : StatusBatch) : Except KnowledgeError (List AssertionStatusEvent) := do
  refuseIf (batch.schemaMatches = false)
    (.invalid "assertion_status.schema" "schema mismatch")
  let decoded ← batch.rows.mapM decodeRow
  return events ++ decoded

namespace AssertionStatusLedger

/-- `batch`: the ledger as it is written. -/
def batch (ledger : AssertionStatusLedger) : StatusBatch := ⟨true, ledger.events.map encodeRow⟩

/-- `from_batches`. -/
def fromBatches (batches : List StatusBatch) : Except KnowledgeError AssertionStatusLedger := do
  let events ← batches.foldlM decodeBatch []
  newWithLimit events maxKnowledgeRows

end AssertionStatusLedger

/-- An event is read back from its row. -/
lemma decodeRow_encodeRow (event : AssertionStatusEvent) : decodeRow (encodeRow event) = .ok event := by
  unfold decodeRow encodeRow
  simp only [uuidAt_toBytes, optionalUuidAt_toBytes, AssertionStatus.parse_asStr]
  rfl

/-- Reading back what was written is building the ledger from its events. -/
lemma fromBatches_batch (ledger : AssertionStatusLedger) :
    AssertionStatusLedger.fromBatches [ledger.batch] =
      AssertionStatusLedger.newWithLimit ledger.events maxKnowledgeRows := by
  have hbatch : decodeBatch [] ledger.batch = .ok ledger.events := by
    show ((ledger.events.map encodeRow).mapM decodeRow >>= fun decoded => pure ([] ++ decoded)) = _
    rw [mapM_map_eq_ok decodeRow_encodeRow]
    rfl
  rw [AssertionStatusLedger.fromBatches, List.foldlM_cons, hbatch, ok_bind,
    List.foldlM_nil, pure_bind]

end GraphForge.Knowledge
