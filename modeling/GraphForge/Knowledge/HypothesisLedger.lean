import Mathlib.Data.List.Dedup
import GraphForge.Knowledge.Records

/-!
# The hypothesis ledger

Hypothesis groups, membership events and selection events. The validator replays the events
operation by operation: operations are ordered by time and by the least event identifier in them,
and within an operation membership comes before selection. The readers go through each family of
events by time and event identifier.
-/

namespace GraphForge.Knowledge

open Except

/-! ## Records -/

/-- What a membership event does. -/
inductive HypothesisMembershipAction where
  | added | removed
  deriving DecidableEq, Repr

/-- A group of hypotheses about one question. -/
structure HypothesisGroup where
  groupUuid : Uuid
  questionKey : String
  provenanceUuid : Uuid
  recordedAtMicros : ℤ
  contractVersion : ℕ
  deriving DecidableEq, Repr

/-- An assertion joins or leaves a group. -/
structure HypothesisMembershipEvent where
  membershipEventUuid : Uuid
  operationUuid : Uuid
  groupUuid : Uuid
  assertionUuid : Uuid
  action : HypothesisMembershipAction
  reasoningUuid : Uuid
  provenanceUuid : Uuid
  recordedAtMicros : ℤ
  contractVersion : ℕ
  deriving DecidableEq, Repr

/-- A group selects an assertion, or none. -/
structure HypothesisSelectionEvent where
  selectionEventUuid : Uuid
  operationUuid : Uuid
  groupUuid : Uuid
  selectedAssertionUuid : Option Uuid
  reasoningUuid : Uuid
  provenanceUuid : Uuid
  recordedAtMicros : ℤ
  contractVersion : ℕ
  deriving DecidableEq, Repr

/-- The three families of records. -/
structure HypothesisLedger where
  groups : List HypothesisGroup
  membershipEvents : List HypothesisMembershipEvent
  selectionEvents : List HypothesisSelectionEvent
  deriving DecidableEq, Repr

/-- The place of a group in the order of record. -/
def HypothesisGroup.key (row : HypothesisGroup) : RecordKey :=
  recordKey row.recordedAtMicros row.groupUuid

/-- The place of a membership event in the order of record. -/
def HypothesisMembershipEvent.key (row : HypothesisMembershipEvent) : RecordKey :=
  recordKey row.recordedAtMicros row.membershipEventUuid

/-- The place of a selection event in the order of record. -/
def HypothesisSelectionEvent.key (row : HypothesisSelectionEvent) : RecordKey :=
  recordKey row.recordedAtMicros row.selectionEventUuid

/-! ## Checks of single rows -/

/-- The tables of the Unicode crates: which characters are white space, and which texts are in
normal form. -/
structure UnicodeTables where
  isWhitespace : Char → Bool
  isNfc : List Char → Bool

/-- The longest question key. -/
def maxHypothesisQuestionKeyBytes : ℕ := 1024

/-- `validate_question_key`. Trimming changes a text when its first or last character is white
space. -/
def validateQuestionKey (tables : UnicodeTables) (value : String) : Except KnowledgeError Unit :=
  refuseIf (value.toList = [] ∨ value.utf8ByteSize > maxHypothesisQuestionKeyBytes ∨
      value.toList.head?.any tables.isWhitespace = true ∨
      value.toList.getLast?.any tables.isWhitespace = true ∨ tables.isNfc value.toList = false)
    (.invalid "hypothesis_group.question_key"
      "must be non-empty bounded NFC without surrounding whitespace")

/-- `validate_group`. -/
def validateGroup (tables : UnicodeTables) (row : HypothesisGroup) : Except KnowledgeError Unit := do
  requireV7 row.groupUuid "group_uuid"
  requireUuid row.provenanceUuid "provenance_uuid"
  validateQuestionKey tables row.questionKey
  refuseIf (row.contractVersion ≠ 1)
    (.invalid "hypothesis_group.contract_version" "unsupported version")

/-- `validate_membership_event`. -/
def validateMembershipEvent (row : HypothesisMembershipEvent) : Except KnowledgeError Unit := do
  requireV7 row.membershipEventUuid "membership_event_uuid"
  requireV7 row.operationUuid "operation_uuid"
  requireV7 row.groupUuid "group_uuid"
  requireV7 row.assertionUuid "assertion_uuid"
  requireV7 row.reasoningUuid "reasoning_uuid"
  requireUuid row.provenanceUuid "provenance_uuid"
  refuseIf (row.contractVersion ≠ 1)
    (.invalid "hypothesis_membership.contract_version" "unsupported version")

/-- `validate_selection_event`. -/
def validateSelectionEvent (row : HypothesisSelectionEvent) : Except KnowledgeError Unit := do
  requireV7 row.selectionEventUuid "selection_event_uuid"
  requireV7 row.operationUuid "operation_uuid"
  requireV7 row.groupUuid "group_uuid"
  requireV7 row.reasoningUuid "reasoning_uuid"
  requireV7Opt row.selectedAssertionUuid "selected_assertion_uuid"
  requireUuid row.provenanceUuid "provenance_uuid"
  refuseIf (row.contractVersion ≠ 1)
    (.invalid "hypothesis_selection.contract_version" "unsupported version")

/-- `validate_groups`, with the identifiers and the question keys seen so far. -/
def validateGroups (tables : UnicodeTables) :
    List Uuid → List String → List HypothesisGroup → Except KnowledgeError Unit
  | _, _, [] => .ok ()
  | ids, keys, row :: rows => do
    validateGroup tables row
    refuseIf (row.groupUuid ∈ ids) (.duplicate "group_uuid")
    refuseIf (row.questionKey ∈ keys) (.duplicate "question_key")
    validateGroups tables (row.groupUuid :: ids) (row.questionKey :: keys) rows

variable (groups : List HypothesisGroup) (membership : List HypothesisMembershipEvent)
  (selection : List HypothesisSelectionEvent)

/-- `validate_event_ids`. -/
def validateEventIds : Except KnowledgeError Unit := do
  validateIds validateMembershipEvent (·.membershipEventUuid) "membership_event_uuid" [] membership
  validateIds validateSelectionEvent (·.selectionEventUuid) "selection_event_uuid" [] selection

/-! ## Operations -/

/-- The order of operations: time, least event, operation. -/
abbrev OperationKey := ℤ ×ₗ Uuid ×ₗ Uuid

/-- The place of an operation. -/
def operationKey (time : ℤ) (firstEvent operation : Uuid) : OperationKey :=
  toLex (time, toLex (firstEvent, operation))

/-- Time, operation and event identifier of every event. -/
def operationEntries : List (ℤ × Uuid × Uuid) :=
  membership.map (fun row => (row.recordedAtMicros, row.operationUuid, row.membershipEventUuid)) ++
    selection.map fun row => (row.recordedAtMicros, row.operationUuid, row.selectionEventUuid)

/-- The least event identifier of an operation. -/
def firstEvent (entries : List (ℤ × Uuid × Uuid)) (time : ℤ) (operation : Uuid) : Uuid :=
  (((entries.filter fun e => e.1 = time ∧ e.2.1 = operation).map (·.2.2)).min?).getD 0

/-- `operation_keys`: an operation is the events of one time and one operation identifier. -/
def operationKeys : List (ℤ × Uuid × Uuid) :=
  let entries := operationEntries membership selection
  (((entries.map fun e => (e.1, e.2.1)).dedup).map fun op =>
      (op.1, firstEvent entries op.1 op.2, op.2)).insertionSort
    fun a b => operationKey a.1 a.2.1 a.2.2 ≤ operationKey b.1 b.2.1 b.2.2

/-! ## Replay -/

/-- Who is a member of which group, and what each group has selected. -/
structure ReplayState where
  members : Uuid → Uuid → Bool
  selected : Uuid → Option Uuid

/-- Nothing is a member, and nothing is selected. -/
def ReplayState.initial : ReplayState := ⟨fun _ _ => false, fun _ => none⟩

variable (state : ReplayState)

/-- One assertion of one group is a member or not. -/
def ReplayState.setMember (group assertion : Uuid) (is : Bool) : ReplayState :=
  { state with
    members := fun g a => if g = group ∧ a = assertion then is else state.members g a }

/-- One group selects. -/
def ReplayState.select (group : Uuid) (assertion : Option Uuid) : ReplayState :=
  { state with selected := fun g => if g = group then assertion else state.selected g }

/-- The time of a group; the last row of an identifier counts. -/
def groupTime (group : Uuid) : Option ℤ :=
  (groups.reverse.find? (·.groupUuid = group)).map (·.recordedAtMicros)

/-- `apply_membership`: only what is no member is added, and only a member removed. -/
def applyMembership (event : HypothesisMembershipEvent) : Except KnowledgeError ReplayState := do
  let time ← ofOption (.dangling "group_uuid") (groupTime groups event.groupUuid)
  refuseIf (event.recordedAtMicros < time)
    (.invalid "hypothesis_membership.recorded_at" "cannot predate its hypothesis group")
  match event.action with
  | .added =>
    refuseIf (state.members event.groupUuid event.assertionUuid = true)
      (.invalid "hypothesis_membership.action" "cannot add a current member")
    return state.setMember event.groupUuid event.assertionUuid true
  | .removed =>
    refuseIf (state.members event.groupUuid event.assertionUuid = false)
      (.invalid "hypothesis_membership.action" "cannot remove a non-member")
    return state.setMember event.groupUuid event.assertionUuid false

/-- `apply_selection`: only a member is selected. -/
def applySelection (event : HypothesisSelectionEvent) : Except KnowledgeError ReplayState := do
  let time ← ofOption (.dangling "group_uuid") (groupTime groups event.groupUuid)
  refuseIf (event.recordedAtMicros < time)
    (.invalid "hypothesis_selection.recorded_at" "cannot predate its hypothesis group")
  refuseIf (event.selectedAssertionUuid.any
      (fun assertion => !state.members event.groupUuid assertion) = true)
    (.invalid "hypothesis_selection.selected_assertion_uuid"
      "selected assertion must be a current member")
  return state.select event.groupUuid event.selectedAssertionUuid

/-- The removal of the assertion that was selected before the operation needs a selection event of
the operation that selects otherwise. -/
def checkRemoval (before : ReplayState) (selection : List HypothesisSelectionEvent)
    (removal : HypothesisMembershipEvent) : Except KnowledgeError Unit :=
  refuseIf (before.selected removal.groupUuid = some removal.assertionUuid ∧
      selection.any (fun event => decide (event.groupUuid = removal.groupUuid ∧
        event.operationUuid = removal.operationUuid ∧
        event.selectedAssertionUuid ≠ some removal.assertionUuid)) = false)
    (.invalid "hypothesis_membership.action"
      "selected-member removal requires a paired explicit selection event")

/-- One operation of `validate_state`. -/
def replayOperation (op : ℤ × Uuid × Uuid) : Except KnowledgeError ReplayState := do
  let membershipAtTime := membership.filter fun row =>
    row.recordedAtMicros = op.1 ∧ row.operationUuid = op.2.2
  let selectionAtTime := selection.filter fun row =>
    row.recordedAtMicros = op.1 ∧ row.operationUuid = op.2.2
  let moved ← membershipAtTime.foldlM (applyMembership groups) state
  let next ← selectionAtTime.foldlM (applySelection groups) moved
  (membershipAtTime.filter (·.action = .removed)).forM (checkRemoval state selectionAtTime)
  return next

/-- The replay that `validate_state` performs, with the state it ends in. -/
def replay : Except KnowledgeError ReplayState :=
  (operationKeys membership selection).foldlM (replayOperation groups membership selection) .initial

/-- `validate_state`. -/
def validateState : Except KnowledgeError Unit := do
  let _ ← replay groups membership selection
  return ()

/-! ## Construction -/

/-- `validate_row_count`. -/
def validateRowCount (participant : String) (observed limit : ℕ) : Except KnowledgeError Unit :=
  refuseIf (observed > limit) (.limit participant observed limit)

namespace HypothesisLedger

/-- The three families, each in order of record. -/
def sorted : HypothesisLedger where
  groups := groups.insertionSort (·.key ≤ ·.key)
  membershipEvents := membership.insertionSort (·.key ≤ ·.key)
  selectionEvents := selection.insertionSort (·.key ≤ ·.key)

/-- `new_with_limit`. -/
def newWithLimit (tables : UnicodeTables) (groups : List HypothesisGroup)
    (membership : List HypothesisMembershipEvent) (selection : List HypothesisSelectionEvent)
    (rowLimit : ℕ) : Except KnowledgeError HypothesisLedger := do
  validateRowCount "hypothesis_groups" groups.length rowLimit
  validateRowCount "hypothesis_membership_events" membership.length rowLimit
  validateRowCount "hypothesis_selection_events" selection.length rowLimit
  validateGroups tables [] [] groups
  validateEventIds membership selection
  let ledger := sorted groups membership selection
  validateState ledger.groups ledger.membershipEvents ledger.selectionEvents
  return ledger

/-- `validate_question_key_uniqueness`, with the keys seen so far. -/
def validateQuestionKeyUniqueness : List String → List HypothesisGroup → Except KnowledgeError Unit
  | _, [] => .ok ()
  | keys, row :: rows => do
    refuseIf (row.questionKey ∈ keys) (.duplicate "question_key")
    validateQuestionKeyUniqueness (row.questionKey :: keys) rows

/-- `merge_rows`. -/
def mergeRows {ρ : Type} [DecidableEq ρ] (existing staged : List ρ) (id : ρ → Uuid)
    (field participant : String) (rowLimit : ℕ) : Except KnowledgeError (List ρ) := do
  validateRowCount participant existing.length rowLimit
  let merged ← staged.foldlM
    (mergeRow id field fun rows _ => validateRowCount participant (rows.length + 1) rowLimit)
    (existing, existing.reverse)
  return merged.1

/-- `merge_with_limit`. -/
def mergeWithLimit (base staged : HypothesisLedger) (rowLimit : ℕ) :
    Except KnowledgeError HypothesisLedger := do
  let groups ← mergeRows base.groups staged.groups (·.groupUuid) "group_uuid" "hypothesis_groups"
    rowLimit
  let membership ← mergeRows base.membershipEvents staged.membershipEvents (·.membershipEventUuid)
    "membership_event_uuid" "hypothesis_membership_events" rowLimit
  let selection ← mergeRows base.selectionEvents staged.selectionEvents (·.selectionEventUuid)
    "selection_event_uuid" "hypothesis_selection_events" rowLimit
  validateQuestionKeyUniqueness [] groups
  let ledger := sorted groups membership selection
  validateState ledger.groups ledger.membershipEvents ledger.selectionEvents
  return ledger

/-! ## Readers -/

/-- One event of the reader's loop over a group. -/
def updateMembers (state : List Uuid) (event : HypothesisMembershipEvent) : List Uuid :=
  match event.action with
  | .added => state.insert event.assertionUuid
  | .removed => state.filter (· ≠ event.assertionUuid)

/-- `current_members`. -/
def currentMembers (ledger : HypothesisLedger) (group : Uuid) : List Uuid :=
  ((ledger.membershipEvents.filter (·.groupUuid = group)).foldl updateMembers []).insertionSort
    (· ≤ ·)

/-- `current_selection`. -/
def currentSelection (ledger : HypothesisLedger) (group : Uuid) : Option Uuid :=
  (ledger.selectionEvents.reverse.find? (·.groupUuid = group)).bind (·.selectedAssertionUuid)

/-- The rows recorded at or before a time, as a snapshot takes them. -/
def upTo (ledger : HypothesisLedger) (cutoff : ℤ) : HypothesisLedger where
  groups := ledger.groups.filter (·.recordedAtMicros ≤ cutoff)
  membershipEvents := ledger.membershipEvents.filter (·.recordedAtMicros ≤ cutoff)
  selectionEvents := ledger.selectionEvents.filter (·.recordedAtMicros ≤ cutoff)

end HypothesisLedger

end GraphForge.Knowledge
