import GraphForge.Knowledge.HypothesisReplay

/-!
# The readers of a hypothesis ledger and its validator

The readers take the events of one time by event identifier, the validator by operation. Where
several operations share a time, the two may end with different events, and then the readers report
members or a selection that the validator never saw. They agree exactly when, for every group and
assertion, the two last events say the same. Restricting a ledger to a cutoff is always accepted.
-/

namespace GraphForge.Knowledge

open List Except

namespace HypothesisLedger

/-! ## Accepted ledgers -/

/-- The ledgers that construction yields: new ones, also when read from batches, and merges. -/
inductive Accepted (tables : UnicodeTables) : ℕ → HypothesisLedger → Prop
  | new {groups membership selection rowLimit ledger} :
    newWithLimit tables groups membership selection rowLimit = .ok ledger →
      Accepted tables rowLimit ledger
  | merge {n n' rowLimit base staged merged} : Accepted tables n base → Accepted tables n' staged →
    mergeWithLimit base staged rowLimit = .ok merged → Accepted tables rowLimit merged

/-- What holds of the rows of an accepted ledger. -/
structure WellFormed (tables : UnicodeTables) (rowLimit : ℕ) (ledger : HypothesisLedger) : Prop where
  groups_le : ledger.groups.length ≤ rowLimit
  membership_le : ledger.membershipEvents.length ≤ rowLimit
  selection_le : ledger.selectionEvents.length ≤ rowLimit
  groups_valid : RowsValid (validateGroup tables) (·.groupUuid) ledger.groups
  questions_nodup : (ledger.groups.map (·.questionKey)).Nodup
  membership_valid :
    RowsValid validateMembershipEvent (·.membershipEventUuid) ledger.membershipEvents
  selection_valid : RowsValid validateSelectionEvent (·.selectionEventUuid) ledger.selectionEvents
  groups_sorted : ledger.groups.Pairwise (·.key ≤ ·.key)
  membership_sorted : ledger.membershipEvents.Pairwise (·.key ≤ ·.key)
  selection_sorted : ledger.selectionEvents.Pairwise (·.key ≤ ·.key)
  replay_ok : ∃ final,
    replay ledger.groups ledger.membershipEvents ledger.selectionEvents = .ok final

/-- No question key is repeated. -/
lemma validateQuestionKeyUniqueness_iff {keys : List String} {rows : List HypothesisGroup} :
    validateQuestionKeyUniqueness keys rows = .ok () ↔ Fresh (·.questionKey) keys rows := by
  induction rows generalizing keys with
  | nil => simp [validateQuestionKeyUniqueness, Fresh]
  | cons row rows ih =>
    rw [validateQuestionKeyUniqueness]
    simp only [check_bind_eq_ok_iff, refuseIf_eq_ok_iff, ih, fresh_cons]

/-- The loop makes the checks of `validateIds`, and those of the question keys. -/
lemma validateGroups_iff {tables : UnicodeTables} {ids : List Uuid} {keys : List String}
    {rows : List HypothesisGroup} :
    validateGroups tables ids keys rows = .ok () ↔
      validateIds (validateGroup tables) (·.groupUuid) "group_uuid" ids rows = .ok () ∧
        validateQuestionKeyUniqueness keys rows = .ok () := by
  induction rows generalizing ids keys with
  | nil => simp [validateGroups, validateIds, validateQuestionKeyUniqueness]
  | cons row rows ih =>
    rw [validateGroups, validateIds, validateQuestionKeyUniqueness]
    simp only [check_bind_eq_ok_iff, refuseIf_eq_ok_iff, ih]
    tauto

/-- The state is valid when the replay succeeds. -/
lemma validateState_iff {groups : List HypothesisGroup}
    {membership : List HypothesisMembershipEvent} {selection : List HypothesisSelectionEvent} :
    validateState groups membership selection = .ok () ↔
      ∃ final, replay groups membership selection = .ok final := by
  unfold validateState
  rw [bind_eq_ok_iff]
  exact ⟨fun ⟨final, h, _⟩ => ⟨final, h⟩, fun ⟨final, h⟩ => ⟨final, h, rfl⟩⟩

section
variable {tables : UnicodeTables} {groups : List HypothesisGroup}
  {membership : List HypothesisMembershipEvent} {selection : List HypothesisSelectionEvent}
  {rowLimit : ℕ}

/-- Rows that pass the checks, once they are sorted. -/
lemma WellFormed.of_rows (hgroups : groups.length ≤ rowLimit)
    (hmembership : membership.length ≤ rowLimit) (hselection : selection.length ≤ rowLimit)
    (hgroupsValid : RowsValid (validateGroup tables) (·.groupUuid) groups)
    (hquestions : (groups.map (·.questionKey)).Nodup)
    (hmembershipValid : RowsValid validateMembershipEvent (·.membershipEventUuid) membership)
    (hselectionValid : RowsValid validateSelectionEvent (·.selectionEventUuid) selection)
    {ledger : HypothesisLedger} (hledger : ledger = sorted groups membership selection)
    (hreplay : ∃ final, replay ledger.groups ledger.membershipEvents ledger.selectionEvents =
      .ok final) :
    WellFormed tables rowLimit ledger := by
  have hpermG : ledger.groups.Perm groups := hledger ▸ perm_insertionSort _ groups
  have hpermM : ledger.membershipEvents.Perm membership :=
    hledger ▸ perm_insertionSort _ membership
  have hpermS : ledger.selectionEvents.Perm selection := hledger ▸ perm_insertionSort _ selection
  refine ⟨?_, ?_, ?_, hgroupsValid.perm hpermG.symm, ?_, hmembershipValid.perm hpermM.symm,
    hselectionValid.perm hpermS.symm, ?_, ?_, ?_, hreplay⟩
  · rw [hpermG.length_eq]
    exact hgroups
  · rw [hpermM.length_eq]
    exact hmembership
  · rw [hpermS.length_eq]
    exact hselection
  · exact ((hpermG.map _).nodup_iff).mpr hquestions
  · exact hledger ▸ pairwise_insertionSort _ groups
  · exact hledger ▸ pairwise_insertionSort _ membership
  · exact hledger ▸ pairwise_insertionSort _ selection

/-- A ledger that is made is well formed. -/
lemma WellFormed.of_new {ledger : HypothesisLedger}
    (h : newWithLimit tables groups membership selection rowLimit = .ok ledger) :
    WellFormed tables rowLimit ledger := by
  obtain ⟨_, hgroups, h⟩ := bind_eq_ok_iff.mp h
  obtain ⟨_, hmembership, h⟩ := bind_eq_ok_iff.mp h
  obtain ⟨_, hselection, h⟩ := bind_eq_ok_iff.mp h
  obtain ⟨_, hgroupsValid, h⟩ := bind_eq_ok_iff.mp h
  obtain ⟨_, hids, h⟩ := bind_eq_ok_iff.mp h
  obtain ⟨_, hstate, h⟩ := bind_eq_ok_iff.mp h
  obtain ⟨_, hmembershipIds, hselectionIds⟩ := bind_eq_ok_iff.mp hids
  obtain rfl := Except.ok.inj h
  rw [validateRowCount, refuseIf_eq_ok_iff, Nat.not_lt] at hgroups hmembership hselection
  obtain ⟨hgroupsValid, hquestions⟩ := validateGroups_iff.mp hgroupsValid
  exact WellFormed.of_rows hgroups hmembership hselection (validateIds_nil_iff.mp hgroupsValid)
    (validateQuestionKeyUniqueness_iff.mp hquestions).1 (validateIds_nil_iff.mp hmembershipIds)
    (validateIds_nil_iff.mp hselectionIds) rfl (validateState_iff.mp hstate)

/-- A well-formed ledger is what construction makes of its own rows. -/
lemma WellFormed.new_eq {ledger : HypothesisLedger} (h : WellFormed tables rowLimit ledger) :
    newWithLimit tables ledger.groups ledger.membershipEvents ledger.selectionEvents rowLimit =
      .ok ledger := by
  have hsorted : sorted ledger.groups ledger.membershipEvents ledger.selectionEvents = ledger := by
    unfold sorted
    rw [h.groups_sorted.insertionSort_eq, h.membership_sorted.insertionSort_eq,
      h.selection_sorted.insertionSort_eq]
  have hgroups : validateGroups tables [] [] ledger.groups = .ok () :=
    validateGroups_iff.mpr ⟨validateIds_nil_iff.mpr h.groups_valid,
      validateQuestionKeyUniqueness_iff.mpr ⟨h.questions_nodup, by simp⟩⟩
  have hids : validateEventIds ledger.membershipEvents ledger.selectionEvents = .ok () :=
    bind_eq_ok_iff.mpr ⟨(), validateIds_nil_iff.mpr h.membership_valid,
      validateIds_nil_iff.mpr h.selection_valid⟩
  unfold newWithLimit
  rw [validateRowCount, validateRowCount, validateRowCount,
    refuseIf_of_not (Nat.not_lt.mpr h.groups_le),
    refuseIf_of_not (Nat.not_lt.mpr h.membership_le),
    refuseIf_of_not (Nat.not_lt.mpr h.selection_le), hgroups, hids]
  simp only [ok_bind, hsorted, validateState_iff.mpr h.replay_ok]
  rfl

/-- A merge of two families of valid rows. -/
lemma mergeRows_spec {ρ : Type} [DecidableEq ρ] {validate : ρ → Except KnowledgeError Unit}
    {existing staged rows : List ρ} {id : ρ → Uuid} {field participant : String}
    (hexisting : RowsValid validate id existing) (hstaged : RowsValid validate id staged)
    (h : mergeRows existing staged id field participant rowLimit = .ok rows) :
    RowsValid validate id rows ∧ rows.length ≤ rowLimit := by
  obtain ⟨_, hcount, h⟩ := bind_eq_ok_iff.mp h
  obtain ⟨acc, hloop, h⟩ := bind_eq_ok_iff.mp h
  obtain rfl := Except.ok.inj h
  rw [validateRowCount, refuseIf_eq_ok_iff, Nat.not_lt] at hcount
  have hmerging := Merging.of_foldlM hexisting.nodup hloop
  refine ⟨⟨?_, hmerging.nodup⟩, ?_⟩
  · intro row hrow
    rcases (hmerging.mem row).mp hrow with hrow | hrow
    · exact hexisting.valid row hrow
    · exact hstaged.valid row hrow
  · -- the bound is checked before every new row
    refine invariant_of_foldlM (I := fun _ acc => acc.1.length ≤ rowLimit) hloop hcount ?_
    intro seen acc row acc' hacc hstep
    unfold mergeRow at hstep
    split at hstep
    next =>
      obtain ⟨_, _, hstep⟩ := bind_eq_ok_iff.mp hstep
      exact Except.ok.inj hstep ▸ hacc
    next =>
      obtain ⟨_, hroom, hstep⟩ := bind_eq_ok_iff.mp hstep
      have hle : acc.1.length + 1 ≤ rowLimit :=
        Nat.not_lt.mp (refuseIf_eq_ok_iff.mp hroom)
      obtain rfl := Except.ok.inj hstep
      simpa using hle

/-- A ledger that is reached by making and merging is well formed. -/
lemma Accepted.wellFormed {ledger : HypothesisLedger} (h : Accepted tables rowLimit ledger) :
    WellFormed tables rowLimit ledger := by
  induction h with
  | new hnew => exact WellFormed.of_new hnew
  | merge _ _ hmerge hbase hstaged =>
    obtain ⟨groups, hgroups, h⟩ := bind_eq_ok_iff.mp hmerge
    obtain ⟨membership, hmembership, h⟩ := bind_eq_ok_iff.mp h
    obtain ⟨selection, hselection, h⟩ := bind_eq_ok_iff.mp h
    obtain ⟨_, hquestions, h⟩ := bind_eq_ok_iff.mp h
    obtain ⟨_, hstate, h⟩ := bind_eq_ok_iff.mp h
    obtain rfl := Except.ok.inj h
    obtain ⟨hgroupsValid, hgroupsLe⟩ := mergeRows_spec hbase.groups_valid hstaged.groups_valid hgroups
    obtain ⟨hmembershipValid, hmembershipLe⟩ :=
      mergeRows_spec hbase.membership_valid hstaged.membership_valid hmembership
    obtain ⟨hselectionValid, hselectionLe⟩ :=
      mergeRows_spec hbase.selection_valid hstaged.selection_valid hselection
    exact WellFormed.of_rows hgroupsLe hmembershipLe hselectionLe hgroupsValid
      (validateQuestionKeyUniqueness_iff.mp hquestions).1 hmembershipValid hselectionValid rfl
      (validateState_iff.mp hstate)

end

/-! ## Restricting to a cutoff -/

section
variable {ledger : HypothesisLedger} {cutoff : ℤ}

/-- The time of a group is that of its one row. -/
lemma groupTime_eq_some_iff {groups : List HypothesisGroup}
    (hnodup : (groups.map (·.groupUuid)).Nodup) {g : Uuid} {time : ℤ} :
    groupTime groups g = some time ↔
      ∃ row ∈ groups, row.groupUuid = g ∧ row.recordedAtMicros = time := by
  unfold groupTime
  rw [Option.map_eq_some_iff]
  constructor
  · rintro ⟨row, hfind, htime⟩
    have hg : row.groupUuid = g := by simpa using find?_some hfind
    exact ⟨row, mem_reverse.mp (mem_of_find?_eq_some hfind), hg, htime⟩
  · rintro ⟨row, hmem, hg, htime⟩
    cases hfind : groups.reverse.find? fun row => decide (row.groupUuid = g) with
    | none =>
      have := find?_eq_none.mp hfind row (mem_reverse.mpr hmem)
      simp [hg] at this
    | some row' =>
      have hg' : row'.groupUuid = g := by simpa using find?_some hfind
      have hmem' := mem_reverse.mp (mem_of_find?_eq_some hfind)
      have := inj_on_of_nodup_map hnodup hmem' hmem (hg'.trans hg.symm)
      exact ⟨row', rfl, by rw [this, htime]⟩

section
variable (hnodup : (ledger.groups.map (·.groupUuid)).Nodup)
include hnodup

/-- A group that exists by the cutoff is found among the groups up to it. -/
lemma groupTime_upTo {g : Uuid} {time : ℤ} (h : groupTime ledger.groups g = some time)
    (htime : time ≤ cutoff) : groupTime (ledger.upTo cutoff).groups g = some time := by
  obtain ⟨row, hmem, hg, rfl⟩ := (groupTime_eq_some_iff hnodup).mp h
  have hnodup' : ((ledger.upTo cutoff).groups.map (·.groupUuid)).Nodup :=
    hnodup.sublist (filter_sublist.map _)
  exact (groupTime_eq_some_iff hnodup').mpr
    ⟨row, mem_filter.mpr ⟨hmem, decide_eq_true htime⟩, hg, rfl⟩

/-- An event up to the cutoff is accepted by the restricted ledger. -/
lemma applyMembership_upTo {state next : ReplayState} {event : HypothesisMembershipEvent}
    (hevent : event.recordedAtMicros ≤ cutoff)
    (h : applyMembership ledger.groups state event = .ok next) :
    applyMembership (ledger.upTo cutoff).groups state event = .ok next := by
  obtain ⟨⟨time, htime, hle⟩, _⟩ := applyMembership_spec h
  have hupTo := groupTime_upTo hnodup htime (hle.trans hevent)
  unfold applyMembership at h ⊢
  rw [htime] at h
  rw [hupTo]
  exact h

/-- A selection up to the cutoff is accepted by the restricted ledger. -/
lemma applySelection_upTo {state next : ReplayState} {event : HypothesisSelectionEvent}
    (hevent : event.recordedAtMicros ≤ cutoff)
    (h : applySelection ledger.groups state event = .ok next) :
    applySelection (ledger.upTo cutoff).groups state event = .ok next := by
  obtain ⟨⟨time, htime, hle⟩, _⟩ := applySelection_spec h
  have hupTo := groupTime_upTo hnodup htime (hle.trans hevent)
  unfold applySelection at h ⊢
  rw [htime] at h
  rw [hupTo]
  exact h

end

/-- An operation by the cutoff has the same rows in the restricted ledger. -/
lemma filter_upTo {ρ : Type} {rows : List ρ} {time : ρ → ℤ} {operation : ρ → Uuid}
    {op : ℤ × Uuid × Uuid} (hop : op.1 ≤ cutoff) :
    (rows.filter (time · ≤ cutoff)).filter (fun row => time row = op.1 ∧ operation row = op.2.2) =
      rows.filter fun row => time row = op.1 ∧ operation row = op.2.2 := by
  rw [filter_filter]
  apply filter_congr
  intro row _
  rw [Bool.eq_iff_iff]
  simp only [Bool.and_eq_true, decide_eq_true_eq]
  constructor
  · exact fun h => h.1
  · exact fun h => ⟨h, h.1 ▸ hop⟩

/-- An operation up to the cutoff is replayed by the restricted ledger. -/
lemma replayOperation_upTo (hnodup : (ledger.groups.map (·.groupUuid)).Nodup)
    {state next : ReplayState} {op : ℤ × Uuid × Uuid} (hop : op.1 ≤ cutoff)
    (h : replayOperation ledger.groups ledger.membershipEvents ledger.selectionEvents state op =
      .ok next) :
    replayOperation (ledger.upTo cutoff).groups (ledger.upTo cutoff).membershipEvents
      (ledger.upTo cutoff).selectionEvents state op = .ok next := by
  obtain ⟨moved, hmoved, h⟩ := bind_eq_ok_iff.mp h
  obtain ⟨last, hlast, h⟩ := bind_eq_ok_iff.mp h
  unfold replayOperation upTo
  dsimp only
  rw [filter_upTo hop, filter_upTo hop]
  apply bind_eq_ok_iff.mpr
  refine ⟨moved, foldlM_eq_ok_of_step ?_ hmoved, bind_eq_ok_iff.mpr
    ⟨last, foldlM_eq_ok_of_step ?_ hlast, h⟩⟩
  · intro event hevent s s' hstep
    have htime : event.recordedAtMicros = op.1 := (of_decide_eq_true (mem_filter.mp hevent).2).1
    exact applyMembership_upTo hnodup (htime ▸ hop) hstep
  · intro event hevent s s' hstep
    have htime : event.recordedAtMicros = op.1 := (of_decide_eq_true (mem_filter.mp hevent).2).1
    exact applySelection_upTo hnodup (htime ▸ hop) hstep

/-- The restricted ledger has the events up to the cutoff. -/
lemma operationEntries_upTo :
    operationEntries (ledger.upTo cutoff).membershipEvents (ledger.upTo cutoff).selectionEvents =
      (operationEntries ledger.membershipEvents ledger.selectionEvents).filter (·.1 ≤ cutoff) := by
  unfold operationEntries upTo
  rw [filter_append, filter_map, filter_map]
  rfl

/-- The operations of the restricted ledger are those by the cutoff, in the same order. -/
lemma operationKeys_upTo :
    operationKeys (ledger.upTo cutoff).membershipEvents (ledger.upTo cutoff).selectionEvents =
      (operationKeys ledger.membershipEvents ledger.selectionEvents).filter (·.1 ≤ cutoff) := by
  have hfirst : ∀ time ≤ cutoff, ∀ operation,
      firstEvent ((operationEntries ledger.membershipEvents ledger.selectionEvents).filter
        (·.1 ≤ cutoff)) time operation =
      firstEvent (operationEntries ledger.membershipEvents ledger.selectionEvents) time operation := by
    intro time htime operation
    have hsame := @filter_upTo cutoff _ (operationEntries ledger.membershipEvents
      ledger.selectionEvents) (·.1) (·.2.1) (time, 0, operation) htime
    unfold firstEvent
    rw [hsame]
  rw [operationKeys_eq, operationKeys_eq, filter_insertionSort_key nodup_operations]
  apply insertionSort_key_eq_of_perm nodup_operations
  have hnodup := fun membership selection =>
    (@nodup_operations membership selection).of_map
  rw [perm_ext_iff_of_nodup (hnodup _ _) ((hnodup _ _).sublist filter_sublist)]
  intro op
  rw [mem_filter, mem_operations, mem_operations, operationEntries_upTo, decide_eq_true_eq]
  constructor
  · rintro ⟨hop, e, he, ht, ho⟩
    have hle : op.1 ≤ cutoff := ht ▸ of_decide_eq_true (mem_filter.mp he).2
    rw [hfirst op.1 hle] at hop
    exact ⟨⟨hop, e, (mem_filter.mp he).1, ht, ho⟩, hle⟩
  · rintro ⟨⟨hop, e, he, ht, ho⟩, hle⟩
    refine ⟨by rw [hfirst op.1 hle]; exact hop, e, ?_, ht, ho⟩
    exact mem_filter.mpr ⟨he, decide_eq_true (ht ▸ hle)⟩

/-- The operations by the cutoff come first. -/
lemma operationKeys_split (membership : List HypothesisMembershipEvent)
    (selection : List HypothesisSelectionEvent) (cutoff : ℤ) :
    ∃ rest, operationKeys membership selection =
      (operationKeys membership selection).filter (·.1 ≤ cutoff) ++ rest := by
  have hpartitioned : (operationKeys membership selection).PartitionedBy (·.1 ≤ cutoff) := by
    apply pairwise_operationKeys.imp
    intro a b hlt hb
    rw [operationKey, operationKey, Prod.Lex.toLex_lt_toLex] at hlt
    rw [decide_eq_true_eq] at hb ⊢
    rcases hlt with hlt | hlt
    · exact hlt.le.trans hb
    · exact hlt.1.le.trans hb
  refine ⟨(operationKeys membership selection).dropWhile (·.1 ≤ cutoff), ?_⟩
  rw [← hpartitioned.takeWhile_eq, takeWhile_append_dropWhile]

/-- A ledger restricted to a cutoff is accepted as it is. -/
lemma WellFormed.upTo {tables : UnicodeTables} {rowLimit : ℕ} (h : WellFormed tables rowLimit ledger)
    (cutoff : ℤ) : WellFormed tables rowLimit (ledger.upTo cutoff) := by
  refine ⟨(length_filter_le _ _).trans h.groups_le, (length_filter_le _ _).trans h.membership_le,
    (length_filter_le _ _).trans h.selection_le, h.groups_valid.sublist filter_sublist,
    h.questions_nodup.sublist (filter_sublist.map _),
    h.membership_valid.sublist filter_sublist, h.selection_valid.sublist filter_sublist,
    h.groups_sorted.filter _, h.membership_sorted.filter _, h.selection_sorted.filter _, ?_⟩
  obtain ⟨final, hfinal⟩ := h.replay_ok
  obtain ⟨rest, hsplit⟩ := operationKeys_split ledger.membershipEvents ledger.selectionEvents cutoff
  -- the replay passes through the state at the cutoff
  rw [replay, hsplit, foldlM_append] at hfinal
  obtain ⟨state, hstate, _⟩ := bind_eq_ok_iff.mp hfinal
  refine ⟨state, ?_⟩
  rw [replay, operationKeys_upTo]
  apply foldlM_eq_ok_of_step _ hstate
  intro op hop s s' hstep
  exact replayOperation_upTo h.groups_valid.nodup (of_decide_eq_true (mem_filter.mp hop).2) hstep

end

/-! ## The readers -/

section
variable (ledger : HypothesisLedger)

/-- The place of a membership event in the replay. -/
def membershipReplayKey (event : HypothesisMembershipEvent) : ReplayKey :=
  replayKey (operationEntries ledger.membershipEvents ledger.selectionEvents)
    event.recordedAtMicros event.operationUuid event.membershipEventUuid

/-- The place of a selection event in the replay. -/
def selectionReplayKey (event : HypothesisSelectionEvent) : ReplayKey :=
  replayKey (operationEntries ledger.membershipEvents ledger.selectionEvents)
    event.recordedAtMicros event.operationUuid event.selectionEventUuid

/-- The last event about an assertion in the order of record and the last one in the order of
operations have the same action, and the last selection events of a group select the same. -/
structure LatestAgree : Prop where
  membership : ∀ e ∈ ledger.membershipEvents, ∀ e' ∈ ledger.membershipEvents,
    e'.groupUuid = e.groupUuid → e'.assertionUuid = e.assertionUuid →
    (∀ f ∈ ledger.membershipEvents, f.groupUuid = e.groupUuid → f.assertionUuid = e.assertionUuid →
      f.key ≤ e.key ∧ ledger.membershipReplayKey f ≤ ledger.membershipReplayKey e') →
    e.action = e'.action
  selection : ∀ e ∈ ledger.selectionEvents, ∀ e' ∈ ledger.selectionEvents,
    e'.groupUuid = e.groupUuid →
    (∀ f ∈ ledger.selectionEvents, f.groupUuid = e.groupUuid →
      f.key ≤ e.key ∧ ledger.selectionReplayKey f ≤ ledger.selectionReplayKey e') →
    e.selectedAssertionUuid = e'.selectedAssertionUuid

/-- The readers report what a replay ended in, and a selected assertion is a member. -/
structure ReadersAgree (final : ReplayState) : Prop where
  members : ∀ g a, a ∈ ledger.currentMembers g ↔ final.members g a = true
  selection : ∀ g, ledger.currentSelection g = final.selected g
  selected_mem : ∀ g a, ledger.currentSelection g = some a → a ∈ ledger.currentMembers g

variable {ledger}

/-- The reader of members reports the last event about each assertion. -/
lemma mem_currentMembers {g a : Uuid} :
    a ∈ ledger.currentMembers g ↔ membershipAfter ledger.membershipEvents g a false = true := by
  unfold currentMembers
  -- the events of other groups leave the membership alone
  suffices hloop : ∀ (events : List HypothesisMembershipEvent) (state : List Uuid),
      a ∈ (events.filter (·.groupUuid = g)).foldl updateMembers state ↔
        membershipAfter events g a (decide (a ∈ state)) = true by
    simpa using hloop ledger.membershipEvents []
  intro events
  induction events with
  | nil => simp [membershipAfter]
  | cons event events ih =>
    intro state
    rw [membershipAfter, foldl_cons]
    by_cases hg : event.groupUuid = g
    · rw [filter_cons_of_pos (by simpa using hg), foldl_cons, ih]
      show membershipAfter events g a _ = true ↔ membershipAfter events g a _ = true
      have hstep : decide (a ∈ updateMembers state event) =
          if event.about g a then decide (event.action = .added) else decide (a ∈ state) := by
        unfold updateMembers HypothesisMembershipEvent.about
        by_cases ha : event.assertionUuid = a
        · cases event.action <;> simp [hg, ha]
        · cases event.action <;> simp [hg, ha, Ne.symm ha]
      rw [hstep]
    · rw [filter_cons_of_neg (by simpa using hg), ih]
      have habout : event.about g a = false := by simp [HypothesisMembershipEvent.about, hg]
      rw [habout]
      rfl

/-- The reader of selections reports the last event of the group. -/
lemma currentSelection_eq {g : Uuid} :
    ledger.currentSelection g = selectionAfter ledger.selectionEvents g none := by
  have hlast := foldl_ite_eq_getLast
    (fun e : HypothesisSelectionEvent => decide (e.groupUuid = g)) (·.selectedAssertionUuid)
    ledger.selectionEvents none
  simp only [decide_eq_true_eq] at hlast
  rw [selectionAfter, hlast, currentSelection]
  cases ledger.selectionEvents.reverse.find? fun e => decide (e.groupUuid = g) <;> rfl

/-- The last of two orders of the same events: two loops that overwrite agree exactly when the two
last matches do. -/
lemma foldl_ite_eq_iff {ρ β κ κ' : Type} [LinearOrder κ] [LinearOrder κ'] {xs ys : List ρ}
    {key : ρ → κ} {key' : ρ → κ'} (hxs : xs.Pairwise (key · < key ·))
    (hys : ys.Pairwise (key' · < key' ·)) (hmem : ∀ a, a ∈ ys ↔ a ∈ xs) (p : ρ → Bool) (f : ρ → β)
    (b : β) :
    xs.foldl (fun b a => if p a then f a else b) b = ys.foldl (fun b a => if p a then f a else b) b ↔
      ∀ e ∈ xs, ∀ e' ∈ xs, p e = true → p e' = true →
        (∀ x ∈ xs, p x = true → key x ≤ key e ∧ key' x ≤ key' e') → f e = f e' := by
  rw [foldl_ite_eq_getLast, foldl_ite_eq_getLast]
  have hlastx := fun e => find?_reverse_eq_some_iff hxs (p := p) (a := e)
  have hlasty := fun e => find?_reverse_eq_some_iff hys (p := p) (a := e)
  simp only [hmem] at hlasty
  constructor
  · intro heq e he e' he' hpe hpe' hmax
    have hfind := (hlastx e).mpr ⟨he, hpe, fun x hx hpx => (hmax x hx hpx).1⟩
    have hfind' := (hlasty e').mpr ⟨he', hpe', fun x hx hpx => (hmax x hx hpx).2⟩
    rw [hfind, hfind'] at heq
    exact heq
  · intro hagree
    cases hfind : xs.reverse.find? p with
    | none =>
      have hnone : ys.reverse.find? p = none := by
        rw [find?_eq_none] at hfind ⊢
        intro x hx
        exact hfind x (mem_reverse.mpr ((hmem x).mp (mem_reverse.mp hx)))
      rw [hnone]
    | some e =>
      obtain ⟨he, hpe, hmax⟩ := (hlastx e).mp hfind
      cases hfind' : ys.reverse.find? p with
      | none =>
        have := find?_eq_none.mp hfind' e (mem_reverse.mpr ((hmem e).mpr he))
        exact absurd hpe this
      | some e' =>
        obtain ⟨he', hpe', hmax'⟩ := (hlasty e').mp hfind'
        exact hagree e he e' he' hpe hpe' fun x hx hpx => ⟨hmax x hx hpx, hmax' x hx hpx⟩

/-- A loop over the rows of a family, by record and by operation. -/
lemma foldl_operations_eq_iff {ρ β : Type} {membership : List HypothesisMembershipEvent}
    {selection : List HypothesisSelectionEvent} {validate : ρ → Except KnowledgeError Unit}
    {rows : List ρ} {time : ρ → ℤ} {operation event : ρ → Uuid} (hvalid : RowsValid validate event rows)
    (hsorted : rows.Pairwise fun a b => recordKey (time a) (event a) ≤ recordKey (time b) (event b))
    (hentries : ∀ row ∈ rows,
      (time row, operation row, event row) ∈ operationEntries membership selection)
    (p : ρ → Bool) (f : ρ → β) (b : β) :
    rows.foldl (fun b a => if p a then f a else b) b =
      ((operationKeys membership selection).flatMap fun op => rows.filter fun row =>
        time row = op.1 ∧ operation row = op.2.2).foldl (fun b a => if p a then f a else b) b ↔
      ∀ e ∈ rows, ∀ e' ∈ rows, p e = true → p e' = true → (∀ x ∈ rows, p x = true →
        recordKey (time x) (event x) ≤ recordKey (time e) (event e) ∧
          replayKey (operationEntries membership selection) (time x) (operation x) (event x) ≤
            replayKey (operationEntries membership selection) (time e') (operation e') (event e')) →
        f e = f e' := by
  have hne := pairwise_map.mp (hvalid.nodup_key time)
  have hlt := (hsorted.and hne).imp fun hab => lt_of_le_of_ne hab.1 hab.2
  exact foldl_ite_eq_iff hlt (pairwise_replayKey hlt)
    (fun row => mem_flatMap_operationKeys hentries) p f b

section
variable {tables : UnicodeTables} {rowLimit : ℕ} (h : WellFormed tables rowLimit ledger)
include h

/-- Reading the membership of an assertion agrees with the replay exactly when the last events
do. -/
lemma WellFormed.membership_eq_iff (g a : Uuid) :
    membershipAfter ledger.membershipEvents g a false =
        membershipAfter (membershipSequence ledger.membershipEvents
          (operationKeys ledger.membershipEvents ledger.selectionEvents)) g a false ↔
      ∀ e ∈ ledger.membershipEvents, ∀ e' ∈ ledger.membershipEvents,
        e.about g a = true → e'.about g a = true →
        (∀ f ∈ ledger.membershipEvents, f.about g a = true → f.key ≤ e.key ∧
          ledger.membershipReplayKey f ≤ ledger.membershipReplayKey e') →
        decide (e.action = .added) = decide (e'.action = .added) := by
  have hentries : ∀ row ∈ ledger.membershipEvents, _ ∈ operationEntries _ ledger.selectionEvents :=
    fun row hrow => mem_append_left _ (mem_map.mpr ⟨row, hrow, rfl⟩)
  exact foldl_operations_eq_iff h.membership_valid h.membership_sorted hentries (·.about g a)
    (fun e => decide (e.action = .added)) false

/-- Reader and replay select the same when the last events in both orders do. -/
lemma WellFormed.selection_eq_iff (g : Uuid) : selectionAfter ledger.selectionEvents g none =
        selectionAfter (selectionSequence ledger.selectionEvents
          (operationKeys ledger.membershipEvents ledger.selectionEvents)) g none ↔
      ∀ e ∈ ledger.selectionEvents, ∀ e' ∈ ledger.selectionEvents,
        e.groupUuid = g → e'.groupUuid = g →
        (∀ f ∈ ledger.selectionEvents, f.groupUuid = g → f.key ≤ e.key ∧
          ledger.selectionReplayKey f ≤ ledger.selectionReplayKey e') →
        e.selectedAssertionUuid = e'.selectedAssertionUuid := by
  have hentries : ∀ row ∈ ledger.selectionEvents, _ ∈ operationEntries ledger.membershipEvents _ :=
    fun row hrow => mem_append_right _ (mem_map.mpr ⟨row, hrow, rfl⟩)
  have hiff := foldl_operations_eq_iff h.selection_valid h.selection_sorted hentries
    (fun e => decide (e.groupUuid = g)) (·.selectedAssertionUuid) none
  simp only [decide_eq_true_eq] at hiff
  exact hiff

end

lemma decide_added_inj {x y : HypothesisMembershipAction}
    (h : decide (x = .added) = decide (y = .added)) : x = y := by
  cases x <;> cases y <;> simp_all

/-- The readers agree with the replay, and every cutoff is accepted, exactly when the last events
in the order of record and in the order of operations say the same. -/
theorem readersAgree_iff {tables : UnicodeTables} {rowLimit : ℕ}
    (h : Accepted tables rowLimit ledger) :
    ∃ final, replay ledger.groups ledger.membershipEvents ledger.selectionEvents = .ok final ∧
      ((ledger.ReadersAgree final ∧ ∀ cutoff,
          newWithLimit tables (ledger.upTo cutoff).groups (ledger.upTo cutoff).membershipEvents
            (ledger.upTo cutoff).selectionEvents rowLimit = .ok (ledger.upTo cutoff)) ↔
        ledger.LatestAgree) := by
  have hform := h.wellFormed
  obtain ⟨final, hfinal⟩ := hform.replay_ok
  obtain ⟨hmembers, hselected, hsound⟩ := foldlM_replayOperation hfinal
  have hmembersIff := fun g a => hform.membership_eq_iff g a
  have hselectionIff := fun g => hform.selection_eq_iff g
  refine ⟨final, hfinal, ?_, ?_⟩
  · rintro ⟨hagree, _⟩
    refine ⟨?_, ?_⟩
    · intro e he e' he' hg ha hmax
      apply decide_added_inj
      refine (hmembersIff e.groupUuid e.assertionUuid).mp ?_ e he e' he' (decide_eq_true ⟨rfl, rfl⟩)
        (decide_eq_true ⟨hg, ha⟩) ?_
      · -- what the reader says of this assertion is what the replay says
        rw [Bool.eq_iff_iff, ← mem_currentMembers, hagree.members, hmembers]
        rfl
      · intro f hf habout
        obtain ⟨hfg, hfa⟩ : f.groupUuid = e.groupUuid ∧ f.assertionUuid = e.assertionUuid :=
          of_decide_eq_true habout
        exact hmax f hf hfg hfa
    · intro e he e' he' hg hmax
      refine (hselectionIff e.groupUuid).mp ?_ e he e' he' rfl hg hmax
      rw [← currentSelection_eq, hagree.selection, hselected]
      rfl
  · intro hlatest
    have hmem : ∀ g a, a ∈ ledger.currentMembers g ↔ final.members g a = true := by
      intro g a
      rw [mem_currentMembers, hmembers, (hmembersIff g a).mpr]
      · rfl
      · intro e he e' he' habout habout' hmax
        obtain ⟨hg, ha⟩ : e.groupUuid = g ∧ e.assertionUuid = a := of_decide_eq_true habout
        obtain ⟨hg', ha'⟩ : e'.groupUuid = g ∧ e'.assertionUuid = a := of_decide_eq_true habout'
        rw [hlatest.membership e he e' he' (hg'.trans hg.symm) (ha'.trans ha.symm)]
        intro f hf hfg hfa
        exact hmax f hf (decide_eq_true ⟨hfg.trans hg, hfa.trans ha⟩)
    have hsel : ∀ g, ledger.currentSelection g = final.selected g := by
      intro g
      rw [currentSelection_eq, hselected, (hselectionIff g).mpr]
      · rfl
      · intro e he e' he' hg hg' hmax
        apply hlatest.selection e he e' he' (hg'.trans hg.symm)
        intro f hf hfg
        exact hmax f hf (hfg.trans hg)
    refine ⟨⟨hmem, hsel, ?_⟩, fun cutoff => (hform.upTo cutoff).new_eq⟩
    intro g a ha
    -- the replay only ever selects members
    rw [hmem]
    exact hsound (fun _ _ hnone => by cases hnone) g a (hsel g ▸ ha)

end

/-- Operations that are recorded at one time are one operation. -/
def TimesDistinct (ledger : HypothesisLedger) : Prop :=
  let entries := operationEntries ledger.membershipEvents ledger.selectionEvents
  ∀ e ∈ entries, ∀ e' ∈ entries, e.1 = e'.1 → e.2.1 = e'.2.1

/-- An event that is last in the order of record and one that is last in the order of operations
have one identifier, when events of one time are of one operation. -/
lemma event_eq_of_last {entries : List (ℤ × Uuid × Uuid)} {time time' : ℤ}
    {operation operation' event event' : Uuid} (hone : time = time' → operation = operation')
    (hrecord : recordKey time' event' ≤ recordKey time event)
    (hreplay : replayKey entries time operation event ≤
      replayKey entries time' operation' event') : event = event' := by
  have hoperation : operationKey time (firstEvent entries time operation) operation ≤
      operationKey time' (firstEvent entries time' operation') operation' :=
    Prod.Lex.monotone_fst _ _ hreplay
  have htime : time = time' :=
    le_antisymm (Prod.Lex.monotone_fst _ _ hoperation) (Prod.Lex.monotone_fst _ _ hrecord)
  obtain rfl := htime
  obtain rfl := hone rfl
  have hle : event ≤ event' := by
    rcases Prod.Lex.toLex_le_toLex.mp hreplay with hlt | ⟨_, hle⟩
    · exact absurd hlt (lt_irrefl _)
    · exact hle
  rcases Prod.Lex.toLex_le_toLex.mp hrecord with hlt | ⟨_, hge⟩
  · exact absurd hlt (lt_irrefl _)
  · exact le_antisymm hle hge

/-- The last events say the same whenever no two operations share a time. -/
theorem WellFormed.latestAgree {tables : UnicodeTables} {rowLimit : ℕ} {ledger : HypothesisLedger}
    (h : WellFormed tables rowLimit ledger) (hdistinct : ledger.TimesDistinct) :
    ledger.LatestAgree where
  membership := by
    intro e he e' he' hg ha hmax
    have hentry : ∀ f ∈ ledger.membershipEvents,
        (f.recordedAtMicros, f.operationUuid, f.membershipEventUuid) ∈
          operationEntries ledger.membershipEvents ledger.selectionEvents :=
      fun f hf => mem_append_left _ (mem_map.mpr ⟨f, hf, rfl⟩)
    have hid : e.membershipEventUuid = e'.membershipEventUuid :=
      event_eq_of_last (hdistinct _ (hentry e he) _ (hentry e' he')) (hmax e' he' hg ha).1
        (hmax e he rfl rfl).2
    rw [inj_on_of_nodup_map h.membership_valid.nodup he he' hid]
  selection := by
    intro e he e' he' hg hmax
    have hentry : ∀ f ∈ ledger.selectionEvents,
        (f.recordedAtMicros, f.operationUuid, f.selectionEventUuid) ∈
          operationEntries ledger.membershipEvents ledger.selectionEvents :=
      fun f hf => mem_append_right _ (mem_map.mpr ⟨f, hf, rfl⟩)
    have hid : e.selectionEventUuid = e'.selectionEventUuid :=
      event_eq_of_last (hdistinct _ (hentry e he) _ (hentry e' he')) (hmax e' he' hg).1
        (hmax e he rfl).2
    rw [inj_on_of_nodup_map h.selection_valid.nodup he he' hid]

/-! One group at time 0, and at time 5 an operation 1 that adds the assertions 2 and 3. -/

/-- Identifiers of the sample, of version 7. -/
def sampleId (n : Fin 32) : Uuid := ⟨7 * 2 ^ 76 + n.val, by have := n.isLt; omega⟩

/-- Tables that only know the space. -/
def sampleTables : UnicodeTables := ⟨fun c => c = ' ', fun _ => true⟩

/-- The group of the sample. -/
def sampleGroups : List HypothesisGroup := [⟨sampleId 1, "q", sampleId 1, 0, 1⟩]

/-- Two assertions join the group. -/
def sampleMembership : List HypothesisMembershipEvent :=
  [⟨sampleId 10, sampleId 1, sampleId 1, sampleId 2, .added, sampleId 1, sampleId 1, 5, 1⟩,
    ⟨sampleId 11, sampleId 1, sampleId 1, sampleId 3, .added, sampleId 1, sampleId 1, 5, 1⟩]

/-- An event that selects an assertion at time 5. -/
def sampleSelection (event operation selected : Fin 32) : HypothesisSelectionEvent :=
  ⟨sampleId event, sampleId operation, sampleId 1, some (sampleId selected), sampleId 1, sampleId 1,
    5, 1⟩

lemma sampleSelection_accepted :
    newWithLimit sampleTables sampleGroups sampleMembership [sampleSelection 15 1 2] 10 =
      .ok ⟨sampleGroups, sampleMembership, [sampleSelection 15 1 2]⟩ := by
  decide +kernel

/-- With one operation at the time, the readers agree. -/
theorem readersAgree_single_operation :
    ∃ final, replay sampleGroups sampleMembership [sampleSelection 15 1 2] = .ok final ∧
      ReadersAgree ⟨sampleGroups, sampleMembership, [sampleSelection 15 1 2]⟩ final := by
  have haccepted := Accepted.new sampleSelection_accepted
  obtain ⟨final, hfinal, hiff⟩ := readersAgree_iff haccepted
  have hdistinct :
      TimesDistinct ⟨sampleGroups, sampleMembership, [sampleSelection 15 1 2]⟩ := by
    unfold TimesDistinct
    decide
  exact ⟨final, hfinal, (hiff.mpr (haccepted.wellFormed.latestAgree hdistinct)).1⟩

/-- Two operations at one time: operation 1 has the events 10, 11 and 15, and selects 2; operation
4 has the event 13, and selects 3. The replay takes operation 4 last and ends with 3 selected; the
reader takes event 15 last and reports 2. -/
theorem currentSelection_interleaved : newWithLimit sampleTables sampleGroups sampleMembership
        [sampleSelection 13 4 3, sampleSelection 15 1 2] 10 =
      .ok ⟨sampleGroups, sampleMembership, [sampleSelection 13 4 3, sampleSelection 15 1 2]⟩ ∧
    (replay sampleGroups sampleMembership [sampleSelection 13 4 3, sampleSelection 15 1 2]).map
      (·.selected (sampleId 1)) = .ok (some (sampleId 3)) ∧
    currentSelection ⟨sampleGroups, sampleMembership,
      [sampleSelection 13 4 3, sampleSelection 15 1 2]⟩ (sampleId 1) = some (sampleId 2) := by
  decide +kernel

end HypothesisLedger

end GraphForge.Knowledge
