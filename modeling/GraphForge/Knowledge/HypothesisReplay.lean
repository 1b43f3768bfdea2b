import GraphForge.Knowledge.HypothesisLedger
import GraphForge.Lib.LatestEvent

/-!
# What the replay of a hypothesis ledger ends in

The replay goes through the events operation by operation. Its last state says of each assertion
what the last event about it says, in the order of operations; and a selected assertion is always
a member.
-/

namespace GraphForge.Knowledge

open List Except

/-! ## One operation -/

section
variable {groups : List HypothesisGroup} {state next : ReplayState}

/-- What an accepted membership event says and does. -/
lemma applyMembership_spec {event : HypothesisMembershipEvent}
    (h : applyMembership groups state event = .ok next) :
    (∃ time, groupTime groups event.groupUuid = some time ∧ time ≤ event.recordedAtMicros) ∧
      next = state.setMember event.groupUuid event.assertionUuid (event.action = .added) := by
  obtain ⟨time, htime, h⟩ := bind_eq_ok_iff.mp h
  obtain ⟨_, hlate, h⟩ := bind_eq_ok_iff.mp h
  rw [refuseIf_eq_ok_iff, not_lt] at hlate
  refine ⟨⟨time, ofOption_eq_ok_iff.mp htime, hlate⟩, ?_⟩
  cases haction : event.action with
  | added =>
    rw [haction] at h
    obtain ⟨_, _, h⟩ := bind_eq_ok_iff.mp h
    exact (Except.ok.inj h).symm
  | removed =>
    rw [haction] at h
    obtain ⟨_, _, h⟩ := bind_eq_ok_iff.mp h
    exact (Except.ok.inj h).symm

/-- What an accepted selection event says and does. -/
lemma applySelection_spec {event : HypothesisSelectionEvent}
    (h : applySelection groups state event = .ok next) :
    (∃ time, groupTime groups event.groupUuid = some time ∧ time ≤ event.recordedAtMicros) ∧
      (∀ a, event.selectedAssertionUuid = some a → state.members event.groupUuid a = true) ∧
      next = state.select event.groupUuid event.selectedAssertionUuid := by
  obtain ⟨time, htime, h⟩ := bind_eq_ok_iff.mp h
  obtain ⟨_, hlate, h⟩ := bind_eq_ok_iff.mp h
  obtain ⟨_, hmember, h⟩ := bind_eq_ok_iff.mp h
  rw [refuseIf_eq_ok_iff, not_lt] at hlate
  refine ⟨⟨time, ofOption_eq_ok_iff.mp htime, hlate⟩, ?_, (Except.ok.inj h).symm⟩
  intro a ha
  rw [ha] at hmember
  simpa using hmember

end

/-- Whether an event is about an assertion in a group. -/
def HypothesisMembershipEvent.about (event : HypothesisMembershipEvent) (g a : Uuid) : Bool :=
  decide (event.groupUuid = g ∧ event.assertionUuid = a)

/-- Membership after some events: what the last one about the assertion says. -/
def membershipAfter (events : List HypothesisMembershipEvent) (g a : Uuid) (before : Bool) : Bool :=
  events.foldl (fun b event => if event.about g a then event.action = .added else b) before

/-- Selection after some events: what the last one of the group says. -/
def selectionAfter (events : List HypothesisSelectionEvent) (g : Uuid) (before : Option Uuid) :
    Option Uuid :=
  events.foldl (fun s event => if event.groupUuid = g then event.selectedAssertionUuid else s) before

section
variable {groups : List HypothesisGroup}

/-- Membership events leave the membership of the last one about each assertion. -/
lemma foldlM_applyMembership {events : List HypothesisMembershipEvent} {state next : ReplayState}
    (h : events.foldlM (applyMembership groups) state = .ok next) :
    (∀ g a, next.members g a = membershipAfter events g a (state.members g a)) ∧
      next.selected = state.selected := by
  induction events generalizing state with
  | nil =>
    obtain rfl := Except.ok.inj h
    exact ⟨fun _ _ => rfl, rfl⟩
  | cons event events ih =>
    obtain ⟨moved, hmoved, h⟩ := bind_eq_ok_iff.mp h
    obtain ⟨_, rfl⟩ := applyMembership_spec hmoved
    obtain ⟨hmembers, hselected⟩ := ih h
    refine ⟨?_, hselected⟩
    intro g a
    rw [hmembers g a]
    show membershipAfter events g a (if g = event.groupUuid ∧ a = event.assertionUuid then _ else _)
      = membershipAfter events g a (if event.about g a then _ else _)
    congr 1
    apply if_congr _ rfl rfl
    rw [HypothesisMembershipEvent.about, decide_eq_true_eq, eq_comm, eq_comm (a := a)]

/-- Selection events leave the selection of the last one of each group. -/
lemma foldlM_applySelection {events : List HypothesisSelectionEvent} {state next : ReplayState}
    (h : events.foldlM (applySelection groups) state = .ok next) :
    next.members = state.members ∧
      (∀ g, next.selected g = selectionAfter events g (state.selected g)) ∧
      ∀ event ∈ events, ∀ a, event.selectedAssertionUuid = some a →
        state.members event.groupUuid a = true := by
  induction events generalizing state with
  | nil =>
    obtain rfl := Except.ok.inj h
    exact ⟨rfl, fun _ => rfl, by simp⟩
  | cons event events ih =>
    obtain ⟨moved, hmoved, h⟩ := bind_eq_ok_iff.mp h
    obtain ⟨_, hmember, rfl⟩ := applySelection_spec hmoved
    obtain ⟨hmembers, hselected, hall⟩ := ih h
    refine ⟨hmembers, ?_, ?_⟩
    · intro g
      rw [hselected g]
      show selectionAfter events g (if g = event.groupUuid then _ else _) =
        selectionAfter events g (if event.groupUuid = g then _ else _)
      simp only [eq_comm]
    · exact forall_mem_cons.mpr ⟨hmember, hall⟩

end

/-- Events that say nothing about a group leave its selection. -/
lemma selectionAfter_of_not_mem {events : List HypothesisSelectionEvent} {g : Uuid}
    (h : ∀ event ∈ events, event.groupUuid ≠ g) (before : Option Uuid) :
    selectionAfter events g before = before := by
  induction events generalizing before with
  | nil => rfl
  | cons event events ih =>
    rw [selectionAfter, foldl_cons, if_neg (h event mem_cons_self)]
    exact ih (fun e he => h e (mem_cons_of_mem _ he)) before

/-- Otherwise the selection is that of an event. -/
lemma selectionAfter_of_mem {events : List HypothesisSelectionEvent} {g : Uuid}
    {event : HypothesisSelectionEvent} (hevent : event ∈ events) (hgroup : event.groupUuid = g)
    (before : Option Uuid) :
    ∃ e ∈ events, e.groupUuid = g ∧ selectionAfter events g before = e.selectedAssertionUuid := by
  have hlast := foldl_ite_eq_getLast (fun e : HypothesisSelectionEvent => decide (e.groupUuid = g))
    (·.selectedAssertionUuid) events before
  simp only [decide_eq_true_eq] at hlast
  cases hfind : events.reverse.find? fun e => decide (e.groupUuid = g) with
  | none =>
    have := find?_eq_none.mp hfind event (mem_reverse.mpr hevent)
    simp [hgroup] at this
  | some e =>
    rw [hfind] at hlast
    refine ⟨e, mem_reverse.mp (mem_of_find?_eq_some hfind), ?_, hlast⟩
    simpa using find?_some hfind

/-- A member stays one unless an event removes it. -/
lemma membershipAfter_of_no_removal {events : List HypothesisMembershipEvent} {g a : Uuid}
    (h : ∀ event ∈ events, event.about g a = true → event.action = .added) :
    membershipAfter events g a true = true := by
  induction events with
  | nil => rfl
  | cons event events ih =>
    have hrest := ih fun e he => h e (mem_cons_of_mem _ he)
    rw [membershipAfter, foldl_cons]
    by_cases habout : event.about g a = true
    · rw [if_pos habout, h event mem_cons_self habout]
      exact hrest
    · rw [if_neg habout]
      exact hrest

/-- The events of an operation. -/
def membershipAt (membership : List HypothesisMembershipEvent) (op : ℤ × Uuid × Uuid) :
    List HypothesisMembershipEvent :=
  membership.filter fun row => row.recordedAtMicros = op.1 ∧ row.operationUuid = op.2.2

/-- The selection events of an operation. -/
def selectionAt (selection : List HypothesisSelectionEvent) (op : ℤ × Uuid × Uuid) :
    List HypothesisSelectionEvent :=
  selection.filter fun row => row.recordedAtMicros = op.1 ∧ row.operationUuid = op.2.2

/-- Every selected assertion is a member. -/
def ReplayState.Sound (state : ReplayState) : Prop :=
  ∀ g a, state.selected g = some a → state.members g a = true

section
variable {groups : List HypothesisGroup} {membership : List HypothesisMembershipEvent}
  {selection : List HypothesisSelectionEvent} {state next : ReplayState} {op : ℤ × Uuid × Uuid}
  (h : replayOperation groups membership selection state op = .ok next)
include h

/-- What one operation does to members and selections. -/
lemma replayOperation_spec : (∀ g a, next.members g a =
      membershipAfter (membershipAt membership op) g a (state.members g a)) ∧
    ∀ g, next.selected g = selectionAfter (selectionAt selection op) g (state.selected g) := by
  obtain ⟨moved, hmoved, h⟩ := bind_eq_ok_iff.mp h
  obtain ⟨last, hlast, h⟩ := bind_eq_ok_iff.mp h
  obtain ⟨_, _, h⟩ := bind_eq_ok_iff.mp h
  obtain rfl := Except.ok.inj h
  obtain ⟨hmembers, hsame⟩ := foldlM_applyMembership hmoved
  obtain ⟨hkept, hselected, _⟩ := foldlM_applySelection hlast
  refine ⟨?_, ?_⟩
  · intro g a
    rw [hkept]
    exact hmembers g a
  · intro g
    rw [hselected g, hsame]
    rfl

/-- An operation keeps the selected assertions members. -/
lemma replayOperation_sound (hsound : state.Sound) : next.Sound := by
  obtain ⟨hmembers, hselected⟩ := replayOperation_spec h
  obtain ⟨moved, hmoved, h⟩ := bind_eq_ok_iff.mp h
  obtain ⟨last, hlast, h⟩ := bind_eq_ok_iff.mp h
  obtain ⟨_, hremovals, h⟩ := bind_eq_ok_iff.mp h
  obtain rfl := Except.ok.inj h
  obtain ⟨hkept, _, hchecked⟩ := foldlM_applySelection hlast
  intro g a ha
  by_cases hany : ∃ event ∈ selectionAt selection op, event.groupUuid = g
  · -- the group selects in this operation, and what it selects was checked
    obtain ⟨event, hevent, hgroup⟩ := hany
    obtain ⟨e, he, hegroup, heq⟩ := selectionAfter_of_mem hevent hgroup (state.selected g)
    rw [hselected g, heq] at ha
    rw [hkept, ← hegroup]
    exact hchecked e he a ha
  -- it does not, so the selected assertion cannot have been removed
  have hnone : ∀ event ∈ selectionAt selection op, event.groupUuid ≠ g :=
    fun event hevent hgroup => hany ⟨event, hevent, hgroup⟩
  rw [hselected g, selectionAfter_of_not_mem hnone] at ha
  rw [hmembers, hsound g a ha]
  apply membershipAfter_of_no_removal
  intro removal hremoval habout
  by_contra haction
  obtain ⟨hg, ha'⟩ : removal.groupUuid = g ∧ removal.assertionUuid = a := of_decide_eq_true habout
  have hremoved : removal.action = .removed := by
    cases hcase : removal.action with
    | added => exact absurd hcase haction
    | removed => rfl
  have hmem : removal ∈ (membershipAt membership op).filter (·.action = .removed) :=
    mem_filter.mpr ⟨hremoval, decide_eq_true hremoved⟩
  have hcheck := forM_eq_ok_iff.mp hremovals removal hmem
  rw [checkRemoval, refuseIf_eq_ok_iff] at hcheck
  apply hcheck
  refine ⟨by rw [hg, ha', ha], ?_⟩
  rw [any_eq_false]
  intro event hevent hpaired
  exact hnone event hevent ((of_decide_eq_true hpaired).1.trans hg)

end

/-! ## The whole replay -/

/-- The events of a list of operations, one operation after the other. -/
def membershipSequence (membership : List HypothesisMembershipEvent) (ops : List (ℤ × Uuid × Uuid)) :
    List HypothesisMembershipEvent := ops.flatMap (membershipAt membership)

/-- The selection events in the order of the replay. -/
def selectionSequence (selection : List HypothesisSelectionEvent) (ops : List (ℤ × Uuid × Uuid)) :
    List HypothesisSelectionEvent := ops.flatMap (selectionAt selection)

/-- What operations do to members and selections, one after the other. -/
lemma foldlM_replayOperation {groups : List HypothesisGroup}
    {membership : List HypothesisMembershipEvent} {selection : List HypothesisSelectionEvent}
    {ops : List (ℤ × Uuid × Uuid)} {state final : ReplayState}
    (h : ops.foldlM (replayOperation groups membership selection) state = .ok final) :
    (∀ g a, final.members g a =
      membershipAfter (membershipSequence membership ops) g a (state.members g a)) ∧
    (∀ g, final.selected g =
      selectionAfter (selectionSequence selection ops) g (state.selected g)) ∧
    (state.Sound → final.Sound) := by
  induction ops generalizing state with
  | nil =>
    obtain rfl := Except.ok.inj h
    exact ⟨fun _ _ => rfl, fun _ => rfl, fun h => h⟩
  | cons op ops ih =>
    obtain ⟨next, hnext, h⟩ := bind_eq_ok_iff.mp h
    obtain ⟨hmembers, hselected⟩ := replayOperation_spec hnext
    obtain ⟨hmembers', hselected', hsound⟩ := ih h
    refine ⟨?_, ?_, fun hstate => hsound (replayOperation_sound hnext hstate)⟩
    · intro g a
      rw [hmembers', hmembers]
      unfold membershipSequence membershipAfter
      rw [flatMap_cons, foldl_append]
    · intro g
      rw [hselected', hselected]
      unfold selectionSequence selectionAfter
      rw [flatMap_cons, foldl_append]

/-! ## The order of operations -/

section
variable (entries : List (ℤ × Uuid × Uuid))

/-- Where an event comes in the replay: its operation, and then its identifier. -/
abbrev ReplayKey := OperationKey ×ₗ Uuid

/-- The place of an event in the replay. -/
def replayKey (time : ℤ) (operation event : Uuid) : ReplayKey :=
  toLex (operationKey time (firstEvent entries time operation) operation, event)

end

lemma operationKey_injective {t t' : ℤ} {f f' o o' : Uuid}
    (h : operationKey t f o = operationKey t' f' o') : t = t' ∧ f = f' ∧ o = o' := by
  obtain ⟨ht, hrest⟩ := Prod.mk.inj (toLex.injective h)
  exact ⟨ht, Prod.mk.inj (toLex.injective hrest)⟩

section
variable (membership : List HypothesisMembershipEvent) (selection : List HypothesisSelectionEvent)

/-- The operations before they are sorted. -/
def operations : List (ℤ × Uuid × Uuid) :=
  (((operationEntries membership selection).map fun e => (e.1, e.2.1)).dedup).map fun op =>
    (op.1, firstEvent (operationEntries membership selection) op.1 op.2, op.2)

lemma operationKeys_eq : operationKeys membership selection =
    (operations membership selection).insertionSort
      fun a b => operationKey a.1 a.2.1 a.2.2 ≤ operationKey b.1 b.2.1 b.2.2 := rfl

variable {membership selection}

/-- The operations are those of the events, each with its least event. -/
lemma mem_operations {op : ℤ × Uuid × Uuid} : op ∈ operations membership selection ↔
      op.2.1 = firstEvent (operationEntries membership selection) op.1 op.2.2 ∧
        ∃ e ∈ operationEntries membership selection, e.1 = op.1 ∧ e.2.1 = op.2.2 := by
  unfold operations
  rw [mem_map]
  constructor
  · rintro ⟨⟨t, o⟩, hmem, rfl⟩
    obtain ⟨e, he, heq⟩ := mem_map.mp (mem_dedup.mp hmem)
    obtain ⟨ht, ho⟩ := Prod.mk.inj heq
    exact ⟨rfl, e, he, ht, ho⟩
  · rintro ⟨hfirst, e, he, ht, ho⟩
    refine ⟨(op.1, op.2.2), mem_dedup.mpr (mem_map.mpr ⟨e, he, Prod.ext ht ho⟩), ?_⟩
    rw [← hfirst]

/-- No operation is replayed twice. -/
lemma nodup_operations : ((operations membership selection).map fun op =>
    operationKey op.1 op.2.1 op.2.2).Nodup := by
  unfold operations
  rw [map_map]
  apply Nodup.map_on _ (nodup_dedup _)
  intro a _ b _ h
  obtain ⟨ht, _, ho⟩ := operationKey_injective h
  exact Prod.ext ht ho

/-- Operations are replayed in their order. -/
lemma pairwise_operationKeys : (operationKeys membership selection).Pairwise fun a b =>
    operationKey a.1 a.2.1 a.2.2 < operationKey b.1 b.2.1 b.2.2 :=
  pairwise_lt_insertionSort_key nodup_operations

/-- Every operation is replayed. -/
lemma mem_operationKeys {op : ℤ × Uuid × Uuid} : op ∈ operationKeys membership selection ↔
      op.2.1 = firstEvent (operationEntries membership selection) op.1 op.2.2 ∧
        ∃ e ∈ operationEntries membership selection, e.1 = op.1 ∧ e.2.1 = op.2.2 := by
  rw [operationKeys_eq, mem_insertionSort, mem_operations]

end

section
variable {ρ : Type} {membership : List HypothesisMembershipEvent}
  {selection : List HypothesisSelectionEvent} {rows : List ρ} {time : ρ → ℤ}
  {operation event : ρ → Uuid}

/-- Rows of one family, taken operation by operation, are in the order of the replay. -/
lemma pairwise_replayKey
    (hsorted : rows.Pairwise fun a b => recordKey (time a) (event a) < recordKey (time b) (event b)) :
    ((operationKeys membership selection).flatMap fun op =>
      rows.filter fun row => time row = op.1 ∧ operation row = op.2.2).Pairwise fun a b =>
        replayKey (operationEntries membership selection) (time a) (operation a) (event a) <
          replayKey (operationEntries membership selection) (time b) (operation b) (event b) := by
  -- a row of an operation has the key of the operation
  have hkey : ∀ op ∈ operationKeys membership selection, ∀ row,
      row ∈ rows.filter (fun row => time row = op.1 ∧ operation row = op.2.2) →
        replayKey (operationEntries membership selection) (time row) (operation row) (event row) =
          toLex (operationKey op.1 op.2.1 op.2.2, event row) := by
    intro op hop row hrow
    obtain ⟨ht, ho⟩ : time row = op.1 ∧ operation row = op.2.2 :=
      of_decide_eq_true (mem_filter.mp hrow).2
    rw [replayKey, ht, ho, ← (mem_operationKeys.mp hop).1]
  rw [pairwise_flatMap]
  constructor
  · intro op hop
    apply (hsorted.filter _).imp_of_mem
    intro a b ha hb hlt
    rw [hkey op hop a ha, hkey op hop b hb, Prod.Lex.toLex_lt_toLex]
    have hta : time a = op.1 := (of_decide_eq_true (mem_filter.mp ha).2).1
    have htb : time b = op.1 := (of_decide_eq_true (mem_filter.mp hb).2).1
    rw [recordKey, recordKey, Prod.Lex.toLex_lt_toLex, hta, htb] at hlt
    rcases hlt with hlt | hlt
    · exact absurd hlt (lt_irrefl _)
    · exact .inr ⟨rfl, hlt.2⟩
  · apply pairwise_operationKeys.imp_of_mem
    intro op op' hop hop' hlt a ha b hb
    rw [hkey op hop a ha, hkey op' hop' b hb, Prod.Lex.toLex_lt_toLex]
    exact .inl hlt

/-- Every row of a family is in its operation. -/
lemma mem_flatMap_operationKeys
    (hentries : ∀ row ∈ rows, (time row, operation row, event row) ∈ operationEntries membership selection)
    {row : ρ} :
    row ∈ ((operationKeys membership selection).flatMap fun op =>
      rows.filter fun row => time row = op.1 ∧ operation row = op.2.2) ↔ row ∈ rows := by
  rw [mem_flatMap]
  constructor
  · rintro ⟨op, _, hrow⟩
    exact (mem_filter.mp hrow).1
  · intro hrow
    refine ⟨(time row, firstEvent (operationEntries membership selection) (time row)
      (operation row), operation row), ?_, ?_⟩
    · exact mem_operationKeys.mpr ⟨rfl, _, hentries row hrow, rfl, rfl⟩
    · exact mem_filter.mpr ⟨hrow, decide_eq_true ⟨rfl, rfl⟩⟩

end

end GraphForge.Knowledge
