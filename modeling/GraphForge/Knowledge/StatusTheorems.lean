import GraphForge.Knowledge.StatusLedger
import Mathlib.Data.List.Dedup

/-!
# Merging status ledgers

A merge refuses a staged status of an assertion that the base has superseded, but it does not
replay the merged sequence. So a staged supersession that was recorded before a status of the base
is let through, and the merged ledger cannot be read back. Otherwise a merge is closed: what it
returns is what building the ledger from the merged rows returns, and reading it back too.
-/

namespace GraphForge.Knowledge

open List AssertionStatusLedger Except

/-- The ledger came out of `new_with_limit` or `from_batches`. -/
def AssertionStatusLedger.Accepted (ledger : AssertionStatusLedger) : Prop :=
  (∃ rows maxRows, newWithLimit rows maxRows = .ok ledger) ∨
    ∃ batches, fromBatches batches = .ok ledger

/-- No staged supersession was recorded before another status of the assertion in the base. -/
def SupersedesLast (base staged : AssertionStatusLedger) : Prop :=
  ∀ s ∈ staged.events, s.status.isTerminal = true → ∀ b ∈ base.events,
    b.assertionUuid = s.assertionUuid → b.status.isTerminal = false → b.key < s.key

instance (base staged : AssertionStatusLedger) : Decidable (SupersedesLast base staged) := by
  unfold SupersedesLast
  infer_instance

/-! ## What the validator says -/

/-- A superseded event is followed by superseded events of its assertion only. -/
def AssertionStatusEvent.Closes (a b : AssertionStatusEvent) : Prop :=
  a.status.isTerminal = true → a.assertionUuid = b.assertionUuid → b.status.isTerminal = true

/-- The loop accepts events of which none follows a terminal one. -/
lemma validateTerminalSequence_iff {terminal : List Uuid} {events : List AssertionStatusEvent} :
    validateTerminalSequence terminal events = .ok () ↔
      (∀ e ∈ events, e.assertionUuid ∈ terminal → e.status.isTerminal = true) ∧
        events.Pairwise AssertionStatusEvent.Closes := by
  induction events generalizing terminal with
  | nil => simp [validateTerminalSequence]
  | cons event events ih =>
    rw [validateTerminalSequence, bind_eq_ok_iff, pairwise_cons]
    -- the assertions superseded before the rest
    have hnext : ∀ u, (u ∈ if event.status.isTerminal then event.assertionUuid :: terminal
        else terminal) ↔ u ∈ terminal ∨ event.status.isTerminal = true ∧ event.assertionUuid = u := by
      intro u
      split
      next hterminal => simp [hterminal, or_comm, eq_comm]
      next hterminal => simp [hterminal]
    simp only [refuseIf_eq_ok_iff, ih, hnext]
    constructor
    · rintro ⟨_, hhead, hrest, hpairs⟩
      refine ⟨?_, ?_, hpairs⟩
      · intro e he hmem
        rcases mem_cons.mp he with rfl | he
        · by_contra hopen
          exact hhead ⟨hmem, Bool.not_eq_true _ ▸ hopen⟩
        · exact hrest e he (.inl hmem)
      · intro e he hterminal hsame
        exact hrest e he (.inr ⟨hterminal, hsame⟩)
    · rintro ⟨hall, hhead, hpairs⟩
      refine ⟨(), ?_, ?_, hpairs⟩
      · rintro ⟨hmem, hopen⟩
        rw [hall event mem_cons_self hmem] at hopen
        cases hopen
      · rintro e he (hmem | ⟨hterminal, hsame⟩)
        · exact hall e (mem_cons_of_mem _ he) hmem
        · exact hhead e he hterminal hsame

/-- The rows of the ledger are valid, each on its own. -/
abbrev EventsValid (events : List AssertionStatusEvent) : Prop :=
  RowsValid validateEvent (·.statusEventUuid) events

/-- The loop accepts valid events with identifiers of their own. -/
lemma validateEvents_iff {events : List AssertionStatusEvent} :
    validateEvents events = .ok () ↔ EventsValid events := validateIds_nil_iff

/-- The supersessions of the rows come last, in order of record. -/
def ClosesLast (events : List AssertionStatusEvent) : Prop :=
  ∀ a ∈ events, ∀ b ∈ events, a.key < b.key → a.Closes b

/-- What `new_with_limit` accepts, and what it returns. -/
lemma newWithLimit_eq_ok_iff {events : List AssertionStatusEvent} {maxRows : ℕ}
    {ledger : AssertionStatusLedger} :
    newWithLimit events maxRows = .ok ledger ↔ events.length ≤ maxRows ∧ EventsValid events ∧
      ClosesLast events ∧ ledger = ⟨sortEvents events⟩ := by
  -- with distinct keys, the sorted sequence is checked pair by pair
  have hsequence : EventsValid events →
      (validateTerminalSequence [] (sortEvents events) = .ok () ↔ ClosesLast events) := by
    intro hrows
    have hsorted : (sortEvents events).Pairwise (·.key < ·.key) :=
      pairwise_lt_insertionSort_key (hrows.nodup_key (·.recordedAtMicros))
    rw [validateTerminalSequence_iff, pairwise_iff_of_sorted_key hsorted]
    simp [sortEvents, ClosesLast]
  unfold newWithLimit
  simp only [bind_eq_ok_iff, refuseIf_eq_ok_iff, Nat.not_lt]
  constructor
  · rintro ⟨_, hlen, _, hevents, _, hterminal, hledger⟩
    have hrows : EventsValid events := validateEvents_iff.mp hevents
    exact ⟨hlen, hrows, (hsequence hrows).mp hterminal, (Except.ok.inj hledger).symm⟩
  · rintro ⟨hlen, hrows, hcloses, rfl⟩
    exact ⟨(), hlen, (), validateEvents_iff.mpr hrows, (), (hsequence hrows).mpr hcloses, rfl⟩

lemma ClosesLast.perm {events events' : List AssertionStatusEvent} (h : ClosesLast events)
    (hperm : events.Perm events') : ClosesLast events' :=
  fun a ha b hb => h a (hperm.mem_iff.mpr ha) b (hperm.mem_iff.mpr hb)

/-- The events of an accepted ledger are valid and end with the terminal one. -/
lemma AssertionStatusLedger.Accepted.rows {ledger : AssertionStatusLedger} (h : ledger.Accepted) :
    EventsValid ledger.events ∧ ClosesLast ledger.events := by
  have hnew : ∃ rows maxRows, newWithLimit rows maxRows = .ok ledger := by
    rcases h with h | ⟨batches, h⟩
    · exact h
    · obtain ⟨rows, _, hrows⟩ := bind_eq_ok_iff.mp h
      exact ⟨rows, _, hrows⟩
  obtain ⟨rows, maxRows, hrows⟩ := hnew
  obtain ⟨_, hvalid, hcloses, rfl⟩ := newWithLimit_eq_ok_iff.mp hrows
  have hperm : rows.Perm (sortEvents rows) := (perm_insertionSort _ rows).symm
  exact ⟨hvalid.perm hperm, hcloses.perm hperm⟩

/-! ## What a merge does -/

/-- A merge of valid rows that admitted every new one. -/
abbrev MergesEvents (base staged : AssertionStatusLedger)
    (acc : List AssertionStatusEvent × List AssertionStatusEvent) : Prop :=
  Merging (·.statusEventUuid) (admitEvent base.terminalAssertions) base.events staged.events acc

/-- A merge gives the merged events, in order and within the limit. -/
lemma mergeWithLimit_spec {base staged merged : AssertionStatusLedger} {maxRows : ℕ}
    (hbase : EventsValid base.events) (h : mergeWithLimit base staged maxRows = .ok merged) :
    ∃ acc, MergesEvents base staged acc ∧ acc.1.length ≤ maxRows ∧ merged = ⟨sortEvents acc.1⟩ := by
  obtain ⟨acc, hloop, h⟩ := bind_eq_ok_iff.mp h
  obtain ⟨_, hlen, h⟩ := bind_eq_ok_iff.mp h
  rw [refuseIf_eq_ok_iff, Nat.not_lt] at hlen
  exact ⟨acc, Merging.of_foldlM hbase.nodup hloop, hlen, (Except.ok.inj h).symm⟩

section
variable {base staged : AssertionStatusLedger}
  {acc : List AssertionStatusEvent × List AssertionStatusEvent} (h : MergesEvents base staged acc)
include h

/-- Merged events are valid. -/
lemma MergesEvents.valid (hbase : EventsValid base.events) : EventsValid acc.1 := by
  refine ⟨?_, h.nodup⟩
  intro e he
  by_cases hmem : e ∈ base.events
  · exact hbase.valid e hmem
  · obtain ⟨rows, hadmit⟩ := h.admitted e (((h.mem e).mp he).resolve_left hmem) hmem
    obtain ⟨_, _, hvalid⟩ := bind_eq_ok_iff.mp hadmit
    exact hvalid

/-- A new event of an assertion that the base supersedes is itself a supersession. -/
lemma MergesEvents.isTerminal {e : AssertionStatusEvent} (he : e ∈ staged.events)
    (hnew : e ∉ base.events) (hterminal : e.assertionUuid ∈ base.terminalAssertions) :
    e.status.isTerminal = true := by
  obtain ⟨rows, hadmit⟩ := h.admitted e he hnew
  obtain ⟨_, hopen, _⟩ := bind_eq_ok_iff.mp hadmit
  rw [refuseIf_eq_ok_iff] at hopen
  by_contra hstatus
  exact hopen ⟨hterminal, Bool.not_eq_true _ ▸ hstatus⟩

end

/-- The merged rows are in order exactly when no staged supersession comes too early. -/
lemma MergesEvents.closesLast_iff {base staged : AssertionStatusLedger}
    {acc : List AssertionStatusEvent × List AssertionStatusEvent} (h : MergesEvents base staged acc)
    (hbase : ClosesLast base.events) (hstaged : ClosesLast staged.events) :
    ClosesLast acc.1 ↔ SupersedesLast base staged := by
  constructor
  · intro hcloses s hs hterminal b hb hsame hopen
    have hsmem := (h.mem s).mpr (.inr hs)
    have hbmem := (h.mem b).mpr (.inl hb)
    rcases lt_trichotomy b.key s.key with hlt | heq | hlt
    · exact hlt
    · -- one identifier, so one event
      have := inj_on_of_nodup_map h.nodup hbmem hsmem (recordKey_injective heq).2
      rw [this, hterminal] at hopen
      cases hopen
    · rw [hcloses s hsmem b hbmem hlt hterminal hsame.symm] at hopen
      cases hopen
  · intro hlast a ha b hb hlt hterminal hsame
    by_contra hstatus
    have hopen : b.status.isTerminal = false := Bool.not_eq_true _ ▸ hstatus
    rcases (h.mem a).mp ha with ha | ha
    · rcases (h.mem b).mp hb with hb | hb
      · exact hstatus (hbase a ha b hb hlt hterminal hsame)
      by_cases hbbase : b ∈ base.events
      · exact hstatus (hbase a ha b hbbase hlt hterminal hsame)
      · -- the merge refuses a new status of an assertion that the base supersedes
        apply hstatus
        apply MergesEvents.isTerminal h hb hbbase
        exact mem_map.mpr ⟨a, mem_filter.mpr ⟨ha, hterminal⟩, hsame⟩
    · rcases (h.mem b).mp hb with hb | hb
      · exact lt_asymm hlt (hlast a ha hterminal b hb hsame.symm hopen)
      · exact hstatus (hstaged a ha b hb hlt hterminal hsame)

/-- A successful merge is closed and durable exactly when no staged supersession was recorded before
another status of the assertion in the base, and the merged rows are within the bound of a
participant: the merged ledger is then what `new_with_limit` makes of its rows, and what is read
back after it was written. -/
theorem mergeWithLimit_closed_iff {base staged merged : AssertionStatusLedger} {maxRows : ℕ}
    (hbase : base.Accepted) (hstaged : staged.Accepted)
    (hmerge : mergeWithLimit base staged maxRows = .ok merged) :
    (newWithLimit merged.events maxRows = .ok merged ∧ fromBatches [merged.batch] = .ok merged) ↔
      SupersedesLast base staged ∧
        (base.events ++ staged.events).dedup.length ≤ maxKnowledgeRows := by
  obtain ⟨hbaseRows, hbaseCloses⟩ := hbase.rows
  obtain ⟨acc, hacc, hlen, rfl⟩ := mergeWithLimit_spec hbaseRows hmerge
  have hrows := MergesEvents.valid hacc hbaseRows
  have hperm : (sortEvents acc.1).Perm acc.1 := perm_insertionSort _ acc.1
  -- the merged rows are those of the two ledgers, each once
  have hunion : acc.1.Perm (base.events ++ staged.events).dedup := by
    rw [perm_ext_iff_of_nodup hacc.nodup.of_map (nodup_dedup _)]
    intro e
    rw [mem_dedup, mem_append, hacc.mem]
  have hlength : (sortEvents acc.1).length = acc.1.length := hperm.length_eq
  have hsorted : sortEvents (sortEvents acc.1) = sortEvents acc.1 :=
    insertionSort_key_eq_of_perm ((hrows.perm hperm.symm).nodup_key (·.recordedAtMicros)) hperm
  have hcloses : ClosesLast (sortEvents acc.1) ↔ SupersedesLast base staged := by
    rw [← MergesEvents.closesLast_iff hacc hbaseCloses hstaged.rows.2]
    exact ⟨fun h => h.perm hperm, fun h => h.perm hperm.symm⟩
  rw [fromBatches_batch, newWithLimit_eq_ok_iff, newWithLimit_eq_ok_iff, hsorted, hlength, hcloses,
    ← hunion.length_eq]
  constructor
  · rintro ⟨⟨_, _, hlast, _⟩, hbound, _⟩
    exact ⟨hlast, hbound⟩
  · rintro ⟨hlast, hbound⟩
    have hvalid := hrows.perm hperm.symm
    exact ⟨⟨hlen, hvalid, hlast, rfl⟩, hbound, hvalid, hlast, rfl⟩

/-! A status at time 10 in the base, and a supersession of the assertion staged with time `t`. -/

/-- Identifiers of the sample, of version 7. -/
def sampleUuid (n : Fin 16) : Uuid := ⟨7 * 2 ^ 76 + n.val, by have := n.isLt; omega⟩

/-- An event of the sample. -/
def sampleEvent (n : Fin 16) (status : AssertionStatus) (t : ℤ) : AssertionStatusEvent :=
  ⟨sampleUuid n, sampleUuid 1, status, none, none, sampleUuid 2, t, 1⟩

/-- A ledger of one event is accepted. -/
lemma sample_accepted (n : Fin 16) (status : AssertionStatus) (t : ℤ) :
    AssertionStatusLedger.Accepted ⟨[sampleEvent n status t]⟩ := by
  left
  refine ⟨[sampleEvent n status t], 1, ?_⟩
  rw [newWithLimit_eq_ok_iff]
  refine ⟨le_rfl, ⟨?_, nodup_singleton _⟩, ?_, rfl⟩
  · intro e he
    rw [mem_singleton.mp he]
    -- the check reads neither the status nor the time
    have hcheck : ∀ n : Fin 16, validateEvent (sampleEvent n .supported 0) = .ok () := by
      decide +kernel
    exact hcheck n
  · intro a ha b hb hlt
    rw [mem_singleton.mp ha, mem_singleton.mp hb] at hlt
    exact absurd hlt (lt_irrefl _)

/-- A supersession recorded after the status of the base. -/
theorem mergeWithLimit_closed_later :
    newWithLimit [sampleEvent 3 .supported 10, sampleEvent 4 .superseded 12] 2 =
        .ok ⟨[sampleEvent 3 .supported 10, sampleEvent 4 .superseded 12]⟩ ∧
      fromBatches [batch ⟨[sampleEvent 3 .supported 10, sampleEvent 4 .superseded 12]⟩] =
        .ok ⟨[sampleEvent 3 .supported 10, sampleEvent 4 .superseded 12]⟩ := by
  have hmerge : mergeWithLimit ⟨[sampleEvent 3 .supported 10]⟩ ⟨[sampleEvent 4 .superseded 12]⟩ 2 =
      .ok ⟨[sampleEvent 3 .supported 10, sampleEvent 4 .superseded 12]⟩ := by decide +kernel
  exact (mergeWithLimit_closed_iff (sample_accepted 3 .supported 10)
    (sample_accepted 4 .superseded 12) hmerge).mpr ⟨by decide +kernel, by decide +kernel⟩

/-- A supersession recorded before the status of the base: the merge succeeds, and neither the
constructor nor the reader takes the result. -/
theorem mergeWithLimit_earlier_supersession :
    AssertionStatusLedger.Accepted ⟨[sampleEvent 3 .supported 10]⟩ ∧
      AssertionStatusLedger.Accepted ⟨[sampleEvent 4 .superseded 5]⟩ ∧
      mergeWithLimit ⟨[sampleEvent 3 .supported 10]⟩ ⟨[sampleEvent 4 .superseded 5]⟩ 2 =
        .ok ⟨[sampleEvent 4 .superseded 5, sampleEvent 3 .supported 10]⟩ ∧
      newWithLimit [sampleEvent 4 .superseded 5, sampleEvent 3 .supported 10] 2 =
        .error supersededIsTerminal ∧
      fromBatches [batch ⟨[sampleEvent 4 .superseded 5, sampleEvent 3 .supported 10]⟩] =
        .error supersededIsTerminal := by
  exact ⟨sample_accepted 3 .supported 10, sample_accepted 4 .superseded 5, by decide +kernel,
    by decide +kernel, by decide +kernel⟩

end GraphForge.Knowledge
