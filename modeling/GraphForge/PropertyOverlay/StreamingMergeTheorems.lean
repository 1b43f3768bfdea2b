import GraphForge.PropertyOverlay.SnapshotMergeTheorems
import GraphForge.PropertyOverlay.StreamingMerge
import Mathlib.Algebra.Order.BigOperators.Group.List
import Mathlib.Data.List.Flatten

/-!
# Correctness of the streaming route merge

Skipping fragments and row groups by their bounds loses no nominated row. The merge loop
then keeps this invariant: the rows its cursors have left, together with the rows of the
fragments still unopened, resolve to what has yet to be emitted. A row taken from the heap
is final because every unopened fragment starts above it.

No check of the cursors fails on a stored fragment, and no cursor the heap names is
closed, so nothing but the byte limits refuses the merge; the streaming and the spooled merge
emit the same rows.
-/

namespace GraphForge.PropertyOverlay

open List

open Except (Ends Runs)
open NewestWins OverlayError

variable {L : Type} {uuids : Option UuidMembership} {read : RouteRead L}
variable {m : SpoolMerger L} {cursors : StreamCursors L} {r : SpoolRecord L}
  {fragments : List (StoredFragment L)}

/-! ## Bounds -/

/-- The range of row groups bounds the bounds of each, and what was accumulated before. -/
lemma le_uuidRange {groups : List (RowGroup L)} {range : Option (Uuid × Uuid)} {low high : Uuid}
    (h : uuidRange range groups = some (low, high)) :
    (∀ r ∈ range, low ≤ r.1 ∧ r.2 ≤ high) ∧
    ∀ g ∈ groups, ∃ b, g.bounds = some b ∧ low ≤ b.1 ∧ b.2 ≤ high := by
  induction groups generalizing range with
  | nil =>
    rw [uuidRange] at h
    subst h
    simp
  | cons g groups ih =>
    rw [uuidRange] at h
    rcases hb : g.bounds with _ | ⟨min, max⟩
    · simp [hb] at h
    rw [hb] at h
    rcases range with _ | ⟨low', high'⟩
    · obtain ⟨hrange, hgroups⟩ := ih h
      exact ⟨by simp, forall_mem_cons.mpr ⟨⟨_, hb, hrange _ rfl⟩, hgroups⟩⟩
    obtain ⟨hrange, hgroups⟩ := ih h
    obtain ⟨hlow, hhigh⟩ := hrange _ rfl
    refine ⟨?_, forall_mem_cons.mpr ⟨?_, hgroups⟩⟩
    · rintro r ⟨⟩
      exact ⟨hlow.trans (min_le_left _ _), (le_max_left _ _).trans hhigh⟩
    · exact ⟨_, hb, hlow.trans (min_le_right _ _), (le_max_right _ _).trans hhigh⟩

variable (f : StoredFragment L)

/-- The declared range of a fragment bounds its rows. -/
lemma StoredFragment.range_bounds {range : Uuid × Uuid} (h : f.range = some range)
    {row : PropertySnapshotRow L} (hrow : row ∈ f.rows) :
    range.1 ≤ row.uuid ∧ row.uuid ≤ range.2 := by
  rw [f.rows_eq, mem_flatMap] at hrow
  obtain ⟨g, hg, hrow⟩ := hrow
  obtain ⟨b, hb, hlow, hhigh⟩ := (le_uuidRange h).2 g hg
  obtain ⟨hmin, hmax⟩ := f.truthful g hg b hb row hrow
  exact ⟨hlow.trans hmin, hmax.trans hhigh⟩

lemma StoredFragment.min_le {row : PropertySnapshotRow L} (hrow : row ∈ f.rows) :
    f.min ≤ row.uuid := by
  unfold StoredFragment.min
  rcases hr : f.range with _ | range
  · exact Fin.zero_le _
  · exact (f.range_bounds hr hrow).1

/-! ## Skipping -/

/-- Row groups that are not selected hold no nominated row. -/
lemma filter_selectGroups {wanted : UuidMembership} {groups : List (RowGroup L)}
    (htruth : ∀ g ∈ groups, ∀ b ∈ g.bounds, ∀ row ∈ g.rows, b.1 ≤ row.uuid ∧ row.uuid ≤ b.2) :
    ((selectGroups wanted groups).flatMap RowGroup.rows).filter
        (fun row => wanted.containsUuid row.uuid) =
      (groups.flatMap RowGroup.rows).filter (fun row => wanted.containsUuid row.uuid) := by
  induction groups with
  | nil => rfl
  | cons g groups ih =>
    have ih := ih fun g' hg' => htruth g' (mem_cons_of_mem _ hg')
    unfold selectGroups at ih ⊢
    rw [filter_cons]
    split
    · rw [flatMap_cons, flatMap_cons, filter_append, filter_append, ih]
    next hskip =>
      have hnone : g.rows.filter (fun row => wanted.containsUuid row.uuid) = [] := by
        refine filter_eq_nil_iff.mpr fun row hrow hwanted => hskip ?_
        rcases hb : g.bounds with _ | b
        · rfl
        · obtain ⟨hmin, hmax⟩ := htruth g mem_cons_self b hb row hrow
          exact wanted.mayContain_of_contains hwanted hmin hmax
      rw [flatMap_cons, filter_append, hnone, nil_append, ih]

/-- What a decoder delivers holds every nominated row of the fragment. -/
lemma filter_projectedFragmentRows :
    (projectedFragmentRows uuids f).filter (fun row => wants uuids row.uuid) =
      f.rows.filter fun row => wants uuids row.uuid := by
  rw [f.rows_eq]
  cases uuids with
  | none => rfl
  | some wanted =>
    have hselect := @filter_selectGroups L wanted f.groups f.truthful
    simp only [projectedFragmentRows]
    split
    · refine Eq.trans ?_ hselect
      exact filter_filter.trans (by simp [wants])
    · exact hselect

/-- A decoder delivers rows of the fragment, in their order. -/
lemma projectedFragmentRows_sublist : (projectedFragmentRows uuids f).Sublist f.rows := by
  have hselect : ∀ wanted,
      ((selectGroups wanted f.groups).flatMap RowGroup.rows).Sublist f.rows := by
    intro wanted
    rw [f.rows_eq]
    exact filter_sublist.flatMap _
  cases uuids with
  | none => rw [f.rows_eq]; exact Sublist.refl _
  | some wanted =>
    simp only [projectedFragmentRows]
    split
    · exact filter_sublist.trans (hselect wanted)
    · exact hselect wanted

/-! ## Cursors -/

/-- The nominated records of a fragment. -/
def StoredFragment.wantedRecords (uuids : Option UuidMembership) (f : StoredFragment L) :
    List (SpoolRecord L) :=
  (f.rows.filter fun row => wants uuids row.uuid).map (SpoolRecord.ofRow f.id)

lemma runs_chargeLive (bytes : ℕ) : Runs IsByteLimit (fun _ => True) (chargeLive bytes) :=
  fun budget => (ends_charge budget bytes).bind fun _ _ => .ok trivial

lemma runs_releaseLive (bytes : ℕ) : Runs IsByteLimit (fun _ => True) (releaseLive bytes) :=
  Except.runs_modify _

lemma runs_refuseIf {p : Prop} [Decidable p] {e : OverlayError} (h : p → e.IsByteLimit) :
    Runs IsByteLimit (fun _ => ¬p) (Except.refuseIf p e : BudgetM Unit) :=
  (Except.ends_refuseIf h).lift

/-- A row is delivered, unless its batch is not admitted. -/
lemma runs_nextAdmitted (id : PropertyFragmentId) (next : PendingRow L) :
    Runs IsByteLimit (· = next.row) (nextAdmitted read id next) := by
  have hbatch : Runs IsByteLimit (fun _ => True) (next.batch.forM (read.admitBatch id)) := by
    cases next.batch with
    | none => exact .pure trivial
    | some batch =>
      refine (runs_chargeLive _).bind fun _ _ => ?_
      refine (runs_refuseIf (e := arrowBatchExceedsAdmission) fun _ => trivial).bind fun _ _ => ?_
      refine (runs_chargeLive _).bind fun _ _ => ?_
      refine (runs_refuseIf (e := rowExceedsByteLimit) fun _ => trivial).bind fun _ _ => ?_
      refine (runs_releaseLive _).bind fun _ _ => ?_
      refine (runs_chargeLive _).bind fun _ _ => ?_
      exact runs_releaseLive _
  refine hbatch.bind fun _ _ => ?_
  exact (runs_releaseLive _).bind fun _ _ => .pure rfl

/-- The decoder delivers the rows of the fragment's selection. -/
lemma map_pendingRows (read : RouteRead L) (f : StoredFragment L) :
    (pendingRows read f).map PendingRow.row = projectedFragmentRows read.uuids f := by
  have hbatch : ∀ batch : List (PropertySnapshotRow L),
      (batchRows batch).map PendingRow.row = batch := by
    intro batch
    cases batch with
    | nil => rfl
    | cons row rest => simp [batchRows, Function.comp_def]
  have hpos : 0 < read.admittedBatchRows := by
    unfold RouteRead.admittedBatchRows
    omega
  rw [pendingRows, map_flatMap]
  simp only [hbatch]
  rw [flatMap_id', flatten_chunks hpos]

/-- A cursor over valid rows gives the nominated ones, unless a byte limit refuses. -/
lemma yields_advance {id : PropertyFragmentId} {range : Option (Uuid × Uuid)} {reservation : ℕ}
    {rows : List (PendingRow L)} {prior : Option Uuid}
    (hsorted : rows.Pairwise (·.row.uuid < ·.row.uuid))
    (htomb : ∀ next ∈ rows, next.row.tombstone = true → next.row.values = [])
    (hrange : ∀ r ∈ range, ∀ next ∈ rows, r.1 ≤ next.row.uuid ∧ next.row.uuid ≤ r.2)
    (hprior : ∀ u ∈ prior, ∀ next ∈ rows, u < next.row.uuid) :
    YieldsFrom IsByteLimit (Cursor.advance read) ⟨rows, id, range, prior, reservation⟩
      (((rows.map PendingRow.row).filter fun row => wants read.uuids row.uuid).map
        (SpoolRecord.ofRow id)) := by
  induction rows generalizing prior with
  | nil =>
    refine (runs_chargeLive _).bind fun _ _ => ?_
    refine (runs_releaseLive _).bind fun _ _ => ?_
    exact (runs_releaseLive _).bind fun _ _ => .pure rfl
  | cons next rows ih =>
    obtain ⟨hfirst, hsorted'⟩ := pairwise_cons.mp hsorted
    have hrest := @ih (some next.row.uuid) hsorted'
      (fun r hr => htomb r (mem_cons_of_mem _ hr))
      (fun b hb r hr => hrange b hb r (mem_cons_of_mem _ hr))
      (by rintro u ⟨⟩ r hr; exact hfirst r hr)
    have htombstone := not_carriesValues (htomb next mem_cons_self)
    have horder := not_unsorted fun u hu => hprior u hu next mem_cons_self
    have hbounds : ¬(range.any fun r => next.row.uuid < r.1 || r.2 < next.row.uuid) = true := by
      cases range with
      | none => simp
      | some r => simpa using hrange r rfl next mem_cons_self
    have hwants : read.uuids.any (!·.containsUuid next.row.uuid) =
        !wants read.uuids next.row.uuid := by
      cases read.uuids <;> rfl
    -- the row passes every check, so what is left is whether it is wanted
    have hpull : ∀ {Q}, Runs IsByteLimit Q
        (if read.uuids.any (!·.containsUuid next.row.uuid) then
          Cursor.advance read ⟨rows, id, range, some next.row.uuid, reservation⟩
        else pure (some (SpoolRecord.ofRow id next.row,
          ⟨rows, id, range, some next.row.uuid, reservation⟩))) →
        Runs IsByteLimit Q (Cursor.advance read ⟨next :: rows, id, range, prior, reservation⟩) := by
      intro Q hQ
      refine (runs_nextAdmitted id next).bind fun row hrow => ?_
      subst hrow
      refine (runs_refuseIf fun hbad => absurd hbad htombstone).bind fun _ _ => ?_
      refine (runs_refuseIf fun hbad => absurd hbad horder).bind fun _ _ => ?_
      exact (runs_refuseIf fun hbad => absurd hbad hbounds).bind fun _ _ => hQ
    rw [hwants] at hpull
    cases hw : wants read.uuids next.row.uuid with
    | false =>
      rw [map_cons, filter_cons, if_neg (by simp [hw])]
      exact hrest.of_pull fun Q hQ => hpull (by simpa [hw] using hQ)
    | true =>
      rw [map_cons, filter_cons, if_pos hw, map_cons]
      refine hpull ?_
      rw [hw]
      exact .pure ⟨_, rfl, hrest⟩

/-- A cursor opened on a stored fragment gives its nominated records. -/
lemma StoredFragment.runs_open : Runs IsByteLimit
    (YieldsFrom IsByteLimit (Cursor.advance read) · (f.wantedRecords read.uuids))
    (openProjectedFragment read f) := by
  have hpages : Runs IsByteLimit (fun _ => True)
      ((read.sizes.pages f.id).mapError pageAdmission : BudgetM ℕ) := by
    refine Ends.lift ?_
    cases read.sizes.pages f.id with
    | ok pages => exact .ok trivial
    | error message => exact .error trivial
  refine (runs_chargeLive _).bind fun _ _ => hpages.bind fun _ _ => ?_
  refine (runs_chargeLive _).bind fun _ _ => .pure ?_
  have hrows := map_pendingRows read f
  have hsub := @projectedFragmentRows_sublist L read.uuids f
  rw [← hrows] at hsub
  have hmem : ∀ next ∈ pendingRows read f, next.row ∈ f.rows :=
    fun next hnext => hsub.subset (mem_map_of_mem hnext)
  have hsorted := pairwise_map.mp (f.sorted.sublist hsub)
  unfold StoredFragment.wantedRecords
  rw [← filter_projectedFragmentRows, ← hrows]
  exact yields_advance hsorted (fun next hnext => f.tombstones _ (hmem next hnext))
    (fun r hr next hnext => f.range_bounds hr (hmem next hnext)) (by simp)

lemma StoredFragment.wantedRecords_sorted :
    (f.wantedRecords uuids).Pairwise (·.sortKey ≤ ·.sortKey) :=
  pairwise_map.mpr ((f.sorted.filter _).imp fun h => SpoolRecord.sortKey_le_of_uuid_lt h)

lemma StoredFragment.mem_wantedRecords {f : StoredFragment L} :
    r ∈ f.wantedRecords uuids ↔ r ∈ f.records ∧ wants uuids r.uuid = true := by
  simp only [wantedRecords, PropertyFragment.records, mem_map, mem_filter]
  constructor
  · rintro ⟨row, ⟨hrow, hw⟩, rfl⟩
    exact ⟨⟨row, hrow, rfl⟩, hw⟩
  · rintro ⟨⟨row, hrow, rfl⟩, hw⟩
    exact ⟨row, ⟨hrow, hw⟩, rfl⟩

lemma StoredFragment.min_le_wantedRecords {f : StoredFragment L} (hr : r ∈ f.wantedRecords uuids) :
    f.min ≤ r.uuid := by
  obtain ⟨row, hrow, rfl⟩ := mem_map.mp (mem_wantedRecords.mp hr).1
  exact f.min_le hrow

/-! ## Steps of the merge -/

/-- The cursors stand for the rows that `m` merges, and only a byte limit stops them. -/
abbrev Streams (read : RouteRead L) (cursors : StreamCursors L) (m : SpoolMerger L) : Prop :=
  CursorHeap.Refines (YieldsFrom IsByteLimit (Cursor.advance read)) cursors m

/-- The frontier is the UUID of the row a step takes. -/
lemma frontier_eq (h : Streams read cursors m) :
    frontier cursors = m.next.map fun r => r.1.uuid := by
  rw [frontier, CursorHeap.peek_eq_pop]
  rcases hp : cursors.pop with _ | ⟨key, index, cursors'⟩
  · rw [h.pop_eq_none_iff.mp hp]
    rfl
  · obtain ⟨row, m', hnext, rfl, -⟩ := h.pop_from hp .cursorClosed
    rw [hnext]
    rfl

/-- The row a step takes has the least pending UUID, and is the newest of it. -/
lemma le_of_step {m' : SpoolMerger L} (ha : m.Ascending)
    {row : SpoolRecord L} {i : ℕ} (h : m.next = some (row, i, m')) {x : SpoolRecord L}
    (hx : x ∈ m.pending) : row.uuid ≤ x.uuid ∧ (x.uuid = row.uuid → x.id ≤ row.id) := by
  rcases sortKey_le_iff.mp (ha.le_of_next h x hx) with hlt | ⟨heq, hle⟩
  · exact ⟨hlt.le, fun heq => absurd heq hlt.ne'⟩
  · exact ⟨heq.le, fun _ => hle⟩

/-- The nominated records of the fragments still to be opened. -/
def planRecords (uuids : Option UuidMembership) (plan : List (StoredFragment L)) :
    List (SpoolRecord L) :=
  plan.flatMap (StoredFragment.wantedRecords uuids)

/-- The records pending or planned. -/
def outstanding (uuids : Option UuidMembership) (m : SpoolMerger L) (plan : List (StoredFragment L)) :
    Set (SpoolRecord L) :=
  {x | x ∈ m.pending ++ planRecords uuids plan}

/-- Opening fragments moves their records from the plan to the cursors. It stops where every
fragment left starts above the frontier. -/
lemma ends_openFragments {plan : List (StoredFragment L)} (hplan : plan.Pairwise (·.min ≤ ·.min))
    (href : Streams read cursors m) (ha : m.Ascending) :
    Runs IsByteLimit (fun r => ∃ m', Streams read r.2 m' ∧ m'.Ascending ∧
      r.1.Pairwise (·.min ≤ ·.min) ∧
      (m'.pending ++ planRecords read.uuids r.1).Perm (m.pending ++ planRecords read.uuids plan) ∧
      ∀ f ∈ r.1, ∃ row i m'', m'.next = some (row, i, m'') ∧ row.uuid < f.min)
      (openFragments read plan cursors) := by
  induction plan generalizing cursors m with
  | nil => exact .pure ⟨m, href, ha, .nil, Perm.refl _, by simp⟩
  | cons f plan ih =>
    obtain ⟨hfirst, hplan'⟩ := pairwise_cons.mp hplan
    rw [openFragments]
    split
    next hstop =>
      refine .pure ⟨m, href, ha, hplan, Perm.refl _, fun g hg => ?_⟩
      rw [frontier_eq href] at hstop
      rcases hnext : m.next with _ | ⟨row, i, m''⟩
      · simp [hnext] at hstop
      rw [hnext] at hstop
      have hlt : row.uuid < f.min := by simpa using hstop
      refine ⟨row, i, m'', rfl, ?_⟩
      rcases mem_cons.mp hg with rfl | hg
      · exact hlt
      · exact hlt.trans_le (hfirst g hg)
    · refine (StoredFragment.runs_open f).bind fun cursor hcursor => ?_
      refine hcursor.runs_pull.bind fun slot hslot => ?_
      match slot, hslot with
      | none, hslot =>
        have hempty : f.wantedRecords read.uuids = [] := hslot
        refine (ih hplan' href ha).mono fun r hr => ?_
        rwa [show planRecords read.uuids (f :: plan) = planRecords read.uuids plan by
          simp [planRecords, hempty]]
      | some head, hslot =>
        refine (ih hplan' (href.append hslot) (ha.openRun f.wantedRecords_sorted)).mono ?_
        rintro r ⟨m', href', ha', hplan'', hperm, hstop⟩
        refine ⟨m', href', ha', hplan'', hperm.trans ?_, hstop⟩
        rw [Merger.pending_openRun, append_assoc]
        exact Perm.refl _

/-- Dropping the shadowed rows of the least UUID leaves the rows of the other UUIDs. -/
lemma ends_dropShadowed {uuid : Uuid} {fuel : ℕ} (href : Streams read cursors m) (ha : m.Ascending)
    (hleast : ∀ x ∈ m.pending, uuid ≤ x.uuid) (hfuel : m.pending.length ≤ fuel) :
    Runs IsByteLimit (fun c => ∃ m', Streams read c m' ∧ m'.Ascending ∧
      m'.pending.Perm (m.pending.filter (·.uuid ≠ uuid))) (dropShadowed read uuid fuel cursors) := by
  induction fuel generalizing cursors m with
  | zero =>
    have hnil := length_eq_zero_iff.mp (Nat.le_zero.mp hfuel)
    exact .pure ⟨m, href, ha, by rw [hnil]; exact Perm.refl _⟩
  | succ fuel ih =>
    rw [dropShadowed, frontier_eq href]
    split
    next hsame =>
      rcases hp : cursors.pop with _ | ⟨key, index, cursors'⟩
      · rw [href.pop_eq_none_iff.mp hp] at hsame
        simp at hsame
      obtain ⟨row, m', hnext, -, htake⟩ := href.pop_from hp .cursorClosed
      have hrow : row.uuid = uuid := by simpa [hnext] using hsame
      have hpending := Merger.pending_of_next hnext
      have hlen := Merger.length_pending_of_next hnext
      refine htake.bind fun ⟨row', cursors''⟩ ⟨_, href'⟩ => ?_
      have hleast' : ∀ x ∈ m'.pending, uuid ≤ x.uuid := fun x hx =>
        hleast x (hpending.mem_iff.mpr (mem_cons_of_mem _ hx))
      refine (ih href' (ha.next hnext) hleast' (by omega)).mono ?_
      rintro c ⟨m'', href'', ha'', hperm⟩
      refine ⟨m'', href'', ha'', hperm.trans ?_⟩
      have hfilter := hpending.filter (·.uuid ≠ uuid)
      rw [filter_cons, if_neg (by simp [hrow])] at hfilter
      exact hfilter.symm
    next hother =>
      refine .pure ⟨m, href, ha, ?_⟩
      rw [filter_eq_self.mpr]
      intro x hx
      rcases hnext : m.next with _ | ⟨row, i, m'⟩
      · rw [Merger.pending_eq_nil_of_next hnext] at hx
        simp at hx
      · have hne : row.uuid ≠ uuid := by simpa [hnext] using hother
        have hrow := hleast row ((Merger.pending_of_next hnext).mem_iff.mpr mem_cons_self)
        have hlt := lt_of_le_of_ne hrow hne.symm
        simpa using (hlt.trans_le (le_of_step ha hnext hx).1).ne'

/-! ## Whole merges -/

/-- The loop emits the live rows of the resolution of everything still pending or planned;
the fuel is enough when it exceeds the number of these rows. -/
lemma ends_streamLoop {fuel : ℕ} {plan : List (StoredFragment L)}
    (hplan : plan.Pairwise (·.min ≤ ·.min)) (href : Streams read cursors m) (ha : m.Ascending)
    (hranked : Ranked SpoolRecord.uuid SpoolRecord.id (outstanding read.uuids m plan))
    (hfuel : (m.pending ++ planRecords read.uuids plan).length < fuel) :
    Runs IsByteLimit (fun rows => ∃ out,
      Resolves SpoolRecord.uuid SpoolRecord.id (outstanding read.uuids m plan) out ∧
      rows = (out.filter fun r => !r.tombstone).map SpoolRecord.toRow)
      (streamLoop read fuel plan cursors) := by
  induction fuel generalizing plan cursors m with
  | zero => omega
  | succ fuel ih =>
    refine (ends_openFragments hplan href ha).bind fun ⟨plan₁, cursors₁⟩ hopen => ?_
    obtain ⟨m₁, href₁, ha₁, hplan₁, hperm, hstop⟩ := hopen
    have hset : outstanding read.uuids m plan = outstanding read.uuids m₁ plan₁ :=
      Set.ext fun x => hperm.mem_iff.symm
    rw [hset] at hranked ⊢
    rw [← hperm.length_eq, length_append] at hfuel
    simp only
    rcases hp : cursors₁.pop with _ | ⟨key, index, cursors₂⟩
    · -- nothing is offered, so nothing is left in the plan either
      have hnone := href₁.pop_eq_none_iff.mp hp
      have hempty : plan₁ = [] := by
        refine eq_nil_iff_forall_not_mem.mpr fun f hf => ?_
        obtain ⟨row, i, m'', hnext, -⟩ := hstop f hf
        simp [hnone] at hnext
      refine .pure ⟨[], ?_, rfl⟩
      rw [outstanding, Merger.pending_eq_nil_of_next hnone, hempty]
      exact resolves_of_ascending .nil
    · obtain ⟨row, m₂, hnext, rfl, htake⟩ := href₁.pop_from hp .cursorClosed
      have hpending := Merger.pending_of_next hnext
      have hlen := Merger.length_pending_of_next hnext
      have hleast : ∀ x ∈ m₁.pending, row.uuid ≤ x.uuid := fun x hx => (le_of_step ha₁ hnext hx).1
      have hplanned : ∀ x ∈ planRecords read.uuids plan₁, row.uuid < x.uuid := by
        intro x hx
        obtain ⟨f, hf, hx⟩ := mem_flatMap.mp hx
        obtain ⟨row', i, m'', hnext', hlt⟩ := hstop f hf
        obtain rfl : row = row' := by simpa [hnext] using congrArg (Option.map Prod.fst) hnext'
        exact hlt.trans_le (StoredFragment.min_le_wantedRecords hx)
      have hmem : row ∈ m₁.pending := hpending.mem_iff.mpr mem_cons_self
      refine htake.bind fun ⟨newest, cursors₃⟩ htaken => ?_
      obtain ⟨rfl, href₂⟩ : newest = row ∧ Streams read cursors₃ m₂ := htaken
      have hleast₂ : ∀ x ∈ m₂.pending, newest.uuid ≤ x.uuid := fun x hx =>
        hleast x (hpending.mem_iff.mpr (mem_cons_of_mem _ hx))
      refine (ends_dropShadowed href₂ (ha₁.next hnext) hleast₂ (by omega)).bind ?_
      rintro cursors₄ ⟨m₃, href₃, ha₃, hperm₃⟩
      -- what is left after this UUID
      have hrest : outstanding read.uuids m₃ plan₁ =
          {x | x ∈ outstanding read.uuids m₁ plan₁ ∧ x.uuid ≠ newest.uuid} := by
        ext x
        simp only [outstanding, Set.mem_ofPred_eq, mem_append, hperm₃.mem_iff, mem_filter,
          hpending.mem_iff, mem_cons, decide_eq_true_eq]
        constructor
        · rintro (⟨hx, hne⟩ | hx)
          · exact ⟨Or.inl (Or.inr hx), hne⟩
          · exact ⟨Or.inr hx, (hplanned x hx).ne'⟩
        · rintro ⟨(rfl | hx) | hx, hne⟩
          · exact absurd rfl hne
          · exact Or.inl ⟨hx, hne⟩
          · exact Or.inr hx
      have hshort : m₃.pending.length ≤ m₂.pending.length := by
        rw [hperm₃.length_eq]
        exact length_filter_le _ _
      have hranked₃ := hranked.subset (hrest.le.trans fun x hx => hx.1)
      refine (ih hplan₁ href₃ ha₃ hranked₃ (by rw [length_append]; omega)).bind ?_
      rintro rows ⟨out, hout, rfl⟩
      rw [hrest] at hout
      have hall : ∀ x ∈ outstanding read.uuids m₁ plan₁,
          newest.uuid ≤ x.uuid ∧ (x.uuid = newest.uuid → x.id ≤ newest.id) := by
        intro x hx
        rcases mem_append.mp hx with hx | hx
        · exact le_of_step ha₁ hnext hx
        · exact ⟨(hplanned x hx).le, fun h => absurd h (hplanned x hx).ne'⟩
      refine .pure ⟨newest :: out, Resolves.cons hranked ⟨mem_append_left _ hmem, ?_⟩ ?_ hout, ?_⟩
      · exact fun x hx => (hall x hx).2
      · exact fun x hx => (hall x hx).1
      · cases ht : newest.tombstone <;> simp [ht]

/-- The fragments of a stored route. -/
def routeFragments (fragments : List (StoredFragment L)) : List (PropertyFragment L) :=
  fragments.map StoredFragment.toPropertyFragment

/-- The plan holds every nominated record of the route. -/
lemma mem_planRecords : r ∈ planRecords uuids (planFragments uuids fragments) ↔
      r ∈ routeRecords (routeFragments fragments) ∧ wants uuids r.uuid = true := by
  simp only [planRecords, mem_flatMap, planFragments, mem_insertionSort, mem_filter,
    StoredFragment.mem_wantedRecords, routeRecords, routeFragments, mem_map, Set.mem_ofPred_eq]
  constructor
  · rintro ⟨f, ⟨hf, -⟩, hr, hw⟩
    exact ⟨⟨_, ⟨f, hf, rfl⟩, hr⟩, hw⟩
  · rintro ⟨⟨_, ⟨f, hf, rfl⟩, hr⟩, hw⟩
    refine ⟨f, ⟨hf, ?_⟩, hr, hw⟩
    -- a fragment whose range is denied would hold no nominated row
    rcases uuids with _ | wanted
    · rfl
    · rcases hrange : f.range with _ | range
      · rfl
      · obtain ⟨row, hrow, rfl⟩ := mem_map.mp hr
        obtain ⟨hmin, hmax⟩ := f.range_bounds hrange hrow
        exact wanted.mayContain_of_contains hw hmin hmax

lemma planFragments_sorted (fragments : List (StoredFragment L)) :
    (planFragments uuids fragments).Pairwise (·.min ≤ ·.min) := by
  refine (pairwise_insertionSort _ _).imp fun {f g} h => ?_
  rcases Prod.Lex.toLex_le_toLex.mp h with h | h
  · exact h.le
  · exact h.1.le

lemma length_planRecords_le (uuids : Option UuidMembership) (plan : List (StoredFragment L)) :
    (planRecords uuids plan).length ≤ (plan.map fun f => f.rows.length).sum := by
  rw [planRecords, length_flatMap]
  refine sum_le_sum fun f _ => ?_
  rw [StoredFragment.wantedRecords, length_map]
  exact length_filter_le _ _

/-- A route has rows such that the streaming merge emits the nominated ones of them, unless a byte
limit refuses it: the newest live rows by ascending UUID. -/
lemma visitRouteStreaming_spec (hids : (fragments.map fun f => f.id).Nodup) :
    ∃ rows, EmitsNewest (routeFragments fragments) rows ∧ ∀ read : RouteRead L,
      Ends IsByteLimit (· = rows.filter fun row => wants read.uuids row.uuid)
        (visitRouteStreaming read fragments) := by
  have hids' : ((routeFragments fragments).map PropertyFragment.id).Nodup := by
    rw [routeFragments, map_map]
    exact hids
  obtain ⟨rows, hrows⟩ := exists_emitsNewest hids'
  refine ⟨rows, hrows, fun read => ?_⟩
  have hset : outstanding read.uuids Merger.empty (planFragments read.uuids fragments) =
      {x | x ∈ routeRecords (routeFragments fragments) ∧ wants read.uuids x.uuid = true} :=
    Set.ext fun x => mem_planRecords
  have hranked : Ranked SpoolRecord.uuid SpoolRecord.id
      {x | x ∈ routeRecords (routeFragments fragments) ∧ wants read.uuids x.uuid = true} :=
    (ranked_routeRecords hids').subset fun x hx => hx.1
  have hloop := ends_streamLoop (planFragments_sorted fragments) CursorHeap.refines_empty
    (by intro c hc; simp [Merger.empty] at hc) (by rw [hset]; exact hranked)
    (Nat.lt_succ_of_le (length_planRecords_le read.uuids (planFragments read.uuids fragments)))
  refine (hloop _).bind ?_
  rintro ⟨emitted, budget⟩ ⟨out, hout, rfl⟩
  rw [hset] at hout
  refine .ok (eq_of_ascending (pairwise_map.mpr (hout.ascending.filter _))
    (hrows.ascending.filter _) fun row => ?_)
  rw [mem_live_iff hout, mem_filter, hrows.mem_iff]

/-- The streaming and the spooled merge emit the same rows, the streaming merge those of the
nominated UUIDs, unless byte limits refuse them. -/
theorem visitRouteStreaming_eq_spooled {codec : SpoolCodec L} {fragments : List (StoredFragment L)}
    (hids : (fragments.map fun f => f.id).Nodup) (read : RouteRead L)
    {inputs : List (SnapshotInput L)}
    (hdel : Forall₂ SnapshotInput.Delivers inputs (routeFragments fragments))
    (hdec : RoundTrips codec (routeFragments fragments)) {limits : PropertyOverlayLimits}
    (hrows : 1 ≤ limits.maxBufferedRows) (hopen : 2 ≤ limits.maxOpenRuns)
    (budget : LiveByteBudget) :
    ∃ rows, EmitsNewest (routeFragments fragments) rows ∧
      Ends IsByteLimit (· = rows.filter fun row => wants read.uuids row.uuid)
        (visitRouteStreaming read fragments) ∧
      Ends (RefusedForBytes limits) (· = rows)
        (visitNewestPropertySnapshots codec inputs limits budget) := by
  obtain ⟨rows, hnewest, hstream⟩ := visitRouteStreaming_spec hids
  have hids' : ((routeFragments fragments).map PropertyFragment.id).Nodup := by
    rw [routeFragments, map_map]
    exact hids
  refine ⟨rows, hnewest, hstream read, ?_⟩
  exact (ends_visitNewest hdel hids' hdec hrows hopen budget).mono fun out hout =>
    hout.unique hnewest

namespace Sample

/-- The base fragment, in one row group that declares its bounds. -/
def storedBase : StoredFragment ℕ where
  toPropertyFragment := base
  groups := [⟨some (5, 9), base.rows⟩]
  rows_eq := rfl
  truthful := by simp [base]

/-- The deletion, in one row group without statistics. -/
def storedDeletion : StoredFragment ℕ where
  toPropertyFragment := deletion
  groups := [⟨none, deletion.rows⟩]
  rows_eq := rfl
  truthful := by simp

/-- A read under the sample's limits, of fragments of the given size. -/
def streamRead (uuids : Option UuidMembership) (source : ℕ) : RouteRead ℕ where
  uuids := uuids
  limits := limits
  sizes := ⟨fun _ => source, fun _ => .ok 64, fun _ batch => 8 * batch.length,
    fun values => 8 * values.length⟩

/-- Two nominated UUIDs. -/
def nominated : UuidMembership := (Membership.btreeSet [5, 9]).toUuidMembership

end Sample

/-- A read of two nominated UUIDs, one of them deleted, against the spooled merge. The two fragments
overlap; where they are too large to be open together, the read is refused. -/
theorem visitRouteStreaming_sample :
    visitRouteStreaming (Sample.streamRead (some Sample.nominated) 256)
        [Sample.storedBase, Sample.storedDeletion] = .ok [⟨9, false, [("age", 41)]⟩] ∧
    visitRouteStreaming (Sample.streamRead (some Sample.nominated) 65536)
        [Sample.storedBase, Sample.storedDeletion] = .error .liveByteBudgetExceeded ∧
    ∃ rows, EmitsNewest (routeFragments [Sample.storedBase, Sample.storedDeletion]) rows ∧
      Ends IsByteLimit (· = rows.filter fun row => wants (some Sample.nominated) row.uuid)
        (visitRouteStreaming (Sample.streamRead (some Sample.nominated) 256)
          [Sample.storedBase, Sample.storedDeletion]) ∧
      Ends (RefusedForBytes Sample.limits) (· = rows)
        (visitNewestPropertySnapshots Sample.jsonCodec
          [Sample.input Sample.base, Sample.input Sample.deletion] Sample.limits ⟨4096, 0⟩) :=
  ⟨by decide +kernel, by decide +kernel,
    visitRouteStreaming_eq_spooled (by decide) (Sample.streamRead (some Sample.nominated) 256)
      Sample.delivers Sample.roundTrips Sample.limits_rows Sample.limits_open ⟨4096, 0⟩⟩

/-- Publishing a newer fragment updates a route as a map: its rows replace those of their UUIDs,
its tombstones hide them, and every other row stays, unless a byte limit refuses a read. -/
theorem visitRouteStreaming_publish {fragments : List (StoredFragment L)} {newer : StoredFragment L}
    (hids : (fragments.map fun f => f.id).Nodup) (hnewer : ∀ f ∈ fragments, f.id < newer.id)
    (read : RouteRead L) :
    ∃ before after, Ends IsByteLimit (· = before) (visitRouteStreaming read fragments) ∧
      Ends IsByteLimit (· = after) (visitRouteStreaming read (newer :: fragments)) ∧
      ∀ row, row ∈ after ↔
        (row ∈ newer.rows ∧ row.tombstone = false ∧ wants read.uuids row.uuid = true) ∨
          (row ∈ before ∧ ∀ r ∈ newer.rows, r.uuid ≠ row.uuid) := by
  obtain ⟨before, hbefore, hstream⟩ := visitRouteStreaming_spec hids
  have hids' : ((newer :: fragments).map fun f => f.id).Nodup := by grind
  obtain ⟨after, hafter, hstream'⟩ := visitRouteStreaming_spec hids'
  refine ⟨_, _, hstream read, hstream' read, fun row => ?_⟩
  rw [mem_filter, mem_filter, hbefore.mem_iff, hafter.mem_iff]
  have hnewest : NewestLive (routeFragments (newer :: fragments)) row ↔
      (row ∈ newer.rows ∧ row.tombstone = false) ∨
        NewestLive (routeFragments fragments) row ∧ ∀ r ∈ newer.rows, r.uuid ≠ row.uuid := by
    simp only [NewestLive, routeFragments, map_cons, mem_cons, mem_map]
    grind
  tauto

/-- A deletion is published over the base. -/
theorem visitRouteStreaming_publish_deletion :
    visitRouteStreaming (Sample.streamRead none 256) [Sample.storedDeletion, Sample.storedBase] =
      .ok [⟨9, false, [("age", 41)]⟩] ∧
    ∃ before after,
      Ends IsByteLimit (· = before)
        (visitRouteStreaming (Sample.streamRead none 256) [Sample.storedBase]) ∧
      Ends IsByteLimit (· = after)
        (visitRouteStreaming (Sample.streamRead none 256)
          [Sample.storedDeletion, Sample.storedBase]) ∧
      ∀ row, row ∈ after ↔
        (row ∈ Sample.deletion.rows ∧ row.tombstone = false ∧ wants none row.uuid = true) ∨
          (row ∈ before ∧ ∀ r ∈ Sample.deletion.rows, r.uuid ≠ row.uuid) :=
  ⟨by decide +kernel,
    visitRouteStreaming_publish (by decide) (by decide) (Sample.streamRead none 256)⟩

end GraphForge.PropertyOverlay
