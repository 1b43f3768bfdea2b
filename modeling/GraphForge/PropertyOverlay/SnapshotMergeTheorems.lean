import GraphForge.PropertyOverlay.SnapshotMerge

/-!
# Correctness of the spooled newest-wins merge

The invariant of the whole pipeline is `Stands runs S`: the spill files `runs` hold the
set `S` of records up to records that a newer one shadows. Sorting a buffer establishes
it, merging keeps it, and the last merge of files that stand for `S` is the resolution of
`S`. No step can fail except by a byte limit.
-/

namespace GraphForge.PropertyOverlay

open List

open Except NewestWins OverlayError

variable {L : Type} {codec : SpoolCodec L}
variable {S : Set (SpoolRecord L)} {st : SpoolState L} {fragments : List (PropertyFragment L)}
  {run : Run} {runs : List Run} {rows out : List (SpoolRecord L)}
  {inputs : List (SnapshotInput L)}

/-! ## The budget -/

lemma ends_charge (budget : LiveByteBudget) (bytes : ℕ) :
    Ends IsByteLimit (fun b => b.max = budget.max) (budget.charge bytes) := by
  unfold LiveByteBudget.charge
  split
  · exact .error trivial
  · split
    · exact .error trivial
    · exact .ok rfl

lemma ends_chargeSlot (budget : LiveByteBudget) (cursors : SpoolCursors L) (index : ℕ) :
    Ends IsByteLimit (fun b => b.max = budget.max)
      (chargeSlot codec budget cursors index) := by
  unfold chargeSlot
  split
  · exact ends_charge _ _
  · exact .ok rfl

/-! ## Spill files -/

/-- Merges of records. -/
abbrev SpoolMerger (L : Type) := Merger (SpoolRecord.sortKey (L := L))

lemma SpoolRecord.sortKey_le_of_uuid_lt {x y : SpoolRecord L} (h : x.uuid < y.uuid) :
    x.sortKey ≤ y.sortKey :=
  sortKey_le_iff.mpr (Or.inl h)

/-- `run` is the file of the sorted list `rows`, and its lines can be read back. -/
structure IsRun (codec : SpoolCodec L) (run : Run) (rows : List (SpoolRecord L)) : Prop where
  lines : run = rows.map codec.encode
  sorted : rows.Pairwise (·.sortKey ≤ ·.sortKey)
  decodes : ∀ r ∈ rows, codec.decode (codec.encode r) = some r

lemma IsRun.length_eq (h : IsRun codec run rows) : run.length = rows.length := by
  rw [h.lines, length_map]

/-- Reading a spill file gives its records back, unless a line is too long. -/
lemma yields_lines (max : ℕ) (h : ∀ r ∈ rows, codec.decode (codec.encode r) = some r) :
    Yields IsByteLimit (readSpool codec max) (rows.map codec.encode) rows := by
  induction rows with
  | nil => exact .stop rfl
  | cons r rows ih =>
    by_cases hlen : max < (codec.encode r).length + 1
    · refine .fail (e := .spillRecordExceedsByteLimit) ?_ trivial
      simp only [map_cons, readSpool, if_pos hlen]
      rfl
    · refine .more ?_ (ih fun r' hr' => h r' (mem_cons_of_mem _ hr'))
      simp only [map_cons, readSpool, if_neg hlen, h r mem_cons_self]
      rfl

/-- A run yields its rows. -/
lemma IsRun.yields (h : IsRun codec run rows) (max : ℕ) :
    Yields IsByteLimit (readSpool codec max) run rows := by
  rw [h.lines]
  exact yields_lines max h.decodes

/-! ## One merge -/

/-- The cursors opened on runs merge the rows of those runs. -/
lemma ends_openRuns (max : ℕ) {rowss : List (List (SpoolRecord L))}
    (h : Forall₂ (IsRun codec) runs rowss) :
    Ends IsByteLimit
      (CursorHeap.Refines (Yields IsByteLimit (readSpool codec max)) · (Merger.ofRuns rowss))
      (openRuns codec max runs) := by
  unfold openRuns Merger.ofRuns
  generalize hc : (CursorHeap.empty : SpoolCursors L) = c
  generalize hm : (Merger.empty : SpoolMerger L) = m
  have href : CursorHeap.Refines (Yields IsByteLimit (readSpool codec max)) c m := by
    rw [← hc, ← hm]
    exact CursorHeap.refines_empty
  clear hc hm
  induction h generalizing c m with
  | nil => exact .ok href
  | cons hrun _ ih =>
    refine Ends.bind (P := fun c' => CursorHeap.Refines
      (Yields IsByteLimit (readSpool codec max)) c' (m.openRun _)) ?_ fun c' hc' => ih c' _ hc'
    exact (hrun.yields max).ends_pull.bind fun slot hslot => .ok (href.append hslot)

/-- The loop keeps the first row of every UUID of the merged rows; the fuel is enough when
it covers the rows still to come. -/
lemma ends_mergeLoop {max fuel : ℕ} {c : SpoolCursors L}
    {m : SpoolMerger L} {budget : LiveByteBudget} {resolved : Option Uuid}
    (href : CursorHeap.Refines (Yields IsByteLimit (readSpool codec max)) c m)
    (hmax : budget.max = max) (hfuel : m.pending.length ≤ fuel) :
    Ends IsByteLimit (fun out => out.1 = firsts SpoolRecord.uuid resolved m.rows)
      (mergeLoop codec fuel c budget resolved) := by
  induction fuel generalizing c m budget resolved with
  | zero =>
    have hrows : m.rows = [] := by
      rw [Merger.rows, Nat.le_zero.mp hfuel]
      rfl
    rw [hrows]
    exact .ok rfl
  | succ fuel ih =>
    rw [mergeLoop]
    rcases hp : c.pop with _ | ⟨k, index, c'⟩
    · rw [Merger.rows_of_next_none (href.pop_eq_none_iff.mp hp)]
      exact .ok rfl
    obtain ⟨row, m', hnext, -, htake⟩ := href.pop hp .heapRowMissing
    have hpending := Merger.length_pending_of_next hnext
    rw [Merger.rows_of_next hnext, firsts]
    subst hmax
    apply htake.bind
    rintro ⟨row', c''⟩ ⟨hrow, href'⟩
    obtain rfl : row' = row := hrow
    refine (ends_chargeSlot _ _ _).bind fun budget' hbudget' => ?_
    split
    · exact ih href' hbudget' (by omega)
    · refine (ih href' hbudget' (by omega)).bind fun out hout => ?_
      exact .ok (congrArg (row' :: ·) hout)

/-- `out` is what merging files that stand for `S` gives: one record per UUID, by ascending
UUID, shadowed records of `S` left out. -/
structure IsMerged (codec : SpoolCodec L) (S : Set (SpoolRecord L)) (out : List (SpoolRecord L)) :
    Prop where
  ascending : out.Pairwise (·.uuid < ·.uuid)
  covers : Covers SpoolRecord.uuid SpoolRecord.id {r | r ∈ out} S
  decodes : ∀ r ∈ out, codec.decode (codec.encode r) = some r

/-- The spill files `runs` hold the records `S`, up to shadowed ones. -/
def Stands (codec : SpoolCodec L) (runs : List Run) (S : Set (SpoolRecord L)) : Prop :=
  ∃ rowss, Forall₂ (IsRun codec) runs rowss ∧
    Covers SpoolRecord.uuid SpoolRecord.id {r | r ∈ rowss.flatten} S

lemma IsMerged.resolves (h : IsMerged codec S out) (hS : Ranked SpoolRecord.uuid SpoolRecord.id S) :
    Resolves SpoolRecord.uuid SpoolRecord.id S out :=
  h.covers.resolves hS (resolves_of_ascending h.ascending)

/-- Merging runs gives the newest record of every UUID. -/
lemma ends_mergeRuns (h : Stands codec runs S) (budget : LiveByteBudget) :
    Ends IsByteLimit (fun out => IsMerged codec S out.1)
      (mergeRuns codec runs budget) := by
  obtain ⟨rowss, hrows, hcovers⟩ := h
  refine (ends_openRuns budget.max hrows).bind fun c href => ?_
  refine (ends_charge _ _).bind fun budget' hbudget' => ?_
  have hlen : (Merger.ofRuns rowss : SpoolMerger L).pending.length ≤
      (runs.map List.length).sum := by
    rw [Merger.pending_ofRuns, length_flatten]
    refine le_of_eq (congrArg List.sum ?_)
    clear hcovers href
    induction hrows with
    | nil => rfl
    | cons hrun _ ih => rw [map_cons, map_cons, hrun.length_eq, ih]
  refine (ends_mergeLoop href hbudget' hlen).mono fun out hout => ?_
  have hruns : ∀ rows ∈ rowss, rows.Pairwise (·.sortKey ≤ ·.sortKey) ∧
      ∀ r ∈ rows, codec.decode (codec.encode r) = some r := by
    intro rows hmem
    obtain ⟨i, hi⟩ := mem_iff_getElem?.mp hmem
    obtain ⟨run, -, hrun⟩ := hrows.exists_of_getElem?_right hi
    exact ⟨hrun.sorted, hrun.decodes⟩
  have hsorted := (Merger.ascending_ofRuns fun rows hmem => (hruns rows hmem).1).rows_sorted
  have hmem : ∀ r, r ∈ (Merger.ofRuns rowss : SpoolMerger L).rows ↔ r ∈ rowss.flatten := by
    intro r
    rw [Merger.mem_rows, Merger.pending_ofRuns]
  have hset : {r | r ∈ (Merger.ofRuns rowss : SpoolMerger L).rows} =
      {r | r ∈ rowss.flatten} := Set.ext hmem
  rw [hout]
  refine ⟨firsts_ascending hsorted, ?_, fun r hr => ?_⟩
  · refine (covers_firsts hsorted).trans ?_
    rw [hset]
    exact hcovers
  · obtain ⟨rows, hrows', hr'⟩ :=
      mem_flatten.mp ((hmem r).mp ((firsts_sublist _ _).subset hr))
    exact (hruns rows hrows').2 r hr'

/-! ## Files that stand for a set of records -/

lemma stands_nil : Stands codec [] ∅ := by
  refine ⟨[], .nil, ?_⟩
  simpa using Covers.refl (∅ : Set (SpoolRecord L))

lemma Stands.append {runs' : List Run} {S' : Set (SpoolRecord L)} (h : Stands codec runs S)
    (h' : Stands codec runs' S') : Stands codec (runs ++ runs') (S ∪ S') := by
  obtain ⟨rowss, hrows, hcovers⟩ := h
  obtain ⟨rowss', hrows', hcovers'⟩ := h'
  refine ⟨rowss ++ rowss', rel_append hrows hrows', ?_⟩
  have := hcovers.union hcovers'
  rwa [show {r | r ∈ (rowss ++ rowss').flatten} = {r | r ∈ rowss.flatten} ∪
    {r | r ∈ rowss'.flatten} by ext r; simp]

/-- What runs together stand for is split among them. -/
lemma Stands.split {runs' : List Run} (h : Stands codec (runs ++ runs') S) :
    ∃ T T', Stands codec runs T ∧ Stands codec runs' T' ∧
      Covers SpoolRecord.uuid SpoolRecord.id (T ∪ T') S := by
  obtain ⟨rowss, hrows, hcovers⟩ := h
  have hleft := forall₂_take runs.length hrows
  have hright := forall₂_drop runs.length hrows
  rw [take_left' rfl] at hleft
  rw [drop_left' rfl] at hright
  refine ⟨_, _, ⟨_, hleft, Covers.refl _⟩, ⟨_, hright, Covers.refl _⟩, ?_⟩
  rw [show {r | r ∈ (rowss.take runs.length).flatten} ∪ {r | r ∈ (rowss.drop runs.length).flatten} =
    {r | r ∈ rowss.flatten} from ?_]
  · exact hcovers
  · ext r
    rw [Set.mem_union, Set.mem_ofPred_eq, Set.mem_ofPred_eq, Set.mem_ofPred_eq, ← mem_append,
      ← flatten_append, take_append_drop]

lemma Stands.of_covers {T : Set (SpoolRecord L)} (h : Stands codec runs T)
    (hc : Covers SpoolRecord.uuid SpoolRecord.id T S) : Stands codec runs S := by
  obtain ⟨rowss, hrows, hcovers⟩ := h
  exact ⟨rowss, hrows, hcovers.trans hc⟩

lemma IsRun.stands (h : IsRun codec run rows) : Stands codec [run] {r | r ∈ rows} := by
  refine ⟨[rows], .cons h .nil, ?_⟩
  simpa using Covers.refl {r | r ∈ rows}

/-- The file a merge writes stands for what was merged. -/
lemma IsMerged.stands (h : IsMerged codec S out) : Stands codec [out.map codec.encode] S := by
  have hrun : IsRun codec (out.map codec.encode) out :=
    ⟨rfl, h.ascending.imp SpoolRecord.sortKey_le_of_uuid_lt, h.decodes⟩
  exact hrun.stands.of_covers h.covers

lemma Stands.isMerged_nil (h : Stands codec [] S) : IsMerged codec S [] := by
  obtain ⟨rowss, hrows, hcovers⟩ := h
  obtain rfl := forall₂_nil_left_iff.mp hrows
  exact ⟨.nil, by simpa using hcovers, by simp⟩

lemma stands_writeSortedRun (h : ∀ r ∈ rows, codec.decode (codec.encode r) = some r) :
    Stands codec [writeSortedRun codec rows] {r | r ∈ rows} := by
  have hrun : IsRun codec (writeSortedRun codec rows)
      (rows.insertionSort (·.sortKey ≤ ·.sortKey)) := by
    refine ⟨rfl, ?_, fun r hr => h r ((mem_insertionSort _).mp hr)⟩
    exact pairwise_insertionSort _ rows
  have hset : {r | r ∈ rows.insertionSort (·.sortKey ≤ ·.sortKey)} = {r | r ∈ rows} :=
    Set.ext fun r => mem_insertionSort _
  rw [← hset]
  exact hrun.stands

/-! ## Compaction -/

/-- Adding a run to the levels adds what it stands for, whatever is merged on the way. -/
lemma ends_addRun (fanIn : ℕ) {levels : List (List Run)} {T : Set (SpoolRecord L)}
    (hS : Stands codec levels.flatten S) (hT : Stands codec [run] T) (budget : LiveByteBudget) :
    Ends IsByteLimit (fun r => Stands codec r.1.flatten (S ∪ T))
      (addRun codec fanIn levels run budget) := by
  induction levels generalizing run S T budget with
  | nil => exact .ok (hS.append hT)
  | cons level levels ih =>
    obtain ⟨S₁, S₂, h₁, h₂, hcovers⟩ := hS.split
    have hcovers' : Covers SpoolRecord.uuid SpoolRecord.id (S₂ ∪ (S₁ ∪ T)) (S ∪ T) := by
      rw [← Set.union_assoc, Set.union_comm S₂]
      exact hcovers.union (Covers.refl T)
    rw [addRun]
    split
    · refine .ok (Stands.of_covers ((h₁.append hT).append h₂) ?_)
      rw [Set.union_comm]
      exact hcovers'
    · refine (ends_mergeRuns (h₁.append hT) budget).bind fun out hout => ?_
      refine (ih h₂ hout.stands out.2).bind fun r hr => ?_
      exact .ok (Stands.of_covers hr hcovers')

/-- A pass merges chunks and loses nothing. -/
lemma ends_mergePass {maxOpenRuns : ℕ} (hopen : 2 ≤ maxOpenRuns) (hS : Stands codec runs S)
    (budget : LiveByteBudget) :
    Ends IsByteLimit
      (fun r => Stands codec r.1 S ∧ r.1.length = (runs.chunks maxOpenRuns).length)
      (mergePass codec maxOpenRuns runs budget) := by
  unfold mergePass
  rw [← flatten_chunks (n := maxOpenRuns) (by omega) runs] at hS
  generalize runs.chunks maxOpenRuns = chunks at hS ⊢
  -- the files written so far and the chunks still to come stand for `S`
  refine (Ends.foldlM_split (I := fun done r =>
    Stands codec (r.1 ++ (chunks.drop done.length).flatten) S ∧ r.1.length = done.length)
    ?_ _ ?_).mono ?_
  · intro done chunk rest r hsplit hr
    obtain ⟨next, budget⟩ := r
    obtain ⟨hr, hlength⟩ := hr
    have hdrop : chunks.drop (done ++ [chunk]).length = rest := by
      simp [hsplit, drop_append]
    rw [hsplit, drop_left, flatten_cons] at hr
    obtain ⟨T, S', hT, hS', hcovers⟩ := hr.split
    obtain ⟨S₁, S₂, h₁, h₂, hcovers'⟩ := hS'.split
    refine (ends_mergeRuns h₁ budget).bind fun out hout => .ok ⟨?_, ?_⟩
    · rw [hdrop]
      refine ((hT.append hout.stands).append h₂).of_covers ?_
      rw [Set.union_assoc]
      exact ((Covers.refl T).union hcovers').trans hcovers
    · rw [length_append, length_append, ← hlength]
      rfl
  · exact ⟨by simpa using hS, rfl⟩
  · intro r hr
    exact ⟨by simpa using hr.1, hr.2⟩

/-- The passes end with few enough runs, and keep what the runs stand for. -/
lemma ends_mergePasses {maxOpenRuns : ℕ} (hopen : 2 ≤ maxOpenRuns) {fuel : ℕ}
    (hS : Stands codec runs S) (budget : LiveByteBudget) (hfuel : runs.length ≤ fuel) :
    Ends IsByteLimit (fun r => Stands codec r.1 S ∧ r.1.length ≤ maxOpenRuns)
      (mergePasses codec maxOpenRuns fuel runs budget) := by
  induction fuel generalizing runs budget with
  | zero => exact .ok ⟨hS, show runs.length ≤ _ by omega⟩
  | succ fuel ih =>
    rw [mergePasses]
    split
    next hle => exact .ok ⟨hS, hle⟩
    next hgt =>
      refine (ends_mergePass hopen hS budget).bind fun r hr => ?_
      have := length_chunks_lt hopen (show 2 ≤ runs.length by omega)
      exact ih hr.1 r.2 (by omega)

/-! ## Rows -/

/-- The state holds the records `S`, spilled or buffered, up to shadowed ones. -/
structure Holds (codec : SpoolCodec L) (st : SpoolState L) (S : Set (SpoolRecord L)) : Prop where
  stands : ∃ T, Stands codec st.levels.flatten T ∧
    Covers SpoolRecord.uuid SpoolRecord.id (T ∪ {r | r ∈ st.buffer}) S
  decodes : ∀ r ∈ st.buffer, codec.decode (codec.encode r) = some r

lemma holds_start (budget : LiveByteBudget) : Holds codec (⟨[], 0, [], budget⟩ : SpoolState L) ∅ :=
  ⟨⟨∅, stands_nil, by simpa using Covers.refl (∅ : Set (SpoolRecord L))⟩, by simp⟩

lemma Holds.budget (h : Holds codec st S) (budget : LiveByteBudget) :
    Holds codec { st with budget := budget } S :=
  ⟨h.stands, h.decodes⟩

/-- A spill empties the buffer and keeps what is held. -/
lemma ends_spill (limits : PropertyOverlayLimits) (h : Holds codec st S) :
    Ends IsByteLimit (fun st' => st'.buffer = [] ∧ Holds codec st' S)
      (spill codec limits st) := by
  obtain ⟨T, hT, hcovers⟩ := h.stands
  refine (ends_addRun _ hT (stands_writeSortedRun h.decodes) _).bind fun r hr => ?_
  refine .ok ⟨rfl, ⟨_, hr, ?_⟩, by simp⟩
  simpa using hcovers

lemma ends_spillIf (cond : Bool) (limits : PropertyOverlayLimits) (h : Holds codec st S) :
    Ends IsByteLimit (Holds codec · S) (spillIf codec cond limits st) := by
  unfold spillIf
  split
  · exact (ends_spill limits h).mono fun _ h' => h'.2
  · exact .ok h

/-- Spilling what is left in the buffer leaves everything in the runs. -/
lemma ends_spillRest (limits : PropertyOverlayLimits) (h : Holds codec st S) :
    Ends IsByteLimit (fun st' => Stands codec st'.levels.flatten S)
      (spillIf codec (!st.buffer.isEmpty) limits st) := by
  have hstands : ∀ st' : SpoolState L, st'.buffer = [] → Holds codec st' S →
      Stands codec st'.levels.flatten S := by
    intro st' hempty h'
    obtain ⟨T, hT, hcovers⟩ := h'.stands
    rw [hempty] at hcovers
    exact hT.of_covers (by simpa using hcovers)
  unfold spillIf
  split
  · exact (ends_spill limits h).mono fun st' h' => hstands st' h'.1 h'.2
  next hempty => exact .ok (hstands st (by simpa using hempty) h)

/-- One more record is held. -/
lemma ends_bufferRecord (limits : PropertyOverlayLimits) {record : SpoolRecord L}
    (h : Holds codec st S) (hr : codec.decode (codec.encode record) = some record) :
    Ends IsByteLimit (Holds codec · (S ∪ {record}))
      (bufferRecord codec limits st record) := by
  refine (ends_refuseIf fun _ => trivial).bind fun _ _ => ?_
  refine (ends_spillIf _ limits h).bind fun st' h' => ?_
  split
  · exact .error trivial
  refine (ends_charge _ _).bind fun budget _ => ends_spillIf _ limits ?_
  obtain ⟨T, hT, hcovers⟩ := h'.stands
  refine ⟨⟨T, hT, ?_⟩, fun r hmem => ?_⟩
  · rw [show T ∪ {r | r ∈ st'.buffer ++ [record]} = T ∪ {r | r ∈ st'.buffer} ∪ {record} by
      ext r
      simp only [Set.mem_union, Set.mem_ofPred_eq, mem_append, mem_singleton,
        Set.mem_singleton_iff, or_assoc]]
    exact hcovers.union (Covers.refl _)
  · rcases mem_append.mp hmem with hmem | hmem
    · exact h'.decodes r hmem
    · rw [mem_singleton.mp hmem]
      exact hr

/-- The records of a fragment. -/
def PropertyFragment.records (f : PropertyFragment L) : List (SpoolRecord L) :=
  f.rows.map (SpoolRecord.ofRow f.id)

/-- `serde_json` decodes the records of the fragments from the lines it encodes them to. -/
def RoundTrips (codec : SpoolCodec L) (fragments : List (PropertyFragment L)) : Prop :=
  ∀ f ∈ fragments, ∀ r ∈ f.records, codec.decode (codec.encode r) = some r

/-- The input delivers the rows of the fragment, whatever its decoder charges meanwhile. -/
structure SnapshotInput.Delivers (input : SnapshotInput L) (f : PropertyFragment L) : Prop where
  id : input.id = f.id
  rows : Forall₂ (fun pulled row => pulled.row = .ok row) input.rows f.rows

/-- A row of a fragment passes the check of its tombstone. -/
lemma not_carriesValues {row : PropertySnapshotRow L} (h : row.tombstone = true → row.values = []) :
    ¬(row.tombstone && !row.values.isEmpty) = true := by
  intro hbad
  simp only [Bool.and_eq_true, Bool.not_eq_true', isEmpty_eq_false_iff] at hbad
  exact hbad.2 (h hbad.1)

/-- A row after the row before it passes the check of the order. -/
lemma not_unsorted {prior : Option Uuid} {uuid : Uuid} (h : ∀ u ∈ prior, u < uuid) :
    ¬prior.any (uuid ≤ ·) = true := by
  cases prior with
  | none => simp
  | some u => simpa using h u rfl

section
variable (limits : PropertyOverlayLimits)

/-- One more row of a fragment is held. -/
lemma ends_spoolRow (id : PropertyFragmentId) {prior : Option Uuid} {pulled : PulledRow L}
    {row : PropertySnapshotRow L} (hrow : pulled.row = .ok row)
    (htomb : row.tombstone = true → row.values = []) (hprior : ∀ u ∈ prior, u < row.uuid)
    (hdec : codec.decode (codec.encode (.ofRow id row)) = some (.ofRow id row))
    (h : Holds codec st S) :
    Ends IsByteLimit
      (fun r => r.1 = some row.uuid ∧ Holds codec r.2 (S ∪ {SpoolRecord.ofRow id row}))
      (spoolRow codec limits id prior st pulled) := by
  unfold spoolRow
  rw [hrow]
  refine (ends_refuseIf fun hbad => absurd hbad (not_carriesValues htomb)).bind fun _ _ => ?_
  refine (ends_refuseIf fun hbad => absurd hbad (not_unsorted hprior)).bind fun _ _ => ?_
  refine (ends_bufferRecord limits (h.budget _) hdec).bind fun st' h' => ?_
  exact .ok ⟨rfl, h'⟩

/-- Along the rows of a fragment, `prior` being the UUID of the row before. -/
lemma ends_spoolRows (id : PropertyFragmentId) {pulls : List (PulledRow L)}
    {rows : List (PropertySnapshotRow L)}
    (hpulls : Forall₂ (fun pulled row => pulled.row = .ok row) pulls rows)
    (hsorted : rows.Pairwise (·.uuid < ·.uuid))
    (htomb : ∀ row ∈ rows, row.tombstone = true → row.values = [])
    (hdec : ∀ r ∈ rows.map (SpoolRecord.ofRow id), codec.decode (codec.encode r) = some r)
    {prior : Option Uuid} (hprior : ∀ u ∈ prior, ∀ row ∈ rows, u < row.uuid)
    (h : Holds codec st S) :
    Ends IsByteLimit
      (fun r => Holds codec r.2 (S ∪ {r | r ∈ rows.map (SpoolRecord.ofRow id)}))
      (pulls.foldlM (fun (prior, st) pulled => spoolRow codec limits id prior st pulled)
        (prior, st)) := by
  induction hpulls generalizing prior st S with
  | nil => exact .ok (by simpa using h)
  | @cons pulled row ps rows hrow _ ih =>
    obtain ⟨hfirst, hsorted'⟩ := pairwise_cons.mp hsorted
    refine (ends_spoolRow limits id hrow (htomb row mem_cons_self)
      (fun u hu => hprior u hu row mem_cons_self)
      (hdec _ (mem_map_of_mem mem_cons_self)) h).bind fun ⟨prior', st'⟩ h' => ?_
    obtain ⟨rfl, h'⟩ : prior' = some row.uuid ∧ Holds codec st' _ := h'
    refine (ih hsorted' (fun r hr => htomb r (mem_cons_of_mem _ hr))
      (fun r hr => hdec r (map_subset _ (subset_cons_self _ _) hr))
      (by rintro u ⟨⟩ r hr; exact hfirst r hr) h').mono fun r hr => ?_
    rwa [show S ∪ {r | r ∈ (row :: rows).map (SpoolRecord.ofRow id)} =
      S ∪ {SpoolRecord.ofRow id row} ∪ {r | r ∈ rows.map (SpoolRecord.ofRow id)} by
        ext r
        simp only [Set.mem_union, Set.mem_ofPred_eq, map_cons, mem_cons,
          Set.mem_singleton_iff, or_assoc]]

/-- The rows of one more fragment are held. -/
lemma ends_spoolInput {input : SnapshotInput L} {f : PropertyFragment L} (hdel : input.Delivers f)
    (hdec : ∀ r ∈ f.records, codec.decode (codec.encode r) = some r) (h : Holds codec st S) :
    Ends IsByteLimit (Holds codec · (S ∪ {r | r ∈ f.records}))
      (spoolInput codec limits st input) := by
  unfold spoolInput
  rw [hdel.id]
  exact (ends_spoolRows limits f.id hdel.rows f.sorted f.tombstones hdec (by simp) h).bind
    fun r hr => .ok (hr.budget _)

end

/-- The records of a route. -/
def routeRecords (fragments : List (PropertyFragment L)) : Set (SpoolRecord L) :=
  {r | ∃ f ∈ fragments, r ∈ f.records}

/-- Records are told apart by their UUID and their fragment when the fragments' identities
are distinct. -/
lemma ranked_routeRecords (hids : (fragments.map PropertyFragment.id).Nodup) :
    Ranked SpoolRecord.uuid SpoolRecord.id (routeRecords fragments) := by
  rintro x ⟨f, hf, hx⟩ y ⟨g, hg, hy⟩ huuid hid
  obtain ⟨row, hrow, rfl⟩ := mem_map.mp hx
  obtain ⟨row', hrow', rfl⟩ := mem_map.mp hy
  obtain rfl : f = g := inj_on_of_nodup_map hids hf hg hid
  rw [eq_of_mem_ascending f.sorted hrow hrow' huuid]

/-- The rows of all fragments are held. -/
lemma ends_spoolInputs (limits : PropertyOverlayLimits)
    (hdel : Forall₂ SnapshotInput.Delivers inputs fragments)
    (hdec : RoundTrips codec fragments) (h : Holds codec st S) :
    Ends IsByteLimit (Holds codec · (S ∪ routeRecords fragments))
      (inputs.foldlM (spoolInput codec limits) st) := by
  induction hdel generalizing st S with
  | nil => exact .ok (by simpa [routeRecords] using h)
  | @cons input f inputs fragments hf _ ih =>
    refine (ends_spoolInput limits hf (hdec f mem_cons_self) h).bind fun st' h' => ?_
    refine (ih (fun g hg => hdec g (mem_cons_of_mem _ hg)) h').mono fun st'' h'' => ?_
    rwa [show S ∪ routeRecords (f :: fragments) =
      S ∪ {r | r ∈ f.records} ∪ routeRecords fragments by
        ext r
        simp [routeRecords, or_assoc]]

/-! ## The resolved route -/

/-- The records of nominated UUIDs resolved, tombstones dropped, are the newest live rows of
these UUIDs. -/
lemma mem_live_iff {p : Uuid → Bool} (hout : Resolves SpoolRecord.uuid SpoolRecord.id
      {r | r ∈ routeRecords fragments ∧ p r.uuid = true} out) (row : PropertySnapshotRow L) :
    row ∈ (out.filter fun r => !r.tombstone).map SpoolRecord.toRow ↔
      NewestLive fragments row ∧ p row.uuid = true := by
  simp only [mem_map, mem_filter, hout.mem_iff]
  constructor
  · rintro ⟨r, ⟨⟨⟨⟨f, hf, hr⟩, hp⟩, hnew⟩, hlive⟩, rfl⟩
    obtain ⟨row, hrow, rfl⟩ := mem_map.mp hr
    have hlive' : row.tombstone = false := by simpa [SpoolRecord.ofRow] using hlive
    refine ⟨⟨f, hf, hrow, hlive', fun g hg r hr huuid => ?_⟩, hp⟩
    have huuid' : r.uuid = row.uuid := huuid
    exact hnew _ ⟨⟨g, hg, mem_map_of_mem hr⟩, show p r.uuid = true from huuid' ▸ hp⟩ huuid
  · rintro ⟨⟨f, hf, hrow, hlive, hnew⟩, hp⟩
    refine ⟨SpoolRecord.ofRow f.id row, ⟨⟨⟨⟨f, hf, mem_map_of_mem hrow⟩, hp⟩, ?_⟩, ?_⟩, rfl⟩
    · rintro r ⟨⟨g, hg, hr⟩, -⟩ huuid
      obtain ⟨row', hrow', rfl⟩ := mem_map.mp hr
      exact hnew g hg row' hrow' huuid
    · simpa [SpoolRecord.ofRow] using hlive

/-- What a read of a route must emit: the newest live rows, by ascending UUID. -/
structure EmitsNewest (fragments : List (PropertyFragment L)) (out : List (PropertySnapshotRow L)) :
    Prop where
  ascending : out.Pairwise (·.uuid < ·.uuid)
  mem_iff : ∀ row, row ∈ out ↔ NewestLive fragments row

lemma EmitsNewest.unique {out out' : List (PropertySnapshotRow L)} (h : EmitsNewest fragments out)
    (h' : EmitsNewest fragments out') : out = out' :=
  eq_of_ascending h.ascending h'.ascending fun row =>
    (h.mem_iff row).trans (h'.mem_iff row).symm

/-- What must be emitted does not depend on the order of the fragments. -/
lemma EmitsNewest.perm {fragments' : List (PropertyFragment L)} {out : List (PropertySnapshotRow L)}
    (h : EmitsNewest fragments out) (hperm : fragments.Perm fragments') :
    EmitsNewest fragments' out := by
  refine ⟨h.ascending, fun row => (h.mem_iff row).trans ?_⟩
  simp only [NewestLive, hperm.mem_iff]

lemma emitsNewest_of_resolves
    (hout : Resolves SpoolRecord.uuid SpoolRecord.id (routeRecords fragments) out) :
    EmitsNewest fragments ((out.filter fun r => !r.tombstone).map SpoolRecord.toRow) := by
  refine ⟨pairwise_map.mpr (hout.ascending.filter _), fun row => ?_⟩
  have hall := mem_live_iff (p := fun _ => true) (by simpa using hout) row
  simpa using hall

/-- Every route has rows that must be emitted: the first of each UUID, when its records are
sorted. -/
lemma exists_emitsNewest (hids : (fragments.map PropertyFragment.id).Nodup) :
    ∃ out, EmitsNewest fragments out := by
  have hsorted := pairwise_insertionSort (fun x y : SpoolRecord L => x.sortKey ≤ y.sortKey)
    (fragments.flatMap PropertyFragment.records)
  have hcovers : Covers SpoolRecord.uuid SpoolRecord.id _ _ := covers_firsts hsorted
  have hset : {x | x ∈ (fragments.flatMap PropertyFragment.records).insertionSort
      fun x y => x.sortKey ≤ y.sortKey} = routeRecords fragments := by
    ext x
    simp [routeRecords]
  rw [hset] at hcovers
  exact ⟨_, emitsNewest_of_resolves (hcovers.resolves (ranked_routeRecords hids)
    (resolves_of_ascending (firsts_ascending hsorted)))⟩

/-- The errors by which byte limits refuse a read: a limit met on the way, or byte limits
that no read accepts. -/
def RefusedForBytes (limits : PropertyOverlayLimits) (e : OverlayError) : Prop :=
  e.IsByteLimit ∨ e = .invalidLimits ∧ (limits.maxBufferedBytes = 0 ∨ limits.maxRowBytes = 0 ∨
      limits.maxBufferedBytes < limits.maxRowBytes)

/-- The merge emits what it must, unless a byte limit refuses it. -/
lemma ends_visitNewest (hdel : Forall₂ SnapshotInput.Delivers inputs fragments)
    (hids : (fragments.map PropertyFragment.id).Nodup) (hdec : RoundTrips codec fragments)
    {limits : PropertyOverlayLimits} (hrows : 1 ≤ limits.maxBufferedRows)
    (hopen : 2 ≤ limits.maxOpenRuns) (budget : LiveByteBudget) :
    Ends (RefusedForBytes limits) (EmitsNewest fragments)
      (visitNewestPropertySnapshots codec inputs limits budget) := by
  refine (ends_refuseIf fun hbad => ?_).bind fun _ _ => ?_
  · refine Or.inr ⟨rfl, ?_⟩
    simp [PropertyOverlayLimits.invalid] at hbad
    omega
  refine Ends.mono_error (E := IsByteLimit) ?_ fun _ => Or.inl
  refine (ends_spoolInputs limits hdel hdec (holds_start budget)).bind fun st hst => ?_
  rw [Set.empty_union] at hst
  refine (ends_spillRest limits hst).bind fun st hst => ?_
  refine (ends_mergePasses hopen hst st.budget le_rfl).bind fun ⟨runs, budget⟩ hruns => ?_
  have hranked := ranked_routeRecords hids
  simp only
  split
  next hempty =>
    obtain rfl : runs = [] := List.isEmpty_iff.mp hempty
    exact .ok (emitsNewest_of_resolves (hruns.1.isMerged_nil.resolves hranked))
  · refine (ends_mergeRuns hruns.1 budget).bind fun out hout => ?_
    exact .ok (emitsNewest_of_resolves (hout.resolves hranked))

/-- The spooled merge is the newest-wins resolution of the route: unless byte limits refuse
it, it emits exactly the newest live rows, by strictly ascending UUID; and what it emits
depends neither on the limits, nor on the decoders, nor on the order of the fragments. -/
theorem visitNewestPropertySnapshots_newest_wins {inputs : List (SnapshotInput L)}
    {fragments : List (PropertyFragment L)}
    (hdel : Forall₂ SnapshotInput.Delivers inputs fragments)
    (hids : (fragments.map PropertyFragment.id).Nodup) (hdec : RoundTrips codec fragments)
    {limits : PropertyOverlayLimits} (hrows : 1 ≤ limits.maxBufferedRows)
    (hopen : 2 ≤ limits.maxOpenRuns) (budget : LiveByteBudget) :
    Ends (RefusedForBytes limits) (EmitsNewest fragments)
      (visitNewestPropertySnapshots codec inputs limits budget) ∧
    ∀ (fragments' : List (PropertyFragment L)) (inputs' : List (SnapshotInput L))
      (limits' : PropertyOverlayLimits) (budget' : LiveByteBudget),
      fragments.Perm fragments' → Forall₂ SnapshotInput.Delivers inputs' fragments' →
      1 ≤ limits'.maxBufferedRows → 2 ≤ limits'.maxOpenRuns →
      ∀ out out', visitNewestPropertySnapshots codec inputs limits budget = .ok out →
        visitNewestPropertySnapshots codec inputs' limits' budget' = .ok out' → out = out' := by
  have hfirst := ends_visitNewest hdel hids hdec hrows hopen budget
  refine ⟨hfirst, ?_⟩
  intro fragments' inputs' limits' budget' hperm hdel' hrows' hopen' out out' hout hout'
  have hids' : (fragments'.map PropertyFragment.id).Nodup :=
    (hperm.map PropertyFragment.id).nodup_iff.mp hids
  have hdec' : RoundTrips codec fragments' := fun f hf => hdec f (hperm.mem_iff.mpr hf)
  have hsecond := ends_visitNewest hdel' hids' hdec' hrows' hopen' budget'
  exact ((hfirst.of_ok hout).perm hperm).unique (hsecond.of_ok hout')

/-! ### A route of two fragments -/

namespace Sample

/-- The bytes of an ASCII text. -/
def ascii (text : String) : List UInt8 := text.toList.map fun c => UInt8.ofNat c.toNat

/-- The decimal text of a number. -/
def decimal (n : ℕ) : List UInt8 := (Nat.toDigits 10 n).map fun c => UInt8.ofNat c.toNat

/-- The JSON text of a map of integer properties. -/
def valuesText (values : List (String × ℕ)) : List UInt8 :=
  ascii "\x7b" ++ (ascii ",").intercalate (values.map fun (key, value) =>
    ascii "\"" ++ ascii key ++ ascii "\":\x7b\"type\":\"Int\",\"value\":" ++ decimal value ++
      ascii "\x7d") ++ ascii "\x7d"

/-- The JSON text of a record with integer properties. -/
def recordText (r : SpoolRecord ℕ) : List UInt8 :=
  ascii "\x7b\"uuid\":[" ++ (ascii ",").intercalate (r.uuid.toBytes.map (decimal ·.toNat)) ++
    ascii "],\"generation\":" ++ decimal r.generation ++ ascii ",\"ordinal\":" ++
    decimal r.ordinal ++ ascii ",\"tombstone\":" ++ ascii (if r.tombstone then "true" else "false") ++
    ascii ",\"values\":" ++ valuesText r.values ++ ascii "\x7d"

/-- A base fragment with two rows. -/
def base : PropertyFragment ℕ where
  id := ⟨1, 0⟩
  rows := [⟨5, false, [("age", 7)]⟩, ⟨9, false, [("age", 41)]⟩]
  sorted := by decide
  tombstones := by decide

/-- A later fragment that deletes the first of them. -/
def deletion : PropertyFragment ℕ where
  id := ⟨2, 0⟩
  rows := [⟨5, true, []⟩]
  sorted := by decide
  tombstones := by decide

/-- The codec on the lines of these fragments. -/
def jsonCodec : SpoolCodec ℕ where
  encode r := recordText r
  decode line := (base.records ++ deletion.records).find? fun r => recordText r == line
  valuesLen values := (valuesText values).length

/-- A decoder that charges nothing. -/
def input (f : PropertyFragment ℕ) : SnapshotInput ℕ := ⟨f.id, f.rows.map fun r => ⟨.ok r, id⟩, id⟩

/-- A buffer of one row, and merges of two runs. -/
def limits : PropertyOverlayLimits := ⟨1, 2, 4096, 1024⟩

lemma limits_rows : 1 ≤ limits.maxBufferedRows := by decide

lemma limits_open : 2 ≤ limits.maxOpenRuns := by decide

lemma input_delivers (f : PropertyFragment ℕ) : (input f).Delivers f :=
  ⟨rfl, by simp [input, forall₂_map_left_iff, forall₂_same]⟩

lemma delivers : Forall₂ SnapshotInput.Delivers [input base, input deletion] [base, deletion] :=
  .cons (input_delivers base) (.cons (input_delivers deletion) .nil)

lemma roundTrips : RoundTrips jsonCodec [base, deletion] := by
  unfold RoundTrips
  decide +kernel

end Sample

/-- With a buffer of one row, every row is spilled and the runs are merged level by level;
the tombstone still hides the older row. -/
theorem visitNewestPropertySnapshots_sample : visitNewestPropertySnapshots Sample.jsonCodec
      [Sample.input Sample.base, Sample.input Sample.deletion] Sample.limits ⟨4096, 0⟩ =
        .ok [⟨9, false, [("age", 41)]⟩] ∧
    EmitsNewest [Sample.base, Sample.deletion] [⟨9, false, [("age", 41)]⟩] := by
  have hrun : visitNewestPropertySnapshots Sample.jsonCodec
      [Sample.input Sample.base, Sample.input Sample.deletion] Sample.limits ⟨4096, 0⟩ =
      .ok [⟨9, false, [("age", 41)]⟩] := by decide +kernel
  have hwins := visitNewestPropertySnapshots_newest_wins Sample.delivers (by decide)
    Sample.roundTrips Sample.limits_rows Sample.limits_open ⟨4096, 0⟩
  exact ⟨hrun, hwins.1.of_ok hrun⟩

end GraphForge.PropertyOverlay
