import GraphForge.Adjacency.ExternalSort
import GraphForge.Adjacency.WrittenIndex
import GraphForge.Lib.Xxh64

/-!
# External sort is faithful

A run file holds a sorted list of entries. Spilling, merging and compacting runs only
rearrange the entries of a group, so the shard writer of a direction receives the sorted
entries of all edges, whatever the chunk size and the fan-in.
-/

namespace GraphForge.Adjacency

open List Bytes Except

/-! ## Run files -/

/-- All fields are `u64` values. -/
structure KeyedEntry.Fits (e : KeyedEntry) : Prop where
  key : e.key < 2 ^ 64
  edge : e.edge < 2 ^ 64
  neighbor : e.neighbor < 2 ^ 64

@[simp] lemma KeyedEntry.length_toBytes (e : KeyedEntry) : e.toBytes.length = 24 := by
  simp [toBytes]

/-- Reading exactly the start of the bytes. -/
lemma readExact_append {n : ℕ} {xs : List UInt8} (h : xs.length = n) (ys : List UInt8) :
    readExact n (xs ++ ys) = .ok (xs, ys) := by
  subst h
  unfold readExact refuseIf
  simp [bind, Except.bind, pure, Except.pure]

/-- A run file holds the entries, in ascending order. -/
structure SpillRun.Holds (run : SpillRun) (es : List KeyedEntry) : Prop where
  file : run.file = runHeader es.length ++ es.flatMap KeyedEntry.toBytes
  sorted : es.Pairwise (· ≤ ·)
  fits : ∀ e ∈ es, e.Fits
  count : es.length < 2 ^ 64

/-- A cursor at an entry pulls it. -/
lemma pull_toBytes {e : KeyedEntry} (h : e.Fits) (rest : List UInt8) (n : ℕ) :
    RunCursor.pull ⟨e.toBytes ++ rest, n + 1⟩ = .ok (some (e, ⟨rest, n⟩)) := by
  have hread := readExact_append e.length_toBytes rest
  have hkey : ofLeBytes (leBytes 8 e.key) = e.key := ofLeBytes_leBytes h.key
  have hedge : ofLeBytes (leBytes 8 e.edge) = e.edge := ofLeBytes_leBytes h.edge
  have hneighbor : ofLeBytes (leBytes 8 e.neighbor) = e.neighbor := ofLeBytes_leBytes h.neighbor
  unfold RunCursor.pull
  rw [if_neg (by simp), hread]
  simp [bind, Except.bind, pure, Except.pure, KeyedEntry.toBytes,
    drop_append, take_of_length_le, drop_eq_nil_of_le, hkey, hedge, hneighbor]

/-- A cursor at entries that fit yields them and nothing else. -/
lemma yields_toBytes {es : List KeyedEntry} (h : ∀ e ∈ es, e.Fits) :
    Yields (fun _ => False) RunCursor.pull ⟨es.flatMap KeyedEntry.toBytes, es.length⟩ es := by
  induction es with
  | nil => exact .stop rfl
  | cons e es ih =>
    apply Yields.more (pull_toBytes (h e mem_cons_self) _ _)
    exact ih fun x hx => h x (mem_cons_of_mem e hx)

namespace SpillRun.Holds
variable {run : SpillRun} {es : List KeyedEntry} (h : run.Holds es)
include h

/-- Opening a run gives a cursor at its entries. -/
lemma openRun_eq : RunCursor.openRun run = .ok ⟨es.flatMap KeyedEntry.toBytes, es.length⟩ := by
  have hcount : ofLeBytes (leBytes 8 es.length) = es.length := ofLeBytes_leBytes h.count
  have hversion : ofLeBytes (leBytes 4 spillRunVersion) = spillRunVersion := by decide
  unfold RunCursor.openRun
  rw [h.file, runHeader, append_assoc, append_assoc, readExact_append (by decide)]
  dsimp only [ok_bind]
  rw [refuseIf_of_not fun hmagic => hmagic rfl, readExact_append (length_leBytes 4 _)]
  dsimp only [ok_bind]
  rw [refuseIf_of_not fun hne => hne hversion, readExact_append (length_leBytes 8 _)]
  dsimp only [ok_bind]
  rw [hcount]
  rfl

/-- A run declares the number of its entries. -/
lemma keyedRunCount_eq : keyedRunCount run = .ok es.length := by
  have hlength : (runHeader es.length).length = 20 := by
    simp [runHeader, spillRunMagic]
  have hcount : ofLeBytes (leBytes 8 es.length) = es.length := ofLeBytes_leBytes h.count
  have hmagic : (runHeader es.length).take 8 = spillRunMagic := by
    simp [runHeader, spillRunMagic]
  have hversion : ((runHeader es.length).drop 8).take 4 = leBytes 4 spillRunVersion := by
    simp [runHeader, spillRunMagic, leBytes]
  have hdigits : ((runHeader es.length).drop 12).take 8 = leBytes 8 es.length := by
    simp [runHeader, spillRunMagic, leBytes]
  unfold keyedRunCount
  rw [h.file, readExact_append hlength]
  dsimp only [ok_bind]
  rw [hmagic, hversion, refuseIf_of_not (by decide), hdigits, hcount]
  rfl

lemma length_file_ge : es.length ≤ run.file.length := by
  rw [h.file, length_append, length_flatMap]
  simp only [KeyedEntry.length_toBytes, map_const', sum_replicate_nat]
  omega

end SpillRun.Holds

/-! ## Merging -/

section
variable {runs : List SpillRun} {ess : List (List KeyedEntry)}

lemma exists_holds (h : Forall₂ SpillRun.Holds runs ess) {es : List KeyedEntry}
    (hes : es ∈ ess) : ∃ run : SpillRun, run.Holds es := by
  obtain ⟨i, hi⟩ := getElem?_of_mem hes
  obtain ⟨run, _, hrun⟩ := h.exists_of_getElem?_right hi
  exact ⟨run, hrun⟩

/-- The merge of the runs' entries. -/
abbrev mergedRuns (ess : List (List KeyedEntry)) : List KeyedEntry :=
  (Merger.ofRuns ess : Merger (id : KeyedEntry → KeyedEntry)).rows

/-- Opening runs one after the other refines opening their entries. -/
lemma foldlM_appendRun (h : Forall₂ SpillRun.Holds runs ess) {c : RunCursors}
    {m : Merger (id : KeyedEntry → KeyedEntry)}
    (hc : CursorHeap.Refines (Yields (fun _ => False) RunCursor.pull) c m) :
    ∃ c', runs.foldlM appendRun c = .ok c' ∧
      CursorHeap.Refines (Yields (fun _ => False) RunCursor.pull) c'
        (ess.foldl Merger.openRun m) := by
  induction h generalizing c m with
  | nil => exact ⟨c, rfl, hc⟩
  | @cons run es runs ess hrun _ ih =>
    obtain ⟨slot, hslot, hoffers⟩ := (yields_toBytes hrun.fits).ends_pull.exists_ok
    have happend : appendRun c run = .ok (c.append slot) := by
      unfold appendRun
      rw [hrun.openRun_eq]
      simp only [bind, Except.bind, hslot]
      rfl
    rw [foldlM_cons, happend]
    exact ih (hc.append hoffers)

variable {B : Type} (emit : B → KeyedEntry → Except GfError B)

/-- The loop over the cursors emits the rows of the merge. -/
lemma mergeLoop_eq {fuel : ℕ} {c : RunCursors} {m : Merger (id : KeyedEntry → KeyedEntry)}
    (hc : CursorHeap.Refines (Yields (fun _ => False) RunCursor.pull) c m)
    (hfuel : m.pending.length ≤ fuel) (b : B) :
    mergeLoop emit fuel c b = m.rows.foldlM emit b := by
  induction fuel generalizing c m b with
  | zero =>
    have hnil : m.pending = [] := eq_nil_of_length_eq_zero (by omega)
    have hrows : m.rows = [] := perm_nil.mp (hnil ▸ m.rows_perm)
    rw [hrows]
    rfl
  | succ fuel ih =>
    rw [mergeLoop]
    cases hpop : c.pop with
    | none =>
      rw [Merger.rows_of_next_none (hc.pop_eq_none_iff.mp hpop)]
      rfl
    | some top =>
      obtain ⟨row, m', hnext, rfl, htake⟩ := hc.pop hpop (.storage "index out of bounds")
      obtain ⟨next, hnexttake, _, hrefines⟩ := htake.exists_ok
      have hlength := Merger.length_pending_of_next hnext
      rw [Merger.rows_of_next hnext, foldlM_cons]
      -- after the row is emitted, its cursor is refilled and the merge goes on
      refine bind_congr fun b' => ?_
      rw [hnexttake]
      exact ih hrefines (by omega) b'

/-- Merging run files emits the entries of all of them in ascending order. -/
lemma mergeKeyedRuns_eq (h : Forall₂ SpillRun.Holds runs ess) (b : B) :
    mergeKeyedRuns emit runs b = (mergedRuns ess).foldlM emit b := by
  obtain ⟨c, hopen, hrefines⟩ := foldlM_appendRun h CursorHeap.refines_empty
  unfold mergeKeyedRuns openRunCursors
  rw [hopen]
  apply mergeLoop_eq emit hrefines
  show (Merger.ofRuns ess).pending.length ≤ _
  rw [Merger.pending_ofRuns, length_flatten]
  clear hopen hrefines
  induction h with
  | nil => simp
  | cons hrun _ ih =>
    have := hrun.length_file_ge
    simp only [map_cons, sum_cons]
    omega

/-- Merging keeps every entry. -/
lemma mergedRuns_perm (ess : List (List KeyedEntry)) : (mergedRuns ess).Perm ess.flatten := by
  have := (Merger.ofRuns ess : Merger (id : KeyedEntry → KeyedEntry)).rows_perm
  rwa [Merger.pending_ofRuns] at this

/-- Merging sorted runs gives sorted entries. -/
lemma mergedRuns_sorted (h : Forall₂ SpillRun.Holds runs ess) : (mergedRuns ess).Pairwise (· ≤ ·) :=
  (Merger.ascending_ofRuns fun _ hes => (exists_holds h hes).choose_spec.sorted).rows_sorted

end

/-! ## Spilling and compacting -/

/-- The only way spilling fails: the cap on spilled bytes is exceeded. -/
def SpillRefused (cap : Option ℕ) (e : GfError) : Prop :=
  ∃ max, cap = some max ∧ e = spillExceeded max

variable (runs : List SpillRun)

/-- The runs hold the entries, in some distribution. -/
def Stores (es : List KeyedEntry) : Prop :=
  ∃ ess, Forall₂ SpillRun.Holds runs ess ∧ ess.flatten.Perm es

section
variable {runs : List SpillRun} {es fs : List KeyedEntry} {ess : List (List KeyedEntry)}

lemma stores_nil : Stores [] [] := ⟨[], .nil, .nil⟩

lemma Stores.eq_nil (h : Stores [] es) : es = [] := by
  obtain ⟨ess, hruns, hperm⟩ := h
  cases hruns
  exact nil_perm.mp hperm

/-- Which entries runs store is up to order. -/
lemma Stores.trans_perm (h : Stores runs es) (hperm : es.Perm fs) : Stores runs fs := by
  obtain ⟨ess, hruns, hflatten⟩ := h
  exact ⟨ess, hruns, hflatten.trans hperm⟩

/-- Runs together store the entries of both. -/
lemma Stores.append {runs' : List SpillRun} (h : Stores runs es) (h' : Stores runs' fs) :
    Stores (runs ++ runs') (es ++ fs) := by
  obtain ⟨ess, hruns, hperm⟩ := h
  obtain ⟨fss, hruns', hperm'⟩ := h'
  refine ⟨ess ++ fss, rel_append hruns hruns', ?_⟩
  rw [flatten_append]
  exact hperm.append hperm'

/-- A run stores the entries it holds. -/
lemma SpillRun.Holds.stores {run : SpillRun} (h : run.Holds es) : Stores [run] es :=
  ⟨[es], .cons h .nil, by simp⟩

/-- What runs together store is split among them. -/
lemma Stores.of_append {runs' : List SpillRun} (h : Stores (runs ++ runs') es) :
    ∃ fs gs, Stores runs fs ∧ Stores runs' gs ∧ (fs ++ gs).Perm es := by
  obtain ⟨ess, hruns, hperm⟩ := h
  have hfirst := forall₂_take runs.length hruns
  have hrest := forall₂_drop runs.length hruns
  rw [take_left] at hfirst
  rw [drop_left] at hrest
  refine ⟨_, _, ⟨_, hfirst, .refl _⟩, ⟨_, hrest, .refl _⟩, ?_⟩
  rw [← flatten_append, take_append_drop]
  exact hperm

variable {spill : SpillSession} {cap : Option ℕ} {label : String} {direction : Direction}

/-- Accounting refuses only beyond the cap. -/
lemma ends_accountWrite (hcap : spill.maxBytes = cap) (bytes : ℕ) :
    (spill.accountWrite bytes).Ends (SpillRefused cap) (·.maxBytes = cap) := by
  unfold SpillSession.accountWrite
  have hcheck : (SpillSession.checkCap spill.maxBytes
      (saturatingAdd spill.bytesCurrent bytes)).Ends (SpillRefused cap) (fun _ => True) := by
    cases hmax : spill.maxBytes with
    | none => exact .ok trivial
    | some max =>
      apply Ends.mono (ends_refuseIf ?_) fun _ _ => trivial
      intro _
      exact ⟨max, by rw [← hcap, hmax], rfl⟩
  apply hcheck.bind
  intro _ _
  exact .ok hcap

/-- A written run holds the entries. -/
lemma ends_writeKeyedRun (hcap : spill.maxBytes = cap) (path : String)
    (hs : es.Pairwise (· ≤ ·)) (hfits : ∀ e ∈ es, e.Fits) (hcount : es.length < 2 ^ 64) :
    (writeKeyedRun path es spill).Ends (SpillRefused cap)
      (fun r => r.1.Holds es ∧ r.2.maxBytes = cap) := by
  unfold writeKeyedRun
  apply (ends_accountWrite hcap _).bind
  intro spill' hcap'
  exact .ok ⟨⟨rfl, hs, hfits, hcount⟩, hcap'⟩

/-- The count of a merged run is the number of entries of its inputs. -/
lemma foldlM_addRunCount (h : Forall₂ SpillRun.Holds runs ess) {total : ℕ}
    (hcount : total + ess.flatten.length < 2 ^ 64) :
    runs.foldlM addRunCount total = .ok (total + ess.flatten.length) := by
  induction h generalizing total with
  | nil => rfl
  | @cons run es runs ess hrun _ ih =>
    rw [flatten_cons, length_append] at hcount ⊢
    have hadd : addRunCount total run = .ok (total + es.length) := by
      unfold addRunCount saturatingAdd
      rw [hrun.keyedRunCount_eq]
      simp only [bind, Except.bind, pure, Except.pure, Except.ok.injEq]
      omega
    rw [foldlM_cons, hadd]
    show runs.foldlM addRunCount (total + es.length) = _
    rw [ih (by omega), Nat.add_assoc]

/-- Emitting entries appends their bytes. -/
lemma foldlM_appendEntry (es : List KeyedEntry) (file : List UInt8) :
    es.foldlM appendEntry file = .ok (file ++ es.flatMap KeyedEntry.toBytes) := by
  induction es generalizing file with
  | nil => simp [pure, Except.pure]
  | cons e es ih =>
    show es.foldlM appendEntry (file ++ e.toBytes) = _
    rw [ih, flatMap_cons, append_assoc]

/-- A merged run stores what the runs did. -/
lemma ends_mergeKeyedRunsToRun (hcap : spill.maxBytes = cap) (h : Stores runs es)
    (hcount : es.length < 2 ^ 64) (output : String) :
    (mergeKeyedRunsToRun runs output spill).Ends (SpillRefused cap)
      (fun r => Stores [r.1] es ∧ r.2.maxBytes = cap) := by
  obtain ⟨ess, hruns, hperm⟩ := h
  have hmerged := mergedRuns_perm ess
  have hlength : (mergedRuns ess).length = ess.flatten.length := hmerged.length_eq
  have htotal := @foldlM_addRunCount runs ess hruns 0 (by rw [hperm.length_eq]; omega)
  unfold mergeKeyedRunsToRun
  apply Ends.step htotal
  apply (ends_accountWrite hcap _).bind
  intro spill' hcap'
  apply Ends.step (mergeKeyedRuns_eq appendEntry hruns _ ▸ foldlM_appendEntry (mergedRuns ess) _)
  refine .ok ⟨Stores.trans_perm (SpillRun.Holds.stores ?_) (hmerged.trans hperm), hcap'⟩
  exact {
    file := by rw [hlength, Nat.zero_add]
    sorted := mergedRuns_sorted hruns
    fits := by
      intro e he
      obtain ⟨es, hes, hmem⟩ := mem_flatten.mp (hmerged.mem_iff.mp he)
      obtain ⟨run, hrun⟩ := exists_holds hruns hes
      exact hrun.fits e hmem
    count := by rw [hlength, hperm.length_eq]; exact hcount }

lemma maxBytes_foldl_removeRun (spill : SpillSession) :
    (runs.foldl SpillSession.removeRun spill).maxBytes = spill.maxBytes := by
  induction runs generalizing spill with
  | nil => rfl
  | cons run runs ih => exact ih _

/-- Merging one chunk of runs keeps what is stored, in one run. -/
lemma ends_compactChunk {state : List SpillRun × SpillSession} (hcap : state.2.maxBytes = cap)
    (hstate : Stores state.1 es) (h : Stores runs fs) (hcount : fs.length < 2 ^ 64) :
    (compactChunk label direction state runs).Ends (SpillRefused cap)
      (fun r => Stores r.1 (es ++ fs) ∧ r.1.length = state.1.length + 1 ∧ r.2.maxBytes = cap) := by
  unfold compactChunk
  split
  next run => exact .ok ⟨hstate.append h, by simp, hcap⟩
  next =>
    have hmerge := ends_mergeKeyedRunsToRun
      (show (state.2.nextRunPath label direction).2.maxBytes = cap from hcap) h hcount
      (state.2.nextRunPath label direction).1
    apply hmerge.bind
    intro r hr
    refine .ok ⟨hstate.append hr.1, by simp, ?_⟩
    rw [maxBytes_foldl_removeRun]
    exact hr.2

/-- Merging chunks one after the other keeps what is stored, in one run a chunk. -/
lemma ends_foldlM_compactChunk {chunks : List (List SpillRun)} {state : List SpillRun × SpillSession}
    (hcap : state.2.maxBytes = cap) (hstate : Stores state.1 es)
    (h : Stores chunks.flatten fs) (hcount : fs.length < 2 ^ 64) :
    (chunks.foldlM (compactChunk label direction) state).Ends (SpillRefused cap)
      (fun r => Stores r.1 (es ++ fs) ∧ r.1.length = state.1.length + chunks.length ∧
        r.2.maxBytes = cap) := by
  induction chunks generalizing state es fs with
  | nil =>
    rw [h.eq_nil, append_nil]
    exact .ok ⟨hstate, rfl, hcap⟩
  | cons chunk chunks ih =>
    obtain ⟨first, rest, hfirst, hrest, hperm⟩ := h.of_append
    have hlength := hperm.length_eq
    rw [length_append] at hlength
    apply (ends_compactChunk hcap hstate hfirst (by omega)).bind
    intro next hnext
    apply Ends.mono (ih hnext.2.2 hnext.1 hrest (by omega))
    intro r hr
    refine ⟨hr.1.trans_perm ?_, ?_, hr.2.2⟩
    · rw [append_assoc]
      exact hperm.append_left es
    · rw [hr.2.1, hnext.2.1, length_cons]
      omega

/-- Compaction ends with at most a fan-in of runs, and the same entries. -/
lemma ends_compactLoop {fanIn fuel : ℕ} (hfan : 2 ≤ fanIn) (hfuel : runs.length ≤ fuel)
    (hcap : spill.maxBytes = cap) (h : Stores runs es)
    (hcount : es.length < 2 ^ 64) :
    (compactLoop fanIn label direction fuel runs spill).Ends (SpillRefused cap)
      (fun r => Stores r.1 es ∧ r.1.length ≤ fanIn ∧ r.2.maxBytes = cap) := by
  induction fuel generalizing runs spill with
  | zero => exact .ok ⟨h, by show runs.length ≤ fanIn; omega, hcap⟩
  | succ fuel ih =>
    rw [compactLoop]
    by_cases hmany : fanIn < runs.length
    · rw [if_pos hmany]
      have hfewer := length_chunks_lt hfan (show 2 ≤ runs.length by omega)
      have hpass := @ends_foldlM_compactChunk [] es cap label direction (runs.chunks fanIn)
        ([], spill) hcap stores_nil (by rwa [flatten_chunks (by omega)]) hcount
      apply hpass.bind
      intro next hnext
      apply ih _ hnext.2.2 hnext.1
      rw [hnext.2.1, length_nil]
      omega
    · rw [if_neg hmany]
      exact .ok ⟨h, by show runs.length ≤ fanIn; omega, hcap⟩

/-- Compaction keeps what is stored, in no more runs than the fan-in. -/
lemma ends_compactKeyedRuns (fanIn : ℕ) (hcap : spill.maxBytes = cap) (h : Stores runs es)
    (hcount : es.length < 2 ^ 64) :
    (compactKeyedRuns runs fanIn label direction spill).Ends (SpillRefused cap)
      (fun r => Stores r.1 es ∧ r.1.length ≤ max fanIn 2 ∧ r.2.maxBytes = cap) :=
  ends_compactLoop (by omega) (Nat.le_refl _) hcap h hcount

end

/-! ## Groups -/

/-- Entries with unique edges are sorted by the whole tuple. -/
lemma pairwise_le_sortKeyed {es : List KeyedEntry} (hunique : (es.map (·.edge)).Nodup) :
    (sortKeyed es).Pairwise (· ≤ ·) := by
  have hnodup : ((sortKeyed es).map (·.edge)).Nodup :=
    ((sortKeyed_perm es).map _).nodup_iff.mpr hunique
  have hedges : (sortKeyed es).Pairwise fun a b => a.edge ≠ b.edge :=
    pairwise_map.mp hnodup
  apply ((sortKeyed_sorted es).and hedges).imp
  intro a b h
  show a.tuple ≤ b.tuple
  rcases Prod.Lex.toLex_le_toLex.mp h.1 with hlt | ⟨heq, hle⟩
  · exact Prod.Lex.toLex_le_toLex.mpr (Or.inl hlt)
  · refine Prod.Lex.toLex_le_toLex.mpr (Or.inr ⟨heq, ?_⟩)
    exact Prod.Lex.toLex_le_toLex.mpr (Or.inl (lt_of_le_of_ne hle h.2))

/-- Entries with unique edges have one sorted arrangement. -/
lemma eq_sortKeyed {es fs : List KeyedEntry} (hunique : (fs.map (·.edge)).Nodup)
    (hs : es.Pairwise (· ≤ ·)) (hperm : es.Perm fs) : es = sortKeyed fs :=
  (hperm.trans (sortKeyed_perm fs).symm).eq_of_pairwise' hs (pairwise_le_sortKeyed hunique)

/-- A sequence of edges: `u64` values, with unique edge ids. -/
structure EdgeSequence (entries : List BuildEntry) : Prop where
  unique : (entries.map (·.edge)).Nodup
  fits : ∀ e ∈ entries, e.src < 2 ^ 64 ∧ e.edge < 2 ^ 64 ∧ e.dst < 2 ^ 64
  length : entries.length < 2 ^ 64

/-- The start of an edge sequence is one. -/
lemma EdgeSequence.of_append {first rest : List BuildEntry} (h : EdgeSequence (first ++ rest)) :
    EdgeSequence first where
  unique := by
    have := h.unique
    rw [map_append] at this
    exact this.of_append_left
  fits e he := h.fits e (mem_append_left rest he)
  length := by
    have := h.length
    rw [length_append] at this
    omega

namespace EdgeSequence
variable {entries : List BuildEntry} (h : EdgeSequence entries) (direction : Direction)
include h

/-- In either direction no edge is keyed twice. -/
lemma unique_keyed : ((entries.map (·.keyed direction)).map (·.edge)).Nodup := by
  rw [map_map]
  have hedge : (KeyedEntry.edge ∘ BuildEntry.keyed direction) = BuildEntry.edge := by
    funext e
    exact keyed_edge direction e
  rw [hedge]
  exact h.unique

/-- In either direction the entries fit. -/
lemma fits_keyed : ∀ e ∈ entries.map (·.keyed direction), e.Fits := by
  intro e he
  obtain ⟨x, hx, rfl⟩ := mem_map.mp he
  obtain ⟨hsrc, hedge, hdst⟩ := h.fits x hx
  cases direction with
  | outgoing => exact ⟨hsrc, hedge, hdst⟩
  | incoming => exact ⟨hdst, hedge, hsrc⟩

end EdgeSequence

/-- The runs and the buffer of a direction hold the edges. -/
def EntryGroup.Accumulates (g : EntryGroup) (direction : Direction) (entries : List BuildEntry) :
    Prop :=
  ∃ es, Stores (g.runs direction) es ∧
    (es ++ g.buffer.map (·.keyed direction)).Perm (entries.map (·.keyed direction))

namespace EntryGroup
variable {g : EntryGroup} {entries : List BuildEntry} {direction : Direction}
  {spill : SpillSession} {cap : Option ℕ}

@[simp] lemma runs_setRuns : (g.setRuns runs direction).runs direction = runs := by
  cases direction <;> rfl

/-- The other direction keeps its runs. -/
lemma runs_setRuns_of_ne {other : Direction} (h : other ≠ direction) :
    (g.setRuns runs direction).runs other = g.runs other := by
  cases direction <;> cases other <;> first | rfl | exact absurd rfl h

@[simp] lemma buffer_setRuns : (g.setRuns runs direction).buffer = g.buffer := by
  cases direction <;> rfl

/-- A spill adds one run, which stores the buffer. -/
lemma ends_spillDirection (h : g.Accumulates direction entries) (hentries : EdgeSequence entries)
    (hcap : spill.maxBytes = cap) (label : String) :
    (g.spillDirection direction label spill).Ends (SpillRefused cap)
      (fun r => ∃ run, r.1 = g.setRuns (g.runs direction ++ [run]) direction ∧
        Stores [run] (g.buffer.map (·.keyed direction)) ∧ r.2.maxBytes = cap) := by
  obtain ⟨es, _, hperm⟩ := h
  have hunique : ((g.buffer.map (·.keyed direction)).map (·.edge)).Nodup := by
    have hall := (hperm.map (·.edge)).nodup_iff.mpr (hentries.unique_keyed direction)
    rw [map_append] at hall
    exact hall.of_append_right
  have hfits : ∀ e ∈ sortKeyed (g.buffer.map (·.keyed direction)), e.Fits := by
    intro e he
    apply hentries.fits_keyed direction
    apply hperm.mem_iff.mp
    exact mem_append_right _ ((sortKeyed_perm _).mem_iff.mp he)
  have hcount : (sortKeyed (g.buffer.map (·.keyed direction))).length < 2 ^ 64 := by
    have hlength := hperm.length_eq
    have := hentries.length
    rw [(sortKeyed_perm _).length_eq]
    simp only [length_append, length_map] at hlength ⊢
    omega
  unfold spillDirection
  have hwrite := ends_writeKeyedRun
    (show (spill.nextRunPath label direction).2.maxBytes = cap from hcap)
    (spill.nextRunPath label direction).1 (pairwise_le_sortKeyed hunique) hfits hcount
  apply hwrite.bind
  intro r hr
  exact .ok ⟨r.1, rfl, hr.1.stores.trans_perm (sortKeyed_perm _), hr.2⟩

section
variable (h : ∀ d, g.Accumulates d entries)
include h

/-- A flush spills both directions and empties the buffer. -/
lemma ends_flush (hentries : EdgeSequence entries) (hcap : spill.maxBytes = cap) :
    (g.flush spill).Ends (SpillRefused cap) (fun r =>
      (∀ d, r.1.Accumulates d entries) ∧ r.1.buffer = [] ∧ r.2.maxBytes = cap) := by
  unfold flush
  by_cases hempty : g.buffer = []
  · rw [if_pos hempty]
    exact .ok ⟨h, hempty, hcap⟩
  rw [if_neg hempty]
  apply (ends_spillDirection (h .outgoing) hentries hcap _).bind
  rintro ⟨_, spill'⟩ ⟨outRun, rfl, hout, hcap'⟩
  have hin' : (g.setRuns (g.runs .outgoing ++ [outRun]) .outgoing).Accumulates .incoming
      entries := h .incoming
  apply (ends_spillDirection hin' hentries hcap' _).bind
  rintro ⟨_, spill''⟩ ⟨inRun, rfl, hin, hcap''⟩
  refine .ok ⟨?_, rfl, hcap''⟩
  intro d
  obtain ⟨es, hstores, hperm⟩ := h d
  refine ⟨es ++ g.buffer.map (·.keyed d), ?_, ?_⟩
  · cases d with
    | outgoing => exact hstores.append hout
    | incoming => exact hstores.append hin
  · simpa using hperm

/-- One more entry is accumulated in both directions. -/
lemma ends_push {entry : BuildEntry} (hentries : EdgeSequence (entries ++ [entry]))
    (hcap : spill.maxBytes = cap) (chunkRows : ℕ) :
    (push chunkRows (g, spill) entry).Ends (SpillRefused cap) (fun r =>
      (∀ d, r.1.Accumulates d (entries ++ [entry])) ∧ r.2.maxBytes = cap) := by
  have hpushed : ∀ d, { g with buffer := g.buffer ++ [entry] }.Accumulates d
      (entries ++ [entry]) := by
    intro d
    obtain ⟨es, hstores, hperm⟩ := h d
    refine ⟨es, hstores, ?_⟩
    simp only [map_append, ← append_assoc]
    exact hperm.append_right _
  unfold push
  simp only
  split
  · apply (ends_flush hpushed hentries hcap).mono
    intro r hr
    exact ⟨hr.1, hr.2.2⟩
  · exact .ok ⟨hpushed, hcap⟩

/-- Entries one after the other are accumulated in both directions. -/
lemma ends_foldlM_push {rest : List BuildEntry} (hentries : EdgeSequence (entries ++ rest))
    (hcap : spill.maxBytes = cap) (chunkRows : ℕ) :
    (rest.foldlM (push chunkRows) (g, spill)).Ends (SpillRefused cap) (fun r =>
      (∀ d, r.1.Accumulates d (entries ++ rest)) ∧ r.2.maxBytes = cap) := by
  induction rest generalizing g spill entries with
  | nil =>
    rw [append_nil]
    exact .ok ⟨h, hcap⟩
  | cons entry rest ih =>
    rw [append_cons] at hentries ⊢
    apply (ends_push h hentries.of_append hcap chunkRows).bind
    intro r hr
    exact ih hr.1 hentries hr.2

end

/-- After its preparation a direction has all edges in its runs, or all in the buffer. -/
lemma ends_prepareDirection (direction : Direction) (options : AdjacencyBuildOptions)
    (h : ∀ d, g.Accumulates d entries) (hentries : EdgeSequence entries)
    (hcap : spill.maxBytes = cap) :
    (g.prepareDirection direction options spill).Ends (SpillRefused cap) (fun r =>
      (∀ d, r.1.Accumulates d entries) ∧ (r.1.runs direction = [] ∨ r.1.buffer = []) ∧
        r.2.maxBytes = cap) := by
  unfold prepareDirection
  by_cases hruns : g.runs direction = []
  · rw [if_pos hruns]
    exact .ok ⟨h, Or.inl hruns, hcap⟩
  rw [if_neg hruns]
  apply (ends_flush h hentries hcap).bind
  rintro ⟨g', spill'⟩ ⟨haccumulates, hbuffer, hcap'⟩
  obtain ⟨es, hstores, hperm⟩ := haccumulates direction
  have hcount : es.length < 2 ^ 64 := by
    have hlength := hperm.length_eq
    have := hentries.length
    simp only [length_append, length_map] at hlength
    omega
  apply (ends_compactKeyedRuns options.mergeFanIn hcap' hstores hcount).bind
  rintro ⟨runs, spill''⟩ ⟨hcompacted, _, hcap''⟩
  refine .ok ⟨?_, Or.inr (by rw [buffer_setRuns]; exact hbuffer), hcap''⟩
  intro d
  by_cases hd : d = direction
  · subst hd
    exact ⟨es, by rwa [runs_setRuns], by rwa [buffer_setRuns]⟩
  · obtain ⟨fs, hother, hotherperm⟩ := haccumulates d
    exact ⟨fs, by rwa [runs_setRuns_of_ne runs hd], by rwa [buffer_setRuns]⟩

section
variable {R : Type} (write : ℕ → ℕ → CsrIndex → Except GfError R)

/-- Either way the writer receives the sorted entries of all edges. -/
lemma emitAll_eq (h : g.Accumulates direction entries) (hentries : EdgeSequence entries)
    (hready : g.runs direction = [] ∨ g.buffer = []) (start : Option ℕ × ShardedCsrWriter R) :
    g.emitAll write direction start =
      (sortKeyed (entries.map (·.keyed direction))).foldlM (emit write) start := by
  obtain ⟨es, hstores, hperm⟩ := h
  have hunique := hentries.unique_keyed direction
  unfold emitAll
  by_cases hruns : g.runs direction = []
  · rw [if_pos hruns]
    rw [hruns] at hstores
    rw [hstores.eq_nil, nil_append] at hperm
    have hbuffer := (hperm.map (·.edge)).nodup_iff.mpr hunique
    rw [eq_sortKeyed hunique (pairwise_le_sortKeyed hbuffer) ((sortKeyed_perm _).trans hperm)]
  · rw [if_neg hruns]
    rw [hready.resolve_left hruns, map_nil, append_nil] at hperm
    obtain ⟨ess, hholds, hflatten⟩ := hstores
    rw [mergeKeyedRuns_eq (emit write) hholds, eq_sortKeyed hunique (mergedRuns_sorted hholds)
      ((mergedRuns_perm ess).trans (hflatten.trans hperm))]

/-- The greatest key noted so far. -/
def maxKey (start : Option ℕ) (es : List KeyedEntry) : Option ℕ :=
  es.foldl (fun m e => some (m.elim e.key (max · e.key))) start

/-- Emitting entries writes them and keeps the largest key. -/
lemma foldlM_emit (es : List KeyedEntry) (start : Option ℕ) (w : ShardedCsrWriter R) :
    es.foldlM (emit write) (start, w) = do
      let w ← es.foldlM (ShardedCsrWriter.emit write) w
      return (maxKey start es, w) := by
  induction es generalizing start w with
  | nil => rfl
  | cons e es ih =>
    rw [foldlM_cons, foldlM_cons, emit]
    simp only [bind_assoc, pure_bind]
    refine bind_congr fun w' => ?_
    exact ih _ w'

/-- No entry has a larger key. -/
lemma maxKey_spec (es : List KeyedEntry) (start : Option ℕ) :
    (∀ e ∈ es, ∃ m, maxKey start es = some m ∧ e.key ≤ m) ∧
      ∀ m ∈ start, ∃ m', maxKey start es = some m' ∧ m ≤ m' := by
  induction es generalizing start with
  | nil => exact ⟨nofun, fun m hm => ⟨m, hm, Nat.le_refl m⟩⟩
  | cons x es ih =>
    obtain ⟨hkeys, hstart⟩ := ih (some (start.elim x.key (max · x.key)))
    obtain ⟨m', hm', hle⟩ := hstart _ rfl
    refine ⟨?_, ?_⟩
    · intro e he
      rcases mem_cons.mp he with rfl | he
      · refine ⟨m', hm', Nat.le_trans ?_ hle⟩
        cases start with
        | none => exact Nat.le_refl _
        | some m => exact Nat.le_max_right m e.key
      · exact hkeys e he
    · intro m hm
      obtain rfl : start = some m := hm
      exact ⟨m', hm', Nat.le_trans (Nat.le_max_left m x.key) hle⟩

/-- The shards are streamed from all entries of the direction, sorted. -/
lemma writeShardedCsr_eq (options : AdjacencyBuildOptions) (h : g.Accumulates direction entries)
    (hentries : EdgeSequence entries) (hready : g.runs direction = [] ∨ g.buffer = []) :
    g.writeShardedCsr write direction options =
      streamShards write options.shardMaxEdges options.shardMaxNodes
        (sortKeyed (entries.map (·.keyed direction)))
        ((maxKey none (sortKeyed (entries.map (·.keyed direction)))).elim 0
          (saturatingAdd · 1)) := by
  unfold writeShardedCsr streamShards
  rw [emitAll_eq write h hentries hready, foldlM_emit]
  simp only [bind_assoc, pure_bind]

end

/-! ## The shards of a build -/

/-- The set opens, wherever it is published, and serves the rows. -/
def Publishes (codec : ShardCodec) (set : ShardSet (CsrShardRecord × List UInt8))
    (rows : ℕ → List (ℕ × ℕ)) : Prop :=
  ∀ stem path owner, ∃ index,
    openShardSet (publishedFiles set) path (publishedManifest codec stem set) owner = .ok index ∧
      index.Serves codec (publishedFiles set) rows

section
variable {codec : ShardCodec} (hcodec : codec.Faithful) {csr : CsrIndex}
include hcodec

/-- Finishing a direction writes shards with the rows of the in-memory build. -/
lemma ends_finishShardedCsr (options : AdjacencyBuildOptions) (h : ∀ d, g.Accumulates d entries)
    (hentries : EdgeSequence entries) (hcsr : csrFromEntries entries direction = some csr)
    (hcap : spill.maxBytes = cap) :
    (g.finishShardedCsr (writeCsrShard codec) direction options spill).Ends (SpillRefused cap)
      (fun r => Publishes codec r.1 (fun node => (csr.row node).iter) ∧
        (∀ d, r.2.1.Accumulates d entries) ∧ r.2.2.maxBytes = cap) := by
  obtain ⟨_, _, hkeys⟩ := csrFromEntries_eq_ofSorted hcsr
  set es := sortKeyed (entries.map (·.keyed direction)) with hes
  have hs : es.Pairwise (·.key ≤ ·.key) := pairwise_key_of_order (sortKeyed_sorted _)
  have hlength : es.length < 2 ^ 64 := by
    rw [hes, (sortKeyed_perm _).length_eq, length_map]
    exact hentries.length
  have hvalues : ∀ e ∈ es, e.key + 1 < 2 ^ 64 ∧
      e.key + 1 ≤ (maxKey none es).elim 0 (saturatingAdd · 1) ∧ e.edge < 2 ^ 64 ∧
      e.neighbor < 2 ^ 64 := by
    intro e he
    obtain ⟨m, hm, hle⟩ := (maxKey_spec es none).1 e he
    have hkey := (hkeys e he).2
    have hfits := hentries.fits_keyed direction e ((sortKeyed_perm _).mem_iff.mp he)
    refine ⟨hkey, ?_, hfits.edge, hfits.neighbor⟩
    rw [hm]
    show e.key + 1 ≤ saturatingAdd m 1
    unfold saturatingAdd
    omega
  have hrows : (fun node => (csr.row node).iter) = rowOf es := by
    funext node
    rw [iter_row_csrFromEntries hentries.unique hcsr, rowOf_sortKeyed hentries.unique]
  unfold finishShardedCsr
  apply (ends_prepareDirection direction options h hentries hcap).bind
  rintro ⟨g', spill'⟩ ⟨haccumulates, hready, hcap'⟩
  obtain ⟨set, hset, hserves⟩ := serves_streamShards options.shardMaxEdges options.shardMaxNodes
    hs hvalues hcodec hlength
  apply Ends.step ((writeShardedCsr_eq (writeCsrShard codec) options
    (haccumulates direction) hentries hready).trans hset)
  refine .ok ⟨?_, haccumulates, hcap'⟩
  rw [hrows]
  exact hserves

end

end EntryGroup

/-- The shard set of a direction. -/
def ofDirection {R : Type} (sets : R × R) : Direction → R
  | .outgoing => sets.1
  | .incoming => sets.2

/-- Whatever the chunk size, fan-in, memory budget and shard limits, a build either exceeds
the cap on spilled bytes or publishes, for both directions, shards from which every row,
row length and chunk of a row is read as `csrFromEntries` of the same edges has it: the
node's pairs sorted by edge. -/
theorem build_serves_csrFromEntries {codec : ShardCodec} (hcodec : codec.Faithful)
    (options : AdjacencyBuildOptions) (label : String) (spill : SpillSession)
    {entries : List BuildEntry} (hentries : EdgeSequence entries) {csr : Direction → CsrIndex}
    (hcsr : ∀ direction, csrFromEntries entries direction = some (csr direction)) :
    (EntryGroup.build (writeCsrShard codec) options label spill entries).Ends
      (SpillRefused spill.maxBytes) fun sets => ∀ direction,
        EntryGroup.Publishes codec (ofDirection sets direction)
          (fun node => ((csr direction).row node).iter) ∧
        ∀ node, ((csr direction).row node).iter = sortedRow entries direction node := by
  have hstart : ∀ d, (EntryGroup.withLabel label).Accumulates d [] := by
    intro d
    cases d <;> exact ⟨[], stores_nil, .nil⟩
  unfold EntryGroup.build
  apply (EntryGroup.ends_foldlM_push hstart hentries rfl _).bind
  rintro ⟨g, spill₁⟩ ⟨haccumulates, hcap⟩
  apply (EntryGroup.ends_finishShardedCsr hcodec options.effective haccumulates hentries
    (hcsr .outgoing) hcap).bind
  rintro ⟨outSet, g', spill₂⟩ ⟨hout, haccumulates', hcap'⟩
  apply (EntryGroup.ends_finishShardedCsr hcodec options.effective haccumulates' hentries
    (hcsr .incoming) hcap').bind
  rintro ⟨inSet, g'', spill₃⟩ ⟨hin, _⟩
  refine .ok fun direction => ⟨?_, fun node =>
    iter_row_csrFromEntries hentries.unique (hcsr direction) node⟩
  cases direction with
  | outgoing => exact hout
  | incoming => exact hin

/-- Four edges around the hub `1`, spilled one by one and merged two at a time into shards of
one entry each. -/
theorem build_serves_hub :
    let options : AdjacencyBuildOptions := ⟨1, none, none, 1, 1, 2⟩
    let spill : SpillSession := ⟨id, "spill", 0, 0, none, 0⟩
    let entries : List BuildEntry := [⟨1, 9, 3⟩, ⟨1, 4, 0⟩, ⟨0, 7, 1⟩, ⟨1, 5, 1⟩]
    let codec := wordCodec Xxh64.hash sha256
    ∃ sets, EntryGroup.build (writeCsrShard codec) options "knows" spill entries = .ok sets ∧
      EntryGroup.Publishes codec (ofDirection sets .outgoing)
        (fun node => ((⟨[0, 1, 4], [7, 4, 5, 9], [1, 0, 1, 3]⟩ : CsrIndex).row node).iter) ∧
      sortedRow entries .outgoing 1 = [(4, 0), (5, 1), (9, 3)] := by
  intro options spill entries codec
  have hentries : EdgeSequence entries := ⟨by decide, by decide, by decide⟩
  have h := @build_serves_csrFromEntries codec (faithful_wordCodec _ _) options "knows" spill
    entries hentries (fun
      | .outgoing => ⟨[0, 1, 4], [7, 4, 5, 9], [1, 0, 1, 3]⟩
      | .incoming => ⟨[0, 1, 3, 3, 4], [4, 5, 7, 9], [1, 1, 0, 1]⟩)
    (by intro d; cases d <;> decide +kernel)
  have hcap : ∀ e, SpillRefused spill.maxBytes e → False := by
    rintro e ⟨max, hmax, _⟩
    cases hmax
  obtain ⟨sets, hsets, hpublishes⟩ := (h.mono_error hcap).exists_ok
  refine ⟨sets, hsets, (hpublishes .outgoing).1, ?_⟩
  decide +kernel

end GraphForge.Adjacency
