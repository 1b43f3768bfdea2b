import GraphForge.Adjacency.ShardedIndex
import GraphForge.Lib.HiddenState
import Mathlib.Algebra.Order.BigOperators.Group.List
import Mathlib.Data.Finset.Max

/-!
# Rows of an opened shard set

Where consecutive shards share at most one row, the backwards search finds exactly the
shards that cover a node, and a row is what they hold of it, in manifest order. The
cache changes nothing: as long as it holds, under an index, only what that index read,
every row function gives what it gives on the files.
-/

namespace GraphForge.Adjacency

open List Except

/-! ## What opening ensures -/

/-- The manifest's shards are nonempty, lie within its nodes and are ordered by their
first nodes. -/
structure CsrShardManifest.Admitted (manifest : CsrShardManifest) : Prop where
  nonempty : ∀ r ∈ manifest.shards, 0 < r.nodeCount
  within : ∀ r ∈ manifest.shards, r.firstNode + r.nodeCount ≤ manifest.nodeCount
  fits : ∀ r ∈ manifest.shards, r.firstNode + r.nodeCount < 2 ^ 64
  ordered : manifest.shards.Pairwise (·.firstNode ≤ ·.firstNode)

/-- An admitted shard is nonempty, lies within the nodes and starts no earlier than the prior
one. -/
private lemma of_admitShard {dir : Directory} {nodeCount : ℕ} {state state' : OpenState}
    {shard : CsrShardRecord} (h : admitShard dir nodeCount state shard = .ok state') :
    (0 < shard.nodeCount ∧ shard.firstNode + shard.nodeCount ≤ nodeCount ∧
      shard.firstNode + shard.nodeCount < 2 ^ 64) ∧
    (∀ prior ∈ state.priorFirst, prior ≤ shard.firstNode) ∧
      state'.priorFirst = some shard.firstNode := by
  simp only [admitShard, bind_eq_ok_iff, refuseIf_eq_ok_iff, pure, Except.pure,
    Except.ok.injEq, not_or] at h
  obtain ⟨_, ⟨hcount, hend, hprior⟩, _, _, _, _, _, _, _, _, _, _, _, _, _, _, rfl⟩ := h
  refine ⟨?_, ?_, rfl⟩
  · unfold checkedAdd at hend
    split at hend
    next hlt =>
      simp only [Option.all_some, decide_eq_true_eq] at hend
      omega
    next => simp at hend
  · intro prior hmem
    rw [Option.mem_def.mp hmem] at hprior
    simpa using hprior

/-- An index that opens has an admitted manifest. -/
theorem admitted_of_openShardSet {dir : Directory} {path : String} {manifest : CsrShardManifest}
    {owner : ℕ} {index : ShardedCsrIndex}
    (h : openShardSet dir path manifest owner = .ok index) :
    index = ⟨manifest, owner⟩ ∧ manifest.Admitted := by
  simp only [openShardSet, bind_eq_ok_iff, refuseIf_eq_ok_iff, pure, Except.pure,
    Except.ok.injEq] at h
  obtain ⟨_, _, _, _, _, _, state, hloop, _, _, rfl⟩ := h
  have heach := forall_of_foldlM hloop fun _ _ _ hstep => (of_admitShard hstep).1
  refine ⟨rfl, ?_⟩
  exact {
    nonempty := fun r hr => (heach r hr).1
    within := fun r hr => (heach r hr).2.1
    fits := fun r hr => (heach r hr).2.2
    ordered := (pairwise_of_foldlM_prior (R := (· ≤ ·)) OpenState.priorFirst hloop
      fun _ _ _ hstep => (of_admitShard hstep).2).1 }

/-! ## The shards of a row -/

/-- Consecutive shards share at most the last row of the earlier one. -/
def SharesBoundaryOnly (shards : List CsrShardRecord) : Prop :=
  shards.Pairwise fun a b => a.firstNode + a.nodeCount ≤ b.firstNode + 1

/-- The rows of a shard include `node`. -/
def CsrShardRecord.covers (r : CsrShardRecord) (node : ℕ) : Bool :=
  r.firstNode ≤ node ∧ node < r.firstNode + r.nodeCount

/-- The backwards search finds the shards that cover the node. -/
lemma reverse_shardsFromEnd {manifest : CsrShardManifest} (hadmitted : manifest.Admitted)
    (hshare : SharesBoundaryOnly manifest.shards) (node : ℕ) :
    (shardsFromEnd manifest.shards node).reverse = manifest.shards.filter (·.covers node) := by
  have hstart : manifest.shards.PartitionedBy (fun r => decide (r.firstNode ≤ node)) := by
    apply hadmitted.ordered.imp
    intro a b hab hb
    simp only [decide_eq_true_eq] at hb ⊢
    omega
  have htake : manifest.shards.take (manifest.shards.partitionPoint (·.firstNode ≤ node)) =
      manifest.shards.filter (·.firstNode ≤ node) := by
    rw [hstart.partitionPoint_eq, hstart.take_countP]
  -- seen from the end, the shards that reach the node come first
  have hreach : (manifest.shards.filter (·.firstNode ≤ node)).reverse.PartitionedBy
      (fun r => decide (node < saturatingAdd r.firstNode r.nodeCount)) := by
    apply pairwise_reverse.mpr
    apply Pairwise.imp_of_mem _ (Pairwise.filter _ hshare)
    intro a b ha hb hab hreach
    have hb' := (mem_filter.mp hb).1
    have := hadmitted.nonempty b hb'
    simp only [decide_eq_true_eq] at hreach ⊢
    unfold saturatingAdd at hreach ⊢
    omega
  unfold shardsFromEnd
  simp only
  rw [htake, hreach.takeWhile_eq, filter_reverse, reverse_reverse, filter_filter]
  apply filter_congr
  intro r hr
  have := hadmitted.fits r hr
  rw [Bool.eq_iff_iff]
  simp only [CsrShardRecord.covers, Bool.and_eq_true, decide_eq_true_eq]
  unfold saturatingAdd
  omega

/-! ## Rows on the files -/

/-- A shard that reads is what Arrow decodes from its file, of the declared sizes. -/
lemma decode_of_readAuthenticatedShard {codec : ShardCodec} {dir : Directory}
    {record : CsrShardRecord} {csr : CsrIndex}
    (h : readAuthenticatedShard codec dir record = .ok csr) :
    ∃ bytes, dir record.file = .ok bytes ∧ codec.decode bytes = .ok csr ∧
      csr.nodeCount = record.nodeCount ∧ csr.edgeCount = record.edgeCount := by
  simp only [readAuthenticatedShard, readShardFile, bind_eq_ok_iff,
    refuseIf_eq_ok_iff, mapError_eq_ok_iff, pure, Except.pure, Except.ok.injEq,
    not_or, not_not] at h
  obtain ⟨_, _, _, _, _, _, bytes, ⟨_, _, bytes', hbytes, _, _, rfl⟩, _, _, _, _, csr', hcsr, _, _, _,
    hcounts, rfl⟩ := h
  exact ⟨bytes', hbytes, hcsr, hcounts⟩

/-- Two records of one file that both read have the same content. -/
lemma readAuthenticatedShard_congr {codec : ShardCodec} {dir : Directory}
    {r s : CsrShardRecord} {csr csr' : CsrIndex} (hr : readAuthenticatedShard codec dir r = .ok csr)
    (hs : readAuthenticatedShard codec dir s = .ok csr') (hfile : r.file = s.file) :
    readAuthenticatedShard codec dir r = readAuthenticatedShard codec dir s := by
  obtain ⟨bytes, hbytes, hdecode, _⟩ := decode_of_readAuthenticatedShard hr
  obtain ⟨bytes', hbytes', hdecode', _⟩ := decode_of_readAuthenticatedShard hs
  rw [hfile, hbytes'] at hbytes
  cases hbytes
  rw [hdecode'] at hdecode
  cases hdecode
  rw [hr, hs]

section
variable {read : CsrShardRecord → Except GfError CsrIndex} {contents : CsrShardRecord → CsrIndex}
variable {records : List CsrShardRecord} {node : ℕ}

/-- The content of a shard that reads. -/
def contentsOf (read : CsrShardRecord → Except GfError CsrIndex) (r : CsrShardRecord) : CsrIndex :=
  match read r with
  | .ok csr => csr
  | .error _ => .start

lemma read_eq_contentsOf {r : CsrShardRecord} (h : ∃ csr, read r = .ok csr) :
    read r = .ok (contentsOf read r) := by
  obtain ⟨csr, h⟩ := h
  rw [contentsOf, h]

/-- What the shards that cover a node hold of its row, in manifest order. -/
def shardRow (contents : CsrShardRecord → CsrIndex) (shards : List CsrShardRecord) (node : ℕ) :
    List (ℕ × ℕ) :=
  (shards.filter (·.covers node)).flatMap fun r => ((contents r).row (node - r.firstNode)).iter

lemma shardRow_eq_nil {manifest : CsrShardManifest} (hadmitted : manifest.Admitted)
    (h : manifest.nodeCount ≤ node) : shardRow contents manifest.shards node = [] := by
  have hnone : manifest.shards.filter (·.covers node) = [] := by
    apply filter_eq_nil_iff.mpr
    intro r hr
    have := hadmitted.within r hr
    simp only [CsrShardRecord.covers, decide_eq_true_eq]
    omega
  rw [shardRow, hnone, flatMap_nil]

namespace ShardedCsrIndex

lemma mapRecordRow_eq {T : Type} {record : CsrShardRecord} (h : read record = .ok (contents record))
    (node : ℕ) (map : CsrRow → T) :
    mapRecordRow read record node map =
      .ok (map ((contents record).row (node - record.firstNode))) := by
  rw [mapRecordRow, h]
  rfl

section
variable (h : ∀ r ∈ records, read r = .ok (contents r))
include h

private lemma foldlM_append (output : List (ℕ × ℕ)) : records.foldlM (extendRow read node) output =
      .ok (output ++ records.flatMap fun r => ((contents r).row (node - r.firstNode)).iter) := by
  induction records generalizing output with
  | nil => simp; rfl
  | cons r records ih =>
    rw [foldlM_cons, extendRow, mapRecordRow_eq (h r mem_cons_self)]
    show records.foldlM _ (output ++ _) = _
    rw [ih fun s hs => h s (mem_cons_of_mem r hs), flatMap_cons, append_assoc]

private lemma foldlM_count (total : ℕ)
    (hfits : total + (records.flatMap fun r =>
      ((contents r).row (node - r.firstNode)).iter).length < 2 ^ 64) :
    records.foldlM (addRowLen read node) total =
      .ok (total + (records.flatMap fun r => ((contents r).row (node - r.firstNode)).iter).length) := by
  induction records generalizing total with
  | nil => rfl
  | cons r records ih =>
    rw [flatMap_cons, length_append, CsrRow.length_iter] at hfits ⊢
    have hadd : checkedAdd total ((contents r).row (node - r.firstNode)).len =
        some (total + ((contents r).row (node - r.firstNode)).len) := if_pos (by omega)
    rw [foldlM_cons, addRowLen, mapRecordRow_eq (h r mem_cons_self)]
    simp only [bind, Except.bind, hadd]
    have := ih (fun s hs => h s (mem_cons_of_mem r hs))
      (total + ((contents r).row (node - r.firstNode)).len) (by omega)
    rw [Nat.add_assoc] at this
    exact this

private lemma chunkLoop_eq {limit : ℕ} (skip : ℕ) {output : List (ℕ × ℕ)}
    (hout : output.length < limit) (hskip : output ≠ [] → skip = 0) :
    chunkLoop read node limit records skip output = .ok (output ++ ((records.flatMap fun r =>
        ((contents r).row (node - r.firstNode)).iter).drop skip).take (limit - output.length)) := by
  induction records generalizing skip output with
  | nil => simp [chunkLoop]; rfl
  | cons r records ih =>
    have hrest : ∀ s ∈ records, read s = .ok (contents s) :=
      fun s hs => h s (mem_cons_of_mem r hs)
    rw [chunkLoop, mapRecordRow_eq (h r mem_cons_self)]
    simp only [bind, Except.bind]
    generalize hrow : (contents r).row (node - r.firstNode) = row
    rw [flatMap_cons, hrow, drop_append]
    by_cases hlen : row.len ≤ skip
    · -- the whole part of this shard is skipped
      have hnil : row.iter.drop skip = [] := drop_eq_nil_of_le (by simpa using hlen)
      simp only [if_pos hlen]
      rw [if_neg (by omega), ih hrest (skip - row.len) hout, hnil, nil_append, CsrRow.length_iter]
      intro hne
      rw [hskip hne, Nat.zero_sub]
    simp only [if_neg hlen]
    have hzero : skip - row.iter.length = 0 := by
      rw [CsrRow.length_iter]
      omega
    rw [hzero, drop_zero, take_append, ← append_assoc]
    generalize htaken : (row.iter.drop skip).take (limit - output.length) = taken
    have hcount : taken.length = min (limit - output.length) (row.len - skip) := by
      rw [← htaken, length_take, length_drop, CsrRow.length_iter]
    have hleft : (row.iter.drop skip).length = row.len - skip := by
      rw [length_drop, CsrRow.length_iter]
    rw [length_append]
    by_cases hfull : output.length + taken.length = limit
    · -- the chunk is complete
      rw [if_pos hfull, hleft, show limit - output.length - (row.len - skip) = 0 by omega,
        take_zero, append_nil]
      rfl
    · rw [if_neg hfull, ih hrest 0 (by rw [length_append]; omega) (fun _ => rfl),
        drop_zero, length_append, hleft]
      congr 3
      omega

end

variable {index : ShardedCsrIndex}

section
variable (hadmitted : index.manifest.Admitted) (hshare : SharesBoundaryOnly index.manifest.shards)
  (h : ∀ r ∈ index.manifest.shards, read r = .ok (contents r))
include hadmitted hshare h

/-- A row is what the shards that cover its node hold of it. -/
lemma row_eq (node : ℕ) :
    index.row read node = .ok (shardRow contents index.manifest.shards node) := by
  unfold row
  by_cases hnode : index.manifest.nodeCount ≤ node
  · rw [if_pos hnode, shardRow_eq_nil hadmitted hnode]
    rfl
  · rw [if_neg hnode, reverse_shardsFromEnd hadmitted hshare,
      foldlM_append (fun r hr => h r (mem_filter.mp hr).1)]
    rfl

lemma rowLen_eq (node : ℕ) (hfits : (shardRow contents index.manifest.shards node).length < 2 ^ 64) :
    index.rowLen read node = .ok (shardRow contents index.manifest.shards node).length := by
  unfold rowLen
  by_cases hnode : index.manifest.nodeCount ≤ node
  · rw [if_pos hnode, shardRow_eq_nil hadmitted hnode]
    rfl
  have hperm : (shardsFromEnd index.manifest.shards node).Perm
      (index.manifest.shards.filter (·.covers node)) := by
    rw [← reverse_shardsFromEnd hadmitted hshare]
    exact (reverse_perm _).symm
  -- the shards are counted from the last one; the sum is the same
  have hlength : ((shardsFromEnd index.manifest.shards node).flatMap fun r =>
      ((contents r).row (node - r.firstNode)).iter).length =
        (shardRow contents index.manifest.shards node).length :=
    (hperm.flatMap_right _).length_eq
  rw [if_neg hnode, foldlM_count (fun r hr => h r (mem_filter.mp (hperm.subset hr)).1) 0
    (by omega), hlength, Nat.zero_add]

lemma rowChunk_eq (node skip limit : ℕ) : index.rowChunk read node skip limit =
      .ok (((shardRow contents index.manifest.shards node).drop skip).take limit) := by
  unfold rowChunk
  by_cases hnode : index.manifest.nodeCount ≤ node
  · rw [if_pos (.inl hnode), shardRow_eq_nil hadmitted hnode, drop_nil, take_nil]
    rfl
  by_cases hlimit : limit = 0
  · rw [if_pos (.inr hlimit), hlimit, take_zero]
    rfl
  · rw [if_neg (by omega), reverse_shardsFromEnd hadmitted hshare,
      chunkLoop_eq (fun r hr => h r (mem_filter.mp hr).1) skip (Nat.pos_of_ne_zero hlimit)
        (fun hne => absurd rfl hne)]
    rfl

end

end ShardedCsrIndex

end

/-! ## The cache is not observable -/

/-- The cache holds, under the index, only what the index read. -/
def ShardedCsrIndex.Coherent (index : ShardedCsrIndex)
    (read : CsrShardRecord → Except GfError CsrIndex) (cache : DecodedShardCache) : Prop :=
  ∀ entry ∈ cache.entries, entry.owner = index.owner →
    ∃ r ∈ index.manifest.shards, r.file = entry.file ∧ read r = .ok entry.csr

namespace ShardedCsrIndex
variable {index : ShardedCsrIndex} {read : CsrShardRecord → Except GfError CsrIndex}
  {cache : DecodedShardCache}

lemma Coherent.noteHit (h : index.Coherent read cache) (i : ℕ) :
    index.Coherent read (cache.noteHit i) := by
  intro entry hentry howner
  -- a hit changes nothing but the time of the latest use
  have hsame : ∃ e ∈ cache.entries, e.owner = entry.owner ∧ e.file = entry.file ∧
      e.csr = entry.csr := by
    obtain ⟨j, hj, hget⟩ := mem_iff_getElem.mp hentry
    simp only [DecodedShardCache.noteHit, length_modify] at hj hget
    refine ⟨cache.entries[j], getElem_mem hj, ?_⟩
    rw [getElem_modify] at hget
    by_cases hij : i = j
    · rw [if_pos hij] at hget
      simp [← hget]
    · rw [if_neg hij] at hget
      simp [← hget]
  obtain ⟨e, he, heowner, hefile, hecsr⟩ := hsame
  rw [← hefile, ← hecsr]
  exact h e he (heowner.trans howner)

lemma entries_evictOne_subset (cache : DecodedShardCache) :
    cache.evictOne.entries ⊆ cache.entries := by
  unfold DecodedShardCache.evictOne
  split
  · exact List.Subset.refl _
  · exact eraseIdx_subset

lemma entries_makeRoom_subset (need fuel : ℕ) (cache : DecodedShardCache) :
    (DecodedShardCache.makeRoom need fuel cache).entries ⊆ cache.entries := by
  induction fuel generalizing cache with
  | zero => exact List.Subset.refl _
  | succ fuel ih =>
    unfold DecodedShardCache.makeRoom
    split
    · exact List.Subset.trans (ih _) (entries_evictOne_subset cache)
    · exact List.Subset.refl _

/-- A decoded shard is retained: one of another index, or one this index read. -/
lemma Coherent.insert (h : index.Coherent read cache) {owner : ℕ} {file : List Char}
    {csr : CsrIndex} (decodedBytes : ℕ)
    (hread : owner = index.owner → ∃ r ∈ index.manifest.shards, r.file = file ∧ read r = .ok csr) :
    index.Coherent read (cache.insert owner file csr decodedBytes) := by
  intro entry hentry howner
  rcases mem_append.mp hentry with hentry | hentry
  · exact h entry (entries_makeRoom_subset decodedBytes cache.entries.length
      { cache with tick := cache.tick + 1 } hentry) howner
  · rw [mem_singleton.mp hentry] at howner ⊢
    exact hread howner

/-- A shard through the cache is the shard. -/
lemma gives_fetchCached {contents : CsrShardRecord → CsrIndex}
    (hread : ∀ r ∈ index.manifest.shards, read r = .ok (contents r))
    (hfile : ∀ r ∈ index.manifest.shards, ∀ s ∈ index.manifest.shards, r.file = s.file →
      read r = read s)
    (record : CsrShardRecord) (hrecord : record ∈ index.manifest.shards) :
    Gives (index.Coherent read) (fetchCached read index.owner record) (read record) := by
  intro cache hcache
  simp only [fetchCached, ExceptT.run_mk, StateT.run]
  cases hpos : cache.position index.owner record.file with
  | none =>
    rw [hread record hrecord]
    exact ⟨rfl, hcache.insert _ fun _ => ⟨record, hrecord, rfl, hread record hrecord⟩⟩
  | some i =>
    -- a hit is an entry of this index for this file, which holds what the index read
    obtain ⟨hi, hentry, _⟩ := findIdx?_eq_some_iff_getElem.mp hpos
    simp only [decide_eq_true_eq] at hentry
    obtain ⟨r, hr, hrfile, hcsr⟩ := hcache _ (getElem_mem hi) hentry.1
    simp only [List.getElem?_eq_getElem hi]
    refine ⟨?_, hcache.noteHit i⟩
    rw [hfile record hrecord r hr (hentry.2.symm.trans hrfile.symm), hcsr]

/-- A row function over the cache gives what it gives on the files. -/
lemma gives_mapRecordRow {T : Type} {fetch : CsrShardRecord → CacheM CsrIndex}
    {I : DecodedShardCache → Prop} {record : CsrShardRecord}
    (h : Gives I (fetch record) (read record)) (node : ℕ) (map : CsrRow → T) :
    Gives I (mapRecordRow fetch record node map) (mapRecordRow read record node map) :=
  h.bind fun _ _ => Gives.pure _

lemma shardsFromEnd_subset (shards : List CsrShardRecord) (node : ℕ) :
    shardsFromEnd shards node ⊆ shards := by
  intro r hr
  have := (takeWhile_sublist _).subset hr
  exact mem_of_mem_take (mem_reverse.mp this)

section
variable {fetch : CsrShardRecord → CacheM CsrIndex} {I : DecodedShardCache → Prop}
  (h : ∀ r ∈ index.manifest.shards, Gives I (fetch r) (read r))
include h

lemma gives_row (node : ℕ) : Gives I (index.row fetch node) (index.row read node) := by
  unfold row
  split
  · exact Gives.pure _
  · apply Gives.foldlM
    intro output record hrecord
    have hmem := shardsFromEnd_subset _ _ (mem_reverse.mp hrecord)
    exact (gives_mapRecordRow (h record hmem) node _).bind fun _ _ => Gives.pure _

lemma gives_rowLen (node : ℕ) : Gives I (index.rowLen fetch node) (index.rowLen read node) := by
  unfold rowLen
  split
  · exact Gives.pure _
  apply Gives.foldlM
  intro total record hrecord
  have hmem := shardsFromEnd_subset _ _ hrecord
  apply (gives_mapRecordRow (h record hmem) node _).bind
  intro count _
  split
  · exact Gives.throw _
  · exact Gives.pure _

lemma gives_chunkLoop (node limit : ℕ) {records : List CsrShardRecord}
    (hsub : records ⊆ index.manifest.shards) (skip : ℕ) (output : List (ℕ × ℕ)) :
    Gives I (chunkLoop fetch node limit records skip output)
      (chunkLoop read node limit records skip output) := by
  induction records generalizing skip output with
  | nil => exact Gives.pure _
  | cons record records ih =>
    have hmem := cons_subset.mp hsub
    unfold chunkLoop
    apply (gives_mapRecordRow (h record hmem.1) node _).bind
    intro state _
    by_cases hfull : state.2.length = limit
    · simp only [if_pos hfull]
      exact Gives.pure _
    · simp only [if_neg hfull]
      exact ih hmem.2 _ _

lemma gives_rowChunk (node skip limit : ℕ) :
    Gives I (index.rowChunk fetch node skip limit) (index.rowChunk read node skip limit) := by
  unfold rowChunk
  split
  · exact Gives.pure _
  · apply gives_chunkLoop h
    intro r hr
    exact shardsFromEnd_subset _ _ (mem_reverse.mp hr)

end

/-! ## Rows of an opened index -/

section
variable {contents : CsrShardRecord → CsrIndex}
  (hadmitted : index.manifest.Admitted) (hshare : SharesBoundaryOnly index.manifest.shards)
  (hread : ∀ r ∈ index.manifest.shards, read r = .ok (contents r))
  (hfile : ∀ r ∈ index.manifest.shards, ∀ s ∈ index.manifest.shards, r.file = s.file →
    read r = read s)
include hadmitted hshare hread hfile

/-- Through a coherent cache, a row is that of the shards. -/
theorem gives_shardRow (node : ℕ) :
    Gives (index.Coherent read) (index.row (fetchCached read index.owner) node)
      (.ok (shardRow contents index.manifest.shards node)) := by
  rw [← row_eq hadmitted hshare hread]
  exact gives_row (gives_fetchCached hread hfile) node

/-- Through a coherent cache, the length of a row is that in the shards. -/
theorem gives_length_shardRow (node : ℕ)
    (hfits : (shardRow contents index.manifest.shards node).length < 2 ^ 64) :
    Gives (index.Coherent read) (index.rowLen (fetchCached read index.owner) node)
      (.ok (shardRow contents index.manifest.shards node).length) := by
  rw [← rowLen_eq hadmitted hshare hread node hfits]
  exact gives_rowLen (gives_fetchCached hread hfile) node

/-- Through a coherent cache, a chunk of a row is that of the shards. -/
theorem gives_chunk_shardRow (node skip limit : ℕ) :
    Gives (index.Coherent read) (index.rowChunk (fetchCached read index.owner) node skip limit)
      (.ok (((shardRow contents index.manifest.shards node).drop skip).take limit)) := by
  rw [← rowChunk_eq hadmitted hshare hread]
  exact gives_rowChunk (gives_fetchCached hread hfile) node skip limit

end

end ShardedCsrIndex

/-! ## The budget of a shared cache -/

namespace DecodedShardCache

/-- The states of a cache, whatever its indexes and the other consumer of its budget do. -/
inductive Reached (budgetBytes : ℕ) : DecodedShardCache → Prop
  | new : Reached budgetBytes (.new budgetBytes)
  | insert (c owner file csr bytes) : Reached budgetBytes c →
    Reached budgetBytes (c.insert owner file csr bytes)
  | noteHit (c index) : Reached budgetBytes c → Reached budgetBytes (c.noteHit index)
  | removeOwner (c owner) : Reached budgetBytes c → Reached budgetBytes (c.removeOwner owner)
  | setExternalBytes (c bytes) : Reached budgetBytes c →
    Reached budgetBytes (c.setExternalBytes bytes)

/-- The bytes charged are those of the entries. -/
def Charged (c : DecodedShardCache) : Prop :=
  c.retainedBytes = (c.entries.map (·.decodedBytes)).sum

variable {c : DecodedShardCache}

lemma Charged.le_of_nil (hc : c.Charged) (h : c.entries = []) : c.retainedBytes ≤ c.capacity :=
  hc.trans_le (by simp [h])

lemma Charged.evictOne (hc : c.Charged) (h : c.entries ≠ []) :
    c.evictOne.Charged ∧ c.evictOne.entries.length < c.entries.length := by
  have hlt : c.victim < c.entries.length := by
    obtain ⟨oldest, hmem, hmin⟩ :=
      c.entries.toFinset.exists_min_image (·.lastUsed) (by simpa using h)
    exact findIdx_lt_length.mpr ⟨oldest, by simpa using hmem, by simpa using hmin⟩
  have hsum := ((getElem_cons_eraseIdx_perm hlt).map (·.decodedBytes)).sum_eq
  simp only [Charged, DecodedShardCache.evictOne, getElem?_eq_getElem hlt,
    length_eraseIdx_of_lt hlt, map_cons, sum_cons] at *
  omega

/-- Room is made for `need` bytes, or nothing is left. -/
lemma Charged.makeRoom (hc : c.Charged) (need : ℕ) {fuel : ℕ} (hfuel : c.entries.length ≤ fuel) :
    let room := makeRoom need fuel c
    room.Charged ∧ (room.retainedBytes + need ≤ room.capacity ∨ room.entries = []) := by
  induction fuel generalizing c with
  | zero => exact ⟨hc, .inr (length_eq_zero_iff.mp (Nat.le_zero.mp hfuel))⟩
  | succ fuel ih =>
    rw [DecodedShardCache.makeRoom]
    split
    next hfull =>
      obtain ⟨hevicted, hless⟩ := hc.evictOne hfull.1
      exact ih hevicted (by omega)
    next hroom => exact ⟨hc, by rwa [not_and_or, not_not, Nat.not_lt, or_comm] at hroom⟩

/-- However a cache is shared, it charges exactly its entries, and stays within what is left of its
budget unless a single shard exceeds that. -/
theorem Reached.balanced {budgetBytes : ℕ} (h : Reached budgetBytes c) :
    c.Charged ∧ (c.retainedBytes ≤ c.capacity ∨ c.entries.length = 1) := by
  induction h with
  | new => exact ⟨rfl, .inl (Nat.zero_le _)⟩
  | insert c owner file csr bytes _ ih =>
    obtain ⟨hc, hroom⟩ := Charged.makeRoom (c := { c with tick := c.tick + 1 }) ih.1 bytes le_rfl
    simp only [DecodedShardCache.insert, Charged, map_append, sum_append]
    exact ⟨by simpa [Charged] using hc, hroom.imp_right fun hnil => by simp [hnil]⟩
  | noteHit c index _ ih =>
    have hsame : (c.noteHit index).entries.map (·.decodedBytes) =
        c.entries.map (·.decodedBytes) := by
      apply ext_getElem <;> grind [DecodedShardCache.noteHit]
    exact ⟨ih.1.trans (congrArg sum hsame).symm, ih.2.imp_right (length_modify _ _ _).trans⟩
  | removeOwner c owner _ ih =>
    have hsub : (c.removeOwner owner).entries.Sublist c.entries := filter_sublist
    refine ⟨rfl, ?_⟩
    rcases ih.2 with hfits | hone
    · exact .inl (((hsub.map _).sum_le_sum (by simp)).trans (ih.1.symm.trans_le hfits))
    · rcases hsub.length_le.lt_or_eq with hlt | heq
      · have hnil := length_eq_zero_iff.mp (Nat.lt_one_iff.mp (hone ▸ hlt))
        exact .inl (Charged.le_of_nil rfl hnil)
      · exact .inr (heq.trans hone)
  | setExternalBytes c bytes _ ih =>
    obtain ⟨hc, hroom⟩ := Charged.makeRoom (c := { c with externalBytes := bytes }) ih.1 0 le_rfl
    exact ⟨hc, .inl (hroom.elim id hc.le_of_nil)⟩

/-- Two indexes share eight bytes: the shard of the one was used again, so room for its next shard is
made by evicting the shard of the other. -/
theorem balanced_shared :
    let csr : CsrIndex := ⟨[], [], []⟩
    let c := ((((new 8).insert 1 ['a'] csr 3).insert 2 ['b'] csr 4).noteHit 0).insert 1 ['c'] csr 5
    c.entries.map (fun entry => (entry.owner, entry.file)) = [(1, ['a']), (1, ['c'])] ∧
      c.Charged ∧ (c.retainedBytes ≤ c.capacity ∨ c.entries.length = 1) :=
  ⟨by decide, Reached.balanced
    (.insert _ 1 ['c'] _ 5 (.noteHit _ 0 (.insert _ 2 ['b'] _ 4 (.insert _ 1 ['a'] _ 3 .new))))⟩

end DecodedShardCache

end GraphForge.Adjacency
