import GraphForge.OrdinalIdentity.Tiling
import Mathlib.Data.List.Dedup
import Mathlib.Data.List.Pairwise

/-!
# A lookup gives what the files hold

Whatever the caches hold and evict, and however reads are coalesced, a lookup answers each id with
the UUID at its position in the ordinal ranges, unless a tombstone run lists the id. The caches
only ever hold what the files hold at the block that the key names (`Caches.Right`); every step of
a lookup keeps that, and its value does not depend on which blocks are held.
-/

namespace GraphForge.OrdinalIdentity

open List Except Nat

/-! ## What the files hold -/

/-- The node is one of the range. -/
def OrdinalRange.Contains (range : OrdinalRange) (id : ℕ) : Prop :=
  range.firstNodeId ≤ id ∧ id < range.firstNodeId + range.count

instance (range : OrdinalRange) (id : ℕ) : Decidable (range.Contains id) :=
  inferInstanceAs (Decidable (_ ∧ _))

/-- The UUID stored at the position of an id, when the id lies in some range. -/
def storedUuid (m : Manifest) (files : List Char → List UInt8) (id : ℕ) : Option Uuid :=
  (m.ordinalRanges.find? fun range => decide (range.Contains id)).bind fun range =>
    Uuid.ofBytes (recordAt uuidWidth (files range.artifact.name) (id - range.firstNodeId))

/-- Some tombstone run lists the id. -/
def tombstoned (m : Manifest) (files : List Char → List UInt8) (id : ℕ) : Bool :=
  m.tombstones.any fun run => decide (id ∈ decodeIds (files run.artifact.name))

/-- The identity of a node id, read off the files as a whole. -/
def identityOf (m : Manifest) (files : List Char → List UInt8) (id : ℕ) : Option Uuid :=
  if tombstoned m files id then none else storedUuid m files id

/-- The bytes of an ordinal block. -/
def ordinalBytes (file : List UInt8) (block : OrdinalBlock) : List UInt8 :=
  (file.drop block.offset).take (block.count * uuidWidth)

/-- The bytes of a tombstone block. -/
def tombstoneBytes (file : List UInt8) (block : TombstoneBlock) : List UInt8 :=
  (file.drop block.offset).take (block.count * tombstoneWidth)

/-- The files are what the manifest describes: their lengths, the checksum and the fence of every
block, and the recorded order. -/
structure FilesMatch (checksum : List UInt8 → ℕ) (m : Manifest)
    (files : List Char → List UInt8) : Prop where
  ordinal_length : ∀ range ∈ m.ordinalRanges,
    (files range.artifact.name).length = range.artifact.bytes
  ordinal_checksum : ∀ range ∈ m.ordinalRanges, ∀ block ∈ range.blocks,
    checksum (ordinalBytes (files range.artifact.name) block) = block.xxh64
  ordinal_order : m.uuidOrderMatchesOrdinals = some true → ∀ range ∈ m.ordinalRanges,
    uuidsStrictlyAscend (files range.artifact.name) = true
  tombstone_length : ∀ run ∈ m.tombstones, (files run.artifact.name).length = run.artifact.bytes
  tombstone_checksum : ∀ run ∈ m.tombstones, ∀ block ∈ run.blocks,
    checksum (tombstoneBytes (files run.artifact.name) block) = block.xxh64
  tombstone_fence : ∀ run ∈ m.tombstones, ∀ block ∈ run.blocks,
    (decodeIds (tombstoneBytes (files run.artifact.name) block)).head? = some block.first ∧
      (decodeIds (tombstoneBytes (files run.artifact.name) block)).getLast? = some block.last ∧
      (decodeIds (tombstoneBytes (files run.artifact.name) block)).IsChain (· < ·)

/-! ## The caches -/

/-- What the caches hold is what the files hold. -/
structure Caches.Right (m : Manifest) (files : List Char → List UInt8) (caches : Caches) :
    Prop where
  ordinal : caches.ordinal.Holds fun key cached => ∃ range block,
    m.ordinalRanges[key.1]? = some range ∧ range.blocks[key.2]? = some block ∧
      cached = ⟨ordinalBytes (files range.artifact.name) block,
        uuidsStrictlyAscend (ordinalBytes (files range.artifact.name) block)⟩
  tombstone : caches.tombstone.Holds fun key ids => ∃ run block,
    m.tombstones[key.1]? = some run ∧ block ∈ run.blocks ∧ block.offset = key.2 ∧
      ids = decodeIds (tombstoneBytes (files run.artifact.name) block)

variable {checksum : List UInt8 → ℕ} {m : Manifest} {files : List Char → List UInt8}
variable {caches : Caches} {limits : Limits} {id : ℕ}

lemma Caches.Right.fresh : Caches.fresh.Right m files :=
  ⟨FifoCache.Holds.empty _, FifoCache.Holds.empty _⟩

/-- Keeping a block of ordinals keeps the caches right. -/
lemma Caches.Right.retainOrdinal (h : caches.Right m files) (maximum : ℕ) {key : ℕ × ℕ}
    {range : OrdinalRange} {block : OrdinalBlock} (hrange : m.ordinalRanges[key.1]? = some range)
    (hblock : range.blocks[key.2]? = some block) :
    ({ caches with ordinal := (OrdinalIdentity.retainOrdinal maximum key
        ⟨ordinalBytes (files range.artifact.name) block,
          uuidsStrictlyAscend (ordinalBytes (files range.artifact.name) block)⟩
        caches.ordinal) } : Caches).Right m files := by
  refine ⟨?_, h.tombstone⟩
  unfold OrdinalIdentity.retainOrdinal
  have hroom := h.ordinal.makeRoom (·.bytes.length)
    (ordinalBytes (files range.artifact.name) block).length maximum caches.ordinal.order
  dsimp only
  split
  · exact h.ordinal
  split
  next room hmade =>
    rw [hmade] at hroom
    exact hroom.push ⟨range, block, hrange, hblock, rfl⟩ _
  next room hmade =>
    rw [hmade] at hroom
    exact hroom

/-- Keeping a block of tombstones keeps the caches right. -/
lemma Caches.Right.retainTombstones (h : caches.Right m files) (maximum : ℕ) {key : ℕ × ℕ}
    {run : TombstoneRun} {block : TombstoneBlock} (hrun : m.tombstones[key.1]? = some run)
    (hblock : block ∈ run.blocks) (hoffset : block.offset = key.2) :
    ({ caches with tombstone := (OrdinalIdentity.retainTombstones maximum key
        (decodeIds (tombstoneBytes (files run.artifact.name) block))
        caches.tombstone) } : Caches).Right m files := by
  refine ⟨h.ordinal, ?_⟩
  unfold OrdinalIdentity.retainTombstones
  dsimp only
  split
  · exact (h.tombstone.makeRoom _ _ _ _).push ⟨run, block, hrun, hblock, hoffset, rfl⟩ _
  · exact h.tombstone

/-! ## Tombstones -/

/-- The members of an ascending list lie between its ends. -/
lemma mem_fence {ids : List ℕ} {first last : ℕ} (hfirst : ids.head? = some first)
    (hlast : ids.getLast? = some last) (hchain : ids.IsChain (· < ·)) (hid : id ∈ ids) :
    first ≤ id ∧ id ≤ last := by
  have hpairs : ids.Pairwise (· ≤ ·) := (isChain_iff_pairwise.mp hchain).imp le_of_lt
  have hne := ne_nil_of_mem hid
  obtain rfl := Option.some.inj ((head?_eq_some_head hne).symm.trans hfirst)
  obtain rfl := Option.some.inj ((getLast?_eq_some_getLast hne).symm.trans hlast)
  exact ⟨hpairs.rel_head hid, hpairs.rel_getLast hid⟩

section
variable {run : TombstoneRun} (htiled : run.Tiled)
  (hlength : (files run.artifact.name).length = run.artifact.bytes)
include htiled hlength

/-- A block of tombstones is inside its file. -/
lemma tombstoneBytes_fits {block : TombstoneBlock} (hblock : block ∈ run.blocks) :
    block.offset + block.count * tombstoneWidth ≤ (files run.artifact.name).length := by
  obtain ⟨i, hi⟩ := mem_iff_getElem?.mp hblock
  have hfinish := htiled.finish_le (by decide) hi
  have hoffset := htiled.offset_eq i block hi
  simp only [tombstoneBlockBytes, tombstoneWidth] at hfinish hoffset ⊢
  omega

/-- The ids of a run are those of its blocks. -/
lemma mem_decodeIds_iff : id ∈ decodeIds (files run.artifact.name) ↔ ∃ block ∈ run.blocks,
      id ∈ decodeIds (tombstoneBytes (files run.artifact.name) block) := by
  -- record `k` of block `i` is record `i * 8192 + k` of the file
  have hslice : ∀ i block, run.blocks[i]? = some block →
      tombstoneBytes (files run.artifact.name) block = ((files run.artifact.name).drop
          (i * (tombstoneBlockBytes / tombstoneWidth) * tombstoneWidth)).take
            (block.count * tombstoneWidth) := by
    intro i block hi
    rw [tombstoneBytes, htiled.offset_eq i block hi, mul_assoc]
    rfl
  have hlen : ∀ block ∈ run.blocks,
      (tombstoneBytes (files run.artifact.name) block).length / tombstoneWidth = block.count := by
    intro block hblock
    have := tombstoneBytes_fits htiled hlength hblock
    rw [tombstoneBytes, length_take, length_drop, min_eq_left (by omega),
      Nat.mul_div_cancel _ (by decide)]
  constructor
  · intro hid
    obtain ⟨k, hk, hid⟩ := mem_decodeIds.mp hid
    rw [hlength] at hk
    obtain ⟨i, block, hblock, hstart, hend⟩ := htiled.exists_block (by decide) hk
    have hmem := mem_of_getElem? hblock
    refine ⟨block, hmem, mem_decodeIds.mpr ⟨k - i * (tombstoneBlockBytes / tombstoneWidth), ?_, ?_⟩⟩
    · rw [hlen block hmem]
      omega
    · rw [hslice i block hblock, recordAt_slice _ _ (by omega), Nat.add_sub_cancel' hstart, hid]
  · rintro ⟨block, hmem, hid⟩
    obtain ⟨i, hblock⟩ := mem_iff_getElem?.mp hmem
    obtain ⟨k, hk, hid⟩ := mem_decodeIds.mp hid
    rw [hlen block hmem] at hk
    have hfinish := htiled.finish_le (by decide) hblock
    refine mem_decodeIds.mpr ⟨i * (tombstoneBlockBytes / tombstoneWidth) + k, ?_, ?_⟩
    · rw [hlength]
      omega
    · rw [← recordAt_slice _ _ hk, ← hslice i block hblock, hid]

end

section
variable (hfiles : FilesMatch checksum m files) (htiled : ∀ run ∈ m.tombstones, run.Tiled)
include hfiles htiled

/-- A block of tombstones is fetched and authenticated. -/
lemma fetchTombstoneBlock_eq {run : TombstoneRun} (hrun : run ∈ m.tombstones)
    {block : TombstoneBlock} (hblock : block ∈ run.blocks) :
    fetchTombstoneBlock checksum ⟨run.blocks, files run.artifact.name⟩ block =
      .ok (decodeIds (tombstoneBytes (files run.artifact.name) block)) := by
  have hfits := tombstoneBytes_fits (htiled run hrun) (hfiles.tombstone_length run hrun) hblock
  have hfence := hfiles.tombstone_fence run hrun block hblock
  unfold fetchTombstoneBlock readExact
  rw [if_pos hfits]
  show (refuseIf (checksum (tombstoneBytes (files run.artifact.name) block) ≠ block.xxh64)
    _ >>= _) = _
  rw [refuseIf_of_not (not_not.mpr (hfiles.tombstone_checksum run hrun block hblock))]
  show (refuseIf _ _ >>= _) = _
  rw [refuseIf_of_not]
  · rfl
  · rintro (h | h | h)
    · exact h hfence.1
    · exact h hfence.2.1
    · exact h hfence.2.2

/-- Reading a block of tombstones, from the cache or the file, gives its identifiers. -/
lemma returns_readTombstoneBlock (limits : Limits) {runIndex : ℕ} {run : TombstoneRun}
    (hrun : m.tombstones[runIndex]? = some run) {block : TombstoneBlock}
    (hblock : block ∈ run.blocks) :
    Returns (Caches.Right m files)
      (readTombstoneBlock checksum limits runIndex ⟨run.blocks, files run.artifact.name⟩ block)
      (· = decodeIds (tombstoneBytes (files run.artifact.name) block)) := by
  have hmem := mem_of_getElem? hrun
  unfold readTombstoneBlock
  apply Returns.read.bind
  intro caches hcaches
  split
  next ids hget =>
    -- the cached block is of this run and has this offset, so it is this block
    obtain ⟨run', block', hrun', hblock', hoffset, rfl⟩ := hcaches.tombstone.get? hget
    rw [hrun] at hrun'
    obtain rfl := Option.some.inj hrun'
    have heq := (htiled run hmem).eq_of_offset_eq (by decide) hblock' hblock hoffset
    exact Returns.pure (by rw [heq])
  next =>
    apply Returns.step (fetchTombstoneBlock_eq hfiles htiled hmem hblock)
    apply (Returns.update fun caches hcaches =>
      Caches.Right.retainTombstones hcaches _ hrun hblock rfl).bind
    intro _ _
    exact Returns.pure rfl

/-- One block adds the requested nodes that it deletes. -/
lemma returns_collectDeleted (limits : Limits) (requested : List ℕ) {runIndex : ℕ}
    {run : TombstoneRun} (hrun : m.tombstones[runIndex]? = some run) {block : TombstoneBlock}
    (hblock : block ∈ run.blocks) (deleted : List ℕ) :
    Returns (Caches.Right m files)
      (collectDeleted checksum limits requested runIndex ⟨run.blocks, files run.artifact.name⟩
        deleted block)
      (fun deleted' => ∀ id, id ∈ deleted' ↔ id ∈ deleted ∨
        id ∈ requested ∧ id ∈ decodeIds (tombstoneBytes (files run.artifact.name) block)) := by
  unfold collectDeleted
  split
  next =>
    apply (returns_readTombstoneBlock hfiles htiled limits hrun hblock).bind
    rintro ids rfl
    apply Returns.pure
    intro id
    rw [mem_append, mem_filter, decide_eq_true_eq, and_comm (a := id ∈ requested)]
  next hskip =>
    -- no requested id is within the fence, and the fence bounds the ids of the block
    apply Returns.pure
    intro id
    have hfence := hfiles.tombstone_fence run (mem_of_getElem? hrun) block hblock
    constructor
    · exact Or.inl
    · rintro (hid | ⟨hid, hlisted⟩)
      · exact hid
      · apply absurd _ hskip
        rw [any_eq_true]
        exact ⟨id, hid, decide_eq_true (mem_fence hfence.1 hfence.2.1 hfence.2.2 hlisted)⟩

/-- `lookup_tombstones` finds the requested ids that are tombstoned. -/
lemma returns_lookupTombstones (limits : Limits) (reliesOnOrder : Bool) (requested : List ℕ) :
    Returns (Caches.Right m files)
      (lookupTombstones checksum (openHandle m files limits reliesOnOrder) requested)
      (fun deleted => ∀ id, id ∈ deleted ↔ id ∈ requested ∧ tombstoned m files id = true) := by
  unfold lookupTombstones
  -- one run after another: what the runs so far list
  refine (Returns.foldlM (J := fun (done : List (OpenTombstones × ℕ)) (deleted : List ℕ) =>
    ∀ id, id ∈ deleted ↔ id ∈ requested ∧ ∃ run ∈ done, id ∈ decodeIds run.1.file) _ ?_ [] []
    (by simp)).mono ?_
  swap
  · intro deleted hdeleted id
    rw [hdeleted, nil_append, tombstoned, any_eq_true]
    apply and_congr_right
    intro _
    constructor
    · rintro ⟨⟨open', i⟩, hmem, hid⟩
      rw [mem_zipIdx_iff_getElem?] at hmem
      obtain ⟨run, hrun, rfl⟩ := mem_map.mp (mem_of_getElem? hmem)
      exact ⟨run, hrun, decide_eq_true hid⟩
    · rintro ⟨run, hrun, hid⟩
      obtain ⟨i, hi⟩ := mem_iff_getElem?.mp hrun
      refine ⟨(⟨run.blocks, files run.artifact.name⟩, i), ?_, of_decide_eq_true hid⟩
      rw [mem_zipIdx_iff_getElem?]
      exact getElem?_map .. ▸ congrArg (Option.map _) hi
  · rintro done deleted ⟨open', i⟩ hmem hdeleted
    rw [mem_zipIdx_iff_getElem?] at hmem
    obtain ⟨run, hrun, rfl⟩ : ∃ run, m.tombstones[i]? = some run ∧
        (⟨run.blocks, files run.artifact.name⟩ : OpenTombstones) = open' := by
      simpa [openHandle, getElem?_map] using hmem
    have hrunmem := mem_of_getElem? hrun
    -- one block after another
    refine (Returns.foldlM (J := fun (seen : List TombstoneBlock) (deleted' : List ℕ) =>
      ∀ id, id ∈ deleted' ↔ id ∈ deleted ∨ id ∈ requested ∧ ∃ block ∈ seen,
        id ∈ decodeIds (tombstoneBytes (files run.artifact.name) block)) _ ?_ [] deleted
      (by simp)).mono ?_
    · intro seen deleted' block hblock hseen
      apply (returns_collectDeleted hfiles htiled limits requested hrun hblock deleted').mono
      intro deleted'' h id
      rw [h, hseen, or_assoc, ← and_or_left, exists_mem_concat]
    · intro deleted' hdeleted' id
      rw [hdeleted', hdeleted, nil_append, ← mem_decodeIds_iff (htiled run hrunmem)
        (hfiles.tombstone_length run hrunmem), ← and_or_left, exists_mem_concat]

end

/-! ## One read of an ordinal range -/

/-- The blocks of a file, each with its position, have ascending positions. -/
lemma pairwise_zipIdx {α : Type} (xs : List α) : xs.zipIdx.Pairwise (·.2 < ·.2) := by
  have hsnd : (xs.zipIdx.map Prod.snd).Pairwise (· < ·) := by
    rw [zipIdx_map_snd]
    exact pairwise_lt_range'
  exact pairwise_map.mp hsnd

/-- The positions from `i` to `j` of a list. -/
lemma mem_take_drop_zipIdx {α : Type} {xs : List α} {i j : ℕ} {x : α × ℕ} :
    x ∈ (xs.zipIdx.take (j + 1)).drop i ↔ xs[x.2]? = some x.1 ∧ i ≤ x.2 ∧ x.2 ≤ j := by
  rw [mem_iff_getElem?]
  constructor
  · rintro ⟨k, hk⟩
    rw [getElem?_drop, getElem?_take] at hk
    split at hk
    next hlt =>
      rw [getElem?_zipIdx, Option.map_eq_some_iff] at hk
      obtain ⟨a, ha, rfl⟩ := hk
      simp only [zero_add]
      exact ⟨ha, by omega, by omega⟩
    next => cases hk
  · rintro ⟨hx, hi, hj⟩
    refine ⟨x.2 - i, ?_⟩
    rw [getElem?_drop, Nat.add_sub_cancel' hi, getElem?_take, if_pos (by omega),
      getElem?_zipIdx, hx, zero_add]
    rfl

/-- A range of the manifest as a handle opens it. -/
structure OpenRange.Right (checksum : List UInt8 → ℕ) (m : Manifest)
    (files : List Char → List UInt8) (range : OpenRange) (index : ℕ) : Prop extends
    OpenRange.Whole range where
  descriptor_eq : m.ordinalRanges[index]? = some range.descriptor
  file_eq : range.file = files range.descriptor.artifact.name
  checksum_eq : ∀ block ∈ range.descriptor.blocks,
    checksum (ordinalBytes range.file block) = block.xxh64
  ordered : range.verifyOrder = true → uuidsStrictlyAscend range.file = true

/-- The table has what the range stores at the ids in `done`, and is as before at other ids than
the requested ones. -/
structure Filled (range : OpenRange) (ids : List ℕ) (before : Resolved) (done : ℕ → Prop)
    (after : Resolved) : Prop where
  frame : ∀ id, id ∉ ids → after id = before id
  done : ∀ id ∈ ids, done id → after id = range.uuidAt id

variable {range : OpenRange} {ids : List ℕ} {before after : Resolved} {done : ℕ → Prop}

section
variable (h : Filled range ids before done after)
include h

lemma Filled.mono {done' : ℕ → Prop} (hdone : ∀ id ∈ ids, done' id → done id) :
    Filled range ids before done' after :=
  ⟨h.frame, fun id hid hid' => h.done id hid (hdone id hid hid')⟩

/-- Blocks one after the other fill in the identities of what each covers. -/
lemma Filled.foldlM {α : Type} {I : Caches → Prop} {Q : α → ℕ → Prop} {xs : List α}
    {f : Resolved → α → LookupM Resolved}
    (step : ∀ x ∈ xs, ∀ resolved done, Filled range ids before done resolved →
      Returns I (f resolved x) (Filled range ids before fun id => done id ∨ Q x id)) :
    Returns I (xs.foldlM f after)
      (Filled range ids before fun id => done id ∨ ∃ x ∈ xs, Q x id) := by
  refine Returns.foldlM (J := fun seen => Filled range ids before fun id =>
    done id ∨ ∃ x ∈ seen, Q x id) xs (fun seen resolved x hx hseen => ?_) [] after
    (h.mono (by simp))
  refine (step x hx resolved _ hseen).mono fun _ h => h.mono fun id _ hid => ?_
  rwa [exists_mem_concat, ← or_assoc] at hid

/-- A block fills in the identities of what it covers. -/
lemma Filled.block (block : OrdinalBlock) : Filled range ids before
      (fun id => done id ∨ block.Covers range.descriptor.firstNodeId id)
      (fun id => if id ∈ ids ∧ block.Covers range.descriptor.firstNodeId id
        then range.uuidAt id else after id) := by
  constructor
  · intro id hid
    rw [if_neg fun hpos => hid hpos.1]
    exact h.frame id hid
  · intro id hid hdone
    by_cases hcovers : block.Covers range.descriptor.firstNodeId id
    · rw [if_pos ⟨hid, hcovers⟩]
    · rw [if_neg fun hpos => hcovers hpos.2]
      exact h.done id hid (hdone.resolve_right hcovers)

end

section
variable {index : ℕ} (h : range.Right checksum m files index) (hids : ids.Pairwise (· ≤ ·))
  {i : ℕ} {block : OrdinalBlock} (hblock : range.descriptor.blocks[i]? = some block)
include h hblock

lemma OpenRange.Right.offset_eq :
    block.offset = i * (ordinalBlockBytes / uuidWidth) * uuidWidth := by
  rw [h.tiled.tiles.offset_eq i block hblock, mul_assoc]
  rfl

lemma OpenRange.Right.ordinalBytes_eq : ordinalBytes range.file block =
      (range.file.drop (i * (ordinalBlockBytes / uuidWidth) * uuidWidth)).take
        (block.count * uuidWidth) := by
  rw [ordinalBytes, h.offset_eq hblock]

/-- Where the order is to be verified, every block ascends. -/
lemma OpenRange.Right.ascends (hverify : range.verifyOrder = true) :
    uuidsStrictlyAscend (ordinalBytes range.file block) = true := by
  rw [h.ordinalBytes_eq hblock]
  apply uuidsStrictlyAscend_slice (h.ordered hverify)
  rw [h.length_eq]
  exact mul_le_mul_right _ (h.tiled.tiles.finish_le (by decide) hblock)

/-- What the cache holds for a block of the range is the block. -/
lemma OpenRange.Right.cached_eq (hcaches : caches.Right m files) {cached : CachedOrdinalBlock}
    (hget : caches.ordinal.get? (index, i) = some cached) :
    cached = ⟨ordinalBytes range.file block, uuidsStrictlyAscend (ordinalBytes range.file block)⟩ := by
  obtain ⟨range', block', hrange', hblock', rfl⟩ := hcaches.ordinal.get? hget
  simp only [h.descriptor_eq, Option.some.injEq] at hrange'
  subst hrange'
  simp only [hblock, Option.some.injEq] at hblock'
  subst hblock'
  rw [h.file_eq]

include hids

/-- A block of the cache answers its ids. -/
lemma OpenRange.Right.serveCachedBlock_some (hcaches : caches.Right m files)
    {cached : CachedOrdinalBlock} (hget : caches.ordinal.get? (index, i) = some cached)
    (acc : List (OrdinalBlock × ℕ) × Resolved) :
    serveCachedBlock range index caches.ordinal ids acc (block, i) =
      .ok (acc.1, fun id => if id ∈ ids ∧ block.Covers range.descriptor.firstNodeId id
        then range.uuidAt id else acc.2 id) := by
  obtain rfl := h.cached_eq hblock hcaches hget
  have hresolve := h.resolveBlockIds_eq hblock le_rfl le_rfl
    (h.tiled.tiles.finish_le (by decide) hblock) hids acc.2
  rw [← h.ordinalBytes_eq hblock, ← h.offset_eq hblock] at hresolve
  unfold serveCachedBlock
  rw [hget]
  dsimp only
  rw [refuseIf_of_not, hresolve]
  · rfl
  · rintro ⟨hverify, hdescends⟩
    rw [h.ascends hblock hverify] at hdescends
    cases hdescends

end

section
variable {index : ℕ} (h : range.Right checksum m files index) (hids : ids.Pairwise (· ≤ ·))
include h hids

/-- `serve_cached_blocks` answers the ids of the selected blocks, except for those it returns. -/
lemma OpenRange.Right.ends_serveCachedBlocks (hcaches : caches.Right m files)
    {selected : List (OrdinalBlock × ℕ)}
    (hselected : ∀ b ∈ selected, range.descriptor.blocks[b.2]? = some b.1) :
    (serveCachedBlocks range index caches.ordinal selected ids before).Ends (fun _ => False)
      (fun out => out.1.Sublist selected ∧ Filled range ids before
        (fun id => ∃ b ∈ selected, b ∉ out.1 ∧ b.1.Covers range.descriptor.firstNodeId id)
        out.2) := by
  unfold serveCachedBlocks
  refine Ends.foldlM_mem
    (I := fun seen (out : List (OrdinalBlock × ℕ) × Resolved) =>
      out.1.Sublist seen ∧ Filled range ids before
        (fun id => ∃ b ∈ seen, b ∉ out.1 ∧ b.1.Covers range.descriptor.firstNodeId id) out.2)
    selected ?_ [] ([], before) ⟨Sublist.refl [], fun _ _ => rfl, by simp⟩
  · rintro seen ⟨uncached, resolved⟩ ⟨block, i⟩ hmem ⟨hsub, hfilled⟩
    have hblock := hselected _ hmem
    cases hget : caches.ordinal.get? (index, i) with
    | none =>
      rw [serveCachedBlock, hget]
      refine .ok ⟨hsub.append (Sublist.refl _), hfilled.mono ?_⟩
      rintro id _ ⟨b, hb, hnot, hcovers⟩
      rw [mem_append, not_or] at hnot
      rcases mem_append.mp hb with hb | hb
      · exact ⟨b, hb, hnot.1, hcovers⟩
      · exact absurd hb hnot.2
    | some cached =>
      rw [h.serveCachedBlock_some hids hblock hcaches hget]
      refine .ok ⟨hsub.trans (sublist_append_left _ _), (hfilled.block block).mono ?_⟩
      rintro id _ ⟨b, hb, hnot, hcovers⟩
      rcases mem_append.mp hb with hb | hb
      · exact .inl ⟨b, hb, hnot, hcovers⟩
      · rw [mem_singleton.mp hb] at hcovers
        exact .inr hcovers

end

/-! ## Coalesced reads -/

/-- The reads made of a first block, a last block and the blocks after it. Each is short enough,
begins and ends with a selected block, and every selected block lies in one. -/
lemma coalesceFrom_spec (limits : Limits) (first last : OrdinalBlock × ℕ)
    (rest : List (OrdinalBlock × ℕ)) (hle : first.2 ≤ last.2)
    (hsorted : (last :: rest).Pairwise (·.2 < ·.2))
    (hshort : last.1.finish - first.1.offset ≤ limits.maxCoalescedReadBytes)
    (hone : ∀ b ∈ rest, b.1.finish - b.1.offset ≤ limits.maxCoalescedReadBytes) :
    (∀ run ∈ coalesceFrom limits first last rest, (run.1 = first ∨ run.1 ∈ rest) ∧
      (run.2 = last ∨ run.2 ∈ rest) ∧ run.1.2 ≤ run.2.2 ∧
      run.2.1.finish - run.1.1.offset ≤ limits.maxCoalescedReadBytes) ∧
    ∀ k, (first.2 ≤ k ∧ k ≤ last.2 ∨ k ∈ rest.map Prod.snd) →
      ∃ run ∈ coalesceFrom limits first last rest, run.1.2 ≤ k ∧ k ≤ run.2.2 := by
  induction rest generalizing first last with
  | nil =>
    refine ⟨?_, ?_⟩
    · intro run hrun
      rw [mem_singleton.mp hrun]
      exact ⟨.inl rfl, .inl rfl, hle, hshort⟩
    · rintro k (hk | hk)
      · exact ⟨(first, last), mem_singleton.mpr rfl, hk⟩
      · cases hk
  | cons block rest ih =>
    have hrest := pairwise_cons.mp hsorted
    have hlt : last.2 < block.2 := hrest.1 block mem_cons_self
    have honeRest := fun b hb => hone b (mem_cons_of_mem block hb)
    unfold coalesceFrom
    split
    next =>
      -- the read ends here, and the next one begins with `block`
      obtain ⟨hruns, hcover⟩ := ih block block le_rfl hrest.2 (hone block mem_cons_self) honeRest
      refine ⟨?_, ?_⟩
      · refine forall_mem_cons.mpr ⟨⟨.inl rfl, .inl rfl, hle, hshort⟩, fun run hrun => ?_⟩
        obtain ⟨hfirst, hlast, hbounds⟩ := hruns run hrun
        exact ⟨.inr (mem_cons.mpr hfirst), .inr (mem_cons.mpr hlast), hbounds⟩
      · intro k hk
        rcases hk with hk | hk
        · exact ⟨(first, last), mem_cons_self, hk⟩
        · obtain ⟨run, hrun, hspan⟩ := hcover k (by
            rcases mem_cons.mp hk with rfl | hk
            · exact .inl ⟨le_rfl, le_rfl⟩
            · exact .inr hk)
          exact ⟨run, mem_cons_of_mem _ hrun, hspan⟩
    next hjoin =>
      -- the read goes on to `block`
      obtain ⟨hruns, hcover⟩ := ih first block (by omega) hrest.2 (by omega) honeRest
      refine ⟨?_, ?_⟩
      · intro run hrun
        obtain ⟨hfirst, hlast, hbounds⟩ := hruns run hrun
        exact ⟨hfirst.imp_right (mem_cons_of_mem block), .inr (mem_cons.mpr hlast), hbounds⟩
      · intro k hk
        apply hcover
        rcases hk with hk | hk
        · exact .inl ⟨hk.1, by omega⟩
        · rcases mem_cons.mp hk with rfl | hk
          · exact .inl ⟨by omega, le_rfl⟩
          · exact .inr hk

/-- Coalesced reads stay within the limit, start and end with selected blocks, and cover all of
them. -/
lemma coalesce_spec {selected : List (OrdinalBlock × ℕ)} (hsorted : selected.Pairwise (·.2 < ·.2))
    (hone : ∀ b ∈ selected, b.1.finish - b.1.offset ≤ limits.maxCoalescedReadBytes) :
    (∀ run ∈ coalesce limits selected, run.1 ∈ selected ∧ run.2 ∈ selected ∧ run.1.2 ≤ run.2.2 ∧
      run.2.1.finish - run.1.1.offset ≤ limits.maxCoalescedReadBytes) ∧
    ∀ b ∈ selected, ∃ run ∈ coalesce limits selected, run.1.2 ≤ b.2 ∧ b.2 ≤ run.2.2 := by
  cases selected with
  | nil => simp [coalesce]
  | cons block rest =>
    obtain ⟨hruns, hcover⟩ := coalesceFrom_spec limits block block rest le_rfl hsorted
      (hone block mem_cons_self) fun b hb => hone b (mem_cons_of_mem block hb)
    refine ⟨?_, ?_⟩
    · intro run hrun
      obtain ⟨hfirst, hlast, hbounds⟩ := hruns run hrun
      exact ⟨mem_cons.mpr hfirst, mem_cons.mpr hlast, hbounds⟩
    · intro b hb
      apply hcover
      rcases mem_cons.mp hb with rfl | hb
      · exact .inl ⟨le_rfl, le_rfl⟩
      · exact .inr (mem_map_of_mem hb)

/-- The blocks from position `i` to position `j` as one piece of the file: `n` records from record
`i * 4096` on. -/
structure Spans (range : OpenRange) (i j n : ℕ) : Prop where
  blocks : ∀ k block, range.descriptor.blocks[k]? = some block → i ≤ k → k ≤ j →
    k * (ordinalBlockBytes / uuidWidth) + block.count ≤ i * (ordinalBlockBytes / uuidWidth) + n
  fits : i * (ordinalBlockBytes / uuidWidth) + n ≤ range.descriptor.count

/-- The bytes of the blocks from position `i` on. -/
def spanBytes (range : OpenRange) (i n : ℕ) : List UInt8 :=
  (range.file.drop (i * (ordinalBlockBytes / uuidWidth) * uuidWidth)).take (n * uuidWidth)

section
variable {index : ℕ} (h : range.Right checksum m files index) {i j n : ℕ}
  (hspans : Spans range i j n)
include h hspans

lemma OpenRange.Right.length_spanBytes : (spanBytes range i n).length = n * uuidWidth := by
  have := mul_le_mul_right uuidWidth hspans.fits
  rw [add_mul] at this
  rw [spanBytes, length_take, length_drop, h.length_eq]
  omega

/-- A block of the read, cut out of the buffer. -/
lemma OpenRange.Right.slice_spanBytes {k : ℕ} {block : OrdinalBlock}
    (hblock : range.descriptor.blocks[k]? = some block) (hik : i ≤ k) (hkj : k ≤ j) :
    slice (spanBytes range i n)
        (block.offset - i * (ordinalBlockBytes / uuidWidth) * uuidWidth)
        (block.count * uuidWidth) =
      .ok (ordinalBytes range.file block) := by
  have hoffset := h.tiled.tiles.offset_eq k block hblock
  have hfinish := mul_le_mul_right uuidWidth (hspans.blocks k block hblock hik hkj)
  have hstart := mul_le_mul_right ordinalBlockBytes hik
  simp only [ordinalBlockBytes, uuidWidth] at hoffset hfinish hstart ⊢
  rw [slice, h.length_spanBytes hspans, if_pos (by simp only [uuidWidth]; omega)]
  congr 1
  simp only [spanBytes, ordinalBytes, ordinalBlockBytes, uuidWidth]
  rw [drop_take, take_take, drop_drop, min_eq_left (by omega)]
  congr 2
  omega

/-- Every block of a coalesced read is authenticated. -/
lemma OpenRange.Right.authenticateRun_eq {first : OrdinalBlock}
    (hfirst : range.descriptor.blocks[i]? = some first) :
    authenticateRun checksum range first.offset
      ((range.descriptor.blocks.zipIdx.take (j + 1)).drop i) (spanBytes range i n) = .ok () := by
  unfold authenticateRun
  rw [h.offset_eq hfirst, bind_eq_ok_iff]
  refine ⟨(), forM_eq_ok_iff.mpr fun b hb => ?_, refuseIf_of_not ?_⟩
  · obtain ⟨hblock, hik, hkj⟩ := mem_take_drop_zipIdx.mp hb
    rw [h.slice_spanBytes hspans hblock hik hkj]
    exact refuseIf_of_not (not_not.mpr (h.checksum_eq b.1 (mem_of_getElem? hblock)))
  · rintro ⟨hverify, hdescends⟩
    rw [spanBytes, uuidsStrictlyAscend_slice (h.ordered hverify)] at hdescends
    · cases hdescends
    · rw [h.length_eq]
      exact mul_le_mul_right _ hspans.fits

/-- A block of a coalesced read resolves what it covers. -/
lemma OpenRange.Right.returns_takeBlock (limits : Limits) (hids : ids.Pairwise (· ≤ ·)) {k : ℕ}
    {block : OrdinalBlock} (hblock : range.descriptor.blocks[k]? = some block) (hik : i ≤ k)
    (hkj : k ≤ j) (resolved : Resolved) :
    Returns (Caches.Right m files)
      (takeBlock limits range index (i * (ordinalBlockBytes / uuidWidth) * uuidWidth)
        (spanBytes range i n) ids resolved (block, k))
      (· = fun id => if id ∈ ids ∧ block.Covers range.descriptor.firstNodeId id
        then range.uuidAt id else resolved id) := by
  have hstart := mul_le_mul_right (ordinalBlockBytes / uuidWidth) hik
  unfold takeBlock
  apply Returns.step (h.resolveBlockIds_eq hblock hstart (hspans.blocks k block hblock hik hkj)
    hspans.fits hids resolved)
  apply Returns.step (h.slice_spanBytes hspans hblock hik hkj)
  apply (Returns.update _).bind
  · intro _ _
    exact Returns.pure rfl
  · intro caches hcaches
    rw [h.file_eq]
    exact hcaches.retainOrdinal _ h.descriptor_eq hblock

end

section
variable {index : ℕ} (h : range.Right checksum m files index) (hids : ids.Pairwise (· ≤ ·))
include h hids

/-- A coalesced read answers the ids of all blocks it spans. -/
lemma OpenRange.Right.returns_readRun (limits : Limits) {first last : OrdinalBlock} {i j : ℕ}
    (hfirst : range.descriptor.blocks[i]? = some first)
    (hlast : range.descriptor.blocks[j]? = some last) (hij : i ≤ j)
    (hshort : last.finish - first.offset ≤ limits.maxCoalescedReadBytes) {resolved : Resolved}
    (hfilled : Filled range ids before done resolved) :
    Returns (Caches.Right m files)
      (readRun checksum limits range index ids resolved ((first, i), (last, j)))
      (Filled range ids before fun id => done id ∨ ∃ k block,
        range.descriptor.blocks[k]? = some block ∧ i ≤ k ∧ k ≤ j ∧
          block.Covers range.descriptor.firstNodeId id) := by
  obtain ⟨n, hn⟩ : ∃ n, j * (ordinalBlockBytes / uuidWidth) + last.count =
      i * (ordinalBlockBytes / uuidWidth) + n := by
    have := mul_le_mul_right (ordinalBlockBytes / uuidWidth) hij
    exact ⟨j * (ordinalBlockBytes / uuidWidth) + last.count -
      i * (ordinalBlockBytes / uuidWidth), by omega⟩
  have hspans : Spans range i j n := by
    constructor
    · intro k block hblock _ hkj
      rw [← hn]
      exact h.tiled.tiles.finish_mono hblock hlast hkj
    · rw [← hn]
      exact h.tiled.tiles.finish_le (by decide) hlast
  have hoffset := h.offset_eq hfirst
  have hlength : last.finish - first.offset = n * uuidWidth := by
    rw [h.tiled.finish_eq hlast, hoffset, hn, ← Nat.sub_mul, Nat.add_sub_cancel_left]
  have hread : readExact range.file first.offset (last.finish - first.offset) =
      .ok (spanBytes range i n) := by
    have := mul_le_mul_right uuidWidth hspans.fits
    rw [hlength, hoffset, readExact, if_pos (by rw [h.length_eq, ← add_mul]; exact this)]
    rfl
  unfold readRun
  apply Returns.step (refuseIf_of_not (not_lt.mpr hshort))
  apply Returns.step hread
  apply Returns.step (h.authenticateRun_eq hspans hfirst)
  -- block by block, the ids of the blocks gone through are answered
  refine (hfilled.foldlM (Q := fun b id => b.1.Covers range.descriptor.firstNodeId id)
    fun b hb resolved done hseen => ?_).mono fun after hafter => hafter.mono ?_
  · obtain ⟨hblock, hik, hkj⟩ := mem_take_drop_zipIdx.mp hb
    rw [hoffset]
    apply (h.returns_takeBlock hspans limits hids hblock hik hkj resolved).mono
    rintro after rfl
    exact hseen.block b.1
  · rintro id _ (hdone | ⟨k, block, hblock, hik, hkj, hcovers⟩)
    · exact .inl hdone
    · exact .inr ⟨(block, k), mem_take_drop_zipIdx.mpr ⟨hblock, hik, hkj⟩, hcovers⟩

/-- All reads of a range: every selected block is answered. -/
lemma OpenRange.Right.returns_reads (hlimit : ordinalBlockBytes ≤ limits.maxCoalescedReadBytes)
    {selected : List (OrdinalBlock × ℕ)} (hsorted : selected.Pairwise (·.2 < ·.2))
    (hselected : ∀ b ∈ selected, range.descriptor.blocks[b.2]? = some b.1) {resolved : Resolved}
    (hfilled : Filled range ids before done resolved) :
    Returns (Caches.Right m files)
      ((coalesce limits selected).foldlM (readRun checksum limits range index ids) resolved)
      (Filled range ids before fun id => done id ∨ ∃ b ∈ selected,
        b.1.Covers range.descriptor.firstNodeId id) := by
  -- a single block is within the limit
  have hone : ∀ b ∈ selected, b.1.finish - b.1.offset ≤ limits.maxCoalescedReadBytes := by
    intro b hb
    have hcount := h.tiled.count_le (hselected b hb)
    rw [OrdinalBlock.finish]
    simp only [ordinalBlockBytes, uuidWidth] at hcount hlimit ⊢
    omega
  obtain ⟨hruns, hcover⟩ := coalesce_spec hsorted hone
  have hloop := hfilled.foldlM fun run hrun resolved done hseen => by
    obtain ⟨hfirst, hlast, hij, hshort⟩ := hruns run hrun
    exact h.returns_readRun hids limits (hselected _ hfirst) (hselected _ hlast) hij hshort hseen
  apply hloop.mono
  intro after hafter
  apply hafter.mono
  rintro id _ (hdone | ⟨b, hb, hcovers⟩)
  · exact .inl hdone
  · obtain ⟨run, hrun, hspan⟩ := hcover b hb
    exact .inr ⟨run, hrun, b.2, b.1, hselected b hb, hspan.1, hspan.2, hcovers⟩

omit hids in
/-- Two blocks that the cache holds and that meet do so in ascending order. -/
lemma OpenRange.Right.seamInverted_eq (hverify : range.verifyOrder = true)
    (hcaches : caches.Right m files) (k : ℕ) :
    seamInverted caches.ordinal index k (k + 1) = false := by
  unfold seamInverted
  split
  next lower upper hlower hupper =>
    obtain ⟨range', lowerBlock, hrange', hlowerBlock, rfl⟩ := hcaches.ordinal.get? hlower
    obtain ⟨range'', upperBlock, hrange'', hupperBlock, rfl⟩ := hcaches.ordinal.get? hupper
    simp only [h.descriptor_eq, Option.some.injEq] at hrange' hrange''
    subst hrange'
    subst hrange''
    simp only [← h.file_eq] at hlowerBlock hupperBlock ⊢
    have hupperFits := h.tiled.tiles.finish_le (by decide) hupperBlock
    have hupperPos := h.tiled.tiles.count_pos (by decide) hupperBlock
    -- a block that is followed by another is full
    have hfull : lowerBlock.count = ordinalBlockBytes / uuidWidth := by
      have hstart := h.tiled.tiles.start_lt (by decide) hupperBlock
      rw [h.tiled.tiles.count_eq k lowerBlock hlowerBlock]
      simp only [ordinalBlockBytes, uuidWidth] at hstart ⊢
      omega
    have hlen : (ordinalBytes range.file lowerBlock).length = lowerBlock.count * uuidWidth := by
      have := h.finish_le hlowerBlock
      rw [OrdinalBlock.finish] at this
      rw [ordinalBytes, length_take, length_drop]
      omega
    have hlast : (ordinalBytes range.file lowerBlock).drop
        ((ordinalBytes range.file lowerBlock).length - uuidWidth) =
          recordAt uuidWidth range.file (k * (ordinalBlockBytes / uuidWidth) +
            (lowerBlock.count - 1)) := by
      have hpos := h.tiled.tiles.count_pos (by decide) hlowerBlock
      rw [← recordAt_slice uuidWidth range.file (n := lowerBlock.count) (by omega),
        ← h.ordinalBytes_eq hlowerBlock, recordAt, hlen, Nat.sub_mul, Nat.one_mul]
      symm
      apply take_of_length_le
      rw [length_drop, hlen, hfull]
      decide
    have hfirst : (ordinalBytes range.file upperBlock).take uuidWidth =
        recordAt uuidWidth range.file ((k + 1) * (ordinalBlockBytes / uuidWidth) + 0) := by
      rw [← recordAt_slice uuidWidth range.file hupperPos, ← h.ordinalBytes_eq hupperBlock,
        recordAt, zero_mul, drop_zero]
    rw [hlast, hfirst, decide_eq_false_iff_not, List.not_le]
    have hnext : (k + 1) * (ordinalBlockBytes / uuidWidth) + 0 =
        k * (ordinalBlockBytes / uuidWidth) + (lowerBlock.count - 1) + 1 := by
      rw [hfull]
      simp only [ordinalBlockBytes, uuidWidth]
      omega
    rw [hnext]
    apply uuidsStrictlyAscend_iff.mp (h.ordered hverify)
    rw [h.length_eq, Nat.mul_div_cancel _ (by decide), ← hnext]
    omega
  next => rfl

omit hids in
/-- Cached blocks that meet are in order. -/
lemma OpenRange.Right.checkCachedSeams_eq (hcaches : caches.Right m files) (touched : List ℕ) :
    checkCachedSeams range index caches.ordinal touched = .ok () := by
  apply refuseIf_of_not
  rintro ⟨hverify, hinverted⟩
  obtain ⟨k, _, hk⟩ := any_eq_true.mp hinverted
  rw [h.seamInverted_eq hverify hcaches, Bool.or_false, Bool.and_eq_true, decide_eq_true_eq] at hk
  obtain ⟨k, rfl⟩ := exists_eq_succ_of_ne_zero hk.1.ne'
  rw [succ_sub_one, h.seamInverted_eq hverify hcaches] at hk
  cases hk.2

/-- `read_range_coalesced` answers all requested ids of the range. -/
lemma OpenRange.Right.returns_readRangeCoalesced
    (hlimit : ordinalBlockBytes ≤ limits.maxCoalescedReadBytes)
    (hcontains : ∀ id ∈ ids, range.descriptor.Contains id) (resolved : Resolved) :
    Returns (Caches.Right m files)
      (readRangeCoalesced checksum limits range index ids resolved)
      (· = fun id => if id ∈ ids then range.uuidAt id else resolved id) := by
  have htouched : ∀ b ∈ selectBlocks range.descriptor ids,
      range.descriptor.blocks[b.2]? = some b.1 := by
    intro b hb
    exact mem_zipIdx_iff_getElem?.mp (mem_filter.mp hb).1
  have hsorted : (selectBlocks range.descriptor ids).Pairwise (·.2 < ·.2) :=
    (pairwise_zipIdx _).filter _
  unfold readRangeCoalesced
  apply Returns.read.bind
  intro caches hcaches
  have hserving := @OpenRange.Right.ends_serveCachedBlocks _ _ _ _ _ _ resolved _ h hids hcaches _
    htouched
  obtain ⟨⟨uncached, served⟩, hserve, hsub, hfilled⟩ := hserving.exists_ok
  apply Returns.step hserve
  apply (h.returns_reads hids hlimit (hsorted.sublist hsub)
    (fun b hb => htouched b (hsub.subset hb)) hfilled).bind
  intro after hafter
  apply Returns.read.bind
  intro caches' hcaches'
  apply Returns.step (h.checkCachedSeams_eq hcaches' _)
  apply Returns.pure
  funext id
  by_cases hid : id ∈ ids
  · rw [if_pos hid]
    apply hafter.done id hid
    -- the block of the id was selected, so it was served or read
    have hin := hcontains id hid
    obtain ⟨i, block, hblock, hstart, hend⟩ := h.tiled.tiles.exists_block (by decide)
      (k := id - range.descriptor.firstNodeId)
      (by unfold OrdinalRange.Contains at hin; omega)
    have hcovers : block.Covers range.descriptor.firstNodeId id := by
      rw [h.tiled.covers_iff hblock]
      unfold OrdinalRange.Contains at hin
      omega
    have hmem := mem_selectBlocks h.tiled hblock hids hid hcovers
    by_cases hleft : (block, i) ∈ uncached
    · exact .inr ⟨_, hleft, hcovers⟩
    · exact .inl ⟨_, hmem, hleft, hcovers⟩
  · rw [if_neg hid]
    exact hafter.frame id hid

end

/-! ## Whole lookups -/

/-- A range contains the nodes from its first to its last. -/
lemma OrdinalRange.Tiled.contains_iff {descriptor : OrdinalRange} (h : descriptor.Tiled) :
    descriptor.Contains id ↔ descriptor.firstNodeId ≤ id ∧
      id ≤ lastOf descriptor.firstNodeId descriptor.count := by
  have := h.count_pos
  rw [lastOf_eq h.count_pos h.last_lt, OrdinalRange.Contains]
  omega

/-- One range of a lookup answers the live ids of the range. -/
lemma returns_lookupRange {index : ℕ} (h : range.Right checksum m files index)
    (hlimit : ordinalBlockBytes ≤ limits.maxCoalescedReadBytes) {live : List ℕ}
    (hlive : live.Pairwise (· ≤ ·)) (resolved : Resolved) :
    Returns (Caches.Right m files) (lookupRange checksum limits live resolved (range, index))
      (· = fun id => if id ∈ live ∧ range.descriptor.Contains id
        then range.uuidAt id else resolved id) := by
  have hle : range.descriptor.firstNodeId ≤
      lastOf range.descriptor.firstNodeId range.descriptor.count := by
    rw [lastOf_eq h.tiled.count_pos h.tiled.last_lt]
    omega
  have hmem : ∀ id, id ∈ between live range.descriptor.firstNodeId
      (lastOf range.descriptor.firstNodeId range.descriptor.count) ↔
        id ∈ live ∧ range.descriptor.Contains id := by
    intro id
    rw [mem_between hlive hle, h.tiled.contains_iff]
  unfold lookupRange
  dsimp only
  split
  next hempty =>
    apply Returns.pure
    funext id
    rw [if_neg]
    intro hid
    have := (hmem id).mpr hid
    rw [List.isEmpty_iff.mp hempty] at this
    cases this
  next =>
    have hsorted : (between live range.descriptor.firstNodeId
        (lastOf range.descriptor.firstNodeId range.descriptor.count)).Pairwise (· ≤ ·) := by
      rw [between_eq_filter hlive hle]
      exact hlive.filter _
    apply (h.returns_readRangeCoalesced hsorted hlimit
      (fun id hid => ((hmem id).mp hid).2) resolved).mono
    rintro after rfl
    funext id
    exact if_congr (hmem id) rfl rfl

lemma pairwise_uniqueIds (requested : List ℕ) : (uniqueIds requested).Pairwise (· ≤ ·) :=
  (pairwise_insertionSort (· ≤ ·) requested).sublist (dedup_sublist _)

/-- Ranges do not overlap. -/
lemma eq_of_contains {ranges : List OrdinalRange}
    (hdisjoint : ranges.Pairwise fun r s => r.firstNodeId + (r.count - 1) < s.firstNodeId)
    {r s : OrdinalRange} (hr : r ∈ ranges) (hs : s ∈ ranges) (hrid : r.Contains id)
    (hsid : s.Contains id) : r = s := by
  obtain ⟨i, hi, rfl⟩ := getElem_of_mem hr
  obtain ⟨j, hj, rfl⟩ := getElem_of_mem hs
  have hpairs := pairwise_iff_getElem.mp hdisjoint
  unfold OrdinalRange.Contains at hrid hsid
  rcases lt_trichotomy i j with hlt | rfl | hlt
  · have := hpairs i j hi hj hlt
    omega
  · rfl
  · have := hpairs j i hj hi hlt
    omega

section
variable (hfiles : FilesMatch checksum m files) (hranges : ∀ range ∈ m.ordinalRanges, range.Tiled)
  (hdisjoint : m.ordinalRanges.Pairwise fun r s => r.firstNodeId + (r.count - 1) < s.firstNodeId)
include hfiles hranges

/-- Every range of the handle is as the manifest says. -/
lemma openHandle_right (limits : Limits) (reliesOnOrder : Bool) {range : OpenRange} {index : ℕ}
    (hmem : (range, index) ∈ (openHandle m files limits reliesOnOrder).ranges.zipIdx) :
    range.Right checksum m files index := by
  rw [mem_zipIdx_iff_getElem?] at hmem
  obtain ⟨descriptor, hdescriptor, rfl⟩ := getElem?_map .. ▸ hmem |> Option.map_eq_some_iff.mp
  have hin := mem_of_getElem? hdescriptor
  refine ⟨⟨hranges _ hin, ?_⟩, hdescriptor, rfl, hfiles.ordinal_checksum _ hin, ?_⟩
  · exact (hfiles.ordinal_length _ hin).trans (hranges _ hin).bytes_eq
  · intro hverify
    rw [Bool.and_eq_true, beq_iff_eq] at hverify
    exact hfiles.ordinal_order hverify.2 _ hin

include hdisjoint

/-- The ranges of a lookup answer the live ids with what the ranges store. -/
lemma returns_lookupRanges (reliesOnOrder : Bool)
    (hlimit : ordinalBlockBytes ≤ limits.maxCoalescedReadBytes) {live : List ℕ}
    (hlive : live.Pairwise (· ≤ ·)) :
    Returns (Caches.Right m files)
      ((openHandle m files limits reliesOnOrder).ranges.zipIdx.foldlM
        (lookupRange checksum limits live) fun _ => none)
      (· = fun id => if id ∈ live then storedUuid m files id else none) := by
  -- at each id, the table has what the ranges gone through store
  refine (Returns.foldlM (J := fun (seen : List (OpenRange × ℕ)) (resolved : Resolved) =>
      (∀ r ∈ seen, r.1.Right checksum m files r.2) ∧
      (∀ id, (id ∉ live ∨ ∀ r ∈ seen, ¬r.1.descriptor.Contains id) → resolved id = none) ∧
      ∀ id ∈ live, ∀ r ∈ seen, r.1.descriptor.Contains id → resolved id = r.1.uuidAt id) _ ?_ []
    (fun _ => none) (by simp)).mono ?_
  swap
  · rintro resolved ⟨_, hnone, hsome⟩
    funext id
    split
    next hid =>
      unfold storedUuid
      cases hfind : m.ordinalRanges.find? fun range => decide (range.Contains id) with
      | none =>
        apply hnone
        right
        rintro ⟨range, index⟩ hmem hcontains
        have hright := openHandle_right hfiles hranges limits reliesOnOrder hmem
        have := find?_eq_none.mp hfind _ (mem_of_getElem? hright.descriptor_eq)
        exact this (decide_eq_true hcontains)
      | some descriptor =>
        obtain ⟨index, hindex⟩ := mem_iff_getElem?.mp (mem_of_find?_eq_some hfind)
        have hcontains : descriptor.Contains id := by simpa using find?_some hfind
        have hmem : ((⟨descriptor, files descriptor.artifact.name,
            reliesOnOrder && m.uuidOrderMatchesOrdinals == some true⟩ : OpenRange), index) ∈
              (openHandle m files limits reliesOnOrder).ranges.zipIdx := by
          rw [mem_zipIdx_iff_getElem?]
          exact getElem?_map .. ▸ congrArg (Option.map _) hindex
        rw [hsome id hid _ hmem hcontains, Option.bind_some, OpenRange.uuidAt]
    next hid => exact hnone id (.inl hid)
  · rintro seen resolved ⟨range, index⟩ hmem ⟨hseen, hnone, hsome⟩
    have hright := openHandle_right hfiles hranges limits reliesOnOrder hmem
    have hin := mem_of_getElem? hright.descriptor_eq
    apply (returns_lookupRange hright hlimit hlive resolved).mono
    rintro after rfl
    refine ⟨?_, ?_, ?_⟩
    · exact forall_mem_append.mpr ⟨hseen, forall_mem_singleton.mpr hright⟩
    · intro id hid
      show (if _ then _ else _) = _
      rw [if_neg]
      · apply hnone
        exact hid.imp_right fun h r hr => h r (mem_append_left _ hr)
      · rintro ⟨hlive', hcontains⟩
        rcases hid with hid | hid
        · exact hid hlive'
        · exact hid (range, index) (mem_append_right _ (mem_singleton.mpr rfl)) hcontains
    · intro id hid r hr hcontains
      show (if _ then _ else _) = _
      by_cases hhere : range.descriptor.Contains id
      · rw [if_pos ⟨hid, hhere⟩]
        rcases mem_append.mp hr with hr | hr
        · -- two ranges that contain the id are one range
          have hother := hseen r hr
          have heq := eq_of_contains hdisjoint hin (mem_of_getElem? hother.descriptor_eq)
            hhere hcontains
          rw [OpenRange.uuidAt, OpenRange.uuidAt, hright.file_eq, hother.file_eq, heq]
        · rw [mem_singleton.mp hr]
      · rw [if_neg fun h => hhere h.2]
        rcases mem_append.mp hr with hr | hr
        · exact hsome id hid r hr hcontains
        · rw [mem_singleton.mp hr] at hcontains
          exact absurd hcontains hhere

variable (htombstones : ∀ run ∈ m.tombstones, run.Tiled)
include htombstones

/-- A lookup within the request limit answers every id, in the order of the request. -/
lemma returns_lookupNodeUuidsPinned (reliesOnOrder : Bool)
    (hlimit : ordinalBlockBytes ≤ limits.maxCoalescedReadBytes) {requested : List ℕ}
    (hrequested : requested.length ≤ limits.maxRequested) :
    Returns (Caches.Right m files)
      (lookupNodeUuidsPinned checksum (openHandle m files limits reliesOnOrder) requested)
      (· = requested.map (identityOf m files)) := by
  unfold lookupNodeUuidsPinned
  apply Returns.step (refuseIf_of_not (not_lt.mpr hrequested))
  apply (returns_lookupTombstones hfiles htombstones limits reliesOnOrder _).bind
  intro deleted hdeleted
  have hlive : ((uniqueIds requested).filter (· ∉ deleted)).Pairwise (· ≤ ·) :=
    (pairwise_uniqueIds requested).filter _
  apply (returns_lookupRanges hfiles hranges hdisjoint reliesOnOrder hlimit hlive).bind
  rintro resolved rfl
  apply Returns.pure
  apply map_congr_left
  intro id hid
  -- a requested id is live unless it is tombstoned
  have hunique : id ∈ uniqueIds requested := by
    rwa [uniqueIds, mem_dedup, mem_insertionSort]
  have hmem : id ∈ (uniqueIds requested).filter (· ∉ deleted) ↔ ¬tombstoned m files id = true := by
    rw [mem_filter, decide_eq_true_eq, hdeleted]
    exact ⟨fun h hdead => h.2 ⟨hunique, hdead⟩, fun h => ⟨hunique, fun hdead => h hdead.2⟩⟩
  unfold identityOf
  by_cases hdead : tombstoned m files id = true
  · rw [if_neg fun h => hmem.mp h hdead, if_pos hdead]
  · rw [if_pos (hmem.mpr hdead), if_neg hdead]

end

/-- Lookups through one handle, whatever the cache budgets and the coalescing limits that admit a
block. Each batch gets, in its order, the stored UUID of every id that no tombstone run lists, and
an oversized batch is refused. -/
theorem lookupAll_eq_identityOf {generation : ℕ} (hvalid : validateManifest m generation = .ok ())
    (hfiles : FilesMatch checksum m files) {limits : Limits}
    (hlimit : ordinalBlockBytes ≤ limits.maxCoalescedReadBytes) (batches : List (Bool × List ℕ)) :
    lookupAll checksum m files limits batches Caches.fresh = batches.map fun batch =>
      if batch.2.length > limits.maxRequested then
        .error (.requestLimit batch.2.length limits.maxRequested)
      else .ok (batch.2.map (identityOf m files)) := by
  obtain ⟨hranges, hdisjoint, htombstones⟩ := validateManifest_spec hvalid
  -- the caches are right before every batch
  suffices hrun : ∀ caches : Caches, caches.Right m files →
      lookupAll checksum m files limits batches caches = _ from hrun _ Caches.Right.fresh
  induction batches with
  | nil =>
    intro caches _
    rfl
  | cons batch batches ih =>
    intro caches hcaches
    rw [lookupAll, map_cons]
    by_cases hlong : batch.2.length > limits.maxRequested
    · -- the request is refused before anything is read
      have hrefused : (lookupNodeUuidsPinned checksum (openHandle m files limits batch.1)
          batch.2).run.run caches =
            (.error (.requestLimit batch.2.length limits.maxRequested), caches) := by
        unfold lookupNodeUuidsPinned
        rw [refuseIf, if_pos (show batch.2.length >
          (openHandle m files limits batch.1).limits.maxRequested from hlong)]
        rfl
      rw [hrefused, if_pos hlong, ih caches hcaches]
    · obtain ⟨values, hvalues, rfl, hafter⟩ := returns_lookupNodeUuidsPinned hfiles hranges
        hdisjoint htombstones batch.1 hlimit (not_lt.mp hlong) caches hcaches
      rw [if_neg hlong, ← ih _ hafter, ← hvalues]

/-! A manifest with one range of two ids, from 1 on, of which the second is deleted. -/

/-- An artifact of the sample. -/
def sampleArtifact (name : Char) (kind : ArtifactKind) (bytes : ℕ) : Artifact :=
  ⟨[name], kind, 1, bytes, replicate 64 '0', 0⟩

/-- Two nodes, the second one deleted. -/
def sampleManifest : Manifest where
  topologyGeneration := 1
  forwardIdentities := [sampleArtifact 'f' .forwardIdentities 48]
  ordinalRanges := [⟨1, 2, sampleArtifact 'o' .ordinalUuids 32, [⟨0, 2, 32⟩]⟩]
  tombstones := [⟨1, sampleArtifact 't' .nodeTombstones 8, [⟨0, 1, 2, 2, 8⟩]⟩]
  uuidOrderMatchesOrdinals := some true

/-- The files of the sample. -/
def sampleFiles (name : List Char) : List UInt8 :=
  if name = ['o'] then Uuid.toBytes 5 ++ Uuid.toBytes 9
  else if name = ['t'] then Bytes.beBytes 8 2
  else []

lemma sampleFiles_match : FilesMatch List.length sampleManifest sampleFiles where
  ordinal_length := by decide +kernel
  ordinal_checksum := by decide +kernel
  ordinal_order := by decide +kernel
  tombstone_length := by decide +kernel
  tombstone_checksum := by decide +kernel
  tombstone_fence := by decide +kernel

/-- Two batches, with room for one ordinal block and no tombstone block in the caches. -/
theorem lookupAll_eq_identityOf_sample : validateManifest sampleManifest 1 = .ok () ∧
    lookupAll List.length sampleManifest sampleFiles ⟨4, 0, ordinalBlockBytes, 0, 32⟩
      [(false, [2, 1, 7, 1]), (true, [1])] Caches.fresh =
        [.ok [none, some 5, none, some 5], .ok [some 5]] := by
  have hvalid : validateManifest sampleManifest 1 = .ok () := by decide +kernel
  refine ⟨hvalid, ?_⟩
  rw [lookupAll_eq_identityOf hvalid sampleFiles_match le_rfl]
  decide +kernel

end GraphForge.OrdinalIdentity
