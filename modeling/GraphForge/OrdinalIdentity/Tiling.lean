import GraphForge.OrdinalIdentity.Lookup

/-!
# Blocks that tile a file

An accepted manifest cuts every file into blocks of one size, the last one possibly shorter. So a
record lies in the block that its position says, and a read of several blocks holds each of them
at the expected place.
-/

namespace GraphForge.OrdinalIdentity

open List Except Nat

open List (partitionPoint PartitionedBy)

/-! ## Records -/

/-- A record of a piece of a file is a record of the file. -/
lemma recordAt_slice (width : ℕ) (file : List UInt8) {a n i : ℕ} (hi : i < n) :
    recordAt width ((file.drop (a * width)).take (n * width)) i = recordAt width file (a + i) := by
  unfold recordAt
  have hroom : width ≤ n * width - i * width := by
    rw [← Nat.sub_mul]
    exact Nat.le_mul_of_pos_left width (by omega)
  rw [drop_take, take_take, drop_drop, Nat.min_eq_left hroom, Nat.add_mul]

lemma length_recordAt {width : ℕ} {file : List UInt8} {i : ℕ} (h : (i + 1) * width ≤ file.length) :
    (recordAt width file i).length = width := by
  unfold recordAt
  rw [Nat.add_mul, Nat.one_mul] at h
  rw [length_take, length_drop]
  omega

/-- Packed UUIDs ascend when each is below the next. -/
lemma uuidsStrictlyAscend_iff {packed : List UInt8} :
    uuidsStrictlyAscend packed = true ↔ ∀ i, i + 1 < packed.length / uuidWidth →
      recordAt uuidWidth packed i < recordAt uuidWidth packed (i + 1) := by
  unfold uuidsStrictlyAscend
  rw [all_eq_true]
  constructor
  · intro h i hi
    exact of_decide_eq_true (h i (mem_range.mpr (by omega)))
  · intro h i hi
    exact decide_eq_true (h i (by have := mem_range.mp hi; omega))

/-- Where a whole file ascends, so does a piece of it. -/
lemma uuidsStrictlyAscend_slice {file : List UInt8} (h : uuidsStrictlyAscend file = true) {a n : ℕ}
    (hn : (a + n) * uuidWidth ≤ file.length) :
    uuidsStrictlyAscend ((file.drop (a * uuidWidth)).take (n * uuidWidth)) = true := by
  rw [uuidsStrictlyAscend_iff] at h ⊢
  intro i hi
  have hlen : ((file.drop (a * uuidWidth)).take (n * uuidWidth)).length = n * uuidWidth := by
    rw [Nat.add_mul] at hn
    rw [length_take, length_drop]
    omega
  rw [hlen, Nat.mul_div_cancel n (by decide)] at hi
  rw [recordAt_slice _ _ (by omega), recordAt_slice _ _ hi, ← Nat.add_assoc]
  apply h
  have := Nat.div_le_div_right (c := uuidWidth) hn
  rw [Nat.mul_div_cancel _ (by decide)] at this
  omega

/-- The identifiers in the bytes of tombstones. -/
lemma mem_decodeIds {bytes : List UInt8} {id : ℕ} :
    id ∈ decodeIds bytes ↔ ∃ i < bytes.length / tombstoneWidth,
      Bytes.ofBeBytes (recordAt tombstoneWidth bytes i) = id := by
  simp [decodeIds]

/-! ## Tilings -/

/-- The blocks of a file of `total` records, `perBlock` to a block. -/
structure Tiles {β : Type} (offset count : β → ℕ) (blockBytes perBlock total : ℕ)
    (blocks : List β) : Prop where
  length_eq : blocks.length = divCeil total perBlock
  offset_eq : ∀ i b, blocks[i]? = some b → offset b = i * blockBytes
  count_eq : ∀ i b, blocks[i]? = some b → count b = min (total - i * perBlock) perBlock

namespace Tiles
variable {β : Type} {offset count : β → ℕ} {blockBytes perBlock total : ℕ} {blocks : List β}
  (h : Tiles offset count blockBytes perBlock total blocks)
include h

section
variable (hper : 0 < perBlock) {i : ℕ} {b : β} (hb : blocks[i]? = some b)
include hper hb

/-- A block starts inside the range. -/
lemma start_lt : i * perBlock < total := by
  obtain ⟨hi, _⟩ := List.getElem?_eq_some_iff.mp hb
  rw [h.length_eq, divCeil, Nat.lt_div_iff_mul_lt hper] at hi
  omega

lemma count_pos : 0 < count b := by
  have := h.start_lt hper hb
  rw [h.count_eq i b hb]
  omega

/-- A block ends inside the range. -/
lemma finish_le : i * perBlock + count b ≤ total := by
  have := h.start_lt hper hb
  rw [h.count_eq i b hb]
  omega

end

/-- Blocks end in their order. -/
lemma finish_mono {i j : ℕ} {b c : β} (hb : blocks[i]? = some b) (hc : blocks[j]? = some c)
    (hij : i ≤ j) : i * perBlock + count b ≤ j * perBlock + count c := by
  rcases eq_or_lt_of_le hij with rfl | hlt
  · rw [hb] at hc
    obtain rfl := Option.some.inj hc
    exact le_rfl
  have hcount : count b ≤ perBlock := by
    rw [h.count_eq i b hb]
    omega
  have hstep := mul_le_mul_right perBlock (succ_le_of_lt hlt)
  rw [succ_mul] at hstep
  omega

/-- Every place is in a block. -/
lemma exists_block (hper : 0 < perBlock) {k : ℕ} (hk : k < total) :
    ∃ i b, blocks[i]? = some b ∧ i * perBlock ≤ k ∧ k < i * perBlock + count b := by
  have hdiv := div_mul_le_self k perBlock
  have hmod := lt_div_mul_add (a := k) hper
  have hi : k / perBlock < blocks.length := by
    rw [h.length_eq, divCeil, lt_div_iff_mul_lt hper]
    omega
  refine ⟨k / perBlock, blocks[k / perBlock], List.getElem?_eq_getElem hi, hdiv, ?_⟩
  rw [h.count_eq _ _ (List.getElem?_eq_getElem hi)]
  omega

/-- Blocks have offsets of their own. -/
lemma eq_of_offset_eq (hbytes : 0 < blockBytes) {b c : β} (hb : b ∈ blocks) (hc : c ∈ blocks)
    (hoffset : offset b = offset c) : b = c := by
  obtain ⟨i, hi⟩ := mem_iff_getElem?.mp hb
  obtain ⟨j, hj⟩ := mem_iff_getElem?.mp hc
  rw [h.offset_eq i b hi, h.offset_eq j c hj] at hoffset
  obtain rfl := eq_of_mul_eq_mul_right hbytes hoffset
  rw [hi] at hj
  exact Option.some.inj hj

end Tiles

section
variable {β : Type} (offset count : β → ℕ) (blockBytes perBlock : ℕ)

/-- The blocks from position `index` on, for `remaining` records. -/
def TilesFrom : ℕ → ℕ → List β → Prop
  | _, _, [] => True
  | index, remaining, b :: blocks => offset b = index * blockBytes ∧
      count b = min remaining perBlock ∧
      TilesFrom (index + 1) (remaining - min remaining perBlock) blocks

variable {offset count blockBytes perBlock}

/-- Tiles from the start are all tiles. -/
lemma TilesFrom.tiles {total : ℕ} {blocks : List β}
    (h : TilesFrom offset count blockBytes perBlock 0 total blocks)
    (hlength : blocks.length = divCeil total perBlock) :
    Tiles offset count blockBytes perBlock total blocks := by
  have hat : ∀ (blocks : List β) (index remaining : ℕ),
      TilesFrom offset count blockBytes perBlock index remaining blocks →
      ∀ i b, blocks[i]? = some b → offset b = (index + i) * blockBytes ∧
        count b = min (remaining - i * perBlock) perBlock := by
    intro blocks
    induction blocks with
    | nil => simp
    | cons head blocks ih =>
      intro index remaining ⟨hoffset, hcount, hrest⟩ i b hb
      cases i with
      | zero =>
        obtain rfl : head = b := by simpa using hb
        exact ⟨hoffset, by rw [hcount, Nat.zero_mul, Nat.sub_zero]⟩
      | succ i =>
        have htail := ih _ _ hrest i b hb
        constructor
        · rw [htail.1, add_right_comm, add_assoc]
        · rw [htail.2, add_mul]
          omega
  refine ⟨hlength, fun i b hb => ?_, fun i b hb => (hat blocks 0 total h i b hb).2⟩
  rw [(hat blocks 0 total h i b hb).1, zero_add]

end

/-! ## What an accepted manifest says -/

/-- An ordinal range whose ids are machine words and whose blocks tile its file. -/
structure OrdinalRange.Tiled (range : OrdinalRange) : Prop where
  count_pos : 0 < range.count
  last_lt : range.firstNodeId + (range.count - 1) < 2 ^ 64
  bytes_eq : range.artifact.bytes = range.count * uuidWidth
  tiles : Tiles OrdinalBlock.offset OrdinalBlock.count ordinalBlockBytes
    (ordinalBlockBytes / uuidWidth) range.count range.blocks

/-- The blocks of a run of tombstones tile its file. -/
def TombstoneRun.Tiled (run : TombstoneRun) : Prop :=
  Tiles TombstoneBlock.offset TombstoneBlock.count tombstoneBlockBytes
    (tombstoneBlockBytes / tombstoneWidth) (run.artifact.bytes / tombstoneWidth) run.blocks

/-- Validated blocks of ordinals tile. -/
lemma tilesFrom_ordinalBlocks {blocks : List OrdinalBlock} {index remaining : ℕ}
    (h : validateOrdinalBlocks index remaining blocks = .ok ()) :
    TilesFrom OrdinalBlock.offset OrdinalBlock.count ordinalBlockBytes
      (ordinalBlockBytes / uuidWidth) index remaining blocks := by
  induction blocks generalizing index remaining with
  | nil => trivial
  | cons head blocks ih =>
    obtain ⟨hhead, hrest⟩ := check_bind_eq_ok_iff.mp h
    rw [refuseIf_eq_ok_iff, not_or, not_not, not_not] at hhead
    exact ⟨hhead.1, hhead.2, ih hrest⟩

/-- Validated blocks of tombstones tile. -/
lemma tilesFrom_tombstoneBlocks {blocks : List TombstoneBlock} {index remaining priorLast : ℕ}
    (h : validateTombstoneBlocks index remaining priorLast blocks = .ok ()) :
    TilesFrom TombstoneBlock.offset TombstoneBlock.count tombstoneBlockBytes
      (tombstoneBlockBytes / tombstoneWidth) index remaining blocks := by
  induction blocks generalizing index remaining priorLast with
  | nil => trivial
  | cons head blocks ih =>
    obtain ⟨hhead, hrest⟩ := check_bind_eq_ok_iff.mp h
    simp only [refuseIf_eq_ok_iff, not_or, not_not] at hhead
    exact ⟨hhead.1, hhead.2.1, ih hrest⟩

/-- Accepted ranges are tiled, and each one begins after the one before it ends. -/
lemma validateOrdinalRanges_spec {generation priorEnd : ℕ} {ranges : List OrdinalRange}
    (h : validateOrdinalRanges generation priorEnd ranges = .ok ()) :
    (∀ range ∈ ranges, range.Tiled ∧ priorEnd < range.firstNodeId) ∧
      ranges.Pairwise fun r s => r.firstNodeId + (r.count - 1) < s.firstNodeId := by
  induction ranges generalizing priorEnd with
  | nil => simp
  | cons range ranges ih =>
    simp only [validateOrdinalRanges, validateOrdinalBlockFences, check_bind_eq_ok_iff,
      refuseIf_eq_ok_iff, not_or, not_not] at h
    obtain ⟨_, hcount, hlast, hfirst, _, hbytes, ⟨hlength, hblocks⟩, h⟩ := h
    obtain ⟨hranges, hpairs⟩ := ih h
    have htiled : range.Tiled := ⟨Nat.pos_of_ne_zero hcount, Nat.lt_of_not_le hlast, hbytes,
      (tilesFrom_ordinalBlocks hblocks).tiles hlength⟩
    constructor
    · refine forall_mem_cons.mpr ⟨⟨htiled, Nat.lt_of_not_le hfirst.2⟩, fun r hr => ?_⟩
      have hr' := hranges r hr
      exact ⟨hr'.1, by have := hr'.2; omega⟩
    · rw [pairwise_cons]
      exact ⟨fun s hs => (hranges s hs).2, hpairs⟩

/-- Validated runs of tombstones are tiled. -/
lemma validateTombstoneRuns_spec {generation prior : ℕ} {runs : List TombstoneRun}
    (h : validateTombstoneRuns generation prior runs = .ok ()) : ∀ run ∈ runs, run.Tiled := by
  induction runs generalizing prior with
  | nil => simp
  | cons run runs ih =>
    simp only [validateTombstoneRuns, validateTombstoneBlockFences, check_bind_eq_ok_iff,
      refuseIf_eq_ok_iff, not_not] at h
    obtain ⟨_, _, ⟨hlength, hblocks⟩, h⟩ := h
    exact forall_mem_cons.mpr ⟨(tilesFrom_tombstoneBlocks hblocks).tiles hlength, ih h⟩

/-- What `validate_manifest` establishes about the tables that lookups read. -/
lemma validateManifest_spec {m : Manifest} {generation : ℕ}
    (h : validateManifest m generation = .ok ()) :
    (∀ range ∈ m.ordinalRanges, range.Tiled) ∧
      m.ordinalRanges.Pairwise (fun r s => r.firstNodeId + (r.count - 1) < s.firstNodeId) ∧
      ∀ run ∈ m.tombstones, run.Tiled := by
  simp only [validateManifest, check_bind_eq_ok_iff] at h
  obtain ⟨_, _, _, _, _, hranges, htombstones⟩ := h
  have hspec := validateOrdinalRanges_spec hranges
  exact ⟨fun range hrange => (hspec.1 range hrange).1, hspec.2,
    validateTombstoneRuns_spec htombstones⟩

/-! ## The ids of a block -/

/-- The id lies in the block, for a range that begins at `firstNodeId`. -/
def OrdinalBlock.Covers (firstNodeId : ℕ) (block : OrdinalBlock) (id : ℕ) : Prop :=
  block.firstId firstNodeId ≤ id ∧ id ≤ block.lastId firstNodeId

instance (firstNodeId : ℕ) (block : OrdinalBlock) (id : ℕ) :
    Decidable (block.Covers firstNodeId id) := inferInstanceAs (Decidable (_ ∧ _))

/-- The wrapping arithmetic is exact where the last id is a machine word. -/
lemma lastOf_eq {first count : ℕ} (hcount : 0 < count) (h : first + (count - 1) < 2 ^ 64) :
    lastOf first count = first + (count - 1) := by
  unfold lastOf
  omega

section
variable {range : OrdinalRange} (h : range.Tiled) {i : ℕ} {block : OrdinalBlock}
  (hblock : range.blocks[i]? = some block)
include h hblock

/-- The first node of a block, by its index. -/
lemma OrdinalRange.Tiled.firstId_eq :
    block.firstId range.firstNodeId = range.firstNodeId + i * (ordinalBlockBytes / uuidWidth) := by
  rw [OrdinalBlock.firstId, h.tiles.offset_eq i block hblock]
  show _ + i * 65536 / 16 = _ + i * 4096
  omega

/-- The nodes that a block covers, by its index. -/
lemma OrdinalRange.Tiled.covers_iff {id : ℕ} : block.Covers range.firstNodeId id ↔
      range.firstNodeId + i * (ordinalBlockBytes / uuidWidth) ≤ id ∧
        id < range.firstNodeId + i * (ordinalBlockBytes / uuidWidth) + block.count := by
  have hpos := h.tiles.count_pos (by decide) hblock
  have hfinish := h.tiles.finish_le (by decide) hblock
  have hlast := h.last_lt
  have hword : range.firstNodeId + i * (ordinalBlockBytes / uuidWidth) + (block.count - 1) <
      2 ^ 64 := by omega
  rw [OrdinalBlock.Covers, OrdinalBlock.lastId, h.firstId_eq hblock, lastOf_eq hpos hword]
  omega

lemma OrdinalRange.Tiled.firstId_le_lastId :
    block.firstId range.firstNodeId ≤ block.lastId range.firstNodeId := by
  have hpos := h.tiles.count_pos (by decide) hblock
  have hcovers : block.Covers range.firstNodeId (block.firstId range.firstNodeId) := by
    rw [h.covers_iff hblock, h.firstId_eq hblock]
    omega
  exact hcovers.2

lemma OrdinalRange.Tiled.finish_eq :
    block.finish = (i * (ordinalBlockBytes / uuidWidth) + block.count) * uuidWidth := by
  rw [OrdinalBlock.finish, h.tiles.offset_eq i block hblock, add_mul]
  show i * 65536 + _ = i * 4096 * 16 + _
  omega

lemma OrdinalRange.Tiled.count_le : block.count ≤ ordinalBlockBytes / uuidWidth := by
  rw [h.tiles.count_eq i block hblock]
  omega

end

/-! ## Sorted ids -/

section
variable {ids : List ℕ} (hids : ids.Pairwise (· ≤ ·))
include hids

lemma partitionedBy_le (last : ℕ) : ids.PartitionedBy (· ≤ last) := by
  apply hids.imp
  intro a b hab hb
  simp only [decide_eq_true_eq] at hb ⊢
  omega

/-- The requested nodes of an interval, found by two binary searches. -/
lemma between_eq_filter {first last : ℕ} (h : first ≤ last) :
    between ids first last = ids.filter fun id => decide (first ≤ id ∧ id ≤ last) := by
  have hlt : ids.PartitionedBy (· < first) := @PartitionedBy.of_sorted _ _ id hids first
  have hle := partitionedBy_le hids last
  -- the ids below `first` are among those up to `last`
  have hcount : ids.countP (· < first) = (ids.filter (· ≤ last)).countP (· < first) := by
    rw [countP_filter]
    apply countP_congr
    intro id _
    simp only [decide_eq_true_eq, Bool.and_eq_true]
    omega
  rw [between, hlt.partitionPoint_eq, hle.partitionPoint_eq, hle.take_countP, hcount,
    (hlt.filter _).drop_countP, filter_filter]
  apply filter_congr
  intro id _
  rw [← decide_not, Bool.eq_iff_iff]
  simp only [Bool.and_eq_true, decide_eq_true_eq]
  omega

lemma mem_between {first last : ℕ} (h : first ≤ last) {id : ℕ} :
    id ∈ between ids first last ↔ id ∈ ids ∧ first ≤ id ∧ id ≤ last := by
  rw [between_eq_filter hids h, mem_filter, decide_eq_true_eq]

end

lemma between_eq_nil {ids : List ℕ} {first last : ℕ}
    (h : partitionPoint (· < first) ids = partitionPoint (· ≤ last) ids) :
    between ids first last = [] := by
  rw [between, h]
  apply drop_eq_nil_of_le
  rw [length_take]
  omega

/-- A block that covers a requested node is selected. -/
lemma mem_selectBlocks {range : OrdinalRange} (h : range.Tiled) {i : ℕ} {block : OrdinalBlock}
    (hblock : range.blocks[i]? = some block) {ids : List ℕ} (hids : ids.Pairwise (· ≤ ·)) {id : ℕ}
    (hid : id ∈ ids) (hcovers : block.Covers range.firstNodeId id) :
    (block, i) ∈ selectBlocks range ids := by
  unfold selectBlocks
  rw [mem_filter, decide_eq_true_eq]
  refine ⟨by rwa [mem_zipIdx_iff_getElem?], ?_⟩
  intro heq
  have hmem := (mem_between hids (h.firstId_le_lastId hblock)).mpr ⟨hid, hcovers⟩
  rw [between_eq_nil heq] at hmem
  cases hmem

/-! ## Resolving the ids of a block -/

/-- What a range holds for an id. -/
def OpenRange.uuidAt (range : OpenRange) (id : ℕ) : Option Uuid :=
  Uuid.ofBytes (recordAt uuidWidth range.file (id - range.descriptor.firstNodeId))

/-- Overwriting a table at each member of a list. -/
lemma foldl_overwrite {β : Type} (f : ℕ → β) (xs : List ℕ) (table : ℕ → β) :
    xs.foldl (fun t x i => if i = x then f x else t i) table =
      fun i => if i ∈ xs then f i else table i := by
  induction xs generalizing table with
  | nil => simp
  | cons x xs ih =>
    rw [foldl_cons, ih]
    funext i
    by_cases hi : i ∈ xs
    · rw [if_pos hi, if_pos (mem_cons_of_mem x hi)]
    · by_cases hx : i = x
      · rw [if_neg hi, if_pos hx, if_pos (mem_cons.mpr (.inl hx)), hx]
      · rw [if_neg hi, if_neg hx, if_neg (by simp [hi, hx])]

/-- A file whose blocks are tiled, and which is as long as they say. -/
structure OpenRange.Whole (range : OpenRange) : Prop where
  tiled : range.descriptor.Tiled
  length_eq : range.file.length = range.descriptor.count * uuidWidth

section
variable {range : OpenRange} (h : range.Whole) {i : ℕ} {block : OrdinalBlock}
  (hblock : range.descriptor.blocks[i]? = some block)
include h hblock

/-- A block is inside its file. -/
lemma OpenRange.Whole.finish_le : block.finish ≤ range.file.length := by
  have := h.tiled.tiles.finish_le (by decide) hblock
  rw [h.tiled.finish_eq hblock, h.length_eq]
  exact mul_le_mul_right _ this

variable {a n : ℕ} (ha : a ≤ i * (ordinalBlockBytes / uuidWidth))
  (hn : i * (ordinalBlockBytes / uuidWidth) + block.count ≤ a + n)
  (hend : a + n ≤ range.descriptor.count)
include ha hn hend

/-- One id of a block, from a buffer of `n` records from record `a` on. -/
lemma OpenRange.Whole.resolveId_eq {id : ℕ}
    (hcovers : block.Covers range.descriptor.firstNodeId id) (resolved : Resolved) :
    resolveId range.descriptor.firstNodeId block (a * uuidWidth)
        ((range.file.drop (a * uuidWidth)).take (n * uuidWidth)) resolved id =
      .ok fun j => if j = id then range.uuidAt id else resolved j := by
  rw [h.tiled.covers_iff hblock] at hcovers
  have hlen : ((range.file.drop (a * uuidWidth)).take (n * uuidWidth)).length = n * uuidWidth := by
    have := mul_le_mul_right uuidWidth hend
    rw [add_mul] at this
    rw [length_take, length_drop, h.length_eq]
    omega
  -- the record in the buffer
  obtain ⟨k, hk⟩ : ∃ k, id - range.descriptor.firstNodeId = a + k :=
    ⟨id - range.descriptor.firstNodeId - a, by omega⟩
  have hstart : block.offset - a * uuidWidth +
      (id - block.firstId range.descriptor.firstNodeId) * uuidWidth = k * uuidWidth := by
    rw [h.tiled.firstId_eq hblock, h.tiled.tiles.offset_eq i block hblock]
    simp only [ordinalBlockBytes, uuidWidth] at hcovers ha hk ⊢
    omega
  have hkn : (k + 1) * uuidWidth ≤ n * uuidWidth := mul_le_mul_right _ (by omega)
  have hrecord : slice ((range.file.drop (a * uuidWidth)).take (n * uuidWidth)) (k * uuidWidth)
      uuidWidth = .ok (recordAt uuidWidth range.file (id - range.descriptor.firstNodeId)) := by
    rw [slice, hlen, if_pos (by rw [add_mul] at hkn; omega), hk,
      ← recordAt_slice uuidWidth range.file (show k < n by omega)]
    rfl
  have hwidth : (recordAt uuidWidth range.file (id - range.descriptor.firstNodeId)).length = 16 :=
    length_recordAt (by rw [h.length_eq]; exact mul_le_mul_right _ (by omega))
  obtain ⟨uuid, huuid⟩ : ∃ uuid, range.uuidAt id = some uuid :=
    ⟨_, by rw [OpenRange.uuidAt, Uuid.ofBytes, dif_pos hwidth]⟩
  have hparse : Uuid.ofBytes (recordAt uuidWidth range.file
      (id - range.descriptor.firstNodeId)) = some uuid := huuid
  unfold resolveId
  simp only [hstart, hrecord, huuid]
  show (ofOption OrdinalError.aborted (Uuid.ofBytes _) >>= _) = _
  rw [hparse]
  rfl

/-- `resolve_block_ids` answers the requested ids of the block, and leaves the others. -/
lemma OpenRange.Whole.resolveBlockIds_eq {ids : List ℕ} (hids : ids.Pairwise (· ≤ ·))
    (resolved : Resolved) :
    resolveBlockIds range.descriptor.firstNodeId block (a * uuidWidth)
        ((range.file.drop (a * uuidWidth)).take (n * uuidWidth)) ids resolved =
      .ok fun id => if id ∈ ids ∧ block.Covers range.descriptor.firstNodeId id
        then range.uuidAt id else resolved id := by
  have hle := h.tiled.firstId_le_lastId hblock
  unfold resolveBlockIds
  rw [foldlM_eq_ok_foldl (g := fun t x j => if j = x then range.uuidAt x else t j), foldl_overwrite]
  · congr 1
    funext id
    exact if_congr (mem_between hids hle) rfl rfl
  · intro id hid resolved
    exact h.resolveId_eq hblock ha hn hend ((mem_between hids hle).mp hid).2 resolved

end

end GraphForge.OrdinalIdentity
