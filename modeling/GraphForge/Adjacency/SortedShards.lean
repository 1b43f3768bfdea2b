import GraphForge.Adjacency.ShardWriterTheorems

/-!
# The builder from a sorted sequence

The boundaries that `writeShardedCsrFromSorted` finds by searching the packed sequence
cut it into `shardPieces`, and counting the entries of every row gives each piece's
index; so the builder writes what the streaming writer writes.
-/

namespace GraphForge.Adjacency

open List CsrIndex

/-! ## Packed entries -/

lemma packedKey_mono {a b : UInt64} (h : a ≤ b) : packedKey a ≤ packedKey b := by
  have h' : a.toNat ≤ b.toNat := UInt64.le_iff_toNat_le.mp h
  simp only [packedKey, UInt64.toNat_shiftRight, Nat.shiftRight_eq_div_pow]
  exact Nat.div_le_div_right h'

lemma unpack_key {neighbors : List UInt32} {entry : UInt64} {e : KeyedEntry}
    (h : unpack neighbors entry = some e) : packedKey entry = e.key := by
  unfold unpack at h
  split at h
  · cases h
  · obtain ⟨neighbor, _, rfl⟩ := Option.map_eq_some_iff.mp h
    rfl

/-! ## The content of a shard -/

lemma accumulate_append (sum : ℕ) (ns : List ℕ) (n : ℕ) :
    accumulate sum (ns ++ [n]) = accumulate sum ns ++ [sum + ns.sum + n] := by
  induction ns generalizing sum with
  | nil => simp [accumulate]
  | cons m ns ih =>
    rw [cons_append, accumulate, accumulate, ih, sum_cons, cons_append]
    simp only [Nat.add_assoc]

lemma accumulate_map_range (g : ℕ → ℕ) (n : ℕ) : accumulate 0 ((range n).map g) =
      (range n).map fun i => ((range (i + 1)).map g).sum := by
  induction n with
  | zero => rfl
  | succ n ih =>
    rw [range_succ, map_append, map_singleton, accumulate_append, ih,
      map_append, map_singleton, Nat.zero_add, range_succ (n := n), map_append,
      sum_append, map_singleton, sum_singleton]

lemma before_succ (es : List KeyedEntry) (node : ℕ) :
    before es (node + 1) = before es node + es.countP (·.key = node) := by
  induction es with
  | nil => rfl
  | cons e es ih =>
    unfold before at ih ⊢
    rw [countP_cons, countP_cons, countP_cons, ih]
    by_cases h : e.key = node
    · simp [h]; omega
    · by_cases hlt : e.key < node
      · simp [h, hlt, Nat.lt_succ_of_lt hlt]; omega
      · simp [h, hlt, show ¬e.key < node + 1 by omega]

/-- The counts of the rows up to one add up to the entries before the next. -/
lemma sum_counts {first : ℕ} {es : List KeyedEntry} (hkeys : ∀ e ∈ es, first ≤ e.key) (i : ℕ) :
    ((range (i + 1)).map fun j => es.countP (·.key - first + 1 = j)).sum =
      before es (first + i) := by
  induction i with
  | zero => simp [before_eq_zero hkeys]
  | succ i ih =>
    rw [range_succ, map_append, sum_append, ih, map_singleton,
      sum_singleton, ← Nat.add_assoc, before_succ]
    congr 1
    apply countP_congr
    intro e he
    have := hkeys e he
    simp only [decide_eq_true_eq]
    omega

lemma countRow_map_range {first rows : ℕ} {e : KeyedEntry}
    (h : first ≤ e.key ∧ e.key < first + rows) (g : ℕ → ℕ) :
    countRow first ((range (rows + 1)).map g) e =
      some ((range (rows + 1)).map fun j => g j + if e.key - first + 1 = j then 1 else 0) := by
  have hin : first ≤ e.key ∧ e.key - first + 1 < ((range (rows + 1)).map g).length := by
    rw [length_map, length_range]
    omega
  rw [countRow, if_pos hin]
  congr 1
  apply ext_getElem
  · simp
  · intro j hj hj'
    rw [getElem_modify]
    simp only [getElem_map, getElem_range]
    split <;> rfl

lemma foldlM_countRow {first rows : ℕ} {es : List KeyedEntry}
    (hkeys : ∀ e ∈ es, first ≤ e.key ∧ e.key < first + rows) (g : ℕ → ℕ) :
    es.foldlM (countRow first) ((range (rows + 1)).map g) =
      some ((range (rows + 1)).map fun j => g j + es.countP (·.key - first + 1 = j)) := by
  induction es generalizing g with
  | nil => simp
  | cons e es ih =>
    rw [foldlM_cons, countRow_map_range (hkeys e mem_cons_self)]
    show es.foldlM (countRow first) _ = _
    rw [ih fun x hx => hkeys x (mem_cons_of_mem _ hx)]
    congr 2
    funext j
    rw [countP_cons]
    simp only [decide_eq_true_eq]
    omega

/-- Counting and adding up gives the index of the piece. -/
lemma shardOf_eq {first last : ℕ} {es : List KeyedEntry}
    (hkeys : ∀ e ∈ es, first ≤ e.key ∧ e.key ≤ last) (hle : first ≤ last) :
    shardOf first last es = some (.ofSorted first (last - first + 1) es) := by
  have hzero : replicate (last - first + 2) 0 = (range (last - first + 1 + 1)).map fun _ => 0 := by
    rw [map_const', length_range]
  have hin : ∀ e ∈ es, first ≤ e.key ∧ e.key < first + (last - first + 1) := by
    intro e he
    have := hkeys e he
    omega
  unfold shardOf
  rw [hzero, foldlM_countRow hin]
  simp only [Option.bind_eq_bind, Option.bind_some, Nat.zero_add, accumulate_map_range]
  show some _ = some _
  congr 2
  apply map_congr_left
  intro i _
  exact sum_counts (fun e he => (hkeys e he).1) i

/-! ## The boundaries -/

/-- The packed entries stand for `entries`. -/
abbrev Unpacks (neighbors : List UInt32) : List UInt64 → List KeyedEntry → Prop :=
  Forall₂ fun s e => unpack neighbors s = some e

section
variable {neighbors : List UInt32} {sorted : List UInt64} {entries : List KeyedEntry}

lemma map_key_of_unpack (h : Unpacks neighbors sorted entries) :
    sorted.map packedKey = entries.map (·.key) := by
  induction h with
  | nil => rfl
  | cons hx _ ih => rw [map_cons, map_cons, ih, unpack_key hx]

/-- The search for the end of the next shard counts the entries of its piece. -/
lemma partitionPoint_of_map_key {maxNodes first : ℕ}
    (h : sorted.map packedKey = entries.map (·.key)) :
    (sorted.partitionPoint fun e => packedKey e - first < maxNodes) =
      entries.partitionPoint fun e => e.key - first < maxNodes := by
  have hkeys (k : List ℕ) : k = sorted.map packedKey →
      (k.takeWhile fun n => n - first < maxNodes).length =
        (sorted.takeWhile fun e => packedKey e - first < maxNodes).length := by
    rintro rfl
    rw [takeWhile_map, length_map]
    rfl
  unfold partitionPoint
  rw [← hkeys _ rfl, h, takeWhile_map, length_map]
  rfl

/-- The boundaries from a position on cut off the pieces of the entries from there on. -/
lemma shardBounds_pieces {maxEdges maxNodes : ℕ} (hedges : 0 < maxEdges) (hnodes : 0 < maxNodes)
    (h : Unpacks neighbors sorted entries) (fuel start : ℕ)
    (hfuel : sorted.length ≤ start + fuel) :
    Forall₂ (fun bound => Unpacks neighbors ((sorted.take bound.2).drop bound.1))
      (shardBounds maxEdges maxNodes sorted fuel start)
      (shardPieces maxEdges maxNodes (entries.drop start)) ∧
    (shardBounds maxEdges maxNodes sorted fuel start).map Prod.fst =
      pieceStarts start (shardPieces maxEdges maxNodes (entries.drop start)) := by
  have hnil {start : ℕ} (hend : sorted.length ≤ start) : entries.drop start = [] :=
    drop_eq_nil_of_le (h.length_eq ▸ hend)
  induction fuel generalizing start with
  | zero =>
    rw [@hnil start hfuel]
    exact ⟨.nil, rfl⟩
  | succ fuel ih =>
    by_cases hstart : start < sorted.length
    · have hstart' : start < entries.length := h.length_eq ▸ hstart
      have hrest := forall₂_drop start h
      have hkey : packedKey sorted[start] = firstKey (entries.drop start) := by
        have := map_key_of_unpack hrest
        rw [drop_eq_getElem_cons hstart, drop_eq_getElem_cons hstart', map_cons, map_cons] at this
        rw [drop_eq_getElem_cons hstart']
        exact (List.cons.inj this).1
      generalize hlength : shardLength maxEdges maxNodes (entries.drop start) = n
      -- the next boundary, in terms of the entries left
      have hstop : min (start + (sorted.drop start).partitionPoint
            fun e => packedKey e - packedKey sorted[start] < maxNodes) (start + maxEdges) =
          start + n := by
        rw [← hlength, hkey, partitionPoint_of_map_key (map_key_of_unpack hrest), shardLength]
        omega
      have hpieces : 0 < n ∧ shardPieces maxEdges maxNodes (entries.drop start) =
          (entries.drop start).take n ::
            shardPieces maxEdges maxNodes (entries.drop (start + n)) := by
        rw [shardPieces, shardPieces, ← drop_drop]
        rw [drop_eq_getElem_cons hstart'] at hlength ⊢
        rw [cut_cons (shardLength_pos hedges hnodes), hlength]
        exact ⟨hlength ▸ shardLength_pos hedges hnodes _ _, rfl⟩
      have hlen : n ≤ (entries.drop start).length := by
        have := (takeWhile_sublist (l := entries.drop start)
          (fun e => decide (e.key - firstKey (entries.drop start) < maxNodes))).length_le
        unfold shardLength partitionPoint at hlength
        omega
      have hnext := ih (start + n) (by omega)
      rw [shardBounds, List.getElem?_eq_getElem hstart]
      simp only [hstop]
      rw [hpieces.2]
      refine ⟨.cons ?_ hnext.1, ?_⟩
      · rw [drop_take, Nat.add_sub_cancel_left]
        exact forall₂_take _ hrest
      · rw [map_cons, hnext.2, pieceStarts, length_take, Nat.min_eq_left hlen]
    · rw [shardBounds, List.getElem?_eq_none (by omega), hnil (by omega)]
      exact ⟨.nil, rfl⟩

section
variable {R : Type} (write : ℕ → ℕ → CsrIndex → Except GfError R)

/-- One shard of the builder: what its slice unpacks to is written as a piece. -/
lemma writeSlice_eq {bound : ℕ × ℕ} {piece : List KeyedEntry}
    (h : Unpacks neighbors ((sorted.take bound.2).drop bound.1) piece) (hne : piece ≠ [])
    (hs : piece.Pairwise (·.key ≤ ·.key)) (ordinal : ℕ) :
    writeSlice write sorted neighbors ordinal bound =
      some (write ordinal (firstKey piece) (pieceIndex piece)) := by
  unfold writeSlice
  generalize (sorted.take bound.2).drop bound.1 = slice at h
  have hkeys := map_key_of_unpack h
  have hslice : slice ≠ [] := by
    intro hnil
    rw [hnil] at h
    exact hne (forall₂_nil_left_iff.mp h)
  have hhead : packedKey (slice.head hslice) = firstKey piece := by
    have := congrArg List.head? hkeys
    rw [head?_map, head?_map, head?_eq_some_head hslice, head?_eq_some_head hne] at this
    rw [firstKey, head?_eq_some_head hne]
    exact Option.some.inj this
  have hlast : packedKey (slice.getLast hslice) = (piece.getLast hne).key := by
    have := congrArg List.getLast? hkeys
    rw [getLast?_map, getLast?_map, getLast?_eq_some_getLast hslice,
      getLast?_eq_some_getLast hne] at this
    exact Option.some.inj this
  have hupper := key_le_of_getLast? hs (getLast?_eq_some_getLast hne)
  have hlower := firstKey_le hs
  simp only [head?_eq_some_head hslice, getLast?_eq_some_getLast hslice,
    mapM_eq_some_iff.mpr h, Option.bind_eq_bind, Option.bind_some, hhead, hlast, writeShard]
  rw [shardOf_eq (fun e he => ⟨hlower e he, hupper e he⟩)
    (hlower _ (getLast_mem hne)), pieceIndex, pieceRows, getLast?_eq_some_getLast hne]
  rfl

lemma mapM_writeSlice {bounds : List (ℕ × ℕ)} {pieces : List (List KeyedEntry)}
    (h : Forall₂ (fun bound piece => ∀ ordinal, writeSlice write sorted neighbors ordinal bound =
      some (write ordinal (firstKey piece) (pieceIndex piece))) bounds pieces)
    (ordinal : ℕ) :
    ∃ results, ((bounds.zipIdx ordinal).mapM fun bound =>
        writeSlice write sorted neighbors bound.2 bound.1) = some results ∧
      results.mapM id = writePieces write ordinal pieces := by
  induction h generalizing ordinal with
  | nil => exact ⟨[], rfl, rfl⟩
  | cons hstep _ ih =>
    obtain ⟨results, hresults, hwrite⟩ := ih (ordinal + 1)
    rw [zipIdx_cons, mapM_cons, hstep, hresults]
    refine ⟨_, rfl, ?_⟩
    rw [mapM_cons, hwrite, writePieces]
    rfl

end

/-- Both builders cut a sorted sequence at the same positions and write the same shards:
the boundaries found by search are the positions at which `emit` flushes, and whatever
`write` does with a shard's ordinal, first node and content, the results agree. -/
theorem writeShardedCsrFromSorted_eq_streamShards {R : Type}
    (write : ℕ → ℕ → CsrIndex → Except GfError R) (hsorted : sorted.Pairwise (· ≤ ·))
    (hlength : sorted.length < 2 ^ 64) (hentries : sorted.mapM (unpack neighbors) = some entries)
    (maxEdges maxNodes : ℕ) :
    (ShardedCsrWriter.create maxEdges maxNodes).flushPositions
        (fun _ first shard => .ok (first, shard)) 0 entries =
      .ok ((shardBounds (shardEdgeLimit maxEdges) (shardNodeLimit maxNodes) sorted
        sorted.length 0).map Prod.fst).tail ∧
    writeShardedCsrFromSorted write sorted neighbors maxEdges maxNodes =
      some (streamShards write maxEdges maxNodes entries
        ((entries.getLast?.map fun e => e.key + 1).getD 0)) := by
  have hunpack := mapM_eq_some_iff.mp hentries
  have hkeys := map_key_of_unpack hunpack
  have hs : entries.Pairwise (·.key ≤ ·.key) := by
    rw [← pairwise_map (f := KeyedEntry.key) (R := (· ≤ ·)), ← hkeys, pairwise_map]
    exact hsorted.imp packedKey_mono
  have hedges := shardEdgeLimit_pos maxEdges
  have hnodes := shardNodeLimit_pos maxNodes
  obtain ⟨hpieces, hstarts⟩ := shardBounds_pieces hedges hnodes hunpack sorted.length 0 (by omega)
  refine ⟨?_, ?_⟩
  · rw [hstarts]
    exact (ShardedCsrWriter.holds_create maxEdges maxNodes).flushPositions hedges hnodes
      (fun _ first shard => (first, shard)) hs (Nat.zero_le _)
  · -- every piece is a nonempty sorted part of the sequence
    have hsteps : Forall₂ (fun bound piece => ∀ ordinal,
        writeSlice write sorted neighbors ordinal bound =
          some (write ordinal (firstKey piece) (pieceIndex piece)))
        (shardBounds (shardEdgeLimit maxEdges) (shardNodeLimit maxNodes) sorted sorted.length 0)
        (shardPieces (shardEdgeLimit maxEdges) (shardNodeLimit maxNodes) entries) := by
      apply (forall₂_iff_zip.mpr ⟨hpieces.length_eq, fun {bound piece} hmem => ?_⟩)
      intro ordinal
      have hmem' := (of_mem_zip hmem).2
      apply writeSlice_eq write ((forall₂_iff_zip.mp hpieces).2 hmem)
      · exact ne_nil_of_mem_cut (shardLength_pos hedges hnodes) hmem'
      · apply Pairwise.sublist _ hs
        rw [← flatten_cut (shardLength_pos hedges hnodes) entries]
        exact sublist_flatten_of_mem hmem'
    obtain ⟨results, hresults, hwrite⟩ := mapM_writeSlice write hsteps 0
    have hcount : sorted.length = min (2 ^ 64 - 1) entries.length := by
      rw [← hunpack.length_eq]
      omega
    have hnode : (sorted.getLast?.map fun entry => packedKey entry + 1) =
        entries.getLast?.map fun e => e.key + 1 := by
      have := congrArg (fun l => l.getLast?.map (· + 1)) hkeys
      simpa [getLast?_map, Function.comp_def] using this
    rw [streamShards_eq write maxEdges maxNodes hs, ← hcount, ← hnode]
    unfold writeShardedCsrFromSorted
    simp only [hresults, Option.bind_eq_bind, Option.bind_some, hwrite]
    rfl

end

/-- Node 1 has three entries and node 5 one: with two entries and three rows per shard the
row of node 1 is split, and node 5 is too far from it. -/
theorem writeShardedCsrFromSorted_hub :
    (ShardedCsrWriter.create 2 3).flushPositions (fun _ first shard => .ok (first, shard)) 0
        [⟨1, 1, 2⟩, ⟨1, 3, 3⟩, ⟨1, 4, 9⟩, ⟨5, 2, 7⟩] = .ok [2, 3] ∧
    writeShardedCsrFromSorted (fun ordinal first shard => .ok (ordinal, first, shard))
        [0x100000001, 0x100000003, 0x100000004, 0x500000002] [2, 7, 3, 9] 2 3 =
      some (streamShards (fun ordinal first shard => .ok (ordinal, first, shard)) 2 3
        [⟨1, 1, 2⟩, ⟨1, 3, 3⟩, ⟨1, 4, 9⟩, ⟨5, 2, 7⟩] 6) :=
  @writeShardedCsrFromSorted_eq_streamShards [2, 7, 3, 9]
    [0x100000001, 0x100000003, 0x100000004, 0x500000002]
    [⟨1, 1, 2⟩, ⟨1, 3, 3⟩, ⟨1, 4, 9⟩, ⟨5, 2, 7⟩] _
    (fun ordinal first shard => .ok (ordinal, first, shard)) (by decide) (by decide)
    (by decide +kernel) 2 3

end GraphForge.Adjacency
