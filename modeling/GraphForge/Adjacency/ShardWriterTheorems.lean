import GraphForge.Adjacency.ShardWriter

/-!
# Both builders write the same shards

`shardPieces` says where a sorted sequence is cut, and `pieceIndex` what a shard of it
holds. The streaming writer and the builder from a sorted sequence both follow them.
-/

namespace GraphForge.Adjacency

open List CsrIndex

/-! ## Pieces of a sorted sequence -/

variable (es : List KeyedEntry)

/-- The key of the first entry. -/
def firstKey : ℕ := (es.head?.map (·.key)).getD 0

/-- The number of rows from the first entry's to the last entry's. -/
def pieceRows : ℕ :=
  match es.getLast? with
  | none => 0
  | some last => last.key - firstKey es + 1

/-- The shard that holds a piece of the sequence. -/
def pieceIndex : CsrIndex := .ofSorted (firstKey es) (pieceRows es) es

/-- The number of entries the next shard takes: those less than `maxNodes` rows after the
first one, at most `maxEdges`. -/
def shardLength (maxEdges maxNodes : ℕ) (es : List KeyedEntry) : ℕ :=
  min (es.partitionPoint fun e => e.key - firstKey es < maxNodes) maxEdges

/-- The entries of the shards, shard by shard. -/
def shardPieces (maxEdges maxNodes : ℕ) (es : List KeyedEntry) : List (List KeyedEntry) :=
  es.cut (shardLength maxEdges maxNodes)

section
variable {maxEdges maxNodes : ℕ}

lemma shardLength_pos (hedges : 0 < maxEdges) (hnodes : 0 < maxNodes) (e : KeyedEntry)
    (es : List KeyedEntry) : 0 < shardLength maxEdges maxNodes (e :: es) := by
  have hfirst : firstKey (e :: es) = e.key := rfl
  have : e.key - firstKey (e :: es) < maxNodes := by omega
  unfold shardLength partitionPoint
  rw [takeWhile_cons_of_pos (by simpa using this), length_cons]
  omega

lemma firstKey_append {cur : List KeyedEntry} (h : cur ≠ []) (es : List KeyedEntry) :
    firstKey (cur ++ es) = firstKey cur := by
  rw [firstKey, firstKey, head?_append_of_ne_nil cur h]

lemma firstKey_le {es : List KeyedEntry} (hs : es.Pairwise (·.key ≤ ·.key)) :
    ∀ e ∈ es, firstKey es ≤ e.key := by
  cases hs with
  | nil => simp
  | cons hx _ => exact forall_mem_cons.mpr ⟨Nat.le_refl _, hx⟩

/-- A piece that fits is the next shard when the entry after it does not fit, or when
there is none. -/
lemma shardPieces_append (hedges : 0 < maxEdges) (hnodes : 0 < maxNodes) {cur : List KeyedEntry}
    (hcur : cur ≠ []) (hfits : cur.length ≤ maxEdges)
    (hwithin : ∀ e ∈ cur, e.key - firstKey cur < maxNodes) {es : List KeyedEntry}
    (hfull : ∀ e ∈ es.head?, maxEdges ≤ cur.length ∨ maxNodes ≤ e.key - firstKey cur) :
    shardPieces maxEdges maxNodes (cur ++ es) = cur :: shardPieces maxEdges maxNodes es := by
  have hlen : shardLength maxEdges maxNodes (cur ++ es) = cur.length := by
    unfold shardLength partitionPoint
    rw [firstKey_append hcur, takeWhile_append_of_pos (by simpa using hwithin), length_append]
    cases es with
    | nil => simpa using hfits
    | cons e es =>
      by_cases hkey : e.key - firstKey cur < maxNodes
      · have := (hfull e rfl).resolve_right (by omega)
        omega
      · rw [takeWhile_cons_of_neg (by simpa using hkey), length_nil]
        omega
  obtain ⟨x, xs, hx⟩ := exists_cons_of_ne_nil (append_ne_nil_of_left_ne_nil hcur es)
  unfold shardPieces
  rw [hx, cut_cons (shardLength_pos hedges hnodes), ← hx, hlen, take_left, drop_left]

end

/-! ## Appending to a shard -/

lemma push_ofSorted {first count : ℕ} {es : List KeyedEntry} {e : KeyedEntry}
    (hkeys : ∀ x ∈ es, x.key < first + count) (hfirst : first ≤ e.key)
    (hrow : count ≤ e.key - first + 1) :
    (ofSorted first count es).push (e.key - first) e =
      ofSorted first (e.key - first + 1) (es ++ [e]) := by
  have hpad : (ofSorted first count es).offsets ++ replicate (e.key - first + 1 - count) es.length =
        (range (e.key - first + 2)).map fun i => before es (first + i) := by
    rw [show e.key - first + 2 = (count + 1) + (e.key - first + 1 - count) by omega,
      range_add, map_append, map_map]
    congr 1
    -- the rows after the last entry start where the entries end
    symm
    apply eq_replicate_iff.mpr
    refine ⟨by simp, ?_⟩
    intro n hn
    obtain ⟨i, _, rfl⟩ := mem_map.mp hn
    apply before_eq_length
    intro x hx
    have := hkeys x hx
    show x.key < first + (count + 1 + i)
    omega
  have hsame : ∀ i ∈ range (e.key - first + 1),
      before es (first + i) = before (es ++ [e]) (first + i) := by
    intro i hi
    have := mem_range.mp hi
    rw [before_append, @before_eq_zero [e] _ (by simp; omega), Nat.add_zero]
  have hend : before (es ++ [e]) (first + (e.key - first + 1)) = es.length + 1 := by
    rw [before_eq_length, length_append, length_singleton]
    refine forall_mem_concat.mpr ⟨fun x hx => ?_, by omega⟩
    have := hkeys x hx
    omega
  unfold CsrIndex.push
  rw [nodeCount_ofSorted, edgeCount_ofSorted, hpad]
  simp only [ofSorted, map_append, map_singleton, CsrIndex.mk.injEq, and_true]
  rw [range_succ (n := e.key - first + 1), map_append, map_singleton,
    dropLast_concat, map_append, map_singleton, map_congr_left hsame, hend]
  simp

/-- The last entry of a piece extends the shard of the others. -/
lemma push_pieceIndex {cur : List KeyedEntry} {e : KeyedEntry}
    (hs : (cur ++ [e]).Pairwise (·.key ≤ ·.key)) :
    (pieceIndex cur).push (e.key - firstKey (cur ++ [e])) e = pieceIndex (cur ++ [e]) := by
  have hrows : pieceRows (cur ++ [e]) = e.key - firstKey (cur ++ [e]) + 1 := by
    rw [pieceRows, getLast?_concat]
  rw [pieceIndex, pieceIndex, hrows]
  rcases eq_nil_or_concat' cur with hcur | ⟨init, last, hcur⟩
  · -- the first entry of a shard opens its first row
    subst hcur
    have hpush := @push_ofSorted e.key 0 [] e (by simp) (Nat.le_refl _) (by omega)
    simpa [pieceRows, firstKey, ofSorted, before] using hpush
  have hne : cur ≠ [] := by simp [hcur]
  have hsplit := pairwise_append.mp hs
  have hlast : ∀ x ∈ cur, x.key ≤ last.key :=
    key_le_of_getLast? hsplit.1 (by simp [hcur])
  have hle : last.key ≤ e.key := hsplit.2.2 last (by simp [hcur]) e (by simp)
  have hfirst : firstKey cur ≤ last.key := firstKey_le hsplit.1 last (by simp [hcur])
  have hcount : pieceRows cur = last.key - firstKey cur + 1 := by
    rw [pieceRows, hcur, getLast?_concat]
  rw [firstKey_append hne, hcount]
  apply push_ofSorted
  · intro x hx
    have := hlast x hx
    omega
  · omega
  · omega

/-! ## The states of the streaming writer -/

section
variable {R : Type}

/-- The writer has written `records`, received `emitted` entries, and its open shard holds
the entries `cur`. -/
structure ShardedCsrWriter.Holds (maxEdges maxNodes : ℕ) (records : List R) (emitted : ℕ)
    (cur : List KeyedEntry) (w : ShardedCsrWriter R) : Prop where
  edgeLimit : w.maxEdges = maxEdges
  nodeLimit : w.maxNodes = maxNodes
  records : w.records = records
  edgeCount : w.edgeCount = min (2 ^ 64 - 1) emitted
  firstNode : w.firstNode = cur.head?.map (·.key)
  lastKey : w.lastKey = cur.getLast?.map (·.key)
  shard : w.shard = pieceIndex cur
  fits : cur.length ≤ maxEdges
  within : ∀ e ∈ cur, e.key - firstKey cur < maxNodes

namespace ShardedCsrWriter
variable {maxEdges maxNodes : ℕ} {records : List R} {emitted : ℕ} {cur : List KeyedEntry}
  {w : ShardedCsrWriter R}

lemma holds_create (maxEdges maxNodes : ℕ) :
    Holds (shardEdgeLimit maxEdges) (shardNodeLimit maxNodes) [] 0 []
      (create maxEdges maxNodes : ShardedCsrWriter R) where
  edgeLimit := rfl
  nodeLimit := rfl
  records := rfl
  edgeCount := rfl
  firstNode := rfl
  lastKey := rfl
  shard := rfl
  fits := by simp
  within := by simp

section
variable (h : Holds maxEdges maxNodes records emitted cur w)
include h

/-- The test of `emit`, on the entries the open shard holds. -/
lemma Holds.mustFlush_iff (key : ℕ) : w.mustFlush key = true ↔
      maxEdges ≤ cur.length ∨ (cur ≠ [] ∧ maxNodes ≤ key - firstKey cur) := by
  have hlen : w.shard.edgeIds.length = cur.length := by
    simp [h.shard, pieceIndex, ofSorted]
  unfold mustFlush
  rw [hlen, h.firstNode, h.edgeLimit, h.nodeLimit]
  cases cur with
  | nil => simp
  | cons x xs => simp [firstKey]

/-- The open shard is a piece of its own before an entry that makes it flush, and at the end. -/
lemma Holds.shardPieces_eq (hedges : 0 < maxEdges) (hnodes : 0 < maxNodes) (hcur : cur ≠ [])
    (es : List KeyedEntry) (hflush : ∀ e ∈ es.head?, w.mustFlush e.key = true) :
    shardPieces maxEdges maxNodes (cur ++ es) = cur :: shardPieces maxEdges maxNodes es := by
  apply shardPieces_append hedges hnodes hcur h.fits h.within
  intro e he
  exact ((h.mustFlush_iff e.key).mp (hflush e he)).imp_right And.right

lemma Holds.append {e : KeyedEntry} (hs : (cur ++ [e]).Pairwise (·.key ≤ ·.key))
    (hfits : cur.length < maxEdges) (hwithin : e.key - firstKey (cur ++ [e]) < maxNodes) :
    ∃ w', w.append e = .ok w' ∧ Holds maxEdges maxNodes records (emitted + 1) (cur ++ [e]) w' := by
  have hfirst : w.firstNode.getD e.key = firstKey (cur ++ [e]) := by
    rw [h.firstNode]
    cases cur <;> rfl
  have hlast : ¬e.key < w.lastKey.getD e.key := by
    rw [h.lastKey]
    rcases eq_nil_or_concat' cur with hcur | ⟨init, last, hcur⟩
    · simp [hcur]
    · have := (pairwise_append.mp hs).2.2 last (by simp [hcur]) e (by simp)
      simpa [hcur] using this
  unfold ShardedCsrWriter.append
  simp only [hfirst, h.shard, push_pieceIndex hs, Except.refuseIf, if_neg hlast]
  refine ⟨_, rfl, ?_⟩
  exact {
    edgeLimit := h.edgeLimit
    nodeLimit := h.nodeLimit
    records := h.records
    edgeCount := by
      show saturatingAdd w.edgeCount 1 = _
      rw [h.edgeCount, saturatingAdd]
      omega
    firstNode := by
      show some (firstKey (cur ++ [e])) = _
      cases cur <;> rfl
    lastKey := by simp
    shard := rfl
    fits := by rw [length_append]; exact hfits
    within := by
      refine forall_mem_concat.mpr ⟨fun x hx => ?_, hwithin⟩
      rw [firstKey_append (ne_nil_of_mem hx)]
      exact h.within x hx }

lemma Holds.flush (hcur : cur ≠ []) (write : ℕ → ℕ → CsrIndex → Except GfError R) :
    ∃ next : R → ShardedCsrWriter R,
      w.flush write = (do return next (← write records.length (firstKey cur) (pieceIndex cur))) ∧
      ∀ r, Holds maxEdges maxNodes (records ++ [r]) emitted [] (next r) := by
  obtain ⟨x, xs, hx⟩ := exists_cons_of_ne_nil hcur
  have hfirst : w.firstNode = some (firstKey cur) := by
    rw [h.firstNode, hx]
    rfl
  refine ⟨fun r => { w with
    records := w.records ++ [r]
    shard := .start
    firstNode := none
    lastKey := none }, ?_, ?_⟩
  · rw [ShardedCsrWriter.flush, hfirst, h.shard, h.records]
  · intro r
    exact {
      edgeLimit := h.edgeLimit
      nodeLimit := h.nodeLimit
      records := by rw [← h.records]
      edgeCount := h.edgeCount
      firstNode := rfl
      lastKey := rfl
      shard := rfl
      fits := Nat.zero_le _
      within := by simp }

end

end ShardedCsrWriter

/-! ## A run of the streaming writer -/

/-- Write the shards of the pieces, from an ordinal on. -/
def writePieces (write : ℕ → ℕ → CsrIndex → Except GfError R) :
    ℕ → List (List KeyedEntry) → Except GfError (List R)
  | _, [] => pure []
  | ordinal, piece :: rest => do
    let record ← write ordinal (firstKey piece) (pieceIndex piece)
    let records ← writePieces write (ordinal + 1) rest
    return record :: records

namespace ShardedCsrWriter
variable {maxEdges maxNodes : ℕ} {records : List R} {emitted : ℕ} {cur : List KeyedEntry}
  {w : ShardedCsrWriter R}

/-- One step of the writer: an entry that fits joins the open shard; otherwise the open
shard is written first and the entry starts the next one. -/
lemma Holds.emit (h : Holds maxEdges maxNodes records emitted cur w) (hedges : 0 < maxEdges)
    (hnodes : 0 < maxNodes) {e : KeyedEntry} (hs : (cur ++ [e]).Pairwise (·.key ≤ ·.key))
    (write : ℕ → ℕ → CsrIndex → Except GfError R) :
    (w.mustFlush e.key = false ∧ ∃ w', w.emit write e = .ok w' ∧
      Holds maxEdges maxNodes records (emitted + 1) (cur ++ [e]) w') ∨
    (w.mustFlush e.key = true ∧ cur ≠ [] ∧ ∃ next : R → ShardedCsrWriter R,
      w.emit write e = (do return next (← write records.length (firstKey cur) (pieceIndex cur))) ∧
      ∀ r, Holds maxEdges maxNodes (records ++ [r]) (emitted + 1) [e] (next r)) := by
  have hmust := h.mustFlush_iff e.key
  have halone : e.key - firstKey [e] < maxNodes := by simpa [firstKey] using hnodes
  unfold ShardedCsrWriter.emit
  by_cases hflush : w.mustFlush e.key = true
  · right
    have hcur : cur ≠ [] := by
      rintro rfl
      rcases hmust.mp hflush with hfull | hfar
      · have : maxEdges ≤ 0 := hfull
        omega
      · exact hfar.1 rfl
    obtain ⟨next, hnext, hholds⟩ := h.flush hcur write
    choose last hlast hholds' using fun r =>
      (hholds r).append (e := e) (pairwise_singleton _ _) hedges halone
    refine ⟨hflush, hcur, last, ?_, hholds'⟩
    rw [if_pos hflush, hnext]
    simp only [bind_assoc, pure_bind, hlast]
    rfl
  · left
    have hroom := fun hor => hflush (hmust.mpr hor)
    refine ⟨by simpa using hflush, ?_⟩
    rw [if_neg hflush]
    apply h.append hs
    · by_contra hfull
      exact hroom (.inl (by omega))
    · by_cases hcur : cur = []
      · rw [hcur]
        exact halone
      · rw [firstKey_append hcur]
        by_contra hfar
        exact hroom (.inr ⟨hcur, by omega⟩)

/-- Emitting the rest of a sorted sequence and finishing writes the pieces of what the
open shard holds together with the rest. -/
lemma Holds.run (hedges : 0 < maxEdges) (hnodes : 0 < maxNodes)
    (write : ℕ → ℕ → CsrIndex → Except GfError R) (nodeCount : ℕ) {es : List KeyedEntry}
    (h : Holds maxEdges maxNodes records emitted cur w)
    (hs : (cur ++ es).Pairwise (·.key ≤ ·.key)) :
    (es.foldlM (ShardedCsrWriter.emit write) w >>= fun w => w.finish write nodeCount) = do
      let rest ← writePieces write records.length (shardPieces maxEdges maxNodes (cur ++ es))
      return ⟨records ++ rest, min (2 ^ 64 - 1) (emitted + es.length), nodeCount⟩ := by
  induction es generalizing cur records emitted w with
  | nil =>
    rw [foldlM_nil, pure_bind, ShardedCsrWriter.finish, append_nil]
    by_cases hcur : cur = []
    · subst hcur
      rw [ShardedCsrWriter.flush, h.firstNode]
      simp [writePieces, shardPieces, h.records, h.edgeCount]
    obtain ⟨next, hnext, hholds⟩ := h.flush hcur write
    have hpiece := h.shardPieces_eq hedges hnodes hcur [] (by simp)
    rw [append_nil] at hpiece
    rw [hnext, hpiece]
    simp only [writePieces, shardPieces, cut_nil, bind_assoc, pure_bind]
    congr 1
    funext r
    rw [(hholds r).records, (hholds r).edgeCount]
    simp
  | cons e es ih =>
    have hs' : (cur ++ [e]).Pairwise (·.key ≤ ·.key) :=
      Pairwise.sublist (Sublist.append_left (by simp) cur) hs
    have hcount : emitted + 1 + es.length = emitted + (e :: es).length := by
      rw [length_cons]
      omega
    rw [foldlM_cons, bind_assoc]
    rcases h.emit hedges hnodes hs' write with ⟨_, w', hw', hholds⟩ | ⟨hflush, hcur, next, hnext, hholds⟩
    · rw [hw']
      show (es.foldlM (ShardedCsrWriter.emit write) w' >>= _) = _
      rw [ih hholds (by simpa using hs), append_assoc, singleton_append, hcount]
    -- the open shard is a piece of its own, and the entry starts the next piece
    have hpiece := h.shardPieces_eq hedges hnodes hcur (e :: es) (by simpa using hflush)
    have hrest : (e :: es).Pairwise (·.key ≤ ·.key) := (pairwise_append.mp hs).2.1
    rw [hnext, hpiece, writePieces]
    simp only [bind_assoc, pure_bind]
    congr 1
    funext r
    rw [ih (hholds r) hrest, singleton_append, hcount]
    simp

end ShardedCsrWriter

/-- The streaming writer writes the pieces of the sequence. -/
theorem streamShards_eq (write : ℕ → ℕ → CsrIndex → Except GfError R) (maxEdges maxNodes : ℕ)
    {entries : List KeyedEntry} (hs : entries.Pairwise (·.key ≤ ·.key)) (nodeCount : ℕ) :
    streamShards write maxEdges maxNodes entries nodeCount = do
      let records ← writePieces write 0
        (shardPieces (shardEdgeLimit maxEdges) (shardNodeLimit maxNodes) entries)
      return ⟨records, min (2 ^ 64 - 1) entries.length, nodeCount⟩ := by
  have hrun := (ShardedCsrWriter.holds_create (R := R) maxEdges maxNodes).run
    (shardEdgeLimit_pos maxEdges) (shardNodeLimit_pos maxNodes) write nodeCount hs
  simpa [streamShards] using hrun

/-- The positions at which pieces start when the first one starts at `start`. -/
def pieceStarts : ℕ → List (List KeyedEntry) → List ℕ
  | _, [] => []
  | start, piece :: rest => start :: pieceStarts (start + piece.length) rest

/-- The writer flushes where the pieces after the first one start. -/
lemma ShardedCsrWriter.Holds.flushPositions {maxEdges maxNodes : ℕ} (hedges : 0 < maxEdges)
    (hnodes : 0 < maxNodes) (record : ℕ → ℕ → CsrIndex → R) {records : List R} {emitted : ℕ}
    {cur : List KeyedEntry} {w : ShardedCsrWriter R} {es : List KeyedEntry}
    (h : Holds maxEdges maxNodes records emitted cur w)
    (hs : (cur ++ es).Pairwise (·.key ≤ ·.key)) {i : ℕ} (hi : cur.length ≤ i) :
    w.flushPositions (fun ordinal first shard => .ok (record ordinal first shard)) i es =
      .ok (pieceStarts (i - cur.length) (shardPieces maxEdges maxNodes (cur ++ es))).tail := by
  induction es generalizing cur records emitted w i with
  | nil =>
    by_cases hcur : cur = []
    · subst hcur
      rfl
    · rw [h.shardPieces_eq hedges hnodes hcur [] (by simp)]
      rfl
  | cons e es ih =>
    have hs' : (cur ++ [e]).Pairwise (·.key ≤ ·.key) :=
      Pairwise.sublist (Sublist.append_left (by simp) cur) hs
    rw [ShardedCsrWriter.flushPositions]
    rcases h.emit hedges hnodes hs' _ with ⟨hflush, w', hw', hholds⟩ | ⟨hflush, hcur, next, hnext, hholds⟩
    · have hlen : (cur ++ [e]).length = cur.length + 1 := by simp
      have hrest := ih hholds (by simpa using hs) (i := i + 1) (by omega)
      rw [hlen, Nat.add_sub_add_right, append_assoc, singleton_append] at hrest
      rw [hw', hflush]
      show (w'.flushPositions _ (i + 1) es >>= _) = _
      rw [hrest]
      rfl
    have hpiece := h.shardPieces_eq hedges hnodes hcur (e :: es) (by simpa using hflush)
    have hsorted : (e :: es).Pairwise (·.key ≤ ·.key) := (pairwise_append.mp hs).2.1
    have hrest := ih (hholds (record records.length (firstKey cur) (pieceIndex cur))) hsorted
      (i := i + 1) (by simp)
    -- the pieces of a nonempty sequence start with one at its beginning
    have hstart : pieceStarts i (shardPieces maxEdges maxNodes (e :: es)) =
        i :: (pieceStarts i (shardPieces maxEdges maxNodes (e :: es))).tail := by
      rw [shardPieces, cut_cons (shardLength_pos hedges hnodes), pieceStarts, tail_cons]
    rw [hnext, hflush, hpiece, pieceStarts, tail_cons, Nat.sub_add_cancel hi, hstart]
    show (ShardedCsrWriter.flushPositions _ _ (i + 1) es >>= _) = _
    rw [hrest]
    rfl

end

end GraphForge.Adjacency
