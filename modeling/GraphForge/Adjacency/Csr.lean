import GraphForge.Prelude
import GraphForge.Lib.Lists
import GraphForge.Lib.Outcome
import Mathlib.Data.Prod.Lex

/-!
# Compressed sparse rows

A CSR index stores the adjacency entries of a range of nodes in one sequence, row after
row, with an offset per row. The in-memory reference build `csrFromEntries` sorts all
entries of a direction and cuts the sorted sequence into rows; the shard writers build
the same structure for a part of that sequence. All of them produce
`CsrIndex.ofSorted`, whose rows are the entries of one key.
-/

namespace GraphForge.Adjacency

open List Except

/-! ## Entries -/

/-- `(src_id, edge_id, dst_id)` of one edge. -/
structure BuildEntry where
  src : ℕ
  edge : ℕ
  dst : ℕ
  deriving DecidableEq, Repr

/-- Edge direction a CSR file is keyed by. -/
inductive Direction where
  | outgoing
  | incoming
  deriving DecidableEq, Repr

/-- An adjacency entry `(key, edge, neighbor)` of the row `key`. -/
structure KeyedEntry where
  key : ℕ
  edge : ℕ
  neighbor : ℕ
  deriving DecidableEq, Repr

/-- Out: `(src, edge, dst)`; In: `(dst, edge, src)`. -/
def BuildEntry.keyed : Direction → BuildEntry → KeyedEntry
  | .outgoing, e => ⟨e.src, e.edge, e.dst⟩
  | .incoming, e => ⟨e.dst, e.edge, e.src⟩

namespace KeyedEntry

/-- The `(key, edge)` by which entries are sorted. -/
def order (e : KeyedEntry) : ℕ ×ₗ ℕ := toLex (e.key, e.edge)

/-- What a row shows of an entry. -/
def pair (e : KeyedEntry) : ℕ × ℕ := (e.edge, e.neighbor)

lemma key_le_of_order_le {a b : KeyedEntry} (h : a.order ≤ b.order) : a.key ≤ b.key := by
  rcases Prod.Lex.toLex_le_toLex.mp h with h | h
  · exact h.le
  · exact h.1.le

end KeyedEntry

/-- `sort_unstable_by_key(|&(key, edge, _)| (key, edge))`. -/
def sortKeyed (es : List KeyedEntry) : List KeyedEntry := es.insertionSort (·.order ≤ ·.order)

/-- The row of `node` in a sequence of entries: its `(edge, neighbor)` pairs, in the
order of the sequence. -/
def rowOf (es : List KeyedEntry) (node : ℕ) : List (ℕ × ℕ) :=
  (es.filter (·.key = node)).map KeyedEntry.pair
variable {es : List KeyedEntry} {node : ℕ}

lemma length_rowOf_le (es : List KeyedEntry) (node : ℕ) : (rowOf es node).length ≤ es.length := by
  rw [rowOf, length_map]
  exact length_filter_le _ _

@[simp] lemma rowOf_append (es fs : List KeyedEntry) (node : ℕ) :
    rowOf (es ++ fs) node = rowOf es node ++ rowOf fs node := by
  simp [rowOf]

/-- A node without entries has an empty row. -/
lemma rowOf_eq_nil (h : ∀ e ∈ es, e.key ≠ node) : rowOf es node = [] := by
  rw [rowOf, filter_eq_nil_iff.mpr (by simpa using h), map_nil]

/-! ## The index -/

/-- In-memory CSR adjacency: the neighbors of row `i` are the entries at positions
`offsets[i] .. offsets[i + 1]`. -/
structure CsrIndex where
  offsets : List ℕ
  edgeIds : List ℕ
  neighborIds : List ℕ
  deriving DecidableEq, Repr

/-- Borrowed CSR row: parallel edge and neighbor slices. -/
structure CsrRow where
  edgeIds : List ℕ
  neighborIds : List ℕ
  deriving DecidableEq, Repr

namespace CsrRow

/-- The row without entries. -/
def empty : CsrRow := ⟨[], []⟩

variable (r : CsrRow)

/-- The neighbours in a row. -/
def len : ℕ := min r.edgeIds.length r.neighborIds.length

/-- Entry at `index`, if in range. -/
def get (index : ℕ) : Option (ℕ × ℕ) :=
  if index < r.len then do
    let edge ← r.edgeIds[index]?
    let neighbor ← r.neighborIds[index]?
    return (edge, neighbor)
  else none

/-- The row's `(edge_id, neighbor_id)` pairs. -/
def iter : List (ℕ × ℕ) := r.edgeIds.zip r.neighborIds

@[simp] lemma length_iter : r.iter.length = r.len := length_zip

/-- Access by index agrees with iteration. -/
lemma get_eq_getElem?_iter (index : ℕ) : r.get index = r.iter[index]? := by
  unfold get
  by_cases h : index < r.len
  · have hlen : index < r.edgeIds.length ∧ index < r.neighborIds.length := by
      unfold len at h
      omega
    have hpair : (r.edgeIds.zip r.neighborIds)[index]? =
        some (r.edgeIds[index], r.neighborIds[index]) := by
      rw [getElem?_zip_eq_some]
      exact ⟨List.getElem?_eq_getElem hlen.1, List.getElem?_eq_getElem hlen.2⟩
    rw [if_pos h, iter, hpair, List.getElem?_eq_getElem hlen.1, List.getElem?_eq_getElem hlen.2]
    rfl
  · rw [if_neg h, List.getElem?_eq_none (by rw [length_iter]; omega)]

end CsrRow

namespace CsrIndex

/-- The `CsrIndex` a writer starts a shard with. -/
def start : CsrIndex := ⟨[0], [], []⟩

variable (c : CsrIndex)

/-- The nodes of an index. -/
def nodeCount : ℕ := max c.offsets.length 1 - 1

/-- The edges of an index. -/
def edgeCount : ℕ := c.edgeIds.length

/-- Checked row lookup; empty when the id is out of range. -/
def row (nodeId : ℕ) : CsrRow :=
  if c.nodeCount ≤ nodeId then .empty
  else
    let first := c.offsets.getD nodeId 0
    let last := c.offsets.getD (nodeId + 1) 0
    let last := min (min last c.edgeIds.length) c.neighborIds.length
    let first := min first last
    ⟨(c.edgeIds.take last).drop first, (c.neighborIds.take last).drop first⟩

/-- The two columns of a row have one length. -/
lemma row_length_eq (nodeId : ℕ) :
    (c.row nodeId).edgeIds.length = (c.row nodeId).neighborIds.length := by
  unfold row
  split
  · rfl
  · simp only [length_drop, length_take]
    omega

/-- The `{:?}` text of `offsets.first()`. -/
def firstOffsetText : Option ℕ → String
  | none => "None"
  | some n => s!"Some({n})"

/-- Check the structural invariants: offsets start at zero, never decrease and end at
the number of entries. -/
def validate : Except GfError Unit := do
  let got := firstOffsetText c.offsets.head?
  refuseIf (c.offsets.head? ≠ some 0)
    (.storage s!"invalid CSR: offsets must start with 0 (got {got})")
  refuseIf (¬ c.offsets.IsChain (· ≤ ·))
    (.storage "invalid CSR: offsets must be monotonically non-decreasing")
  let last := c.offsets.getLastD 0
  let edges := c.edgeIds.length
  let neighbors := c.neighborIds.length
  refuseIf (last ≠ c.edgeCount ∨ edges ≠ neighbors)
    (.storage (s!"invalid CSR: final offset {last} must equal target lengths " ++
      s!"(edge_ids: {edges}, neighbor_ids: {neighbors})"))

/-! ## The index of a sorted sequence -/

/-- The number of entries in the rows before `node`. -/
def before (es : List KeyedEntry) (node : ℕ) : ℕ := es.countP (·.key < node)

/-- The index over the rows `first .. first + count` of a sequence sorted by key. -/
def ofSorted (first count : ℕ) (es : List KeyedEntry) : CsrIndex where
  offsets := (range (count + 1)).map fun i => before es (first + i)
  edgeIds := es.map (·.edge)
  neighborIds := es.map (·.neighbor)

/-- Offsets ascend. -/
lemma before_mono (es : List KeyedEntry) {a b : ℕ} (h : a ≤ b) : before es a ≤ before es b := by
  apply countP_mono_left
  intro e _ he
  simp only [decide_eq_true_eq] at he ⊢
  omega

lemma before_le_length (es : List KeyedEntry) (node : ℕ) : before es node ≤ es.length :=
  countP_le_length

/-- All entries are before a node beyond every key. -/
lemma before_eq_length (h : ∀ e ∈ es, e.key < node) : before es node = es.length :=
  countP_eq_length.mpr (by simpa using h)

/-- No entry is before the first node. -/
lemma before_eq_zero (h : ∀ e ∈ es, node ≤ e.key) : before es node = 0 :=
  countP_eq_zero.mpr (by simpa using h)

@[simp] lemma before_append (es fs : List KeyedEntry) (node : ℕ) :
    before (es ++ fs) node = before es node + before fs node := countP_append

@[simp] lemma nodeCount_ofSorted (first count : ℕ) (es : List KeyedEntry) :
    (ofSorted first count es).nodeCount = count := by
  simp [nodeCount, ofSorted]

@[simp] lemma edgeCount_ofSorted (first count : ℕ) (es : List KeyedEntry) :
    (ofSorted first count es).edgeCount = es.length := by
  simp [edgeCount, ofSorted]

section
variable (hs : es.Pairwise (·.key ≤ ·.key))
include hs

/-- The entries before a node are those with smaller keys. -/
lemma take_before (node : ℕ) : es.take (before es node) = es.filter (·.key < node) :=
  (PartitionedBy.of_sorted hs node).take_countP

/-- The row of a node lies between its offset and the next. -/
lemma filter_key_lt_succ (node : ℕ) :
    es.filter (·.key < node + 1) = es.filter (·.key < node) ++ es.filter (·.key = node) := by
  -- the rows before `node` also come first among those up to it
  have hpart := (PartitionedBy.of_sorted hs node).filter (·.key < node + 1)
  rw [← take_append_drop (countP _ _) (es.filter _), hpart.take_countP, hpart.drop_countP,
    filter_filter, filter_filter]
  congr 1
  all_goals
    apply filter_congr
    intro e _
    rw [Bool.eq_iff_iff]
    simp only [Bool.and_eq_true, Bool.not_eq_true', decide_eq_false_iff_not, decide_eq_true_eq]
    omega

/-- In a sorted sequence, the entries between two offsets are those of the row. -/
lemma drop_take_before (node : ℕ) :
    (es.take (before es (node + 1))).drop (before es node) = es.filter (·.key = node) := by
  rw [take_before hs, filter_key_lt_succ hs, before, countP_eq_length_filter, drop_left]

/-- The rows of the index of a sorted sequence are the rows of the sequence. -/
theorem iter_row_ofSorted (first : ℕ) {count i : ℕ} (hi : i < count) :
    ((ofSorted first count es).row i).iter = rowOf es (first + i) := by
  have hfirst : (ofSorted first count es).offsets.getD i 0 = before es (first + i) := by
    simp [ofSorted, List.getD, show i < count + 1 by omega]
  have hlast : (ofSorted first count es).offsets.getD (i + 1) 0 = before es (first + i + 1) := by
    simp [ofSorted, List.getD, show i + 1 < count + 1 by omega, Nat.add_assoc]
  have hle := before_le_length es (first + i + 1)
  have hmono := before_mono es (show first + i ≤ first + i + 1 by omega)
  have hedges : (ofSorted first count es).edgeIds = es.map (·.edge) := rfl
  have hneighbors : (ofSorted first count es).neighborIds = es.map (·.neighbor) := rfl
  unfold row
  rw [nodeCount_ofSorted, if_neg (by omega), hfirst, hlast, hedges, hneighbors]
  simp only [length_map]
  rw [Nat.min_eq_left hle, Nat.min_eq_left hle, Nat.min_eq_left hmono]
  simp only [CsrRow.iter, ← map_take, ← map_drop, drop_take_before hs]
  rw [zip_map', rowOf]
  rfl

end

/-- The index of a sequence whose keys lie in its rows passes its own check. -/
lemma validate_ofSorted {first count : ℕ} (h : ∀ e ∈ es, first ≤ e.key ∧ e.key < first + count) :
    (ofSorted first count es).validate = .ok () := by
  have hhead : (ofSorted first count es).offsets.head? = some 0 := by
    rw [ofSorted, head?_map, head?_range, if_neg (by omega)]
    simp [before_eq_zero fun e he => (h e he).1]
  have hchain : (ofSorted first count es).offsets.IsChain (· ≤ ·) := by
    apply Pairwise.isChain
    apply Pairwise.map _ _ pairwise_lt_range
    intro a b hab
    exact before_mono es (by omega)
  have hlast : (ofSorted first count es).offsets.getLastD 0 = es.length := by
    rw [ofSorted, range_succ, map_append]
    simp [before_eq_length fun e he => (h e he).2]
  unfold validate
  simp only [hhead, hchain, hlast, refuseIf]
  simp [edgeCount, ofSorted]
  rfl

end CsrIndex

/-! ## The reference build -/

/-- Append the row of `node`, which comes next among the entries left. -/
def takeRow (state : CsrIndex × List KeyedEntry) (node : ℕ) : CsrIndex × List KeyedEntry :=
  let row := state.2.takeWhile (·.key = node)
  let edgeIds := state.1.edgeIds ++ row.map (·.edge)
  let neighborIds := state.1.neighborIds ++ row.map (·.neighbor)
  (⟨state.1.offsets ++ [edgeIds.length], edgeIds, neighborIds⟩, state.2.dropWhile (·.key = node))

/-- `keyed.last().map_or(0, |&(key, _, _)| key + 1)`; `none` is the overflow of the sum
when the last key is `u64::MAX`. -/
def rowCount (keyed : List KeyedEntry) : Option ℕ :=
  match keyed.getLast? with
  | none => some 0
  | some e => checkedAdd e.key 1

/-- Build a dense index from edges for a direction; `none` when the row count overflows. -/
def csrFromEntries (entries : List BuildEntry) (direction : Direction) : Option CsrIndex := do
  let keyed := sortKeyed (entries.map (·.keyed direction))
  let nodeCount ← rowCount keyed
  return ((range nodeCount).foldl takeRow (.start, keyed)).1

lemma sortKeyed_sorted (es : List KeyedEntry) : (sortKeyed es).Pairwise (·.order ≤ ·.order) :=
  pairwise_insertionSort _ es

/-- Sorting keeps every entry. -/
lemma sortKeyed_perm (es : List KeyedEntry) : (sortKeyed es).Perm es :=
  perm_insertionSort _ es

/-- With unique edge ids the order of the input does not matter. -/
lemma sortKeyed_eq_of_perm {fs : List KeyedEntry} (hunique : (es.map (·.edge)).Nodup)
    (hperm : es.Perm fs) : sortKeyed es = sortKeyed fs := by
  apply insertionSort_key_eq_of_perm _ hperm
  have hsnd : (es.map KeyedEntry.order).map (fun o => (ofLex o).2) = es.map (·.edge) := by
    rw [map_map]
    rfl
  exact (hsnd ▸ hunique).of_map

lemma pairwise_key_of_order (h : es.Pairwise (·.order ≤ ·.order)) : es.Pairwise (·.key ≤ ·.key) :=
  h.imp KeyedEntry.key_le_of_order_le

open CsrIndex in
/-- The loop over the rows: after `n` of them, the index of the entries below `n`, and
the other entries left. -/
lemma foldl_takeRow (hs : es.Pairwise (·.key ≤ ·.key)) (n : ℕ) :
    (range n).foldl takeRow (.start, es) =
      (ofSorted 0 n (es.filter (·.key < n)), es.filter (fun e => !decide (e.key < n))) := by
  induction n with
  | zero => simp [ofSorted, start, before]
  | succ n ih =>
    rw [range_succ, foldl_append, ih, foldl_cons, foldl_nil]
    -- among the entries from `n` on, those of row `n` come first
    have hpart : (es.filter (fun e => !decide (e.key < n))).PartitionedBy
        (fun e => decide (e.key = n)) := by
      apply Pairwise.imp_of_mem _ (hs.filter _)
      intro a b ha _ hab hb
      have hn := (mem_filter.mp ha).2
      simp only [Bool.not_eq_true', decide_eq_false_iff_not, decide_eq_true_eq] at hn hb ⊢
      omega
    have hrow : (es.filter (fun e => !decide (e.key < n))).takeWhile (·.key = n) =
        es.filter (·.key = n) := by
      rw [hpart.takeWhile_eq, filter_filter]
      apply filter_congr
      intro e _
      rw [Bool.eq_iff_iff]
      simp only [Bool.and_eq_true, Bool.not_eq_true', decide_eq_false_iff_not, decide_eq_true_eq]
      omega
    have hrest : (es.filter (fun e => !decide (e.key < n))).dropWhile (·.key = n) =
        es.filter (fun e => !decide (e.key < n + 1)) := by
      rw [hpart.dropWhile_eq, filter_filter]
      apply filter_congr
      intro e _
      rw [Bool.eq_iff_iff]
      simp only [Bool.and_eq_true, Bool.not_eq_true', decide_eq_false_iff_not]
      omega
    have hall : es.filter (·.key < n + 1) = es.filter (·.key < n) ++ es.filter (·.key = n) :=
      filter_key_lt_succ hs n
    rw [takeRow, hrow, hrest, hall]
    refine Prod.ext ?_ rfl
    simp only [ofSorted, Nat.zero_add, map_append, CsrIndex.mk.injEq, and_true]
    rw [range_succ (n := n + 1), map_append, map_singleton]
    congr 1
    · apply map_congr_left
      intro i hi
      have hlate : before (es.filter (·.key = n)) i = 0 := by
        apply before_eq_zero
        intro e he
        have := (mem_filter.mp he).2
        have := mem_range.mp hi
        simp only [decide_eq_true_eq] at *
        omega
      rw [before_append, hlate, Nat.add_zero]
    · rw [← hall, before_eq_length fun e he => by simpa using (mem_filter.mp he).2, hall]
      simp

/-- The last sorted entry has the largest key. -/
lemma key_le_of_getLast? (hs : es.Pairwise (·.key ≤ ·.key)) {last : KeyedEntry}
    (hlast : es.getLast? = some last) : ∀ e ∈ es, e.key ≤ last.key := by
  obtain ⟨init, rfl⟩ := getLast?_eq_some_iff.mp hlast
  intro e he
  rcases mem_append.mp he with he | he
  · exact (pairwise_append.mp hs).2.2 e he last (by simp)
  · rw [mem_singleton.mp he]

/-- The reference build is the index of the sorted entries. -/
lemma csrFromEntries_eq_ofSorted {entries : List BuildEntry} {direction : Direction}
    {csr : CsrIndex} (h : csrFromEntries entries direction = some csr) :
    ∃ count, csr = .ofSorted 0 count (sortKeyed (entries.map (·.keyed direction))) ∧
      ∀ e ∈ sortKeyed (entries.map (·.keyed direction)), e.key < count ∧ e.key + 1 < 2 ^ 64 := by
  have hs := pairwise_key_of_order (sortKeyed_sorted (entries.map (·.keyed direction)))
  unfold csrFromEntries at h
  simp only [Option.bind_eq_bind, Option.bind_eq_some_iff, Option.pure_def, Option.some.injEq] at h
  obtain ⟨count, hcount, rfl⟩ := h
  have hkeys : ∀ e ∈ sortKeyed (entries.map (·.keyed direction)),
      e.key < count ∧ e.key + 1 < 2 ^ 64 := by
    intro e he
    unfold rowCount at hcount
    split at hcount
    next hnone => simp [getLast?_eq_none_iff.mp hnone] at he
    next last hlast =>
      have hle := key_le_of_getLast? hs hlast e he
      unfold checkedAdd at hcount
      split at hcount
      · cases hcount
        omega
      · cases hcount
  refine ⟨count, ?_, hkeys⟩
  rw [foldl_takeRow hs, filter_eq_self.mpr (by simpa using fun e he => (hkeys e he).1)]

/-- The `(edge, neighbor)` pairs of a node, sorted by edge. -/
def sortedRow (entries : List BuildEntry) (direction : Direction) (node : ℕ) : List (ℕ × ℕ) :=
  (rowOf (entries.map (·.keyed direction)) node).insertionSort (·.1 ≤ ·.1)

@[simp] lemma keyed_edge (direction : Direction) (e : BuildEntry) :
    (e.keyed direction).edge = e.edge := by
  cases direction <;> rfl

section
variable {entries : List BuildEntry} (hunique : (entries.map (·.edge)).Nodup)
  (direction : Direction) (node : ℕ)
include hunique

/-- No edge is twice in a row. -/
lemma nodup_edges_rowOf : ((rowOf (entries.map (·.keyed direction)) node).map Prod.fst).Nodup := by
  rw [rowOf, map_map]
  have hsub : ((entries.map (·.keyed direction)).filter (·.key = node)).map (·.edge) |>.Sublist
      (entries.map (·.edge)) := by
    have := (filter_sublist (l := entries.map (·.keyed direction))
      (p := (·.key = node))).map (·.edge)
    rwa [map_map, show (KeyedEntry.edge ∘ fun e => e.keyed direction) = BuildEntry.edge from
      funext (keyed_edge direction)] at this
  exact hunique.sublist hsub

/-- With unique edge ids, sorting all entries sorts every row by edge. -/
lemma rowOf_sortKeyed :
    rowOf (sortKeyed (entries.map (·.keyed direction))) node = sortedRow entries direction node := by
  have hperm : (rowOf (sortKeyed (entries.map (·.keyed direction))) node).Perm
      (sortedRow entries direction node) := by
    apply Perm.trans _ (perm_insertionSort _ _).symm
    exact ((sortKeyed_perm _).filter _).map _
  have hedges : ((sortedRow entries direction node).map Prod.fst).Nodup := by
    rw [sortedRow, ((perm_insertionSort _ _).map Prod.fst).nodup_iff]
    exact nodup_edges_rowOf hunique direction node
  apply @Perm.eq_of_pairwise _ (fun a b : ℕ × ℕ => a.1 ≤ b.1) _ _ _ _ _ hperm
  · -- two pairs of one row with the same edge are the same pair
    intro a b ha hb hab hba
    exact inj_on_of_nodup_map hedges (hperm.mem_iff.mp ha) hb (Nat.le_antisymm hab hba)
  · apply pairwise_map.mpr
    apply Pairwise.imp_of_mem _ ((sortKeyed_sorted _).filter _)
    intro a b ha hb hab
    have hkey : a.key = b.key := by
      have := (mem_filter.mp ha).2
      have := (mem_filter.mp hb).2
      simp only [decide_eq_true_eq] at *
      omega
    rcases Prod.Lex.toLex_le_toLex.mp hab with h | h
    · exact absurd hkey (Nat.ne_of_lt h)
    · exact h.2
  · exact pairwise_insertionSort _ _

end

/-- The rows of the reference build are the nodes' pairs sorted by edge. -/
theorem iter_row_csrFromEntries {entries : List BuildEntry} {direction : Direction}
    (hunique : (entries.map (·.edge)).Nodup) {csr : CsrIndex}
    (h : csrFromEntries entries direction = some csr) (node : ℕ) :
    (csr.row node).iter = sortedRow entries direction node := by
  obtain ⟨count, rfl, hkeys⟩ := csrFromEntries_eq_ofSorted h
  have hs := pairwise_key_of_order (sortKeyed_sorted (entries.map (·.keyed direction)))
  rw [← rowOf_sortKeyed hunique]
  by_cases hnode : node < count
  · simpa using CsrIndex.iter_row_ofSorted hs 0 hnode
  -- no entry has a key from `count` on
  have hnil : rowOf (sortKeyed (entries.map (·.keyed direction))) node = [] := by
    apply rowOf_eq_nil
    intro e he
    have := (hkeys e he).1
    omega
  rw [hnil, CsrIndex.row, CsrIndex.nodeCount_ofSorted, if_pos (by omega)]
  rfl

end GraphForge.Adjacency
