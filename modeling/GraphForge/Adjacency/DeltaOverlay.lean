import GraphForge.Adjacency.Csr
import GraphForge.Lib.Maps

/-!
# Delta segments over an index

A commit that only appends edges writes them as a delta segment. A base index and a chain of
segments are served in two ways: `applyDeltaSegments` takes the base apart into edges, adds
those of the chain and builds the index again; `overlayDeltaSegments` keeps the base and
replaces the rows that the chain touches. Both give the rows of the index built from all
edges (`overlay_eq_rebuild`).
-/

namespace GraphForge.Adjacency

open List

/-! ## Segments -/

/-- One created edge in a delta segment. -/
structure DeltaEdge where
  relTypeName : String
  edgeId : ℕ
  srcId : ℕ
  dstId : ℕ
  deriving DecidableEq, Repr

/-- The edges created by the commit of a generation. -/
structure DeltaSegment where
  generation : ℕ
  edges : List DeltaEdge
  deriving DecidableEq, Repr

/-- The reserved stem of the union index. -/
def allRelationsStem : String := "_all"

/-- A single plain path component, and not the reserved stem. -/
def usableStem (rel : String) : Bool :=
  if rel = allRelationsStem then false
  else decide (rel ≠ "" ∧ rel ≠ "." ∧ rel ≠ ".." ∧ '/' ∉ rel.toList)

variable (stem : String)

/-- `take_all || (e.rel_type_name == stem && usable_stem(&e.rel_type_name))`. -/
def DeltaEdge.selectedBy (e : DeltaEdge) : Bool :=
  stem = allRelationsStem || (e.relTypeName = stem && usableStem e.relTypeName)

/-- `(src_id, edge_id, dst_id)`. -/
def DeltaEdge.entry (e : DeltaEdge) : BuildEntry := ⟨e.srcId, e.edgeId, e.dstId⟩

/-- All edges of a chain. -/
def chainEdges (chain : List DeltaSegment) : List DeltaEdge := chain.flatMap (·.edges)

/-- The entries that a chain adds for a stem. -/
def selectedEntries (chain : List DeltaSegment) : List BuildEntry :=
  ((chainEdges chain).filter (·.selectedBy stem)).map (·.entry)

/-! ## Rebuilding -/

/-- Out: `(key, edge, neighbor)`; In: `(neighbor, edge, key)`. -/
def KeyedEntry.unkeyed : Direction → KeyedEntry → BuildEntry
  | .outgoing, e => ⟨e.key, e.edge, e.neighbor⟩
  | .incoming, e => ⟨e.neighbor, e.edge, e.key⟩

/-- The entry at a position of the row `key`; `none` is an index out of bounds. -/
def baseEntry (base : CsrIndex) (direction : Direction) (key j : ℕ) : Option BuildEntry := do
  let edge ← base.edgeIds[j]?
  let neighbor ← base.neighborIds[j]?
  return KeyedEntry.unkeyed direction ⟨key, edge, neighbor⟩

/-- The entries of the row `key`. -/
def baseRowEntries (base : CsrIndex) (direction : Direction) (key : ℕ) :
    Option (List BuildEntry) := do
  let lo ← base.offsets[key]?
  let hi ← base.offsets[key + 1]?
  (range' lo (hi - lo)).mapM (baseEntry base direction key)

/-- The entries an index for `direction` was built from. -/
def baseEntries (base : CsrIndex) (direction : Direction) : Option (List BuildEntry) := do
  let rows ← (range base.nodeCount).mapM (baseRowEntries base direction)
  return rows.flatten

/-- Merge a chain onto a base by building the index again. -/
def applyDeltaSegments (base : CsrIndex) (stem : String) (direction : Direction)
    (chain : List DeltaSegment) : Option CsrIndex := do
  let entries ← baseEntries base direction
  csrFromEntries (entries ++ selectedEntries stem chain) direction

/-! ## Overlaying -/

variable (direction : Direction)

/-- Take one edge of the chain into the delta entries by key. -/
def addDelta (deltaByKey : Map ℕ (List (ℕ × ℕ))) (e : DeltaEdge) : Map ℕ (List (ℕ × ℕ)) :=
  if e.selectedBy stem then
    let keyed := e.entry.keyed direction
    deltaByKey.insert keyed.key ((deltaByKey.lookup keyed.key).getD [] ++ [keyed.pair])
  else deltaByKey

/-- The base and the complete rows that replace some of its rows. -/
structure CsrDeltaOverlay where
  base : CsrIndex
  replaced : Map ℕ (List (ℕ × ℕ))

/-- A row resolved through an overlay. -/
inductive OverlayRow where
  | base (row : CsrRow)
  | replaced (entries : List (ℕ × ℕ))

namespace OverlayRow

/-- The neighbours in a row. -/
def len : OverlayRow → ℕ
  | base row => row.len
  | replaced entries => entries.length

/-- Entry at `index`, if in range. -/
def get (row : OverlayRow) (index : ℕ) : Option (ℕ × ℕ) :=
  match row with
  | base row => row.get index
  | replaced entries => entries[index]?

end OverlayRow

/-- The replacement when present, else the row of the base. -/
def CsrDeltaOverlay.row (overlay : CsrDeltaOverlay) (nodeId : ℕ) : OverlayRow :=
  match overlay.replaced.lookup nodeId with
  | some entries => .replaced entries
  | none => .base (overlay.base.row nodeId)

/-- The row that replaces the row of `key`. -/
def replacementRow (base : CsrIndex) (key : ℕ) (deltaEntries : List (ℕ × ℕ)) : List (ℕ × ℕ) :=
  ((if key < base.nodeCount then (base.row key).iter else []) ++ deltaEntries).insertionSort
    (·.1 ≤ ·.1)

/-- Overlay a chain on a base. -/
def overlayDeltaSegments (base : CsrIndex) (stem : String) (direction : Direction)
    (chain : List DeltaSegment) : CsrDeltaOverlay :=
  let deltaByKey := (chainEdges chain).foldl (addDelta stem direction) ∅
  { base := base
    replaced := Map.mapValues (replacementRow base) deltaByKey }

/-! ## The base, taken apart -/

@[simp] lemma keyed_unkeyed (e : KeyedEntry) : (e.unkeyed direction).keyed direction = e := by
  cases direction <;> rfl

/-- The row of a key, read off the index of a sorted sequence. -/
lemma baseRowEntries_ofSorted {es : List KeyedEntry} (hs : es.Pairwise (·.key ≤ ·.key))
    {count key : ℕ} (hkey : key < count) (direction : Direction) :
    baseRowEntries (.ofSorted 0 count es) direction key =
      some ((es.filter (·.key = key)).map (·.unkeyed direction)) := by
  have hoffset {i : ℕ} (hi : i < count + 1) :
      (CsrIndex.ofSorted 0 count es).offsets[i]? = some (CsrIndex.before es i) := by
    simp [CsrIndex.ofSorted, hi]
  have hle := CsrIndex.before_le_length es (key + 1)
  have hrow := CsrIndex.drop_take_before hs key
  rw [baseRowEntries, hoffset (by omega), hoffset (by omega)]
  show (range' _ _).mapM _ = _
  rw [mapM_eq_some_iff, forall₂_iff_get]
  generalize CsrIndex.before es key = lo at *
  have hlength : (es.filter (·.key = key)).length = CsrIndex.before es (key + 1) - lo := by
    rw [← hrow, length_drop, length_take]
    omega
  refine ⟨by rw [length_range', length_map, hlength], ?_⟩
  intro i hi _
  rw [length_range'] at hi
  -- the entry at that position is the entry of the row
  obtain ⟨e, he⟩ : ∃ e, es[lo + i]? = some e := ⟨_, List.getElem?_eq_getElem (by omega)⟩
  have hentry : (es.filter (·.key = key))[i]? = some e := by
    rw [← hrow, getElem?_drop, getElem?_take_of_lt (by omega), he]
  obtain ⟨_, rfl⟩ : e ∈ es ∧ e.key = key := by simpa using mem_of_getElem? hentry
  have hget := (List.getElem?_eq_some_iff.mp hentry).2
  simp only [get_eq_getElem, getElem_range', Nat.one_mul, getElem_map, hget]
  simp [baseEntry, CsrIndex.ofSorted, he]

/-- The rows of a sorted sequence, one after the other, are the sequence. -/
lemma flatten_rows {es : List KeyedEntry} (hs : es.Pairwise (·.key ≤ ·.key)) (count : ℕ) :
    ((range count).map fun key => es.filter (·.key = key)).flatten = es.filter (·.key < count) := by
  induction count with
  | zero => simp
  | succ count ih =>
    rw [range_succ, map_append, flatten_append, ih, CsrIndex.filter_key_lt_succ hs count]
    simp

/-- Taking the base apart gives back the entries it was built from, sorted. -/
lemma baseEntries_csrFromEntries {entries : List BuildEntry} {direction : Direction}
    {base : CsrIndex} (h : csrFromEntries entries direction = some base) :
    baseEntries base direction =
      some ((sortKeyed (entries.map (·.keyed direction))).map (·.unkeyed direction)) := by
  obtain ⟨count, rfl, hkeys⟩ := csrFromEntries_eq_ofSorted h
  have hs := pairwise_key_of_order (sortKeyed_sorted (entries.map (·.keyed direction)))
  generalize sortKeyed (entries.map (·.keyed direction)) = es at hs hkeys
  have hrows : (range count).mapM (baseRowEntries (.ofSorted 0 count es) direction) =
      some ((range count).map fun key =>
        (es.filter (·.key = key)).map (·.unkeyed direction)) := by
    rw [mapM_eq_some_iff, forall₂_map_right_iff, forall₂_same]
    intro key hkey
    exact baseRowEntries_ofSorted hs (mem_range.mp hkey) direction
  have hall : es.filter (·.key < count) = es :=
    filter_eq_self.mpr (by simpa using fun e he => (hkeys e he).1)
  have hflat := congrArg (List.map (·.unkeyed direction)) ((flatten_rows hs count).trans hall)
  rw [map_flatten, map_map] at hflat
  rw [baseEntries, CsrIndex.nodeCount_ofSorted, hrows]
  exact congrArg some hflat

/-! ## The rows of the overlay -/

/-- The chain's entries by key are the rows of the chain. -/
lemma lookup_deltaByKey (edges : List DeltaEdge) (key : ℕ) :
    let row := rowOf (((edges.filter (·.selectedBy stem)).map (·.entry)).map (·.keyed direction)) key
    (edges.foldl (addDelta stem direction) ∅).lookup key =
      if row = [] then none else some row := by
  induction edges using reverseRecOn with
  | nil => rfl
  | append_singleton edges e ih =>
    simp only [foldl_append, foldl_cons, foldl_nil, filter_append, map_append, rowOf_append] at ih ⊢
    rw [addDelta]
    by_cases hselected : e.selectedBy stem
    · have hfilter : [e].filter (·.selectedBy stem) = [e] := by simp [hselected]
      rw [if_pos hselected, hfilter]
      simp only [map_cons, map_nil, Map.lookup_insert_ite]
      by_cases hkey : key = (e.entry.keyed direction).key
      · have hsingle : rowOf [e.entry.keyed direction] key = [(e.entry.keyed direction).pair] := by
          simp [rowOf, hkey]
        rw [if_pos hkey, hsingle, if_neg (by simp), ← hkey, ih]
        split
        next hnil => rw [hnil]; rfl
        next => rfl
      have hsingle : rowOf [e.entry.keyed direction] key = [] := by
        apply rowOf_eq_nil
        intro x hx
        rw [mem_singleton.mp hx]
        exact Ne.symm hkey
      rw [if_neg hkey, hsingle, append_nil]
      exact ih
    · have hfilter : [e].filter (·.selectedBy stem) = [] := by simp [hselected]
      rw [if_neg hselected, hfilter]
      have hnil : rowOf [] key = [] := rfl
      simp only [map_nil, hnil, append_nil]
      exact ih

/-- What a row of the overlay shows. -/
def OverlayRow.iter : OverlayRow → List (ℕ × ℕ)
  | base row => row.iter
  | replaced entries => entries

lemma OverlayRow.length_iter (row : OverlayRow) : row.iter.length = row.len := by
  cases row with
  | base row => exact CsrRow.length_iter row
  | replaced entries => rfl

lemma OverlayRow.getElem?_iter (row : OverlayRow) (index : ℕ) : row.iter[index]? = row.get index := by
  cases row with
  | base row => exact (CsrRow.get_eq_getElem?_iter row index).symm
  | replaced entries => rfl

section
variable {edges : List BuildEntry} {direction : Direction} {base : CsrIndex}
  (hbase : csrFromEntries edges direction = some base) (stem : String) (chain : List DeltaSegment)
  (hunique : ((edges ++ selectedEntries stem chain).map (·.edge)).Nodup)
include hbase hunique

/-- Merging a chain builds the index of all edges. -/
lemma applyDeltaSegments_eq : applyDeltaSegments base stem direction chain =
      csrFromEntries (edges ++ selectedEntries stem chain) direction := by
  rw [applyDeltaSegments, baseEntries_csrFromEntries hbase]
  show csrFromEntries _ _ = _
  have hsort : sortKeyed ((edges ++ selectedEntries stem chain).map (·.keyed direction)) =
      sortKeyed (((sortKeyed (edges.map (·.keyed direction))).map (·.unkeyed direction) ++
        selectedEntries stem chain).map (·.keyed direction)) := by
    apply sortKeyed_eq_of_perm
    · rw [map_map, show (KeyedEntry.edge ∘ BuildEntry.keyed direction) = BuildEntry.edge from
        funext (keyed_edge direction)]
      exact hunique
    · rw [map_append, map_append, map_map,
        show (BuildEntry.keyed direction ∘ KeyedEntry.unkeyed direction) = id from
          funext (keyed_unkeyed direction), map_id]
      exact (sortKeyed_perm _).symm.append_right _
  unfold csrFromEntries
  rw [hsort]

/-- The rows of the overlay are the rows of all edges, sorted by edge. -/
lemma iter_row_overlayDeltaSegments (node : ℕ) :
    ((overlayDeltaSegments base stem direction chain).row node).iter =
      sortedRow (edges ++ selectedEntries stem chain) direction node := by
  have hedges : (edges.map (·.edge)).Nodup := by
    rw [map_append] at hunique
    exact hunique.of_append_left
  have hrow := iter_row_csrFromEntries hedges hbase node
  have hdelta : (overlayDeltaSegments base stem direction chain).replaced.lookup node =
      if rowOf ((selectedEntries stem chain).map (·.keyed direction)) node = [] then none
      else some (replacementRow base node
        (rowOf ((selectedEntries stem chain).map (·.keyed direction)) node)) := by
    rw [overlayDeltaSegments]
    simp only [Map.lookup_mapValues, lookup_deltaByKey]
    unfold selectedEntries
    split <;> rfl
  rw [CsrDeltaOverlay.row, hdelta]
  by_cases hnil : rowOf ((selectedEntries stem chain).map (·.keyed direction)) node = []
  · -- an untouched row is served from the base
    rw [if_pos hnil]
    show (base.row node).iter = _
    rw [hrow, sortedRow, sortedRow, map_append, rowOf_append, hnil, append_nil]
  rw [if_neg hnil]
  show replacementRow _ _ _ = _
  -- beyond the base's rows its row is empty
  have hbaserow : (if node < base.nodeCount then (base.row node).iter else []) =
      sortedRow edges direction node := by
    split
    next => exact hrow
    next hnode =>
      rw [← hrow, CsrIndex.row, if_pos (by omega)]
      rfl
  rw [replacementRow, hbaserow]
  have hkeys := nodup_edges_rowOf hunique direction node
  unfold sortedRow
  rw [map_append, rowOf_append] at hkeys ⊢
  apply (insertionSort_key_eq_of_perm hkeys _).symm
  exact (perm_insertionSort _ _).symm.append_right _

end

/-- Serving a chain over a base: taking the base apart and building again gives the index of
the base's edges and the chain's edges that the stem selects, and the overlay has its rows,
for every stem, direction and node. -/
theorem overlay_eq_rebuild (edges : List BuildEntry) (chain : List DeltaSegment)
    (hunique : ((edges ++ (chainEdges chain).map (·.entry)).map (·.edge)).Nodup)
    (stem : String) (direction : Direction) (base : CsrIndex)
    (hbase : csrFromEntries edges direction = some base) :
    applyDeltaSegments base stem direction chain =
        csrFromEntries (edges ++ selectedEntries stem chain) direction ∧
      ∀ rebuilt, csrFromEntries (edges ++ selectedEntries stem chain) direction = some rebuilt →
        ∀ node, ((overlayDeltaSegments base stem direction chain).row node).len =
            (rebuilt.row node).len ∧
          ∀ index, ((overlayDeltaSegments base stem direction chain).row node).get index =
            (rebuilt.row node).get index := by
  -- the stem selects some of the edges, so their ids are unique too
  have hselected : ((edges ++ selectedEntries stem chain).map (·.edge)).Nodup := by
    refine Nodup.sublist ?_ hunique
    rw [map_append, map_append]
    apply (Sublist.refl _).append
    exact (filter_sublist.map _).map _
  refine ⟨applyDeltaSegments_eq hbase stem chain hselected, ?_⟩
  intro rebuilt hrebuilt node
  have hrow : ((overlayDeltaSegments base stem direction chain).row node).iter =
      (rebuilt.row node).iter := by
    rw [iter_row_overlayDeltaSegments hbase stem chain hselected node,
      iter_row_csrFromEntries hselected hrebuilt node]
  refine ⟨?_, ?_⟩
  · rw [← OverlayRow.length_iter, ← CsrRow.length_iter, hrow]
  · intro index
    rw [← OverlayRow.getElem?_iter, CsrRow.get_eq_getElem?_iter, hrow]

/-- A chain that touches a row of the base, adds a row beyond it, and holds an edge of a name
that no stem selects. -/
theorem overlay_eq_rebuild_sample :
    let edges : List BuildEntry := [⟨0, 1, 1⟩, ⟨0, 2, 1⟩, ⟨1, 3, 2⟩, ⟨2, 5, 2⟩]
    let chain : List DeltaSegment :=
      [⟨8, [⟨"KNOWS", 6, 1, 3⟩, ⟨"KNOWS", 7, 3, 0⟩]⟩, ⟨9, [⟨"OWNS", 8, 0, 2⟩, ⟨"../evil", 9, 3, 1⟩]⟩]
    ∃ base rebuilt, csrFromEntries edges .outgoing = some base ∧
      applyDeltaSegments base "KNOWS" .outgoing chain = some rebuilt ∧
      ∀ node index, ((overlayDeltaSegments base "KNOWS" .outgoing chain).row node).get index =
        (rebuilt.row node).get index := by
  intro edges chain
  obtain ⟨base, hbase⟩ : ∃ base, csrFromEntries edges .outgoing = some base := ⟨_, rfl⟩
  obtain ⟨rebuilt, hrebuilt⟩ :
      ∃ rebuilt, csrFromEntries (edges ++ selectedEntries "KNOWS" chain) .outgoing =
        some rebuilt := by
    apply Option.isSome_iff_exists.mp
    decide +kernel
  obtain ⟨happly, hrows⟩ := overlay_eq_rebuild edges chain (by decide) "KNOWS" .outgoing base hbase
  exact ⟨base, rebuilt, hbase, happly.trans hrebuilt,
    fun node index => (hrows rebuilt hrebuilt node).2 index⟩

end GraphForge.Adjacency
