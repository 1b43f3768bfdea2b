import GraphForge.FastPath.Matches
import GraphForge.Lib.Multiplicity

/-!
# What the fast operators return

Over a session that serves a graph in UUID order, each fast operator returns the answer of its
kind.
-/

namespace GraphForge.FastPath

open List Binder Except

/-! ## Reading a row in chunks -/

section Rows

variable {σ : Type} {reader : AdjacencyReader} {node : ℕ}
  {visit : ℕ × ℕ → σ → Except GfError (ForInStep σ)}

/-- Going on after a loop that was not left. -/
def thenVisit (visit : ℕ × ℕ → σ → Except GfError (ForInStep σ)) (rest : List (ℕ × ℕ)) :
    ForInStep σ → Except GfError (ForInStep σ)
  | .done s => .ok (.done s)
  | .yield s => visitEntries visit rest s

/-- Entries one after the other. -/
lemma visitEntries_append (xs ys : List (ℕ × ℕ)) (s : σ) :
    visitEntries visit (xs ++ ys) s = visitEntries visit xs s >>= thenVisit visit ys := by
  induction xs generalizing s with
  | nil => rfl
  | cons x xs ih =>
    rw [cons_append, visitEntries, visitEntries]
    cases hx : visit x s with
    | error e => rfl
    | ok step =>
      cases step with
      | done s => rfl
      | yield s => exact ih s

/-- Each round of a row moves on. -/
lemma guarded_rowRound : MeasuredFix.Guarded
    (fun at_ : ℕ × σ => reader.rowLimit node - at_.1) (rowRound reader node visit) := by
  intro f g at_ hfg
  unfold rowRound
  cases hchunk : reader.neighborChunk node at_.1 chunkLimit with
  | error e => rfl
  | ok chunk =>
    rw [ok_bind, ok_bind]
    by_cases hnil : chunk = []
    · rw [if_pos hnil, if_pos hnil]
    rw [if_neg hnil, if_neg hnil]
    have hlt := reader.skip_lt node at_.1 chunkLimit chunk hchunk hnil
    have hpos := length_pos_iff.mpr hnil
    cases visitEntries visit chunk at_.2 with
    | error e => rfl
    | ok step =>
      cases step with
      | done s => rfl
      | yield s =>
        apply hfg
        show reader.rowLimit node - (at_.1 + chunk.length) < reader.rowLimit node - at_.1
        omega

/-- Chunks that partition a row give a loop over the row. -/
lemma eachNeighbor_eq {row : List (ℕ × ℕ)}
    (hrow : ∀ skip limit, 0 < limit → ∃ chunk, reader.neighborChunk node skip limit = .ok chunk ∧
      chunk <+: row.drop skip ∧ (skip < row.length → chunk ≠ [])) (s : σ) :
    eachNeighbor reader node visit s = visitEntries visit row s := by
  have hfrom : ∀ n skip s, row.length - skip = n →
      MeasuredFix.fix (fun at_ : ℕ × σ => reader.rowLimit node - at_.1)
        (rowRound reader node visit) (skip, s) = visitEntries visit (row.drop skip) s := by
    intro n
    induction n using Nat.strongRecOn with
    | ind n ih =>
      intro skip s hn
      obtain ⟨chunk, hchunk, hprefix, hnonempty⟩ := hrow skip chunkLimit (by decide)
      rw [MeasuredFix.fix_eq _ guarded_rowRound, rowRound, hchunk, ok_bind]
      by_cases hnil : chunk = []
      · -- an empty chunk is read at the end of the row only
        have hend : row.length ≤ skip := by
          by_contra hlt
          exact hnonempty (by omega) hnil
        rw [if_pos hnil, drop_eq_nil_of_le hend]
        rfl
      rw [if_neg hnil]
      obtain ⟨rest, hrest⟩ := hprefix
      have hdrop : row.drop (skip + chunk.length) = rest := by
        rw [← drop_drop, ← hrest, drop_left]
      have hlen := congrArg List.length hrest
      have hpos := length_pos_iff.mpr hnil
      rw [length_append, length_drop] at hlen
      rw [← hrest, visitEntries_append]
      congr 1
      funext step
      cases step with
      | done s => rfl
      | yield s =>
        show MeasuredFix.fix _ _ (skip + chunk.length, s) = visitEntries visit rest s
        rw [ih (row.length - (skip + chunk.length)) (by omega) _ s rfl, hdrop]
  exact hfrom row.length 0 s rfl

end Rows

/-! ## Counting up to a limit -/

/-- A count that has not reached the limit goes on. -/
def tally (remaining count : ℕ) : ForInStep ℕ :=
  if count < remaining then .yield count else .done remaining

/-- A visitor that adds the weight of each entry to a count below the limit. -/
def Counts (remaining : ℕ) (visit : ℕ × ℕ → ℕ → Except GfError (ForInStep ℕ))
    (weight : ℕ × ℕ → ℕ) : Prop :=
  ∀ entry count, count < remaining → visit entry count = .ok (tally remaining (count + weight entry))

/-- A visitor that counts stops at the bound, or counts the row. -/
lemma visitEntries_counts {remaining : ℕ} {visit : ℕ × ℕ → ℕ → Except GfError (ForInStep ℕ)}
    {weight : ℕ × ℕ → ℕ} (h : Counts remaining visit weight) (row : List (ℕ × ℕ)) {count : ℕ}
    (hcount : count < remaining) :
    visitEntries visit row count = .ok (tally remaining (count + (row.map weight).sum)) := by
  induction row generalizing count with
  | nil =>
    rw [map_nil, sum_nil, Nat.add_zero, tally, if_pos hcount]
    rfl
  | cons entry row ih =>
    rw [visitEntries, h entry count hcount, ok_bind, map_cons, sum_cons, tally]
    by_cases hlt : count + weight entry < remaining
    · rw [if_pos hlt, ← Nat.add_assoc]
      exact ih hlt
    · rw [if_neg hlt, tally, if_neg (by omega)]
      rfl

/-- Whether a first relationship may stand before the second one. -/
def pathWeight (disjoint : Bool) (second : ℕ) (entry : ℕ × ℕ) : ℕ :=
  if disjoint = false ∨ entry.1 ≠ second then 1 else 0

/-- Counting paths counts every pair of edges, but a pair of one edge only if it may repeat. -/
lemma counts_countPath {disjoint : Bool} {remaining second : ℕ} (hremaining : remaining < 2 ^ 64) :
    Counts remaining (countPath disjoint remaining second) (pathWeight disjoint second) := by
  intro entry count hcount
  unfold countPath pathWeight
  by_cases hpath : disjoint = false ∨ entry.1 ≠ second
  · -- the count is below a `usize`, so it does not saturate
    have hadd : saturatingAdd count 1 = count + 1 := by
      unfold saturatingAdd
      omega
    rw [if_pos hpath, if_pos hpath]
    simp only [hadd]
    unfold tally
    by_cases hlt : count + 1 < remaining
    · rw [if_pos hlt, if_neg (by omega)]
      rfl
    · rw [if_neg hlt, if_pos (by omega), show count + 1 = remaining by omega]
      rfl
  · rw [if_neg hpath, if_neg hpath, tally, if_pos (show count + 0 < remaining by omega)]
    rfl

section Session

variable {G : Multigraph} {name : String} {inbound : AdjacencyReader}
  {identities : OrdinalIdentities} {schemaName : Option String}

/-- The paths that end in a node, counted over its incoming relationships. -/
def pathsInto (G : Multigraph) (name : String) (disjoint : Bool) (node : ℕ) : ℕ :=
  ((G.incoming name node).map fun second => (G.incoming name second.src).countP
    fun first => disjoint = false ∨ first.id ≠ second.id).sum

/-- The paths into a node are counted up to the bound. -/
lemma countTwoHopPathsTo_eq (h : inbound.ServesInbound G name) {disjoint : Bool} {remaining : ℕ}
    (hpos : 0 < remaining) (hremaining : remaining < 2 ^ 64) (destination : ℕ) :
    countTwoHopPathsTo inbound destination disjoint remaining =
      .ok (min (pathsInto G name disjoint destination) remaining) := by
  choose row hperm hdegree hchunks using h.row
  -- the weight of an outer entry is the number of first relationships before it
  let weight : ℕ × ℕ → ℕ := fun second =>
    ((row second.2).map (pathWeight disjoint second.1)).sum
  have hcounts : Counts remaining (fun second count =>
      eachNeighbor inbound second.2 (countPath disjoint remaining second.1) count) weight := by
    intro second count hcount
    show eachNeighbor inbound second.2 _ count = _
    rw [eachNeighbor_eq (hchunks second.2)]
    exact visitEntries_counts (counts_countPath hremaining) (row second.2) hcount
  have hweight : ∀ e : Edge, weight (e.id, e.src) = (G.incoming name e.src).countP
      fun first => disjoint = false ∨ first.id ≠ e.id := by
    intro e
    show ((row e.src).map (pathWeight disjoint e.id)).sum = _
    rw [((hperm e.src).map _).sum_eq, map_map]
    exact sum_map_ite_one _ _
  have htotal : ((row destination).map weight).sum = pathsInto G name disjoint destination := by
    rw [((hperm destination).map weight).sum_eq, map_map]
    unfold pathsInto
    congr 1
    apply map_congr_left
    intro e _
    exact hweight e
  unfold countTwoHopPathsTo
  rw [eachNeighbor_eq (hchunks destination), visitEntries_counts hcounts _ hpos, htotal,
    ok_bind, Nat.zero_add, tally]
  by_cases hlt : pathsInto G name disjoint destination < remaining
  · rw [if_pos hlt, min_eq_left (by omega)]
    rfl
  · rw [if_neg hlt, min_eq_right (by omega)]
    rfl

/-- Counting backwards from the destination counts the paths that end there. -/
lemma pathsInto_eq (G : Multigraph) (name : String) (disjoint : Bool) (node : ℕ) :
    pathsInto G name disjoint node = (G.paths name disjoint).countP (·.2.dst = node) := by
  -- both count the pairs of relationships that make a path into the node
  let joined : Edge → Edge → Bool := fun first second =>
    decide (second.dst = node) && (decide (first.dst = second.src) &&
      decide (disjoint = false ∨ first.id ≠ second.id))
  have hback : pathsInto G name disjoint node =
      ((G.matching name).map fun second => (G.matching name).countP (joined · second)).sum := by
    unfold pathsInto
    apply sum_map_filter_eq
    · intro second hdst
      rw [Multigraph.incoming, countP_filter]
      apply countP_congr
      intro first _
      simp [joined, of_decide_eq_true hdst, and_comm]
    · intro second hdst
      rw [countP_eq_zero]
      intro first _
      simp [joined, of_decide_eq_false (Bool.eq_false_iff.mpr hdst)]
  have hforward : (G.paths name disjoint).countP (·.2.dst = node) =
      ((G.matching name).map fun first => (G.matching name).countP (joined first)).sum := by
    unfold Multigraph.paths Multigraph.outgoing
    rw [countP_flatMap]
    congr 1
    apply map_congr_left
    intro first _
    show List.countP _ (List.map _ _) = _
    rw [countP_map, countP_filter, countP_filter]
    apply countP_congr
    intro second _
    simp [joined]
    tauto
  rw [hback, hforward, sum_map_countP_comm]

/-! ## The ordered destinations -/

lemma mem_nodes_of_incoming {n : ℕ} (h : G.incoming name n ≠ []) : n ∈ G.nodes := by
  obtain ⟨e, he⟩ := exists_mem_of_ne_nil _ h
  rw [Multigraph.incoming, mem_filter, decide_eq_true_eq] at he
  rw [← he.2]
  exact G.dst_mem e (Multigraph.mem_edges_of_matching he.1)

/-- Only nodes have paths into them. -/
lemma mem_nodes_of_pathsInto {disjoint : Bool} {n : ℕ} (h : pathsInto G name disjoint n ≠ 0) :
    n ∈ G.nodes := by
  apply mem_nodes_of_incoming
  intro hnil
  rw [pathsInto, hnil] at h
  exact h rfl

/-- The identities of the ends of paths, in order, up to the bound. -/
lemma twoHopUuids_eq (h : inbound.ServesInbound G name) (hid : identities.Serves G)
    (disjoint : Bool) (keys : List ℕ) {remaining : ℕ} (hremaining : remaining < 2 ^ 64) :
    twoHopUuids inbound identities disjoint keys remaining =
      .ok ((runs keys (pathsInto G name disjoint) G.uuid).take remaining) := by
  induction keys generalizing remaining with
  | nil => rw [runs_nil, take_nil]; rfl
  | cons destination keys ih =>
    rw [twoHopUuids]
    by_cases hzero : remaining = 0
    · rw [if_pos hzero, hzero, take_zero]
      rfl
    rw [if_neg hzero, countTwoHopPathsTo_eq h (by omega) hremaining, Except.mapError,
      ok_bind, take_runs_cons]
    by_cases hpaths : pathsInto G name disjoint destination = 0
    · rw [if_pos (by omega), hpaths, Nat.zero_min, Nat.sub_zero, ih hremaining]
      rfl
    have hlookup := hid.lookup [destination] hid.maxRequestedIds_pos
      (by simpa using mem_nodes_of_pathsInto hpaths)
    rw [if_neg (by omega), hlookup]
    show (twoHopUuids _ _ _ keys _ >>= _) = _
    rw [show min (min (pathsInto G name disjoint destination) remaining) remaining =
      min (pathsInto G name disjoint destination) remaining by omega,
      ih (by omega)]
    rfl

/-- The copies that a list of destinations stands for. -/
def expandCopies (G : Multigraph) (destinations : List (ℕ × ℕ)) : List Uuid :=
  destinations.flatMap fun pair => replicate pair.2 (G.uuid pair.1)

/-- The ends of edges, in order and with their multiplicity, up to the bound. -/
lemma oneHopDestinations_spec (h : inbound.ServesInbound G name) (keys : List ℕ) (remaining : ℕ) :
    ∃ destinations, oneHopDestinations inbound keys remaining = .ok destinations ∧
      (∀ pair ∈ destinations, pair.1 ∈ G.nodes) ∧
      expandCopies G destinations =
        (runs keys (fun n => (G.incoming name n).length) G.uuid).take remaining := by
  induction keys generalizing remaining with
  | nil => exact ⟨[], rfl, nofun, by rw [runs_nil, take_nil]; rfl⟩
  | cons destination keys ih =>
    rw [oneHopDestinations]
    by_cases hzero : remaining = 0
    · rw [if_pos hzero, hzero, take_zero]
      exact ⟨[], rfl, nofun, rfl⟩
    obtain ⟨row, hperm, hdegree, _⟩ := h.row destination
    rw [if_neg hzero, hdegree, Except.mapError, ok_bind, hperm.length_eq, length_map,
      take_runs_cons]
    by_cases hnone : (G.incoming name destination).length = 0
    · rw [if_pos hnone, hnone, Nat.zero_min, Nat.sub_zero]
      exact ih remaining
    rw [if_neg hnone]
    obtain ⟨others, hothers, hnodes, hcopies⟩ :=
      ih (remaining - min (G.incoming name destination).length remaining)
    have hmem : destination ∈ G.nodes :=
      mem_nodes_of_incoming fun hnil => hnone (by rw [hnil]; rfl)
    refine ⟨(destination, min (G.incoming name destination).length remaining) :: others, ?_, ?_, ?_⟩
    · simp only [hothers]
      rfl
    · exact forall_mem_cons.mpr ⟨hmem, hnodes⟩
    · rw [← hcopies]
      rfl

/-- A chunk of ends is projected to identities. -/
lemma projectChunk_eq (hid : identities.Serves G) {chunk : List (ℕ × ℕ)}
    (hlength : chunk.length ≤ identities.maxRequestedIds) (hnodes : ∀ pair ∈ chunk, pair.1 ∈ G.nodes) :
    projectChunk identities chunk = .ok (expandCopies G chunk) := by
  have hlookup := hid.lookup (chunk.map (·.1)) (by rwa [length_map]) (by
    intro n hn
    obtain ⟨pair, hpair, rfl⟩ := mem_map.mp hn
    exact hnodes pair hpair)
  unfold projectChunk
  rw [hlookup, Except.mapError, ok_bind, map_map, ← map_prod_left_eq_zip]
  have hcopies : ((chunk.map fun pair => (pair, some (G.uuid pair.1))).mapM fun pair => do
      let uuid ← destinationUuid pair.2
      return replicate pair.1.2 uuid) =
      .ok ((chunk.map fun pair => (pair, some (G.uuid pair.1))).map fun pair =>
        replicate pair.1.2 (G.uuid pair.1.1)) := by
    apply mapM_eq_ok_map
    intro found hfound
    obtain ⟨pair, _, rfl⟩ := mem_map.mp hfound
    rfl
  show (List.mapM _ (chunk.map fun pair => (pair, some (G.uuid pair.1))) >>= _) = _
  rw [hcopies, ok_bind, map_map, expandCopies, flatMap_def]
  rfl

/-- Ascending destinations in their multiplicity are the sorted destinations of all matches. -/
lemma runs_eq_insertionSort (hordered : G.UuidOrdered) {β : Type} {xs : List β} {dest : β → ℕ}
    {extent : ℕ} {copies : ℕ → ℕ} (hnodes : ∀ x ∈ xs, dest x ∈ G.nodes)
    (hextent : ∀ x ∈ xs, dest x < extent) (hcopies : ∀ n, copies n = xs.countP (dest · = n)) :
    runs (range extent) copies G.uuid =
      (xs.map fun x => G.uuid (dest x)).insertionSort (· ≤ ·) := by
  have hperm : (runs (range extent) copies G.uuid).Perm
      (xs.map fun x => G.uuid (dest x)) :=
    runs_perm nodup_range (fun x hx => mem_range.mpr (hextent x hx))
      (fun n _ => hcopies n)
  have hmem : ∀ n, copies n ≠ 0 → n ∈ G.nodes := by
    intro n hn
    rw [hcopies n] at hn
    obtain ⟨x, hx, hdest⟩ := countP_pos_iff.mp (Nat.pos_of_ne_zero hn)
    rw [← of_decide_eq_true hdest]
    exact hnodes x hx
  have hsorted : (runs (range extent) copies G.uuid).Pairwise (· ≤ ·) := by
    apply pairwise_runs fun n => le_refl _
    apply pairwise_lt_range.imp
    intro m n hmn hm hn
    exact le_of_lt (hordered m (hmem m hm) n (hmem n hn) hmn)
  exact Perm.eq_of_pairwise' hsorted (pairwise_insertionSort _ _)
    (hperm.trans (perm_insertionSort _ _).symm)

/-! ## The operators -/

lemma tryNew_single (column : List Cell) :
    RecordBatch.tryNew [schemaName] [column] = .ok ⟨[schemaName], [column]⟩ := rfl

lemma rows_single (column : List Cell) :
    (RecordBatch.mk [schemaName] [column]).rows = column.map fun cell => [(schemaName, cell)] := by
  unfold RecordBatch.rows
  apply ext_getElem
  · simp
  · intro i hi hi'
    rw [length_map] at hi'
    simp [List.getElem?_eq_getElem hi']

/-- The projection of the destinations does not depend on how they are requested. -/
lemma mapM_projectChunk (hid : identities.Serves G) {destinations : List (ℕ × ℕ)}
    (hnodes : ∀ pair ∈ destinations, pair.1 ∈ G.nodes) :
    ∃ pieces, (destinations.chunks identities.maxRequestedIds).mapM (projectChunk identities) =
      .ok pieces ∧ pieces.flatten = expandCopies G destinations := by
  have hpos := hid.maxRequestedIds_pos
  have hflatten := flatten_chunks hpos destinations
  refine ⟨(destinations.chunks identities.maxRequestedIds).map (expandCopies G), ?_, ?_⟩
  · apply mapM_eq_ok_map
    intro chunk hchunk
    apply projectChunk_eq hid
    · obtain ⟨y, ys, rfl⟩ := exists_of_mem_cut (fun _ _ => hpos) hchunk
      exact length_take_le _ _
    · intro pair hpair
      apply hnodes pair
      rw [← hflatten]
      exact mem_flatten_of_mem hchunk hpair
  · conv_rhs => rw [← hflatten]
    unfold expandCopies
    rw [flatMap_def, map_flatten, flatten_flatten, map_map]
    rfl

variable {provider : AdjacencyProvider}

section
variable (hp : provider.Serves G) (hid : identities.Serves G) (hordered : G.UuidOrdered)
include hp hid hordered

/-- The operator of one hop answers as the graph does. -/
lemma executeOneHop_eq (fetch : ℕ) : executeOneHop [schemaName] fetch name provider identities =
      .ok ⟨[schemaName], [G.answer name (.orderedOneHop fetch)]⟩ := by
  obtain ⟨inbound, hinbound, hserves⟩ := hp.inbound name
  obtain ⟨destinations, hdest, hnodes, hcopies⟩ :=
    oneHopDestinations_spec hserves (range inbound.nodeExtent) fetch
  obtain ⟨pieces, hpieces, hflatten⟩ := mapM_projectChunk hid hnodes
  have hruns : runs (range inbound.nodeExtent) (fun n => (G.incoming name n).length)
      G.uuid = ((G.matching name).map fun e => G.uuid e.dst).insertionSort (· ≤ ·) :=
    runs_eq_insertionSort hordered
      (fun e he => G.dst_mem e (Multigraph.mem_edges_of_matching he)) hserves.dst_lt
      (fun n => countP_eq_length_filter.symm)
  unfold executeOneHop
  rw [hinbound, Except.mapError, ok_bind, hdest, ok_bind, hpieces, ok_bind,
    hflatten, hcopies, hruns, tryNew_single]
  rfl

/-- The operator of two hops answers as the graph does. -/
lemma executeTwoHop_eq {fetch : ℕ} (hfetch : fetch < 2 ^ 64) (disjoint : Bool) :
    executeTwoHop [schemaName] fetch name provider identities disjoint =
      .ok ⟨[schemaName], [G.answer name (.orderedTwoHop fetch disjoint)]⟩ := by
  obtain ⟨inbound, hinbound, hserves⟩ := hp.inbound name
  have hmem : ∀ path ∈ G.paths name disjoint, path.2 ∈ G.matching name := by
    intro path hpath
    obtain ⟨first, _, hpath⟩ := mem_flatMap.mp hpath
    obtain ⟨second, hsecond, rfl⟩ := mem_map.mp hpath
    exact (Multigraph.mem_matching_of_outgoing (mem_filter.mp hsecond).1).1
  have hruns : runs (range inbound.nodeExtent) (pathsInto G name disjoint) G.uuid =
      ((G.paths name disjoint).map fun path => G.uuid path.2.dst).insertionSort (· ≤ ·) :=
    runs_eq_insertionSort hordered
      (fun path h => G.dst_mem _ (Multigraph.mem_edges_of_matching (hmem path h)))
      (fun path h => hserves.dst_lt _ (hmem path h)) (pathsInto_eq G name disjoint)
  unfold executeTwoHop
  rw [hinbound, Except.mapError, ok_bind, twoHopUuids_eq hserves hid _ _ hfetch,
    ok_bind, hruns, tryNew_single]
  rfl

end

/-- The edge count, or the refusal of a count beyond 64 bits. -/
lemma executeEdgeCount_eq (hp : provider.Serves G) :
    executeEdgeCount [schemaName] name .out provider =
      if 2 ^ 63 ≤ (G.matching name).length then .error (.internal "edge count exceeds Int64")
      else .ok ⟨[schemaName], [G.answer name .edgeCount]⟩ := by
  unfold executeEdgeCount
  rw [hp.cardinality, Except.mapError, ok_bind, mapM_cons, mapM_nil, refuseIf]
  by_cases hbig : 2 ^ 63 ≤ (G.matching name).length
  · rw [if_pos hbig, if_pos hbig]
    rfl
  · rw [if_neg hbig, if_neg hbig]
    exact tryNew_single _

end Session

end GraphForge.FastPath
