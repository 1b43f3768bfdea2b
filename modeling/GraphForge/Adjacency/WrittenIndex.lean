import GraphForge.Adjacency.ShardStoreTheorems
import GraphForge.Adjacency.ShardWriterTheorems

/-!
# What the streaming writer publishes

The pieces of a sorted sequence are storable shards that share at most boundary rows, so
the shard set of a whole run opens, and its rows are the rows of the sequence.
-/

namespace GraphForge.Adjacency

open List CsrIndex Except

/-! ## The pieces as shards -/

section
variable {maxEdges maxNodes : ℕ} {es piece : List KeyedEntry}

/-- A piece holds entries, at most `maxEdges`, less than `maxNodes` rows from its first. -/
lemma shardPieces_bounds (hedges : 0 < maxEdges) (hnodes : 0 < maxNodes)
    (h : piece ∈ shardPieces maxEdges maxNodes es) :
    piece ≠ [] ∧ piece.length ≤ maxEdges ∧ ∀ e ∈ piece, e.key - firstKey piece < maxNodes := by
  have hne := ne_nil_of_mem_cut (shardLength_pos hedges hnodes) h
  obtain ⟨y, ys, rfl⟩ := exists_of_mem_cut (shardLength_pos hedges hnodes) h
  have hpos := shardLength_pos hedges hnodes y ys
  have hle : shardLength maxEdges maxNodes (y :: ys) ≤ maxEdges := Nat.min_le_right _ _
  -- the entries taken are among those that the search counts
  have hcounted : shardLength maxEdges maxNodes (y :: ys) ≤ _ := Nat.min_le_left _ _
  generalize shardLength maxEdges maxNodes (y :: ys) = n at *
  have hfirst : firstKey ((y :: ys).take n) = firstKey (y :: ys) := by
    unfold firstKey
    rw [head?_take, if_neg (by omega)]
  refine ⟨hne, ?_, ?_⟩
  · rw [length_take]
    omega
  · intro e he
    have hsub : (y :: ys).take n <+:
        (y :: ys).takeWhile fun x => x.key - firstKey (y :: ys) < maxNodes := by
      rw [prefix_iff_eq_take.mp ( takeWhile_prefix _)]
      exact take_prefix_take_left hcounted
    have hwithin := all_eq_true.mp all_takeWhile e (hsub.subset he)
    rw [hfirst]
    simpa using hwithin

lemma pieceRows_eq (hne : piece ≠ []) :
    pieceRows piece = (piece.getLast hne).key - firstKey piece + 1 := by
  rw [pieceRows, getLast?_eq_some_getLast hne]

section
variable (hne : piece ≠ []) (hs : piece.Pairwise (·.key ≤ ·.key))
include hne hs

/-- The keys of a sorted piece lie in its rows. -/
lemma key_mem_pieceRows :
    ∀ e ∈ piece, firstKey piece ≤ e.key ∧ e.key < firstKey piece + pieceRows piece := by
  have hrows := pieceRows_eq hne
  intro e he
  have := firstKey_le hs e he
  have := key_le_of_getLast? hs (getLast?_eq_some_getLast hne) e he
  omega

/-- The rows of a piece end with the row of one of its entries. -/
lemma exists_last_key : ∃ e ∈ piece, firstKey piece + pieceRows piece = e.key + 1 := by
  refine ⟨piece.getLast hne, getLast_mem hne, ?_⟩
  have := key_mem_pieceRows hne hs _ (getLast_mem hne)
  have := pieceRows_eq hne
  omega

/-- The shard of a piece within the limits is storable. -/
lemma storable_pieceIndex {maxEdges maxNodes : ℕ} (hedges : piece.length ≤ shardEdgeLimit maxEdges)
    (hnodes : ∀ e ∈ piece, e.key - firstKey piece < shardNodeLimit maxNodes)
    (hvalues : ∀ e ∈ piece, e.edge < 2 ^ 64 ∧ e.neighbor < 2 ^ 64) :
    (pieceIndex piece).Storable where
  valid := validate_ofSorted (key_mem_pieceRows hne hs)
  nodes := by
    have hlast := hnodes _ (getLast_mem hne)
    have hrows := pieceRows_eq hne
    have hlimit : shardNodeLimit maxNodes ≤ defaultCsrShardNodes := by
      unfold shardNodeLimit
      have : 1 ≤ defaultCsrShardNodes := by decide
      omega
    rw [pieceIndex, nodeCount_ofSorted]
    omega
  edges := by
    have hlimit : shardEdgeLimit maxEdges ≤ defaultCsrShardEdges := by
      unfold shardEdgeLimit
      have : 1 ≤ defaultCsrShardEdges := by decide
      omega
    rw [pieceIndex, edgeCount_ofSorted]
    omega
  edgeIds := by
    intro n hn
    obtain ⟨e, he, rfl⟩ := mem_map.mp hn
    exact (hvalues e he).1
  neighborIds := by
    intro n hn
    obtain ⟨e, he, rfl⟩ := mem_map.mp hn
    exact (hvalues e he).2

end

end

/-- The shard of the piece can be stored, under rows that the manifest counts. -/
structure Publishable (nodeCount : ℕ) (piece : List KeyedEntry) : Prop where
  ne_nil : piece ≠ []
  sorted : piece.Pairwise (·.key ≤ ·.key)
  storable : (pieceIndex piece).Storable
  rows_pos : 0 < pieceRows piece
  rows_le : firstKey piece + pieceRows piece ≤ nodeCount
  rows_lt : firstKey piece + pieceRows piece < 2 ^ 64

/-! ## The records of a run -/

section
variable (codec : ShardCodec)

/-- The records and files that writing the pieces leaves. -/
def writtenPieces : ℕ → List (List KeyedEntry) → List (CsrShardRecord × List UInt8)
  | _, [] => []
  | ordinal, piece :: rest =>
    (shardRecord codec ordinal (firstKey piece) (pieceIndex piece),
      codec.encode (pieceIndex piece)) :: writtenPieces (ordinal + 1) rest

variable {codec} {pieces : List (List KeyedEntry)} {ordinal : ℕ}

lemma writePieces_eq (hcodec : codec.Faithful)
    (hpieces : ∀ piece ∈ pieces, (pieceIndex piece).Storable) :
    writePieces (writeCsrShard codec) ordinal pieces = .ok (writtenPieces codec ordinal pieces) := by
  induction pieces generalizing ordinal with
  | nil => rfl
  | cons piece pieces ih =>
    rw [writePieces, writeCsrShard_eq hcodec (hpieces piece mem_cons_self),
      ih fun p hp => hpieces p (mem_cons_of_mem piece hp)]
    rfl

/-- A record written stands for a piece under its own ordinal. -/
lemma exists_of_mem_writtenPieces {r : CsrShardRecord × List UInt8}
    (h : r ∈ writtenPieces codec ordinal pieces) :
    ∃ i piece, pieces[i]? = some piece ∧
      r = (shardRecord codec (ordinal + i) (firstKey piece) (pieceIndex piece),
        codec.encode (pieceIndex piece)) := by
  induction pieces generalizing ordinal with
  | nil => cases h
  | cons piece pieces ih =>
    rcases mem_cons.mp h with rfl | h
    · exact ⟨0, piece, rfl, rfl⟩
    · obtain ⟨i, p, hp, hr⟩ := ih h
      refine ⟨i + 1, p, hp, ?_⟩
      rw [hr, show ordinal + 1 + i = ordinal + (i + 1) by omega]

private lemma find?_writtenPieces {i : ℕ} {piece : List KeyedEntry} (hi : pieces[i]? = some piece)
    (hlength : ordinal + pieces.length ≤ 10 ^ 20) :
    (writtenPieces codec ordinal pieces).find? (fun r => r.1.file = shardFileName (ordinal + i)) =
      some (shardRecord codec (ordinal + i) (firstKey piece) (pieceIndex piece),
        codec.encode (pieceIndex piece)) := by
  induction pieces generalizing ordinal i with
  | nil => cases hi
  | cons p pieces ih =>
    rw [length_cons] at hlength
    rw [writtenPieces]
    cases i with
    | zero =>
      obtain rfl : p = piece := by simpa using hi
      rw [find?_cons_of_pos (by simp [shardRecord])]
      rfl
    | succ i =>
      have hlt : i < pieces.length := (List.getElem?_eq_some_iff.mp (by simpa using hi)).1
      -- the names of different ordinals differ
      have hne : ¬shardFileName ordinal = shardFileName (ordinal + (i + 1)) := by
        intro heq
        have := shardFileName_inj (by omega) (by omega) heq
        omega
      rw [find?_cons_of_neg (by exact fun h => hne (of_decide_eq_true h)),
        show ordinal + (i + 1) = ordinal + 1 + i by omega]
      exact ih (by simpa using hi) (by omega)

lemma publishedFiles_eq {set : ShardSet (CsrShardRecord × List UInt8)}
    (hset : set.records = writtenPieces codec 0 pieces) (hlength : pieces.length ≤ 10 ^ 20)
    {i : ℕ} {piece : List KeyedEntry} (hi : pieces[i]? = some piece) :
    publishedFiles set (shardFileName i) = .ok (codec.encode (pieceIndex piece)) := by
  have hfind := @find?_writtenPieces codec pieces 0 i piece hi (by omega)
  rw [Nat.zero_add] at hfind
  unfold publishedFiles
  rw [hset, hfind]

/-! ## Opening -/

lemma admitShard_shardRecord (hcodec : codec.Faithful) {shard : CsrIndex} (hshard : shard.Storable)
    {dir : Directory} {first nodeCount : ℕ} {state : OpenState}
    (hdir : dir (shardFileName ordinal) = .ok (codec.encode shard)) (hpos : 0 < shard.nodeCount)
    (hnodes : first + shard.nodeCount ≤ nodeCount) (hfits : first + shard.nodeCount < 2 ^ 64)
    (hprior : ∀ prior ∈ state.priorFirst, prior ≤ first)
    (hedges : state.edges + shard.edgeCount < 2 ^ 64) :
    admitShard dir nodeCount state (shardRecord codec ordinal first shard) =
      .ok ⟨some first, state.edges + shard.edgeCount⟩ := by
  have hlen := hcodec.length_le shard hshard
  have hadd : checkedAdd first shard.nodeCount = some (first + shard.nodeCount) := if_pos hfits
  have hsum : checkedAdd state.edges shard.edgeCount = some (state.edges + shard.edgeCount) :=
    if_pos hedges
  have hbounds : ¬(shard.nodeCount = 0 ∨
      (checkedAdd first shard.nodeCount).all (nodeCount < ·) = true ∨
      state.priorFirst.any (first < ·) = true) := by
    rw [hadd, Option.all_some, decide_eq_true_eq, not_or, not_or]
    refine ⟨by omega, by omega, ?_⟩
    cases hp : state.priorFirst with
    | none => simp
    | some prior =>
      have := hprior prior hp
      simpa using this
  have hname : isNormalPathComponent (shardFileName ordinal) = true := by
    apply isNormalPathComponent_of_no_slash (slash_not_mem_shardFileName ordinal)
    simp [shardFileName]
  have hhex : (hexText (codec.sha256 (codec.encode shard)).val).all isLowerHex = true :=
    all_eq_true.mpr fun _ => isLowerHex_of_mem_hexText
  have hhexlen : (hexText (codec.sha256 (codec.encode shard)).val).length = 64 := by
    rw [length_hexText, (codec.sha256 (codec.encode shard)).property]
  apply eq_ok_of_ends
  unfold admitShard
  apply Ends.pass hbounds
  apply Ends.step (by
    rw [show checkedAdd state.edges (shardRecord codec ordinal first shard).edgeCount = _ from hsum]
    rfl)
  apply Ends.step (mapError_eq_ok_iff.mpr (decodedBytes_eq hshard.nodes hshard.edges))
  apply Ends.step (mapError_eq_ok_iff.mpr (encodedLimit_eq hshard.nodes hshard.edges))
  apply Ends.pass (by simpa [shardRecord, hhex, hhexlen] using hlen)
  apply Ends.pass fun h => h hname
  apply Ends.step (mapError_eq_ok_iff.mpr hdir)
  apply Ends.pass fun h => h rfl
  exact .ok rfl

lemma foldlM_admitShard (hcodec : codec.Faithful) {dir : Directory} {nodeCount : ℕ}
    {state : OpenState}
    (hpieces : ∀ piece ∈ pieces, Publishable nodeCount piece)
    (hdir : ∀ i piece, pieces[i]? = some piece →
      dir (shardFileName (ordinal + i)) = .ok (codec.encode (pieceIndex piece)))
    (hordered : pieces.Pairwise fun p q => firstKey p ≤ firstKey q)
    (hprior : ∀ prior ∈ state.priorFirst, ∀ piece ∈ pieces, prior ≤ firstKey piece)
    (hedges : state.edges + pieces.flatten.length < 2 ^ 64) :
    ∃ prior, ((writtenPieces codec ordinal pieces).map Prod.fst).foldlM (admitShard dir nodeCount)
      state = .ok ⟨prior, state.edges + pieces.flatten.length⟩ := by
  induction pieces generalizing ordinal state with
  | nil => exact ⟨state.priorFirst, rfl⟩
  | cons piece pieces ih =>
    obtain ⟨_, _, hstorable, hrows, hnodes, hfits⟩ := hpieces piece mem_cons_self
    have hcount : (pieceIndex piece).nodeCount = pieceRows piece := nodeCount_ofSorted _ _ _
    have hlength : (pieceIndex piece).edgeCount = piece.length := edgeCount_ofSorted _ _ _
    have hfirst := pairwise_cons.mp hordered
    rw [flatten_cons, length_append] at hedges ⊢
    have hadmit : admitShard dir nodeCount state
        (shardRecord codec ordinal (firstKey piece) (pieceIndex piece)) =
          .ok ⟨some (firstKey piece), state.edges + (pieceIndex piece).edgeCount⟩ := by
      apply admitShard_shardRecord hcodec hstorable (hdir 0 piece rfl)
      · omega
      · omega
      · omega
      · intro prior hp
        exact hprior prior hp piece mem_cons_self
      · omega
    rw [writtenPieces, map_cons, foldlM_cons, hadmit, hlength]
    obtain ⟨prior, hrest⟩ := @ih (ordinal + 1)
      ⟨some (firstKey piece), state.edges + piece.length⟩
      (fun p hp => hpieces p (mem_cons_of_mem piece hp))
      (fun i p hp => by
        rw [show ordinal + 1 + i = ordinal + (i + 1) by omega]
        exact hdir (i + 1) p (by simpa using hp))
      hfirst.2
      (fun prior hp p hmem => by
        obtain rfl : firstKey piece = prior := by simpa using hp
        exact hfirst.1 p hmem)
      (by show state.edges + piece.length + _ < _; omega)
    refine ⟨prior, ?_⟩
    rw [← Nat.add_assoc]
    exact hrest

lemma isNormalPathComponent_stableDir (codec : ShardCodec) (stem : FileStem)
    (set : ShardSet (CsrShardRecord × List UInt8)) :
    isNormalPathComponent (stableDir codec stem set) = true := by
  apply isNormalPathComponent_of_no_slash
  · unfold stableDir
    simp only [mem_append, not_or]
    refine ⟨⟨⟨stem.property, by decide⟩, ?_⟩, by decide⟩
    intro h
    have := isLowerHex_of_mem_hexText (mem_of_mem_take h)
    revert this
    decide
  · simp [stableDir]
    omega

/-- A relation between pieces that records inherit. -/
lemma pairwise_writtenPieces {Q : CsrShardRecord → CsrShardRecord → Prop}
    (h : pieces.Pairwise fun p q => ∀ i j, Q (shardRecord codec i (firstKey p) (pieceIndex p))
        (shardRecord codec j (firstKey q) (pieceIndex q))) :
    ((writtenPieces codec ordinal pieces).map Prod.fst).Pairwise Q := by
  induction pieces generalizing ordinal with
  | nil => exact .nil
  | cons piece pieces ih =>
    have hrest := pairwise_cons.mp h
    rw [writtenPieces, map_cons]
    refine pairwise_cons.mpr ⟨?_, ih hrest.2⟩
    intro r hr
    obtain ⟨written, hwritten, rfl⟩ := mem_map.mp hr
    obtain ⟨i, p, hp, rfl⟩ := exists_of_mem_writtenPieces hwritten
    exact hrest.1 p (mem_of_getElem? hp) _ _

/-- The shards together hold the rows of the whole sequence. -/
lemma shardRow_writtenPieces {contents : CsrShardRecord → CsrIndex}
    (hpieces : ∀ piece ∈ pieces, piece ≠ [] ∧ piece.Pairwise (·.key ≤ ·.key))
    (hcontents : ∀ i piece, pieces[i]? = some piece →
      contents (shardRecord codec (ordinal + i) (firstKey piece) (pieceIndex piece)) =
        pieceIndex piece) (node : ℕ) :
    shardRow contents ((writtenPieces codec ordinal pieces).map Prod.fst) node =
      rowOf pieces.flatten node := by
  induction pieces generalizing ordinal with
  | nil => rfl
  | cons piece pieces ih =>
    obtain ⟨hne, hs⟩ := hpieces piece mem_cons_self
    have hkeys := key_mem_pieceRows hne hs
    have hrest := @ih (ordinal + 1) (fun p hp => hpieces p (mem_cons_of_mem piece hp))
      (fun i p hp => by
        rw [show ordinal + 1 + i = ordinal + (i + 1) by omega]
        exact hcontents (i + 1) p (by simpa using hp))
    have hcovered : (shardRecord codec ordinal (firstKey piece) (pieceIndex piece)).covers node =
        decide (firstKey piece ≤ node ∧ node < firstKey piece + pieceRows piece) := by
      simp only [CsrShardRecord.covers, shardRecord, pieceIndex, nodeCount_ofSorted]
    rw [writtenPieces, map_cons, flatten_cons, rowOf_append, ← hrest, shardRow, shardRow]
    by_cases hcovers : firstKey piece ≤ node ∧ node < firstKey piece + pieceRows piece
    · have hrow : ((pieceIndex piece).row (node - firstKey piece)).iter = rowOf piece node := by
        rw [pieceIndex, iter_row_ofSorted hs _ (by omega), Nat.add_sub_cancel' hcovers.1]
      have hhere : contents (shardRecord codec ordinal (firstKey piece) (pieceIndex piece)) =
          pieceIndex piece := hcontents 0 piece rfl
      rw [filter_cons_of_pos (by simpa only [hcovered, decide_eq_true_eq] using hcovers),
        flatMap_cons, ← hrow]
      simp only [hhere]
      rfl
    · -- a shard that does not cover the node has no entry of it
      have hnil : rowOf piece node = [] := by
        apply rowOf_eq_nil
        intro e he heq
        have := hkeys e he
        omega
      rw [filter_cons_of_neg (by simpa only [hcovered, decide_eq_true_eq] using hcovers),
        hnil, nil_append]

end

/-! ## The index of a run -/

/-- Through the cache, every way to read the index yields the rows; a cache without entries
of the index is one to start with. -/
structure ShardedCsrIndex.Serves (index : ShardedCsrIndex) (codec : ShardCodec) (dir : Directory)
    (rows : ℕ → List (ℕ × ℕ)) : Prop where
  fresh : ∀ cache : DecodedShardCache, (∀ entry ∈ cache.entries, entry.owner ≠ index.owner) →
    index.Coherent (readAuthenticatedShard codec dir) cache
  row : ∀ node, Gives (index.Coherent (readAuthenticatedShard codec dir))
    (index.row (fetchCached (readAuthenticatedShard codec dir) index.owner) node)
    (.ok (rows node))
  rowLen : ∀ node, Gives (index.Coherent (readAuthenticatedShard codec dir))
    (index.rowLen (fetchCached (readAuthenticatedShard codec dir) index.owner) node)
    (.ok (rows node).length)
  rowChunk : ∀ node skip limit, Gives (index.Coherent (readAuthenticatedShard codec dir))
    (index.rowChunk (fetchCached (readAuthenticatedShard codec dir) index.owner) node skip limit)
    (.ok (((rows node).drop skip).take limit))

section
variable {codec : ShardCodec} (hcodec : codec.Faithful)
  {set : ShardSet (CsrShardRecord × List UInt8)} {pieces : List (List KeyedEntry)}
  (hset : set.records = writtenPieces codec 0 pieces) (hcount : pieces.length ≤ 10 ^ 20)
  (hpieces : ∀ piece ∈ pieces, Publishable set.nodeCount piece)
  (hpairwise : pieces.Pairwise fun p q =>
    firstKey p ≤ firstKey q ∧ firstKey p + pieceRows p ≤ firstKey q + 1)
include hcodec hset hcount hpieces

lemma readAuthenticatedShard_published {i : ℕ} {piece : List KeyedEntry}
    (hi : pieces[i]? = some piece) :
    readAuthenticatedShard codec (publishedFiles set)
      (shardRecord codec i (firstKey piece) (pieceIndex piece)) = .ok (pieceIndex piece) :=
  readAuthenticatedShard_shardRecord hcodec (hpieces piece (mem_of_getElem? hi)).storable _
    (publishedFiles_eq hset hcount hi)

include hpairwise

section
variable (hedges : set.edgeCount = pieces.flatten.length) (hlength : pieces.flatten.length < 2 ^ 64)
  (stem : FileStem)
include hedges hlength

lemma openShardSet_published (path : String) (owner : ℕ) :
    openShardSet (publishedFiles set) path (publishedManifest codec stem set) owner =
      .ok ⟨publishedManifest codec stem set, owner⟩ := by
  obtain ⟨prior, hloop⟩ := @foldlM_admitShard codec pieces 0 hcodec (publishedFiles set)
    set.nodeCount ⟨none, 0⟩ hpieces
    (fun i p hi => by rw [Nat.zero_add]; exact publishedFiles_eq hset hcount hi)
    (hpairwise.imp And.left) (by simp) (by simpa using hlength)
  rw [← hset] at hloop
  apply eq_ok_of_ends
  unfold openShardSet
  apply Ends.pass fun h => h rfl
  apply Ends.pass fun h => h rfl
  apply Ends.pass fun h => h (isNormalPathComponent_stableDir codec stem set)
  apply Ends.step hloop
  apply Ends.pass fun h => h ((Nat.zero_add _).trans hedges.symm)
  exact .ok rfl

/-- The index opened serves the rows of the pieces. -/
lemma serves_published (owner : ℕ) :
    ShardedCsrIndex.Serves ⟨publishedManifest codec stem set, owner⟩ codec (publishedFiles set)
      (rowOf pieces.flatten) := by
  have hopen := openShardSet_published hcodec hset hcount hpieces hpairwise hedges hlength stem ""
    owner
  have hadmitted := (admitted_of_openShardSet hopen).2
  have hshare : SharesBoundaryOnly (publishedManifest codec stem set).shards := by
    show SharesBoundaryOnly (set.records.map Prod.fst)
    rw [hset]
    apply pairwise_writtenPieces
    apply hpairwise.imp
    intro p q hpq i j
    simpa only [shardRecord, pieceIndex, nodeCount_ofSorted] using hpq.2
  set read := readAuthenticatedShard codec (publishedFiles set)
  have hreads : ∀ i piece, pieces[i]? = some piece →
      read (shardRecord codec (0 + i) (firstKey piece) (pieceIndex piece)) =
        .ok (pieceIndex piece) := by
    intro i piece hi
    rw [Nat.zero_add]
    exact readAuthenticatedShard_published hcodec hset hcount hpieces hi
  have hread : ∀ r ∈ (publishedManifest codec stem set).shards,
      read r = .ok (contentsOf read r) := by
    intro r hr
    obtain ⟨written, hwritten, rfl⟩ := mem_map.mp hr
    rw [hset] at hwritten
    obtain ⟨i, piece, hi, rfl⟩ := exists_of_mem_writtenPieces hwritten
    exact read_eq_contentsOf ⟨_, hreads i piece hi⟩
  have hrows : ∀ node, shardRow (contentsOf read) (publishedManifest codec stem set).shards node =
      rowOf pieces.flatten node := by
    intro node
    show shardRow _ (set.records.map Prod.fst) node = _
    rw [hset]
    apply shardRow_writtenPieces
    · intro piece hp
      exact ⟨(hpieces piece hp).ne_nil, (hpieces piece hp).sorted⟩
    · intro i piece hi
      rw [contentsOf, hreads i piece hi]
  have hfile := fun r hr s hs => readAuthenticatedShard_congr (hread r hr) (hread s hs)
  refine ⟨?_, ?_, ?_, ?_⟩
  · intro cache hcache entry hentry howner
    exact absurd howner (hcache entry hentry)
  · intro node
    rw [← hrows]
    exact ShardedCsrIndex.gives_shardRow hadmitted hshare hread hfile node
  · intro node
    have hrowlength := length_rowOf_le pieces.flatten node
    rw [← hrows] at hrowlength ⊢
    exact ShardedCsrIndex.gives_length_shardRow hadmitted hshare hread hfile node
      (Nat.lt_of_le_of_lt hrowlength hlength)
  · intro node skip limit
    rw [← hrows]
    exact ShardedCsrIndex.gives_chunk_shardRow hadmitted hshare hread hfile node skip limit

end

end

section
variable {nodeCount : ℕ} {es : List KeyedEntry} (maxEdges maxNodes : ℕ)
  (hs : es.Pairwise (·.key ≤ ·.key))
  (hvalues : ∀ e ∈ es, e.key + 1 < 2 ^ 64 ∧ e.key + 1 ≤ nodeCount ∧ e.edge < 2 ^ 64 ∧
    e.neighbor < 2 ^ 64)

lemma flatten_shardPieces_limits :
    (shardPieces (shardEdgeLimit maxEdges) (shardNodeLimit maxNodes) es).flatten = es :=
  flatten_cut (shardLength_pos (shardEdgeLimit_pos _) (shardNodeLimit_pos _)) es

include hs

/-- Pieces follow each other and share at most a boundary row. -/
lemma pairwise_shardPieces :
    (shardPieces (shardEdgeLimit maxEdges) (shardNodeLimit maxNodes) es).Pairwise fun p q =>
      firstKey p ≤ firstKey q ∧ firstKey p + pieceRows p ≤ firstKey q + 1 := by
  have hflatten := @flatten_shardPieces_limits es maxEdges maxNodes
  rw [← hflatten] at hs
  obtain ⟨heach, hacross⟩ := pairwise_flatten.mp hs
  apply hacross.imp_of_mem
  intro p q hp hq hle
  have hpne := (shardPieces_bounds (shardEdgeLimit_pos maxEdges) (shardNodeLimit_pos maxNodes) hp).1
  have hqne := (shardPieces_bounds (shardEdgeLimit_pos maxEdges) (shardNodeLimit_pos maxNodes) hq).1
  obtain ⟨last, hlast, hend⟩ := exists_last_key hpne (heach p hp)
  obtain ⟨first, rest, rfl⟩ := exists_cons_of_ne_nil hqne
  have hlastle := hle last hlast first mem_cons_self
  have hfirst : firstKey (first :: rest) = first.key := rfl
  have := key_mem_pieceRows hpne (heach p hp) last hlast
  omega

include hvalues

lemma publishable_of_mem_shardPieces {piece : List KeyedEntry}
    (h : piece ∈ shardPieces (shardEdgeLimit maxEdges) (shardNodeLimit maxNodes) es) :
    Publishable nodeCount piece := by
  have hflatten := @flatten_shardPieces_limits es maxEdges maxNodes
  have hsub : ∀ e ∈ piece, e ∈ es := by
    intro e he
    rw [← hflatten]
    exact mem_flatten_of_mem h he
  have hsorted : piece.Pairwise (·.key ≤ ·.key) := by
    rw [← hflatten] at hs
    exact (pairwise_flatten.mp hs).1 piece h
  obtain ⟨hne, hedges, hnodes⟩ :=
    shardPieces_bounds (shardEdgeLimit_pos maxEdges) (shardNodeLimit_pos maxNodes) h
  obtain ⟨last, hlast, hend⟩ := exists_last_key hne hsorted
  have hlastvalues := hvalues last (hsub last hlast)
  refine ⟨hne, hsorted, ?_, ?_, ?_, ?_⟩
  · apply storable_pieceIndex hne hsorted hedges hnodes
    intro e he
    exact (hvalues e (hsub e he)).2.2
  · rw [pieceRows_eq hne]
    omega
  · omega
  · omega

/-- The shard set of a run opens and serves the rows of the run. -/
theorem serves_streamShards {codec : ShardCodec} (hcodec : codec.Faithful)
    (hlength : es.length < 2 ^ 64) :
    ∃ set, streamShards (writeCsrShard codec) maxEdges maxNodes es nodeCount = .ok set ∧
      ∀ stem path owner, ∃ index,
        openShardSet (publishedFiles set) path (publishedManifest codec stem set) owner =
          .ok index ∧ index.Serves codec (publishedFiles set) (rowOf es) := by
  have hflatten := @flatten_shardPieces_limits es maxEdges maxNodes
  have hpairwise := pairwise_shardPieces maxEdges maxNodes hs
  have hcount : (shardPieces (shardEdgeLimit maxEdges) (shardNodeLimit maxNodes) es).length ≤
      es.length :=
    length_cut_le (shardLength_pos (shardEdgeLimit_pos _) (shardNodeLimit_pos _)) es
  have hpieces := fun piece =>
    @publishable_of_mem_shardPieces nodeCount es maxEdges maxNodes hs hvalues piece
  have hstream := streamShards_eq (writeCsrShard codec) maxEdges maxNodes hs nodeCount
  generalize shardPieces (shardEdgeLimit maxEdges) (shardNodeLimit maxNodes) es = pieces at *
  rw [writePieces_eq hcodec fun p hp => (hpieces p hp).storable] at hstream
  have hedges : min (2 ^ 64 - 1) es.length = pieces.flatten.length := by
    rw [hflatten]
    omega
  have hfew : pieces.length ≤ 10 ^ 20 := by omega
  rw [← hflatten] at hlength
  refine ⟨_, hstream, ?_⟩
  intro stem path owner
  refine ⟨_, openShardSet_published hcodec rfl hfew hpieces hpairwise hedges hlength stem
    path owner, ?_⟩
  have hrows : rowOf es = rowOf pieces.flatten := by rw [hflatten]
  rw [hrows]
  exact serves_published hcodec rfl hfew hpieces hpairwise hedges hlength stem owner

end

end GraphForge.Adjacency
