import Mathlib.Data.List.Induction
import GraphForge.FastPath.GraphEngine
import GraphForge.FastPath.OperatorTheorems

/-!
# Fast paths answer like the operators

What the operators of a recognized pipeline compute over the graph, and that the chosen fast
operator returns exactly that.
-/

namespace GraphForge.FastPath

open List Binder Except

/-! ## What a recognized pipeline looks like -/

/-- What a single outgoing hop looks like. -/
lemma singleOutHop_eq_some {op : GraphOp} {hop : OutHop} (h : singleOutHop op = some hop) :
    op = .expand hop.src hop.edge hop.dst (outHop hop.relTy) := by
  unfold singleOutHop at h
  split at h
  · cases h
    rfl
  · cases h

/-- What a complete scan looks like. -/
lemma eq_nodeScan_of_isCompleteScan {op : GraphOp} {var : VarId}
    (h : isCompleteScan op var = true) : op = .nodeScan var none := by
  unfold isCompleteScan at h
  split at h
  · rw [eq_of_beq h]
  · cases h

/-- What a first hop looks like. -/
lemma firstHop_eq_some {scan expand dstScan : GraphOp} {hop : OutHop}
    (h : firstHop scan expand dstScan = some hop) :
    scan = .nodeScan hop.src none ∧ expand = .expand hop.src hop.edge hop.dst (outHop hop.relTy) ∧
      dstScan = .nodeScan hop.dst none ∧ hop.src ≠ hop.dst := by
  unfold firstHop at h
  split at h
  · cases h
  next found hfound =>
    split_ifs at h with hshape
    cases h
    exact ⟨eq_nodeScan_of_isCompleteScan hshape.2.1, singleOutHop_eq_some hfound,
      eq_nodeScan_of_isCompleteScan hshape.2.2, hshape.1⟩

/-- The last three operators of the ordered shapes. -/
structure IsOrderedTail (propNames : PropertyId → Option String) (sort project limit : GraphOp)
    (dst : VarId) (fetch : ℕ) (name : Option String) : Prop where
  fetch_lt : fetch < 2 ^ 64
  ops : ∃ nullsFirst keyProp itemProp outVar,
    propNames keyProp = some "node_uuid" ∧ propNames itemProp = some "node_uuid" ∧
      sort = .sort [⟨.propertyAccess (.varRef dst) keyProp, .asc, nullsFirst⟩] ∧
      project = .project [⟨.propertyAccess (.varRef dst) itemProp, name, outVar⟩] false ∧
      limit = .limit fetch

variable {propNames : PropertyId → Option String}

/-- What the identity of a node looks like. -/
lemma isNodeUuid_eq_true {expr : IrExpr} {var : VarId} (h : isNodeUuid propNames expr var = true) :
    ∃ prop, propNames prop = some "node_uuid" ∧ expr = .propertyAccess (.varRef var) prop := by
  unfold isNodeUuid at h
  split at h
  next v prop =>
    rw [Bool.and_eq_true] at h
    exact ⟨prop, eq_of_beq h.2, by rw [eq_of_beq h.1]⟩
  · cases h

/-- What an ordered tail looks like. -/
lemma orderedUuidTail_eq_some {sort project limit : GraphOp} {dst : VarId} {fetch : ℕ}
    (h : orderedUuidTail propNames sort project limit dst = some fetch) :
    ∃ name, IsOrderedTail propNames sort project limit dst fetch name := by
  unfold orderedUuidTail at h
  split at h
  next key item count =>
    split_ifs at h with hshape
    cases h
    obtain ⟨hlt, _, hasc, hkey, hitem⟩ := hshape
    obtain ⟨keyProp, hkeyProp, hkeyExpr⟩ := isNodeUuid_eq_true hkey
    obtain ⟨itemProp, hitemProp, hitemExpr⟩ := isNodeUuid_eq_true hitem
    obtain ⟨keyExpr, order, nullsFirst⟩ := key
    obtain ⟨itemExpr, name, outVar⟩ := item
    refine ⟨name, hlt, nullsFirst, keyProp, itemProp, outVar, hkeyProp, hitemProp, ?_, ?_, rfl⟩
    · rw [show keyExpr = _ from hkeyExpr, show order = _ from hasc]
    · rw [show itemExpr = _ from hitemExpr]
  · cases h

/-! ## Steps of the engine over the graph -/

section Engine

variable {V : Type} {E : Engine V} {G : Multigraph} {val : GraphValues V}
  {relNames : RelationTypeId → String} {ι : Type}
variable {hop : OutHop} {counted : List VarId} {agg : AggExpr} {row : Row V}

/-- Operators one after the other. -/
lemma run_append (ops ops' : List GraphOp) (rows : List (Row V)) :
    E.run (ops ++ ops') rows = E.run ops' (E.run ops rows) := by
  induction ops generalizing rows with
  | nil => simp [Engine.run]
  | cons op ops ih =>
    rw [cons_append, Engine.run, Engine.run, ih]

@[simp] lemma bind_env (row : Row V) (var v : VarId) (value : V) :
    (row.bind var value).env v = if v = var then some value else row.env v := rfl

variable (hE : Reads E G val propNames relNames)

include hE in
/-- Scanning a bound variable again keeps every row. -/
lemma runOp_rescan {var : VarId} {xs : List ι} {row : ι → Row V} (node : ι → ℕ)
    (hnode : ∀ x ∈ xs, node x ∈ G.nodes)
    (hbound : ∀ x ∈ xs, (row x).env var = some (val.node (node x))) :
    E.runOp (.nodeScan var none) (xs.map row) =
      xs.map fun x => (row x).bind var (val.node (node x)) := by
  rw [Engine.runOp, flatMap_map, map_eq_flatMap]
  apply flatMap_congr
  intro x hx
  rw [hbound x hx, hE.rescan _ (hnode x hx)]
  rfl

/-- A row with the bindings of an expansion. -/
def expandedRow (val : GraphValues V) (hop : OutHop) (row : Row V) (src : ℕ) (e : Edge) : Row V :=
  ((row.bind hop.edge (val.edge e.id)).bind hop.src (val.node src)).bind hop.dst (val.node e.dst)

/-- An expansion gives every row its edges. -/
lemma runOp_expand {edges : ℕ → List Edge} {xs : List ι} (row : ι → Row V) (node : ι → ℕ)
    (hnode : ∀ x ∈ xs, node x ∈ G.nodes)
    (hedges : ∀ n ∈ G.nodes, E.expand (some (val.node n)) none none (outHop hop.relTy) =
      (edges n).map fun e => (val.node n, val.edge e.id, val.node e.dst))
    (hsrc : ∀ x ∈ xs, (row x).env hop.src = some (val.node (node x)))
    (hedge : ∀ x ∈ xs, (row x).env hop.edge = none) (hdst : ∀ x ∈ xs, (row x).env hop.dst = none) :
    E.runOp (.expand hop.src hop.edge hop.dst (outHop hop.relTy)) (xs.map row) =
      (xs.flatMap fun x => (edges (node x)).map fun e => (x, e)).map
        fun found => expandedRow val hop (row found.1) (node found.1) found.2 := by
  rw [Engine.runOp, flatMap_map, map_flatMap]
  apply flatMap_congr
  intro x hx
  rw [hsrc x hx, hedge x hx, hdst x hx, hedges _ (hnode x hx), map_map, map_map]
  rfl

/-- The operators of one hop from a scan of all nodes. -/
def hopOps (hop : OutHop) : List GraphOp :=
  [.nodeScan hop.src none, .expand hop.src hop.edge hop.dst (outHop hop.relTy),
    .nodeScan hop.dst none]

/-- The row of a one-hop match. -/
def hopRow (val : GraphValues V) (hop : OutHop) (e : Edge) : Row V :=
  (expandedRow val hop (Row.start.bind hop.src (val.node e.src)) e.src e).bind hop.dst
    (val.node e.dst)

section HopRow

variable {hop : OutHop} {e : Edge}

lemma hopRow_dst : (hopRow val hop e).env hop.dst = some (val.node e.dst) := by
  simp [hopRow]

lemma hopRow_edge (hsrc : hop.edge ≠ hop.src) (hdst : hop.edge ≠ hop.dst) :
    (hopRow val hop e).env hop.edge = some (val.edge e.id) := by
  simp [hopRow, expandedRow, hsrc, hdst]

/-- The row of a hop binds nothing else. -/
lemma hopRow_other {v : VarId} (hsrc : v ≠ hop.src) (hedge : v ≠ hop.edge) (hdst : v ≠ hop.dst) :
    (hopRow val hop e).env v = none := by
  simp [hopRow, expandedRow, hsrc, hedge, hdst, Row.start, Env.empty]

end HopRow

/-- The order in which the engine lists the relationships of a node. -/
structure Lists (E : Engine V) (G : Multigraph) (val : GraphValues V) (name : String)
    (relTy : Option RelationTypeId) (edges : ℕ → List Edge) : Prop where
  perm : ∀ n ∈ G.nodes, (edges n).Perm (G.outgoing name n)
  expand : ∀ n ∈ G.nodes, E.expand (some (val.node n)) none none (outHop relTy) =
    (edges n).map fun e => (val.node n, val.edge e.id, val.node e.dst)

include hE in
lemma exists_lists (relTy : Option RelationTypeId) :
    ∃ edges, Lists E G val (relName relNames relTy) relTy edges := by
  choose! edges hedges using hE.expand relTy
  exact ⟨edges, fun n hn => (hedges n hn).1, fun n hn => (hedges n hn).2⟩

include hE in
/-- The rows of one hop: one for each relationship. -/
lemma run_hopOps {edges : ℕ → List Edge}
    (hlists : Lists E G val (relName relNames hop.relTy) hop.relTy edges) (hsrc : hop.src ≠ hop.dst)
    (hedge : hop.edge ≠ hop.src) :
    ∃ found : List Edge, found.Perm (G.matching (relName relNames hop.relTy)) ∧
      E.run (hopOps hop) [Row.start] = found.map (hopRow val hop) := by
  obtain ⟨nodes, hnodes, hscan⟩ := hE.scan
  have hmem : ∀ n ∈ nodes, n ∈ G.nodes := fun n hn => hnodes.mem_iff.mp hn
  have hedgesMem : ∀ n ∈ nodes, ∀ e ∈ edges n, e ∈ G.outgoing (relName relNames hop.relTy) n :=
    fun n hn e he => (hlists.perm n (hmem n hn)).mem_iff.mp he
  have hdst : ∀ e ∈ nodes.flatMap edges, e.dst ∈ G.nodes := by
    intro e he
    obtain ⟨n, hn, he⟩ := mem_flatMap.mp he
    exact G.dst_mem e (Multigraph.mem_edges_of_matching
      (Multigraph.mem_matching_of_outgoing (hedgesMem n hn e he)).1)
  refine ⟨nodes.flatMap edges, ?_, ?_⟩
  · -- the nodes' lists together are all relationships, grouped by their source
    have hgroups : (nodes.flatMap edges).Perm
        (G.nodes.flatMap (G.outgoing (relName relNames hop.relTy))) :=
      hnodes.flatMap fun n hn => hlists.perm n (hmem n hn)
    exact hgroups.trans (flatMap_filter_perm G.nodup_nodes fun e he =>
      G.src_mem e (Multigraph.mem_edges_of_matching he))
  · have hfirst : E.runOp (.nodeScan hop.src none) [Row.start] =
        nodes.map fun n => Row.start.bind hop.src (val.node n) := by
      rw [Engine.runOp]
      show (E.nodeScan none none).map _ ++ [] = _
      rw [hscan, append_nil, map_map]
      rfl
    have hsecond := runOp_expand (fun n : ℕ => Row.start.bind hop.src (val.node n)) (fun n => n)
      hmem hlists.expand (fun n _ => by simp)
      (fun n _ => by simp [hedge, Row.start, Env.empty])
      (fun n _ => by simp [hsrc.symm, Row.start, Env.empty])
    -- the source of a listed relationship is the node it is listed for
    have hpairs : (nodes.flatMap fun n => (edges n).map fun e => (n, e)) =
        (nodes.flatMap edges).map fun e => (e.src, e) := by
      rw [map_flatMap]
      apply flatMap_congr
      intro n hn
      apply map_congr_left
      intro e he
      rw [(Multigraph.mem_matching_of_outgoing (hedgesMem n hn e he)).2]
    unfold hopOps
    rw [Engine.run, hfirst, Engine.run, hsecond, hpairs, map_map, Engine.run,
      runOp_rescan hE Edge.dst hdst (fun e _ => by simp [expandedRow]), Engine.run]
    rfl

/-! ## The tail of the ordered shapes -/

lemma pick_map {α β : Type} (f : α → β) (positions : List ℕ) (xs : List α) :
    pick positions (xs.map f) = (pick positions xs).map f := by
  unfold pick
  rw [map_filterMap]
  congr 1
  funext i
  rw [getElem?_map]

lemma pick_range {α : Type} (xs : List α) : pick (range xs.length) xs = xs := by
  induction xs using reverseRecOn with
  | nil => rfl
  | append_singleton xs x ih =>
    have hfront : pick (range xs.length) (xs ++ [x]) = pick (range xs.length) xs := by
      apply filterMap_congr
      intro i hi
      exact getElem?_append_left (mem_range.mp hi)
    rw [length_append, length_singleton, range_succ, pick, filterMap_append]
    show pick (range xs.length) (xs ++ [x]) ++ _ = _
    rw [hfront, ih]
    simp

/-- Picking by a permutation permutes. -/
lemma pick_perm {α : Type} {positions : List ℕ} {xs : List α}
    (h : positions.Perm (range xs.length)) : (pick positions xs).Perm xs := by
  have hperm : (pick positions xs).Perm (pick (range xs.length) xs) := h.filterMap _
  rwa [pick_range] at hperm

include hE in
/-- Sorting by the identity of a bound node, projecting it and taking the first rows. -/
lemma results_orderedTail {sort project limit : GraphOp} {dst : VarId} {fetch : ℕ}
    {name : Option String} (htail : IsOrderedTail propNames sort project limit dst fetch name)
    {xs ys : List ι} (hperm : xs.Perm ys) {row : ι → Row V} (node : ι → ℕ)
    (hnode : ∀ x ∈ xs, node x ∈ G.nodes)
    (hbound : ∀ x ∈ xs, (row x).env dst = some (val.node (node x))) :
    (E.run [sort, project, limit] (xs.map row)).map Row.columns =
      (((ys.map fun y => G.uuid (node y)).insertionSort (· ≤ ·)).take fetch).map
        fun u => [(name, val.cell (.uuid u))] := by
  obtain ⟨nullsFirst, keyProp, itemProp, outVar, hkey, hitem, rfl, rfl, rfl⟩ := htail.ops
  have hvalue : ∀ prop, propNames prop = some "node_uuid" → ∀ x ∈ xs,
      E.eval (.propertyAccess (.varRef dst) prop) (row x).env =
        val.cell (.uuid (G.uuid (node x))) := by
    intro prop hprop x hx
    simp only [Engine.eval, hbound x hx, Option.getD_some]
    exact hE.nodeUuid _ (hnode x hx) prop hprop
  have hkeys : ((xs.map row).map fun r => E.evalList
      [IrExpr.propertyAccess (.varRef dst) keyProp] r.env) =
      (xs.map fun x => G.uuid (node x)).map fun u => [val.cell (.uuid u)] := by
    rw [map_map, map_map]
    apply map_congr_left
    intro x hx
    show [E.eval _ (row x).env] = _
    rw [hvalue keyProp hkey x hx]
    rfl
  obtain ⟨hpositions, hsorted⟩ := hE.sorted nullsFirst (xs.map fun x => G.uuid (node x))
  set positions := E.sorted [(.asc, nullsFirst)]
    ((xs.map fun x => G.uuid (node x)).map fun u => [val.cell (.uuid u)]) with hdef
  have hsort : E.runOp (.sort [⟨.propertyAccess (.varRef dst) keyProp, .asc, nullsFirst⟩])
      (xs.map row) = (pick positions xs).map row := by
    rw [Engine.runOp]
    show pick (E.sorted [(.asc, nullsFirst)] ((xs.map row).map fun r => E.evalList
      [IrExpr.propertyAccess (.varRef dst) keyProp] r.env)) (xs.map row) = _
    rw [hkeys, ← hdef, pick_map]
  have hmem : ∀ x ∈ pick positions xs, x ∈ xs := by
    intro x hx
    obtain ⟨i, _, hi⟩ := mem_filterMap.mp hx
    exact mem_of_getElem? hi
  have hproject : (E.runOp (.project [⟨.propertyAccess (.varRef dst) itemProp, name, outVar⟩] false)
      ((pick positions xs).map row)).map Row.columns =
      (pick positions xs).map fun x => [(name, val.cell (.uuid (G.uuid (node x))))] := by
    rw [Engine.runOp, Engine.distinctRows, if_neg (by decide), map_map, map_map]
    apply map_congr_left
    intro x hx
    show [(name, E.eval _ (row x).env)] = _
    rw [hvalue itemProp hitem x (hmem x hx)]
  -- the picked identities are sorted, and they are those of all matches
  have hascending : (pick positions xs).map (fun x => G.uuid (node x)) =
      (ys.map fun y => G.uuid (node y)).insertionSort (· ≤ ·) := by
    rw [← pick_map]
    apply Perm.eq_of_pairwise' hsorted (pairwise_insertionSort _ _)
    exact (pick_perm hpositions).trans
      ((hperm.map _).trans (perm_insertionSort _ _).symm)
  rw [Engine.run, hsort]
  show ((E.runOp (.project _ false) ((pick positions xs).map row)).take fetch).map Row.columns = _
  rw [map_take, hproject, ← hascending, ← map_take, ← map_take, map_map]
  rfl

/-! ## The second hop -/

/-- Requiring different relationships filters the two-hop matches. -/
lemma paths_eq_filter (name : String) (disjoint : Bool) : G.paths name disjoint =
    (G.paths name false).filter fun path => disjoint = false ∨ path.1.id ≠ path.2.id := by
  unfold Multigraph.paths
  rw [filter_flatMap]
  apply flatMap_congr
  intro first _
  rw [filter_map, filter_filter]
  congr 1
  apply filter_congr
  intro second _
  simp

/-- The variables of a second hop, new except for its source. -/
structure Continues (first second : OutHop) : Prop where
  src : second.src = first.dst
  relTy : second.relTy = first.relTy
  edge : second.edge ≠ first.src ∧ second.edge ≠ first.edge ∧ second.edge ≠ first.dst
  dst : second.dst ≠ first.src ∧ second.dst ≠ first.edge ∧ second.dst ≠ first.dst
  edge_dst : second.edge ≠ second.dst
  first_edge : first.edge ≠ first.src ∧ first.edge ≠ first.dst

/-- The row of a two-hop match after the second expansion. -/
def pathRow (val : GraphValues V) (first second : OutHop) (path : Edge × Edge) : Row V :=
  expandedRow val second (hopRow val first path.1) path.1.dst path.2

section SecondHop

variable {first second : OutHop} {edges : ℕ → List Edge} {found : List Edge}

/-- A second hop gives the paths of two edges. -/
lemma run_secondHop (hlists : Lists E G val (relName relNames first.relTy) first.relTy edges)
    (hcont : Continues first second)
    (hfound : found.Perm (G.matching (relName relNames first.relTy))) :
    ∃ paths : List (Edge × Edge), paths.Perm (G.paths (relName relNames first.relTy) false) ∧
      E.runOp (.expand second.src second.edge second.dst (outHop second.relTy))
        (found.map (hopRow val first)) = paths.map (pathRow val first second) := by
  have hdst : ∀ e ∈ found, e.dst ∈ G.nodes := fun e he =>
    G.dst_mem e (Multigraph.mem_edges_of_matching (hfound.mem_iff.mp he))
  refine ⟨found.flatMap fun e => (edges e.dst).map fun f => (e, f), ?_, ?_⟩
  · apply hfound.flatMap
    intro e he
    have hall : (G.outgoing (relName relNames first.relTy) e.dst).filter
        (fun f => false = false ∨ e.id ≠ f.id) = G.outgoing (relName relNames first.relTy) e.dst :=
      filter_eq_self.mpr fun f _ => by simp
    rw [hall]
    exact (hlists.perm _ (hdst e he)).map _
  · apply runOp_expand (hopRow val first) Edge.dst hdst
    · rw [hcont.relTy]
      exact hlists.expand
    · intro e _
      rw [hcont.src]
      exact hopRow_dst
    · intro e _
      exact hopRow_other hcont.edge.1 hcont.edge.2.1 hcont.edge.2.2
    · intro e _
      exact hopRow_other hcont.dst.1 hcont.dst.2.1 hcont.dst.2.2

lemma pathRow_dst (path : Edge × Edge) :
    (pathRow val first second path).env second.dst = some (val.node path.2.dst) := by
  simp [pathRow, expandedRow]

lemma pathRow_secondEdge (hcont : Continues first second) (path : Edge × Edge) :
    (pathRow val first second path).env second.edge = some (val.edge path.2.id) := by
  have hsrc : second.edge ≠ second.src := by
    rw [hcont.src]
    exact hcont.edge.2.2
  simp [pathRow, expandedRow, hsrc, hcont.edge_dst]

lemma pathRow_firstEdge (hcont : Continues first second) (path : Edge × Edge) :
    (pathRow val first second path).env first.edge = some (val.edge path.1.id) := by
  have hsrc : first.edge ≠ second.src := by
    rw [hcont.src]
    exact hcont.first_edge.2
  have hrow : (pathRow val first second path).env first.edge =
      (hopRow val first path.1).env first.edge := by
    simp [pathRow, expandedRow, hsrc, hcont.dst.2.1.symm, hcont.edge.2.1.symm]
  rw [hrow]
  exact hopRow_edge hcont.first_edge.1 hcont.first_edge.2

include hE in
/-- The uniqueness check keeps the matches of two different relationships. -/
lemma runOp_unique (hcont : Continues first second) {paths : List (Edge × Edge)}
    (hpaths : ∀ path ∈ paths, path.1 ∈ G.edges ∧ path.2 ∈ G.edges) :
    E.runOp (.relationshipUnique second.edge [first.edge])
        (paths.map (pathRow val first second)) =
      (paths.filter fun path => true = false ∨ path.1.id ≠ path.2.id).map
        (pathRow val first second) := by
  rw [Engine.runOp, filter_map]
  congr 1
  apply filter_congr
  intro path hpath
  show E.unique _ [_] = _
  rw [pathRow_secondEdge hcont, pathRow_firstEdge hcont,
    hE.unique _ (hpaths path hpath).1 _ (hpaths path hpath).2]
  simp

/-- Paths are made of edges of the graph. -/
lemma mem_edges_of_paths {name : String} {disjoint : Bool} {path : Edge × Edge}
    (h : path ∈ G.paths name disjoint) : path.1 ∈ G.edges ∧ path.2 ∈ G.edges := by
  obtain ⟨e, he, h⟩ := mem_flatMap.mp h
  obtain ⟨f, hf, rfl⟩ := mem_map.mp h
  exact ⟨Multigraph.mem_edges_of_matching he, Multigraph.mem_edges_of_matching
    (Multigraph.mem_matching_of_outgoing (mem_filter.mp hf).1).1⟩

include hE in
/-- The matches after the check between the hops, if there is one. -/
lemma run_check (hcont : Continues first second) {name : String} {paths : List (Edge × Edge)}
    (hpaths : paths.Perm (G.paths name false)) (disjoint : Bool) :
    ∃ kept : List (Edge × Edge), kept.Perm (G.paths name disjoint) ∧
      E.run (if disjoint then [.relationshipUnique second.edge [first.edge]] else [])
        (paths.map (pathRow val first second)) = kept.map (pathRow val first second) := by
  cases disjoint with
  | false => exact ⟨paths, hpaths, by simp [Engine.run]⟩
  | true =>
    refine ⟨paths.filter fun path => true = false ∨ path.1.id ≠ path.2.id, ?_, ?_⟩
    · rw [paths_eq_filter]
      exact hpaths.filter _
    · rw [if_pos rfl, Engine.run, runOp_unique hE hcont, Engine.run]
      intro path hpath
      exact mem_edges_of_paths (hpaths.mem_iff.mp hpath)

end SecondHop

/-! ## The count -/

/-- The variables are bound, and not to null. -/
def Bound (E : Engine V) (vars : List VarId) (row : Row V) : Prop :=
  ∀ v ∈ vars, ∃ x, row.env v = some x ∧ x ≠ E.null

include hE in
/-- The row of a hop binds what can be counted. -/
lemma bound_hopRow (hsrc : hop.src ≠ hop.dst) (hedge : hop.edge ≠ hop.src)
    (hedgeDst : hop.edge ≠ hop.dst) (e : Edge) :
    Bound E [hop.src, hop.edge, hop.dst] (hopRow val hop e) := by
  intro v hv
  simp only [mem_cons, not_mem_nil, or_false] at hv
  rcases hv with rfl | rfl | rfl
  · exact ⟨val.node e.src, by simp [hopRow, expandedRow, hsrc], hE.node_ne_null _⟩
  · exact ⟨_, hopRow_edge hedge hedgeDst, hE.edge_ne_null _⟩
  · exact ⟨_, hopRow_dst, hE.node_ne_null _⟩

lemma eval_renamed (hrow : Bound E counted row) {item : ProjectItem} {var : VarId}
    (h : (match item.expr with
      | .varRef source => if source ∈ counted then item.outVar else none
      | _ => none) = some var) : E.eval item.expr row.env ≠ E.null ∧ item.outVar = some var := by
  split at h
  next source hexpr =>
    split_ifs at h with hsource
    obtain ⟨x, hx, hne⟩ := hrow source hsource
    rw [hexpr, Engine.eval, hx]
    exact ⟨hne, h⟩
  · cases h

/-- A renaming projection binds what it renames. -/
lemma bound_projectRow {vars : List VarId} {items : List ProjectItem}
    (h : renamed counted items = some vars) (hrow : Bound E counted row) :
    Bound E vars (E.projectRow items row) := by
  -- later items win, so what they bind must not be null either
  suffices hboth : (∀ v ∈ vars, ∃ x, (E.projectRow items row).env v = some x) ∧
      ∀ v x, (E.projectRow items row).env v = some x → x ≠ E.null by
    intro v hv
    obtain ⟨x, hx⟩ := hboth.1 v hv
    exact ⟨x, hx, hboth.2 v x hx⟩
  unfold renamed at h
  rw [mapM_eq_some_iff] at h
  induction h with
  | nil => exact ⟨nofun, nofun⟩
  | @cons item var items vars hitem _ ih =>
    obtain ⟨hne, hout⟩ := eval_renamed hrow hitem
    have henv : ∀ v, (E.projectRow (item :: items) row).env v = ((E.projectRow items row).env v).or
          (if item.outVar = some v then some (E.eval item.expr row.env) else none) := fun _ => rfl
    constructor
    · intro v hv
      rw [henv]
      cases hlater : (E.projectRow items row).env v with
      | some x => exact ⟨x, rfl⟩
      | none =>
        rcases mem_cons.mp hv with rfl | hv
        · rw [if_pos hout]
          exact ⟨_, rfl⟩
        · obtain ⟨x, hx⟩ := ih.1 v hv
          rw [hx] at hlater
          cases hlater
    · intro v x hx
      rw [henv] at hx
      cases hlater : (E.projectRow items row).env v with
      | some y =>
        rw [hlater] at hx
        cases hx
        exact ih.2 v x hlater
      | none =>
        rw [hlater, Option.none_or] at hx
        split_ifs at hx
        cases hx
        exact hne

include hE in
/-- What `countsMatches` counts is never null. -/
lemma arg_ne_null (h : countsMatches counted agg = true) (hrow : Bound E counted row) :
    E.evalOption agg.arg row.env ≠ some E.null := by
  unfold countsMatches at h
  rw [Bool.and_eq_true] at h
  cases harg : agg.arg with
  | none => exact nofun
  | some expr =>
    rw [harg] at h
    show some (E.eval expr row.env) ≠ some E.null
    intro hnull
    have hnull := Option.some.inj hnull
    cases expr with
    | varRef var =>
      obtain ⟨x, hx, hne⟩ := hrow var (of_decide_eq_true h.2)
      rw [Engine.eval, hx] at hnull
      exact hne hnull
    | literal value =>
      rw [Engine.eval] at hnull
      exact hE.literal_ne_null value h.2 hnull
    | _ => cases h.2

/-- What counts matches is a count. -/
lemma func_of_countsMatches (h : countsMatches counted agg = true) : agg.func = .count := by
  unfold countsMatches at h
  rw [Bool.and_eq_true, Bool.and_eq_true] at h
  exact of_decide_eq_true h.1.1

include hE in
/-- The single row of a global count, over rows whose counted variables are bound. -/
lemma results_count {aliases : List (Option String)} {groupVars : List (Option VarId)}
    {tail : List GraphOp} (hagg : countsMatches counted agg = true)
    (htail : keepsOneRow tail = true) {rows : List (Row V)}
    (hrows : ∀ row ∈ rows, Bound E counted row) (hlength : rows.length < 2 ^ 63) :
    (E.run (.aggregate [] aliases groupVars [agg] :: tail) rows).map Row.columns =
      [[(some agg.name, val.cell (.int64 rows.length))]] := by
  obtain ⟨group, hgroup, hperm⟩ := hE.oneGroup (rows.map fun row => E.evalList [] row.env)
  rw [length_map] at hperm
  have hpick := pick_perm hperm
  have hvalue : E.aggregateValue (pick group rows) agg = val.cell (.int64 rows.length) := by
    unfold Engine.aggregateValue
    rw [func_of_countsMatches hagg, hE.count]
    · rw [length_map, hpick.length_eq]
    · intro arg harg
      obtain ⟨row, hrow, rfl⟩ := mem_map.mp harg
      exact arg_ne_null hE hagg (hrows row (hpick.mem_iff.mp hrow))
    · rw [length_map, hpick.length_eq]
      exact hlength
  have hop : (E.runOp (.aggregate [] aliases groupVars [agg]) rows).map Row.columns =
      [[(some agg.name, val.cell (.int64 rows.length))]] := by
    rw [Engine.runOp]
    show ((E.groups 0 (rows.map fun row => E.evalList [] row.env)).map _).map Row.columns = _
    rw [hgroup, ← hvalue]
    show [(E.groupKeys [] (pick group rows)).mapIdx _ ++ [_]] = _
    have hkeys : E.groupKeys [] (pick group rows) = [] := by
      unfold Engine.groupKeys
      cases pick group rows <;> rfl
    rw [hkeys]
    rfl
  rw [Engine.run]
  unfold keepsOneRow at htail
  split at htail
  · exact hop
  next count =>
    show ((E.runOp _ rows).take count).map Row.columns = _
    rw [map_take, hop, take_of_length_le]
    exact of_decide_eq_true htail
  · cases htail

/-! ## The three shapes -/

/-- The batch of an operator, as rows of values. -/
def valued (val : GraphValues V) (batch : RecordBatch) : List (List (Option String × V)) :=
  batch.rows.map fun row => row.map fun field => (field.1, val.cell field.2)

/-- The planned operator returns the answer of the kind, and that is what the operators compute.
The one exception is a number of matches that a 64-bit count cannot hold, which is refused. -/
def AnswersLike (E : Engine V) (G : Multigraph) (val : GraphValues V)
    (relNames : RelationTypeId → String) (session : SessionState) (ops : List GraphOp)
    (kind : FastPathKind) : Prop :=
  ∃ exec, choose kind (providerExpands relNames [] ops) (outputNames ops) session = .ok exec ∧
    ((∃ batch, exec.execute = .ok batch ∧
        batch.rows = (G.answer (relName relNames (hopType ops)) kind).map
          (fun cell => (outputNames ops).map fun name => (name, cell)) ∧
        valued val batch = E.results ops) ∨
      (kind = .edgeCount ∧ 2 ^ 63 ≤ (G.matching (relName relNames (hopType ops))).length ∧
        exec.execute = .error (.internal "edge count exceeds Int64")))

section Shapes

variable {provider : AdjacencyProvider} {identities : OrdinalIdentities} {ops : List GraphOp}
  {kind : FastPathKind}

/-- Identities in the order of the ordinals are used. -/
lemma orderedIdentities_eq (hid : identities.Serves G) (hordered : G.UuidOrdered) :
    orderedIdentities ⟨some provider, some identities⟩ = .ok identities := by
  unfold orderedIdentities
  rw [show (SessionState.mk (some provider) (some identities)).identities = some identities from rfl,
    ofOption, ok_bind, hid.order hordered]
  rfl

/-- What a single-column batch must hold to answer. -/
lemma answersLike_of_execute (exec : FastExec) {schemaName : Option String}
    (hchoose : choose kind (providerExpands relNames [] ops) (outputNames ops)
      ⟨some provider, some identities⟩ = .ok exec)
    (hnames : outputNames ops = [schemaName])
    (hexec : exec.execute = .ok ⟨[schemaName], [G.answer (relName relNames (hopType ops)) kind]⟩)
    (hresults : E.results ops = (G.answer (relName relNames (hopType ops)) kind).map
      fun cell => [(schemaName, val.cell cell)]) :
    AnswersLike E G val relNames ⟨some provider, some identities⟩ ops kind := by
  refine ⟨exec, hchoose, .inl ⟨_, hexec, ?_, ?_⟩⟩
  · rw [rows_single, hnames]
    rfl
  · rw [valued, rows_single, map_map, hresults]
    rfl

/-- The relationship of a well-kinded hop is not one of its nodes. -/
lemma edge_ne_of_wellKinded {rest : List GraphOp} (h : WellKinded (hopOps hop ++ rest)) :
    hop.edge ≠ hop.src ∧ hop.edge ≠ hop.dst := by
  have hedge := h hop.edge (by simp [relationshipVars, hopOps])
  simp only [nodeVars, hopOps, cons_append, nil_append, flatMap_cons, mem_cons, not_or] at hedge
  exact ⟨hedge.1, hedge.2.2.1⟩

lemma providerExpands_hopOps (hedge : hop.edge ≠ hop.src) (rest : List GraphOp) :
    providerExpands relNames [] (hopOps hop ++ rest) =
      providerExpands relNames [hop.dst, hop.edge, hop.dst, hop.src] rest ++
        [⟨relName relNames hop.relTy, .out⟩] := by
  simp [hopOps, providerExpands, outHop, hedge]

/-- A plan that starts with a hop. -/
lemma results_hopOps (rest : List GraphOp) : E.results (hopOps hop ++ rest) =
      (E.run rest (E.run (hopOps hop) [Row.start])).map Row.columns := by
  unfold Engine.results
  rw [run_append]

/-! ### One hop -/

/-- What a plan of one ordered hop looks like. -/
lemma orderedOneHop_eq_some (h : orderedOneHop propNames ops = some kind) :
    ∃ hop sort project limit fetch name, ops = hopOps hop ++ [sort, project, limit] ∧
      kind = .orderedOneHop fetch ∧ hop.src ≠ hop.dst ∧
      IsOrderedTail propNames sort project limit hop.dst fetch name := by
  unfold orderedOneHop at h
  split at h
  next scan expand dstScan sort project limit =>
    split at h
    · cases h
    next hop hhop =>
      obtain ⟨fetch, htail, rfl⟩ := Option.map_eq_some_iff.mp h
      obtain ⟨name, htail⟩ := orderedUuidTail_eq_some htail
      obtain ⟨rfl, rfl, rfl, hsrc⟩ := firstHop_eq_some hhop
      exact ⟨hop, sort, project, limit, fetch, name, rfl, rfl, hsrc, htail⟩
  · cases h

include hE in
/-- The operator of one ordered hop answers like the plan. -/
lemma oneHop_answersLike (hp : provider.Serves G) (hid : identities.Serves G)
    (hordered : G.UuidOrdered) (hkinds : WellKinded ops)
    (h : orderedOneHop propNames ops = some kind) :
    AnswersLike E G val relNames ⟨some provider, some identities⟩ ops kind := by
  obtain ⟨hop, sort, project, limit, fetch, name, rfl, rfl, hsrc, htail⟩ := orderedOneHop_eq_some h
  have hedge := edge_ne_of_wellKinded hkinds
  obtain ⟨edges, hlists⟩ := exists_lists hE hop.relTy
  obtain ⟨found, hfound, hrun⟩ := run_hopOps hE hlists hsrc hedge.1
  have hresults := results_orderedTail hE htail hfound Edge.dst
    (fun e he => G.dst_mem e (Multigraph.mem_edges_of_matching (hfound.mem_iff.mp he)))
    (fun e _ => hopRow_dst)
  rw [← hrun, ← results_hopOps] at hresults
  obtain ⟨nullsFirst, keyProp, itemProp, outVar, _, _, rfl, rfl, rfl⟩ := htail.ops
  refine answersLike_of_execute (.orderedOneHop [name] fetch (relName relNames hop.relTy)
    provider identities) ?_ rfl (executeOneHop_eq hp hid hordered fetch) ?_
  · rw [providerExpands_hopOps hedge.1]
    show (orderedIdentities _ >>= _) = _
    rw [orderedIdentities_eq hid hordered]
    rfl
  · rw [hresults]
    unfold Multigraph.answer
    rw [map_map]
    rfl

/-! ### Two hops -/

lemma eq_nodeScan_of_continues {first second : OutHop} {op : GraphOp}
    (h : continues first second op = true) : op = .nodeScan second.dst none := by
  unfold continues at h
  rw [Bool.and_eq_true] at h
  exact eq_nodeScan_of_isCompleteScan h.2

/-- What a plan of two ordered hops looks like. -/
lemma orderedTwoHop_eq_some (h : orderedTwoHop propNames ops = some kind) :
    ∃ first second sort project limit fetch name check disjoint,
      ops = hopOps first ++ (.expand second.src second.edge second.dst (outHop second.relTy) ::
        (check ++ [.nodeScan second.dst none, sort, project, limit])) ∧
      kind = .orderedTwoHop fetch disjoint ∧ first.src ≠ first.dst ∧
      continues first second (.nodeScan second.dst none) = true ∧
      IsOrderedTail propNames sort project limit second.dst fetch name ∧
      check = if disjoint then [.relationshipUnique second.edge [first.edge]] else [] := by
  unfold orderedTwoHop at h
  split at h
  next scan expand1 midScan expand2 rest =>
    split at h
    next first second hfirst hsecond =>
      obtain ⟨rfl, rfl, rfl, hsrc⟩ := firstHop_eq_some hfirst
      obtain rfl := singleOutHop_eq_some hsecond
      split at h
      next unique dstScan sort project limit =>
        split_ifs at h with hshape
        obtain ⟨fetch, htail, rfl⟩ := Option.map_eq_some_iff.mp h
        obtain ⟨name, htail⟩ := orderedUuidTail_eq_some htail
        have hscan := eq_nodeScan_of_continues hshape.1
        have hunique : unique = .relationshipUnique second.edge [first.edge] := by
          have hcheck := hshape.2
          unfold isUniqueCheck at hcheck
          split at hcheck
          next edge priorEdges =>
            rw [Bool.and_eq_true, decide_eq_true_eq, decide_eq_true_eq] at hcheck
            rw [hcheck.1, hcheck.2]
          · cases hcheck
        subst hscan hunique
        exact ⟨first, second, sort, project, limit, fetch, name, _, true, rfl, rfl, hsrc, hshape.1,
          htail, rfl⟩
      next dstScan sort project limit =>
        split_ifs at h with hshape
        obtain ⟨fetch, htail, rfl⟩ := Option.map_eq_some_iff.mp h
        obtain ⟨name, htail⟩ := orderedUuidTail_eq_some htail
        have hscan := eq_nodeScan_of_continues hshape
        subst hscan
        exact ⟨first, second, sort, project, limit, fetch, name, [], false, rfl, rfl, hsrc, hshape,
          htail, rfl⟩
      · cases h
    · cases h
  · cases h

/-- The second hop of a well-kinded pipeline brings new variables. -/
lemma continues_of_wellKinded {first second : OutHop} {rest : List GraphOp}
    (hkinds : WellKinded (hopOps first ++
      (.expand second.src second.edge second.dst (outHop second.relTy) :: rest)))
    (h : continues first second (.nodeScan second.dst none) = true) : Continues first second := by
  simp only [continues, Bool.and_eq_true, decide_eq_true_eq, mem_cons, not_mem_nil,
    or_false, not_or] at h
  obtain ⟨⟨⟨⟨hsrc, hrelTy⟩, hedges⟩, hdst⟩, _⟩ := h
  have hfirst := hkinds first.edge (by simp [relationshipVars, hopOps])
  have hsecond := hkinds second.edge (by simp [relationshipVars, hopOps])
  simp only [nodeVars, hopOps, cons_append, nil_append, flatMap_cons,
    mem_cons, not_or] at hfirst hsecond
  exact ⟨hsrc, hrelTy, ⟨hsecond.1, hedges, hsecond.2.2.1⟩,
    ⟨hdst.1, Ne.symm hfirst.2.2.2.2.2.1, hdst.2⟩, hsecond.2.2.2.2.2.1, hfirst.1, hfirst.2.2.1⟩

include hE in
/-- The operator of two ordered hops answers like the plan. -/
lemma twoHop_answersLike (hp : provider.Serves G) (hid : identities.Serves G)
    (hordered : G.UuidOrdered) (hkinds : WellKinded ops)
    (h : orderedTwoHop propNames ops = some kind) :
    AnswersLike E G val relNames ⟨some provider, some identities⟩ ops kind := by
  obtain ⟨first, second, sort, project, limit, fetch, name, check, disjoint, rfl, rfl, hsrc, hcont,
    htail, hcheck⟩ := orderedTwoHop_eq_some h
  have hedge := edge_ne_of_wellKinded hkinds
  have hcont := continues_of_wellKinded hkinds hcont
  obtain ⟨edges, hlists⟩ := exists_lists hE first.relTy
  obtain ⟨found, hfound, hrun⟩ := run_hopOps hE hlists hsrc hedge.1
  obtain ⟨paths, hpaths, hsecond⟩ := run_secondHop hlists hcont hfound
  obtain ⟨kept, hkept, hchecked⟩ := run_check hE hcont hpaths disjoint
  rw [← hcheck] at hchecked
  have hdst : ∀ path ∈ kept, path.2.dst ∈ G.nodes := fun path hpath =>
    G.dst_mem _ (mem_edges_of_paths (hkept.mem_iff.mp hpath)).2
  have hrescan : E.runOp (.nodeScan second.dst none) (kept.map (pathRow val first second)) =
      kept.map fun path => (pathRow val first second path).bind second.dst
        (val.node path.2.dst) :=
    runOp_rescan hE (fun path => path.2.dst) hdst (fun path _ => pathRow_dst path)
  have hresults := results_orderedTail hE htail hkept (fun path => path.2.dst) hdst
    (fun path _ => by simp : ∀ path ∈ kept, ((pathRow val first second path).bind second.dst
      (val.node path.2.dst)).env second.dst = some (val.node path.2.dst))
  rw [← hrescan, ← hchecked, ← hsecond, ← hrun] at hresults
  obtain ⟨nullsFirst, keyProp, itemProp, outVar, _, _, rfl, rfl, rfl⟩ := htail.ops
  refine answersLike_of_execute (.orderedTwoHop [name] fetch (relName relNames first.relTy)
    provider identities disjoint) ?_ ?_ (executeTwoHop_eq hp hid hordered htail.fetch_lt disjoint) ?_
  · have hnew : second.edge ∉ [first.dst, first.edge, first.dst, first.src] := by
      simp [hcont.edge.1, hcont.edge.2.1, hcont.edge.2.2]
    have hexpands : ∀ rest bound, rest = check ++ [GraphOp.nodeScan second.dst none,
        .sort [⟨.propertyAccess (.varRef second.dst) keyProp, .asc, nullsFirst⟩],
        .project [⟨.propertyAccess (.varRef second.dst) itemProp, name, outVar⟩] false,
        .limit fetch] → providerExpands relNames bound rest = [] := by
      intro rest bound hrest
      rw [hrest, hcheck]
      cases disjoint <;> rfl
    rw [providerExpands_hopOps hedge.1, providerExpands, hexpands _ _ rfl, nil_append,
      if_pos ⟨rfl, rfl, hnew⟩]
    show (refuseIf _ _ >>= fun _ => orderedIdentities _ >>= _) = _
    rw [refuseIf_of_not (by simp [outHop, hcont.relTy]), ok_bind,
      orderedIdentities_eq hid hordered, hcheck]
    cases disjoint <;> rfl
  · rw [hcheck]
    cases disjoint <;> rfl
  · rw [results_hopOps, Engine.run, run_append]
    show (E.run [_, _, _] (E.runOp (.nodeScan second.dst none) _)).map Row.columns = _
    rw [hresults]
    unfold Multigraph.answer
    rw [map_map]
    rfl

/-! ### The count -/

/-- What a plan that counts edges looks like. -/
lemma edgeCount_eq_some (h : edgeCount ops = some kind) :
    ∃ hop counted middle aliases groupVars agg tail,
      ops = hopOps hop ++ (middle ++ .aggregate [] aliases groupVars [agg] :: tail) ∧
      kind = .edgeCount ∧ hop.src ≠ hop.dst ∧ countsMatches counted agg = true ∧
      keepsOneRow tail = true ∧
      (middle = [] ∧ counted = [hop.src, hop.edge, hop.dst] ∨
        ∃ items, middle = [.withScope items false none] ∧
          renamed [hop.src, hop.edge, hop.dst] items = some counted) := by
  unfold edgeCount at h
  split at h
  next scan expand dstScan rest =>
    split at h
    · cases h
    next hop hhop =>
      obtain ⟨rfl, rfl, rfl, hsrc⟩ := firstHop_eq_some hhop
      split at h
      next counted groupBy aliases groupVars agg tail hwith =>
        split_ifs at h with hshape
        cases h
        obtain ⟨htail, hgroup, hagg⟩ := hshape
        obtain rfl := List.isEmpty_iff.mp hgroup
        unfold afterWith at hwith
        split at hwith
        next items tail' =>
          split at hwith
          · cases hwith
          next vars hvars =>
            cases hwith
            exact ⟨hop, counted, _, aliases, groupVars, agg, tail, rfl, rfl, hsrc, hagg, htail,
              .inr ⟨items, rfl, hvars⟩⟩
        · cases hwith
          exact ⟨hop, _, [], aliases, groupVars, agg, tail, rfl, rfl, hsrc, hagg, htail,
            .inl ⟨rfl, rfl⟩⟩
      · cases h
  · cases h

/-- The rows that are counted: one for each match, with the counted variables bound. -/
lemma run_middle {middle : List GraphOp}
    (hmiddle : middle = [] ∧ counted = [hop.src, hop.edge, hop.dst] ∨
      ∃ items, middle = [.withScope items false none] ∧
        renamed [hop.src, hop.edge, hop.dst] items = some counted) {rows : List (Row V)}
    (hrows : ∀ row ∈ rows, Bound E [hop.src, hop.edge, hop.dst] row) :
    (E.run middle rows).length = rows.length ∧ ∀ row ∈ E.run middle rows, Bound E counted row := by
  rcases hmiddle with ⟨rfl, rfl⟩ | ⟨items, rfl, hrenamed⟩
  · rw [Engine.run]
    exact ⟨rfl, hrows⟩
  have hwith : E.run [.withScope items false none] rows = rows.map (E.projectRow items) := by
    rw [Engine.run, Engine.run, Engine.runOp, Engine.distinctRows, if_neg (by decide)]
    congr 1
    exact filter_eq_self.mpr fun _ _ => rfl
  rw [hwith, length_map]
  refine ⟨rfl, ?_⟩
  intro row hrow
  obtain ⟨source, hsource, rfl⟩ := mem_map.mp hrow
  exact bound_projectRow hrenamed (hrows source hsource)

/-- After the hop, a counting pipeline expands nothing and returns the count's column. -/
lemma count_shape {middle tail : List GraphOp} {aliases : List (Option String)}
    {groupVars : List (Option VarId)}
    (hmiddle : middle = [] ∨ ∃ items, middle = [.withScope items false none])
    (htail : keepsOneRow tail = true) :
    outputNames (hopOps hop ++ (middle ++ .aggregate [] aliases groupVars [agg] :: tail)) =
        [some agg.name] ∧
      ∀ bound, providerExpands relNames bound
        (middle ++ .aggregate [] aliases groupVars [agg] :: tail) = [] := by
  have htail : tail = [] ∨ ∃ count, tail = [.limit count] := by
    unfold keepsOneRow at htail
    split at htail
    · exact .inl rfl
    · exact .inr ⟨_, rfl⟩
    · cases htail
  rcases hmiddle with rfl | ⟨items, rfl⟩ <;> rcases htail with rfl | ⟨count, rfl⟩ <;>
    exact ⟨rfl, fun _ => rfl⟩

include hE in
/-- The operator that counts edges answers like the plan. -/
lemma edgeCount_answersLike (hp : provider.Serves G) (hkinds : WellKinded ops)
    (h : edgeCount ops = some kind) :
    AnswersLike E G val relNames ⟨some provider, some identities⟩ ops kind := by
  obtain ⟨hop, counted, middle, aliases, groupVars, agg, tail, hops, rfl, hsrc, hagg, htail,
    hmiddle⟩ := edgeCount_eq_some h
  have hedge := edge_ne_of_wellKinded (hops ▸ hkinds)
  obtain ⟨hnames, hexpands⟩ := @count_shape relNames hop agg middle tail aliases groupVars
    (hmiddle.imp (·.1) fun ⟨items, h, _⟩ => ⟨items, h⟩) htail
  have hchoose : choose .edgeCount (providerExpands relNames [] ops) (outputNames ops)
      ⟨some provider, some identities⟩ =
      .ok (.edgeCount [some agg.name] (relName relNames hop.relTy) .out provider) := by
    rw [hops, hnames, providerExpands_hopOps hedge.1, hexpands]
    rfl
  subst hops
  have hexec : executeEdgeCount [some agg.name] (relName relNames hop.relTy) .out provider = _ :=
    executeEdgeCount_eq hp
  by_cases hbig : 2 ^ 63 ≤ (G.matching (relName relNames hop.relTy)).length
  · rw [if_pos hbig] at hexec
    exact ⟨_, hchoose, .inr ⟨rfl, hbig, hexec⟩⟩
  rw [if_neg hbig] at hexec
  obtain ⟨edges, hlists⟩ := exists_lists hE hop.relTy
  obtain ⟨found, hfound, hrun⟩ := run_hopOps hE hlists hsrc hedge.1
  have hrows : ∀ row ∈ found.map (hopRow val hop), Bound E [hop.src, hop.edge, hop.dst] row := by
    intro row hrow
    obtain ⟨e, _, rfl⟩ := mem_map.mp hrow
    exact bound_hopRow hE hsrc hedge.1 hedge.2 e
  obtain ⟨hlength, hbound⟩ := run_middle hmiddle hrows
  rw [length_map, hfound.length_eq] at hlength
  have hresults : (E.run (.aggregate [] aliases groupVars [agg] :: tail)
      (E.run middle (found.map (hopRow val hop)))).map Row.columns = _ :=
    results_count hE hagg htail hbound (by omega)
  refine answersLike_of_execute _ hchoose hnames hexec ?_
  rw [results_hopOps, run_append, hrun, hresults, hlength]
  rfl

end Shapes

/-- **Fast paths answer like the operators.** Over a graph whose node order is UUID order, a
pipeline that `detect` accepts is planned as a fast operator, and that returns exactly what the
operators compute. -/
theorem detect_answersLike {provider : AdjacencyProvider} {identities : OrdinalIdentities}
    {ops : List GraphOp} {kind : FastPathKind} (hE : Reads E G val propNames relNames)
    (hp : provider.Serves G) (hid : identities.Serves G) (hordered : G.UuidOrdered)
    (hkinds : WellKinded ops) (h : detect propNames ops = some kind) :
    AnswersLike E G val relNames ⟨some provider, some identities⟩ ops kind := by
  unfold detect at h
  rw [Option.or_eq_some_iff, Option.or_eq_some_iff] at h
  rcases h with (hcount | ⟨_, hone⟩) | ⟨_, htwo⟩
  · exact edgeCount_answersLike hE hp hkinds hcount
  · exact oneHop_answersLike hE hp hid hordered hkinds hone
  · exact twoHop_answersLike hE hp hid hordered hkinds htwo

end Engine

/-- A loop on node 0, two parallel relationships to node 1, and one on to node 2. -/
def loopGraph : Multigraph where
  nodes := [0, 1, 2]
  edges := [⟨0, 0, 0, "R"⟩, ⟨1, 0, 1, "R"⟩, ⟨2, 0, 1, "R"⟩, ⟨3, 1, 2, "R"⟩]
  uuid n := Fin.ofNat _ (7 + n)
  nodup_nodes := by decide
  nodup_ids := by decide
  src_mem := by decide
  dst_mem := by decide

/-- `MATCH (a)-[r1]->(b)-[r2]->(c) RETURN c.node_uuid AS id ORDER BY id LIMIT 3`. -/
def orderedPaths : List GraphOp :=
  [.nodeScan 0 none, .expand 0 1 2 (outHop none), .nodeScan 2 none, .expand 2 3 4 (outHop none),
    .relationshipUnique 3 [1], .nodeScan 4 none,
    .sort [⟨.propertyAccess (.varRef 4) 0, .asc, false⟩],
    .project [⟨.propertyAccess (.varRef 4) 0, some "id", some 5⟩] false, .limit 3]

/-- Two ordered hops over a graph with a loop. -/
theorem detect_answersLike_orderedPaths :
    detect (fun _ => some "node_uuid") orderedPaths = some (.orderedTwoHop 3 true) ∧
      AnswersLike (graphEngine loopGraph (fun _ => some "node_uuid") fun _ => "R") loopGraph
        GraphValue.graphValues (fun _ => "R")
        ⟨some (inboundProvider loopGraph), some (graphIdentities loopGraph)⟩ orderedPaths
        (.orderedTwoHop 3 true) ∧
      loopGraph.answer "*" (.orderedTwoHop 3 true) = [.uuid 8, .uuid 8, .uuid 9] := by
  refine ⟨rfl, ?_, by decide⟩
  have hkinds : WellKinded orderedPaths := by
    unfold WellKinded
    decide
  exact detect_answersLike (reads_graphEngine loopGraph _ _) (serves_inboundProvider loopGraph)
    (serves_graphIdentities loopGraph) (by decide) hkinds rfl

end GraphForge.FastPath
