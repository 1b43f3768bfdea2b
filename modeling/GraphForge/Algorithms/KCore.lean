import GraphForge.Algorithms.SimpleNeighbors
import GraphForge.Lib.KWayMerge
import GraphForge.Lib.WhileLoop
import Mathlib.Combinatorics.SimpleGraph.Subgraph
import Mathlib.Data.Set.Card

/-!
# Core numbers

`k_core_numbers` peels a graph: a priority queue gives the live node of least degree, which is
removed, and the degrees of its live neighbours fall, though never below the degree just taken.
Entries of the queue that a later degree has replaced are passed by.

The degree kept for a live node is the number of its live neighbours, or the level that the peeling
has reached if that is more. The level is the core number of the nodes removed at it: the nodes that
were live when it was reached have as many neighbours among themselves, and of a subgraph with
higher degrees no node can have been removed yet.
-/

namespace GraphForge.Algorithms.KCore

open List Except Function

/-- The state of the peeling loop. -/
structure State (V : Type) [LinearOrder V] where
  degrees : V → ℕ
  queue : MinHeap (ℕ ×ₗ V)
  removed : V → Bool
  cores : V → ℕ

section Model

variable {V : Type} [LinearOrder V]

/-- One neighbour of a removed node. -/
def lowerNeighbor (degree : ℕ) (s : State V) (neighbor : V) : Except AlgorithmError (State V) :=
  if s.removed neighbor = false ∧ degree < s.degrees neighbor then do
    .refuseIf (s.degrees neighbor = 0) (.execution "k-core degree underflow")
    let lowered := s.degrees neighbor - 1
    return { s with
      degrees := update s.degrees neighbor lowered
      queue := s.queue.push (toLex (lowered, neighbor)) }
  else return s

/-- One round of `k_core_numbers`, on the entry that was popped. -/
def peel (neighbors : V → List V) (s : State V) (degree : ℕ) (node : V) :
    Except AlgorithmError (State V) :=
  if s.removed node = true ∨ s.degrees node ≠ degree then return s
  else (neighbors node).foldlM (lowerNeighbor degree) { s with
    removed := update s.removed node true
    cores := update s.cores node degree }

/-- `while let Some(..) = queue.pop()`. -/
def round (neighbors : V → List V) (s : State V) : Except AlgorithmError (State V) :=
  match s.queue.pop with
  | none => return s
  | some (entry, queue) => peel neighbors { s with queue } (ofLex entry).1 (ofLex entry).2

/-- Every round takes an entry off the queue, and an entry is added for a degree that falls. -/
def work [Fintype V] (s : State V) : ℕ := s.queue.items.length + ∑ v, s.degrees v

end Model

/-- The queue starts with all the nodes. -/
def initial (n : ℕ) (neighbors : Fin n → List (Fin n)) : State (Fin n) where
  degrees v := (neighbors v).length
  queue := (finRange n).foldl (fun queue v => queue.push (toLex ((neighbors v).length, v))) .empty
  removed _ := false
  cores _ := 0

/-- `k_core_numbers`. -/
def kCoreNumbers (graph : AdjacencyGraph) : Except AlgorithmError (graph.Ordinal → ℕ) := do
  let neighbors ← simpleUndirectedNeighbors graph
  let s ← WhileLoop.run work (fun s => !s.queue.items.isEmpty) (round neighbors)
    (initial graph.nodeIds.length neighbors)
  return s.cores

/-! ## Lowering the neighbours -/

section Peeling

variable {V : Type} [LinearOrder V] {neighbors : V → List V} {s s' : State V} {level degree : ℕ}
  {node v : V} {ns : List V}

/-- What lowering the nodes of a list does. -/
structure Lowered (degree : ℕ) (s : State V) (ns : List V) (s' : State V) : Prop where
  removed : s'.removed = s.removed
  cores : s'.cores = s.cores
  degrees : ∀ v, s'.degrees v =
    if v ∈ ns ∧ s.removed v = false ∧ degree < s.degrees v then s.degrees v - 1 else s.degrees v
  queue : ∀ v, toLex (s.degrees v, v) ∈ s.queue.items → toLex (s'.degrees v, v) ∈ s'.queue.items

lemma work_lower [Fintype V] (hpos : 0 < s.degrees v) : work { s with
      degrees := update s.degrees v (s.degrees v - 1)
      queue := s.queue.push (toLex (s.degrees v - 1, v)) } = work s := by
  have hsum := Finset.sum_update_of_mem (Finset.mem_univ v) s.degrees (s.degrees v - 1)
  have hsplit := Finset.sum_eq_add_sum_sdiff_singleton_of_mem (Finset.mem_univ v) s.degrees
  have hlength := (s.queue.push_perm (toLex (s.degrees v - 1, v))).length_eq
  rw [length_cons] at hlength
  show _ + _ = _ + _
  dsimp only
  omega

lemma Lowered.step [Fintype V] (h : Lowered degree s ns s') (hv : v ∉ ns) :
    Ends (fun _ => False) (fun t => Lowered degree s (ns ++ [v]) t ∧ work t = work s')
      (lowerNeighbor degree s' v) := by
  have hsame : s'.degrees v = s.degrees v := by
    rw [h.degrees, if_neg fun hmem => hv hmem.1]
  have hothers : ∀ w, w ≠ v → (w ∈ ns ++ [v] ↔ w ∈ ns) := by
    intro w hne
    simp [hne]
  unfold lowerNeighbor
  by_cases hlower : s'.removed v = false ∧ degree < s'.degrees v
  · have hpos : 0 < s'.degrees v := by omega
    rw [if_pos hlower]
    refine .pass (by omega) (.ok ⟨⟨h.removed, h.cores, fun w => ?_, fun w hw => ?_⟩,
      work_lower hpos⟩) <;> dsimp only
    · rcases eq_or_ne w v with rfl | hne
      · rw [h.removed, hsame] at hlower
        rw [update_self, hsame, if_pos ⟨by simp, hlower⟩]
      · simp only [update_of_ne hne, h.degrees, hothers w hne]
    · rw [MinHeap.mem_push]
      rcases eq_or_ne w v with rfl | hne
      · exact .inl (by rw [update_self])
      · exact .inr (by rw [update_of_ne hne]; exact h.queue w hw)
  · rw [if_neg hlower]
    refine .ok ⟨⟨h.removed, h.cores, fun w => ?_, h.queue⟩, rfl⟩
    rcases eq_or_ne w v with rfl | hne
    · rw [h.removed, hsame] at hlower
      rw [hsame, if_neg fun hmem => hlower hmem.2]
    · simp only [h.degrees, hothers w hne]

lemma ends_lower [Fintype V] (hnodup : ns.Nodup) :
    Ends (fun _ => False) (fun t => Lowered degree s ns t ∧ work t = work s)
      (ns.foldlM (lowerNeighbor degree) s) := by
  refine Ends.foldlM_split (I := fun ns t => Lowered degree s ns t ∧ work t = work s)
    (fun done v rest t hsplit ⟨ht, hwork⟩ => ?_) s ?_
  · have hv : v ∉ done := by
      rw [hsplit, nodup_append] at hnodup
      exact fun hmem => hnodup.2.2 v hmem v mem_cons_self rfl
    exact (ht.step hv).mono fun t' ⟨ht', hwork'⟩ => ⟨ht', hwork'.trans hwork⟩
  · exact ⟨⟨rfl, rfl, fun v => by simp, fun _ h => h⟩, rfl⟩

/-! ## The invariant of the peeling -/

/-- The number of neighbours of a node in a set. -/
def among (neighbors : V → List V) (p : V → Bool) (v : V) : ℕ := (neighbors v).countP p

/-- A set in which every node has at least `k` neighbours. -/
def Dense (neighbors : V → List V) (k : ℕ) (p : V → Bool) : Prop :=
  ∀ v, p v = true → k ≤ among neighbors p v

/-- The nodes that are left. -/
def live (s : State V) (v : V) : Bool := !s.removed v

omit [LinearOrder V] in
/-- The peeling at a level. -/
structure Peeled (neighbors : V → List V) (level : ℕ) (s : State V) : Prop where
  degrees : ∀ v, live s v = true → s.degrees v = max level (among neighbors (live s) v)
  queued : ∀ v, live s v = true → toLex (s.degrees v, v) ∈ s.queue.items
  /-- Those that were live when the level was reached. -/
  reached : ∃ p, (∀ v, live s v = true → p v = true) ∧ Dense neighbors level p
  core : ∀ v, live s v = false → ∃ p, p v = true ∧ Dense neighbors (s.cores v) p
  above : ∀ k p, Dense neighbors k p → k ≤ level ∨ ∀ v, p v = true → live s v = true
  maximal : ∀ k p, Dense neighbors k p → ∀ v, p v = true → live s v = false → k ≤ s.cores v

lemma peeled_initial {n : ℕ} (neighbors : Fin n → List (Fin n)) :
    Peeled neighbors 0 (initial n neighbors) := by
  have hqueue : ∀ v ∈ finRange n,
      toLex ((neighbors v).length, v) ∈ (initial n neighbors).queue.items := by
    refine foldl_invariant (I := fun seen (queue : MinHeap (ℕ ×ₗ Fin n)) =>
      ∀ v ∈ seen, toLex ((neighbors v).length, v) ∈ queue.items) (fun seen queue w h => ?_) _ [] _ nofun
    refine forall_mem_concat.mpr ⟨fun v hv => ?_, ?_⟩
    · exact MinHeap.mem_push.mpr (.inr (h v hv))
    · exact MinHeap.mem_push.mpr (.inl rfl)
  refine ⟨fun v _ => ?_, fun v _ => hqueue v (mem_finRange v),
    ⟨fun _ => true, fun _ _ => rfl, fun _ _ => Nat.zero_le _⟩, fun v hv => ?_,
    fun k p _ => .inr fun _ _ => rfl, fun k p _ v _ hv => ?_⟩
  · show (neighbors v).length = max 0 ((neighbors v).countP fun _ => true)
    rw [countP_true, Nat.zero_max]
  · cases hv
  · cases hv

/-- An entry of a removed node, or one that a later degree has replaced, is passed by. -/
lemma Peeled.skip (h : Peeled neighbors level s) {queue : MinHeap (ℕ ×ₗ V)}
    (hitems : s.queue.items = toLex (degree, node) :: queue.items)
    (hstale : s.removed node = true ∨ s.degrees node ≠ degree) :
    Peeled neighbors level { s with queue } := by
  refine ⟨h.degrees, fun v hv => ?_, h.reached, h.core, h.above, h.maximal⟩
  have hmem := h.queued v hv
  rw [hitems, mem_cons] at hmem
  refine hmem.resolve_left fun heq => ?_
  obtain ⟨rfl, rfl⟩ := Prod.mk.inj (toLex_inj.mp heq)
  rcases hstale with hremoved | hdegree
  · simp [live, hremoved] at hv
  · exact hdegree rfl

/-- The level can be raised to the least degree of a live node. -/
lemma Peeled.raise (h : Peeled neighbors level s) (hnode : live s node = true)
    (hleast : ∀ v, live s v = true → s.degrees node ≤ s.degrees v) :
    Peeled neighbors (s.degrees node) s := by
  have hlevel : level ≤ s.degrees node := by
    rw [h.degrees node hnode]
    exact le_max_left _ _
  refine ⟨fun v hv => ?_, h.queued, ?_, h.core, fun k p hp => ?_, h.maximal⟩
  · have hv' := h.degrees v hv
    have := hleast v hv
    omega
  · rcases hlevel.eq_or_lt with heq | hlt
    · rw [← heq]
      exact h.reached
    -- above the level, the degrees are numbers of live neighbours
    · refine ⟨live s, fun _ hv => hv, fun v hv => ?_⟩
      have hv' := h.degrees v hv
      have := hleast v hv
      omega
  · exact (h.above k p hp).imp_left fun hk => hk.trans hlevel

lemma countP_without {p q : V → Bool} (hnode : p node = true)
    (hq : ∀ v, q v = true ↔ p v = true ∧ v ≠ node) (hnodup : ns.Nodup) :
    ns.countP p = ns.countP q + if node ∈ ns then 1 else 0 := by
  induction ns with
  | nil => rfl
  | cons v ns ih =>
    rw [nodup_cons] at hnodup
    rw [countP_cons, countP_cons, ih hnodup.2]
    rcases eq_or_ne node v with rfl | hne
    · have hout : ¬ q node = true := fun h => ((hq node).mp h).2 rfl
      rw [if_pos hnode, if_neg hout, if_neg hnodup.1, if_pos mem_cons_self]
    · have hsame : q v = true ↔ p v = true := by
        rw [hq]
        exact and_iff_left hne.symm
      simp only [hsame, mem_cons, hne, false_or]
      omega

variable (hsymm : ∀ u v, u ∈ neighbors v ↔ v ∈ neighbors u) (hnodup : ∀ v, (neighbors v).Nodup)

include hsymm hnodup in
/-- The node of least degree goes. -/
lemma Peeled.remove (h : Peeled neighbors (s.degrees node) s) (hnode : live s node = true)
    {queue : MinHeap (ℕ ×ₗ V)}
    (hitems : s.queue.items = toLex (s.degrees node, node) :: queue.items)
    (hlower : Lowered (s.degrees node) { s with
      queue
      removed := update s.removed node true
      cores := update s.cores node (s.degrees node) } (neighbors node) s') :
    Peeled neighbors (s.degrees node) s' := by
  have hlive : ∀ v, live s' v = true ↔ live s v = true ∧ v ≠ node := by
    intro v
    show (!s'.removed v) = true ↔ (!s.removed v) = true ∧ _
    rw [hlower.removed]
    rcases eq_or_ne v node with rfl | hne
    · simp
    · simp [hne]
  have hdead : ∀ v, live s' v = false → live s v = false ∨ v = node := by
    intro v hv
    by_contra hnot
    rw [not_or, Bool.not_eq_false] at hnot
    rw [(hlive v).mpr hnot] at hv
    cases hv
  have hcores : ∀ v, s'.cores v = if v = node then s.degrees node else s.cores v := by
    intro v
    rw [hlower.cores]
    exact update_apply ..
  have hcount : ∀ v, among neighbors (live s) v =
      among neighbors (live s') v + if v ∈ neighbors node then 1 else 0 := by
    intro v
    simp only [hsymm v node]
    exact countP_without hnode hlive (hnodup v)
  -- a set that loses its first node here lies in the live nodes
  have hbound : ∀ k p, Dense neighbors k p → p node = true → k ≤ s.degrees node := by
    intro k p hp hmem
    rcases h.above k p hp with hk | hall
    · exact hk
    · have hdegree := h.degrees node hnode
      have hle : among neighbors p node ≤ among neighbors (live s) node :=
        countP_mono_left fun w _ => hall w
      have := hp node hmem
      omega
  refine ⟨fun v hv => ?_, fun v hv => ?_, ?_, fun v hv => ?_, fun k p hp => ?_,
    fun k p hp v hv hgone => ?_⟩
  · -- a live neighbour loses one, and its degree follows down to the level
    obtain ⟨hlivev, hne⟩ := (hlive v).mp hv
    have hdegree := h.degrees v hlivev
    have hcountv := hcount v
    have hremoved : update s.removed node true v = false := by
      rw [update_of_ne hne]
      simpa [live] using hlivev
    rw [hlower.degrees]
    simp only [hremoved, true_and]
    by_cases hmem : v ∈ neighbors node
    · rw [if_pos hmem] at hcountv
      simp only [hmem, true_and]
      split_ifs <;> omega
    · rw [if_neg hmem] at hcountv
      rw [if_neg fun hboth => hmem hboth.1]
      omega
  · obtain ⟨hlivev, hne⟩ := (hlive v).mp hv
    have hmem := h.queued v hlivev
    rw [hitems, mem_cons] at hmem
    refine hlower.queue v (hmem.resolve_left fun heq => ?_)
    exact hne (Prod.mk.inj (toLex_inj.mp heq)).2
  · obtain ⟨p, hp, hdense⟩ := h.reached
    exact ⟨p, fun v hv => hp v ((hlive v).mp hv).1, hdense⟩
  · rw [hcores]
    split_ifs with heq
    · obtain ⟨p, hp, hdense⟩ := h.reached
      exact ⟨p, hp v (heq ▸ hnode), hdense⟩
    · exact h.core v ((hdead v hv).resolve_right heq)
  · rcases h.above k p hp with hk | hall
    · exact .inl hk
    by_cases hmem : p node = true
    · exact .inl (hbound k p hp hmem)
    · exact .inr fun v hv => (hlive v).mpr ⟨hall v hv, fun heq => hmem (heq ▸ hv)⟩
  · rw [hcores]
    split_ifs with heq
    · exact hbound k p hp (heq ▸ hv)
    · exact h.maximal k p hp v hv ((hdead v hgone).resolve_right heq)

include hsymm hnodup in
lemma Peeled.round [Fintype V] (h : Peeled neighbors level s) (hqueue : s.queue.items ≠ []) :
    Ends (fun _ => False)
      (fun t => (∃ level, Peeled neighbors level t) ∧ work t < work s) (round neighbors s) := by
  unfold KCore.round
  cases hpop : s.queue.pop with
  | none => exact absurd (MinHeap.pop_eq_none_iff.mp hpop) hqueue
  | some popped =>
    obtain ⟨entry, queue⟩ := popped
    have hitems : s.queue.items = toLex (ofLex entry) :: queue.items := MinHeap.items_of_pop hpop
    have hfirst : ∀ a ∈ s.queue.items, toLex (ofLex entry) ≤ a := MinHeap.le_of_pop hpop
    have hwork : ∀ removed cores, work ⟨s.degrees, queue, removed, cores⟩ < work s := by
      intro removed cores
      show queue.items.length + ∑ v, s.degrees v < s.queue.items.length + ∑ v, s.degrees v
      rw [hitems, length_cons]
      omega
    dsimp only
    generalize ofLex entry = popped at *
    obtain ⟨degree, node⟩ := popped
    unfold peel
    by_cases hstale : s.removed node = true ∨ s.degrees node ≠ degree
    · rw [if_pos hstale]
      exact .ok ⟨⟨level, h.skip hitems hstale⟩, hwork _ _⟩
    rw [if_neg hstale]
    rw [not_or, Bool.not_eq_true, not_not] at hstale
    obtain ⟨hremoved, rfl⟩ := hstale
    have hnode : live s node = true := by simp [live, hremoved]
    have hleast : ∀ v, live s v = true → s.degrees node ≤ s.degrees v := fun v hv =>
      Prod.Lex.monotone_fst _ _ (hfirst _ (h.queued v hv))
    refine (ends_lower (hnodup node)).mono fun t ⟨ht, hsame⟩ => ?_
    refine ⟨⟨_, (h.raise hnode hleast).remove hsymm hnodup hnode hitems ht⟩, ?_⟩
    rw [hsame]
    exact hwork _ _

end Peeling

/-! ## The result -/

/-- The simple undirected projection. -/
def projection (graph : AdjacencyGraph) : SimpleGraph graph.Ordinal where
  Adj := Projects graph
  symm := ⟨fun _ _ => projects_symm⟩
  loopless := ⟨fun _ h => h.1 rfl⟩

/-- The node belongs to a subgraph in which every node has degree at least `k`. -/
def InCore {V : Type} (G : SimpleGraph V) (k : ℕ) (v : V) : Prop :=
  ∃ H : G.Subgraph, v ∈ H.verts ∧ ∀ u ∈ H.verts, k ≤ Set.ncard (H.neighborSet u)

section Subgraphs

variable {V : Type} [LinearOrder V] {G : SimpleGraph V} {neighbors : V → List V}
  (hadj : ∀ u v, v ∈ neighbors u ↔ G.Adj u v) (hnodup : ∀ v, (neighbors v).Nodup) {k : ℕ} {v : V}

include hadj hnodup in
/-- The degree of a node in the subgraph that a set induces. -/
lemma among_eq_ncard (p : V → Bool) (u : V) :
    among neighbors p u = Set.ncard {w | G.Adj u w ∧ p w = true} := by
  have hset : {w | G.Adj u w ∧ p w = true} = ((neighbors u).filter p).toFinset := by
    simp [hadj]
  rw [hset, Set.ncard_coe_finset, toFinset_card_of_nodup ((hnodup u).filter p),
    ← countP_eq_length_filter]
  rfl

include hadj hnodup in
lemma inCore_iff [Finite V] : InCore G k v ↔ ∃ p, p v = true ∧ Dense neighbors k p := by
  classical
  constructor
  · intro ⟨H, hv, hdegree⟩
    refine ⟨fun w => decide (w ∈ H.verts), by simpa using hv, fun u hu => ?_⟩
    rw [among_eq_ncard hadj hnodup]
    refine (hdegree u (by simpa using hu)).trans (Set.ncard_le_ncard ?_ ?_)
    · intro w hw
      exact ⟨hw.adj_sub, by simpa using hw.snd_mem⟩
    · exact Set.toFinite _
  · intro ⟨p, hv, hdense⟩
    refine ⟨(⊤ : G.Subgraph).induce {w | p w = true}, hv, fun u hu => ?_⟩
    refine (hdense u hu).trans_eq ((among_eq_ncard hadj hnodup p u).trans ?_)
    congr 1
    ext w
    have hu' : p u = true := hu
    simp [SimpleGraph.Subgraph.induce_adj, hu', and_comm]

end Subgraphs

variable {graph : AdjacencyGraph}

lemma ends_kCoreNumbers : Ends (fun e => e = unselectedNode ∧ ¬ Selected graph)
      (fun cores => Selected graph ∧ ∀ v, IsGreatest {k | InCore (projection graph) k v} (cores v))
      (kCoreNumbers graph) := by
  unfold kCoreNumbers
  refine ends_simpleUndirectedNeighbors.bind fun neighbors ⟨hselected, hneighbors⟩ => ?_
  have hadj : ∀ u v, v ∈ neighbors u ↔ (projection graph).Adj u v := fun u => (hneighbors u).2
  have hnodup : ∀ v, (neighbors v).Nodup := fun v => (hneighbors v).1.imp fun h => h.ne
  have hsymm : ∀ u v, u ∈ neighbors v ↔ v ∈ neighbors u := by
    intro u v
    rw [hadj, hadj]
    exact ⟨projects_symm, projects_symm⟩
  refine ((WhileLoop.ends_run (E := fun _ => False) (I := fun s => ∃ level, Peeled neighbors level s)
    (fun s ⟨level, h⟩ hcond => ?_) ⟨0, peeled_initial neighbors⟩).mono_error
    fun _ => False.elim).bind fun s ⟨⟨level, h⟩, hempty⟩ => ?_
  · exact h.round hsymm hnodup (by simpa using hcond)
  have hgone : ∀ v, live s v = false := by
    intro v
    by_contra hlive
    have hmem := h.queued v (by simpa using hlive)
    simp at hempty
    simp [hempty] at hmem
  refine .ok ⟨hselected, fun v => ⟨(inCore_iff hadj hnodup).mpr (h.core v (hgone v)), ?_⟩⟩
  intro k hk
  obtain ⟨p, hv, hdense⟩ := (inCore_iff hadj hnodup).mp hk
  exact h.maximal k p hdense v hv (hgone v)

/-- The kernel gives every node the greatest `k` such that the node lies in a subgraph of the simple
undirected projection all of whose degrees are at least `k`. The only failure is an entry that leads
out of the selection. -/
theorem kCoreNumbers_exact (graph : AdjacencyGraph) :
    (¬ Selected graph → kCoreNumbers graph = .error unselectedNode) ∧
    (Selected graph → ∃ cores, kCoreNumbers graph = .ok cores ∧
      ∀ v, IsGreatest {k | InCore (projection graph) k v} (cores v)) :=
  ends_kCoreNumbers.refuses

/-- A triangle, and a node that hangs from it. -/
def pan : AdjacencyGraph where
  nodeIds := [10, 11, 12, 13]
  ascending := by decide
  neighbors := fun u =>
    if u = 10 then [⟨11⟩, ⟨12⟩]
    else if u = 11 then [⟨12⟩, ⟨10⟩]
    else if u = 12 then [⟨13⟩, ⟨12⟩]
    else []

theorem kCoreNumbers_exact_pan :
    Selected pan ∧ ∃ cores, kCoreNumbers pan = .ok cores ∧ ofFn cores = [2, 2, 2, 1] ∧
      ∀ v, IsGreatest {k | InCore (projection pan) k v} (cores v) := by
  have hselected : Selected pan := by
    unfold Selected
    decide
  obtain ⟨cores, hok, hgreatest⟩ := (kCoreNumbers_exact pan).2 hselected
  have hcores : (kCoreNumbers pan).map ofFn = .ok [2, 2, 2, 1] := by decide +kernel
  rw [hok] at hcores
  exact ⟨hselected, cores, hok, Except.ok.inj hcores, hgreatest⟩

end GraphForge.Algorithms.KCore
