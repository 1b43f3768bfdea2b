import GraphForge.Algorithms.ChromaticSearch

/-!
# The kernel returns the chromatic number

The positions of the sorted nodes, with the neighbours the stored edges give them, are the simple
undirected projection of the input. The search on the positions finds its chromatic number.
-/

namespace GraphForge.Algorithms.ChromaticNumber

open List Except Function

/-! ## The simple graph of the stored edges -/

/-- The simple undirected projection: two selected nodes are adjacent when some stored edge joins
them, in either direction. -/
def projection (nodes : List Uuid) (edges : List ChromaticEdge) : SimpleGraph {u // u ∈ nodes} :=
  SimpleGraph.fromRel fun u v => ∃ e ∈ edges, e.source = u.val ∧ e.target = v.val

/-- The edges the kernel accepts: between two different selected nodes, with entries of one edge
that agree up to direction. -/
structure EdgesAccepted (nodes : List Uuid) (edges : List ChromaticEdge) : Prop where
  selected : ∀ e ∈ edges, e.source ∈ nodes ∧ e.target ∈ nodes
  loopless : ∀ e ∈ edges, e.source ≠ e.target
  consistent : ∀ e ∈ edges, ∀ e' ∈ edges, e.edge = e'.edge → e.canonical = e'.canonical

/-- What the kernel accepts: distinct nodes, and such edges between them. -/
structure Accepted (nodes : List Uuid) (edges : List ChromaticEdge) : Prop where
  nodup : nodes.Nodup
  edges : EdgesAccepted nodes edges

section Projection

variable {nodes index : List Uuid} {edges : List ChromaticEdge}

lemma ends_indexNodes (nodes : List Uuid) : Ends (fun _ => ¬ nodes.Nodup)
      (fun index => nodes.Nodup ∧ index.Perm nodes) (indexNodes nodes) := by
  have hperm := perm_insertionSort (· ≤ ·) nodes
  unfold indexNodes
  refine (Ends.foldlM_split (I := fun done (index : List Uuid) => index = done ∧ done.Nodup)
    ?_ _ ⟨rfl, nodup_nil⟩).mono ?_
  · intro done u rest index hsplit ⟨hindex, hnodup⟩
    subst hindex
    by_cases hu : u ∈ index
    · rw [if_pos hu]
      refine .error fun hall => ?_
      have := hperm.nodup_iff.mpr hall
      rw [hsplit, nodup_append] at this
      exact this.2.2 u hu u mem_cons_self rfl
    rw [if_neg hu]
    refine .ok ⟨rfl, ?_⟩
    rw [nodup_append]
    refine ⟨hnodup, nodup_singleton u, ?_⟩
    intro a ha b hb hab
    rw [hab, mem_singleton.mp hb] at ha
    exact hu ha
  · intro index ⟨hindex, hnodup⟩
    rw [hindex]
    exact ⟨hperm.nodup_iff.mp hnodup, hperm⟩

@[simp] lemma canonical_edge (e : ChromaticEdge) : e.canonical.edge = e.edge := by
  unfold ChromaticEdge.canonical
  split <;> rfl

/-- The canonical form has the endpoints of the edge, in one order or the other. -/
lemma canonical_endpoints (e : ChromaticEdge) :
    (e.canonical.source = e.source ∧ e.canonical.target = e.target) ∨
      (e.canonical.source = e.target ∧ e.canonical.target = e.source) := by
  unfold ChromaticEdge.canonical
  split
  · exact .inr ⟨rfl, rfl⟩
  · exact .inl ⟨rfl, rfl⟩

lemma canonical_mem_iff {e : ChromaticEdge} :
    e.canonical.source ∈ index ∧ e.canonical.target ∈ index ↔
      e.source ∈ index ∧ e.target ∈ index := by
  rcases canonical_endpoints e with ⟨hs, ht⟩ | ⟨hs, ht⟩
  · rw [hs, ht]
  · rw [hs, ht, and_comm]

lemma canonical_loop_iff {e : ChromaticEdge} :
    e.canonical.source = e.canonical.target ↔ e.source = e.target := by
  rcases canonical_endpoints e with ⟨hs, ht⟩ | ⟨hs, ht⟩
  · rw [hs, ht]
  · rw [hs, ht, eq_comm]

lemma EdgesAccepted.of_append {done rest : List ChromaticEdge}
    (h : EdgesAccepted index (done ++ rest)) : EdgesAccepted index done :=
  ⟨fun e he => h.selected e (mem_append_left _ he),
    fun e he => h.loopless e (mem_append_left _ he),
    fun e he e' he' => h.consistent e (mem_append_left _ he) e' (mem_append_left _ he')⟩

/-- What the first loop has stored: the canonical form of every edge gone through. -/
structure Stored (index : List Uuid) (done : List ChromaticEdge) (stored : Map Uuid ChromaticEdge) :
    Prop where
  lookup : ∀ id e, stored.lookup id = some e ↔ e.edge = id ∧ ∃ raw ∈ done, raw.canonical = e
  accepted : EdgesAccepted index done

/-- An entry that agrees with the one stored under its UUID, if any, may be stored. -/
lemma Stored.insert {done : List ChromaticEdge} {stored : Map Uuid ChromaticEdge}
    (h : Stored index done stored) {raw : ChromaticEdge}
    (hselected : raw.source ∈ index ∧ raw.target ∈ index) (hloop : raw.source ≠ raw.target)
    (hagree : ∀ previous, stored.lookup raw.edge = some previous → previous = raw.canonical) :
    Stored index (done ++ [raw]) (stored.insert raw.edge raw.canonical) := by
  have hprevious : ∀ e ∈ done, e.edge = raw.edge → e.canonical = raw.canonical := by
    intro e he hid
    exact hagree _ ((h.lookup _ _).mpr ⟨by rw [canonical_edge, hid], e, he, rfl⟩)
  refine ⟨fun id e => ?_, ?_, ?_, ?_⟩
  · rw [Map.lookup_insert_ite]
    by_cases hid : id = raw.edge
    · rw [if_pos hid]
      constructor
      · intro he
        obtain rfl := Option.some.inj he
        exact ⟨by rw [canonical_edge, hid], raw, by simp, rfl⟩
      · intro ⟨hedge, other, hother, heq⟩
        rcases mem_append.mp hother with hother | hother
        · rw [← heq, hprevious other hother (by rw [← canonical_edge, heq, hedge, hid])]
        · rw [← heq, mem_singleton.mp hother]
    · rw [if_neg hid, h.lookup]
      constructor
      · intro ⟨hedge, other, hother, heq⟩
        exact ⟨hedge, other, mem_append_left _ hother, heq⟩
      · intro ⟨hedge, other, hother, heq⟩
        refine ⟨hedge, other, (mem_append.mp hother).resolve_right ?_, heq⟩
        intro hraw
        apply hid
        rw [← hedge, ← heq, canonical_edge, mem_singleton.mp hraw]
  · exact forall_mem_concat.mpr ⟨h.accepted.selected, hselected⟩
  · exact forall_mem_concat.mpr ⟨h.accepted.loopless, hloop⟩
  · intro e he e' he' hid
    rcases mem_append.mp he with he | he
    · rcases mem_append.mp he' with he' | he'
      · exact h.accepted.consistent e he e' he' hid
      · rw [mem_singleton.mp he'] at hid ⊢
        exact hprevious e he hid
    · rw [mem_singleton.mp he] at hid ⊢
      rcases mem_append.mp he' with he' | he'
      · exact (hprevious e' he' hid.symm).symm
      · rw [mem_singleton.mp he']

/-- The first loop stores an entry, or refuses it for a reason. -/
lemma Stored.step (hnodup : index.Nodup) {done : List ChromaticEdge}
    {stored : Map Uuid ChromaticEdge} (h : Stored index done stored) (raw : ChromaticEdge) :
    Ends (fun _ => ¬ EdgesAccepted index (done ++ [raw])) (Stored index (done ++ [raw]))
      (storeEdge index stored raw) := by
  have hmem : raw ∈ done ++ [raw] := mem_append_right _ (mem_singleton_self raw)
  unfold storeEdge
  simp only [canonical_edge]
  cases hs : index.finIdxOf? raw.canonical.source with
  | none =>
    refine .error fun haccepted => ?_
    exact finIdxOf?_eq_none_iff.mp hs (canonical_mem_iff.mpr (haccepted.selected raw hmem)).1
  | some source =>
    cases ht : index.finIdxOf? raw.canonical.target with
    | none =>
      refine .error fun haccepted => ?_
      exact finIdxOf?_eq_none_iff.mp ht (canonical_mem_iff.mpr (haccepted.selected raw hmem)).2
    | some target =>
      rw [hnodup.finIdxOf?_eq_some_iff] at hs ht
      have hselected := canonical_mem_iff.mp ⟨hs ▸ getElem_mem _, ht ▸ getElem_mem _⟩
      simp only
      by_cases hloop : source = target
      · rw [if_pos hloop]
        refine .error fun haccepted => haccepted.loopless raw hmem (canonical_loop_iff.mp ?_)
        rw [← hs, ← ht, hloop]
      rw [if_neg hloop]
      have hne : raw.source ≠ raw.target := by
        intro heq
        apply hloop
        have hcanonical := canonical_loop_iff.mpr heq
        exact (nodup_iff_injective_get.mp hnodup) (hs.trans (hcanonical.trans ht.symm))
      rw [canonical_edge]
      cases hprevious : stored.lookup raw.edge with
      | none => exact .ok (h.insert hselected hne (by rw [hprevious]; nofun))
      | some previous =>
        simp only
        by_cases heq : previous = raw.canonical
        · rw [if_pos heq]
          refine .ok (h.insert hselected hne ?_)
          intro p hp
          rw [hprevious] at hp
          exact (Option.some.inj hp).symm.trans heq
        · rw [if_neg heq]
          refine .error fun haccepted => heq ?_
          obtain ⟨hid, other, hother, rfl⟩ := (h.lookup _ _).mp hprevious
          rw [canonical_edge] at hid
          exact haccepted.consistent other (mem_append_left _ hother) raw hmem hid

/-- The graph on the positions of the nodes. -/
def indexGraph (index : List Uuid) (edges : List ChromaticEdge) : SimpleGraph (Fin index.length) :=
  SimpleGraph.fromRel fun u v => ∃ e ∈ edges, e.source = index[u] ∧ e.target = index[v]

/-- Two positions that an edge joins, in either direction. -/
def Joins (index : List Uuid) (e : ChromaticEdge) (u v : Fin index.length) : Prop :=
  (e.source = index[u] ∧ e.target = index[v]) ∨ (e.source = index[v] ∧ e.target = index[u])

lemma joins_canonical (e : ChromaticEdge) (u v : Fin index.length) :
    Joins index e.canonical u v ↔ Joins index e u v := by
  unfold Joins
  rcases canonical_endpoints e with ⟨hs, ht⟩ | ⟨hs, ht⟩
  · rw [hs, ht]
  · rw [hs, ht, or_comm]
    tauto

lemma mem_connect (hnodup : index.Nodup) (neighbors : Neighbors index.length) (e : ChromaticEdge)
    (u v : Fin index.length) :
    v ∈ connect index neighbors e u ↔ v ∈ neighbors u ∨ Joins index e u v := by
  have hposition : ∀ (a : Uuid) (w : Fin index.length),
      a = index[w] ↔ index.finIdxOf? a = some w := by
    intro a w
    rw [hnodup.finIdxOf?_eq_some_iff, eq_comm]
  unfold connect Joins
  rw [hposition e.source, hposition e.target, hposition e.source, hposition e.target]
  cases index.finIdxOf? e.source with
  | none => simp
  | some source =>
    cases index.finIdxOf? e.target with
    | none => simp
    | some target =>
      simp only [Option.some.injEq]
      by_cases hut : u = target
      · subst hut
        rw [update_self, Finset.mem_insert]
        by_cases hus : u = source
        · subst hus
          rw [update_self, Finset.mem_insert]
          tauto
        · rw [update_of_ne hus]
          simp only [Ne.symm hus, false_and, false_or, and_true]
          tauto
      · rw [update_of_ne hut]
        by_cases hus : u = source
        · subst hus
          rw [update_self, Finset.mem_insert]
          simp only [Ne.symm hut, and_false, or_false, true_and]
          tauto
        · rw [update_of_ne hus]
          simp only [Ne.symm hut, Ne.symm hus, false_and, and_false, or_false]

/-- `simple_neighbors` builds the graph of the edges, or refuses them. -/
lemma ends_simpleNeighbors (hnodup : index.Nodup) (edges : List ChromaticEdge) :
    Ends (fun _ => ¬ EdgesAccepted index edges)
      (fun neighbors => EdgesAccepted index edges ∧
        ∀ u v, v ∈ neighbors u ↔ (indexGraph index edges).Adj u v)
      (simpleNeighbors edges index) := by
  unfold simpleNeighbors
  have hstore : Ends (fun _ => ¬ EdgesAccepted index edges) (Stored index edges)
      (edges.foldlM (storeEdge index) ∅) := by
    refine Ends.foldlM_split ?_ _ ?_
    · intro done raw rest stored hsplit h
      refine (h.step hnodup raw).mono_error fun e he haccepted => he ?_
      rw [hsplit, ← singleton_append, ← append_assoc] at haccepted
      exact haccepted.of_append
    · exact ⟨by simp, nofun, nofun, nofun⟩
  refine hstore.bind fun stored hstored => .ok ⟨hstored.accepted, fun u v => ?_⟩
  have hfold : ∀ u v, v ∈ (stored.entries.map (·.2)).foldl (connect index) (fun _ => ∅) u ↔
      ∃ e ∈ stored.entries.map (·.2), Joins index e u v := by
    apply foldl_invariant (I := fun done (neighbors : Neighbors index.length) =>
      ∀ u v, v ∈ neighbors u ↔ ∃ e ∈ done, Joins index e u v) _ _ []
    · simp
    · intro done neighbors e h u v
      rw [mem_connect hnodup, h]
      simp only [mem_append, mem_singleton, or_and_right, exists_or, exists_eq_left]
  have hentries : ∀ e, e ∈ stored.entries.map (·.2) ↔ ∃ raw ∈ edges, raw.canonical = e := by
    intro e
    rw [mem_map]
    constructor
    · intro ⟨entry, hentry, he⟩
      subst he
      exact ((hstored.lookup _ _).mp (AList.mem_lookup_iff.mpr hentry)).2
    · intro h
      exact ⟨⟨e.edge, e⟩, AList.mem_lookup_iff.mp ((hstored.lookup _ _).mpr ⟨rfl, h⟩), rfl⟩
  rw [hfold]
  unfold indexGraph
  constructor
  · intro ⟨e, he, hjoins⟩
    obtain ⟨raw, hraw, rfl⟩ := (hentries e).mp he
    rw [joins_canonical] at hjoins
    refine ⟨?_, ?_⟩
    · rintro rfl
      apply hstored.accepted.loopless raw hraw
      rcases hjoins with ⟨hs, ht⟩ | ⟨hs, ht⟩
      · rw [hs, ht]
      · rw [hs, ht]
    · exact hjoins.imp (fun h => ⟨raw, hraw, h⟩) fun h => ⟨raw, hraw, h⟩
  · intro ⟨_, h⟩
    rcases h with ⟨raw, hraw, h⟩ | ⟨raw, hraw, h⟩
    · exact ⟨_, (hentries _).mpr ⟨raw, hraw, rfl⟩, (joins_canonical raw u v).mpr (.inl h)⟩
    · exact ⟨_, (hentries _).mpr ⟨raw, hraw, rfl⟩, (joins_canonical raw u v).mpr (.inr h)⟩

/-- The graph on the positions is the projection. -/
lemma colorable_indexGraph (hperm : index.Perm nodes) (hnodup : index.Nodup) (k : ℕ) :
    (indexGraph index edges).Colorable k ↔ (projection nodes edges).Colorable k := by
  let position : Fin index.length ≃ {u // u ∈ nodes} :=
    (hnodup.getEquiv index).trans (Equiv.subtypeEquivRight fun u => hperm.mem_iff)
  have hadj : ∀ u v, (projection nodes edges).Adj (position u) (position v) ↔
      (indexGraph index edges).Adj u v := by
    intro u v
    unfold projection indexGraph
    rw [SimpleGraph.fromRel_adj, SimpleGraph.fromRel_adj, position.injective.ne_iff]
    rfl
  let iso : indexGraph index edges ≃g projection nodes edges := ⟨position, fun {u v} => hadj u v⟩
  exact ⟨fun h => h.of_hom iso.symm.toHom, fun h => h.of_hom iso.toHom⟩

lemma colorable_iff_exists_completes {n : ℕ} {G : SimpleGraph (Fin n)} {k : ℕ} :
    G.Colorable k ↔ ∃ f, Completes G (fun _ => none) k f := by
  rw [SimpleGraph.colorable_iff_exists_bdd_nat_coloring]
  constructor
  · intro ⟨C, hC⟩
    exact ⟨C, nofun, hC, fun u v huv => C.valid huv⟩
  · intro ⟨f, hf⟩
    exact ⟨SimpleGraph.Coloring.mk f fun {u v} huv => hf.proper u v huv, hf.lt⟩

lemma EdgesAccepted.perm (hperm : index.Perm nodes) :
    EdgesAccepted index edges ↔ EdgesAccepted nodes edges := by
  constructor
  · intro h
    refine ⟨fun e he => ?_, h.loopless, h.consistent⟩
    rw [← hperm.mem_iff, ← hperm.mem_iff]
    exact h.selected e he
  · intro h
    refine ⟨fun e he => ?_, h.loopless, h.consistent⟩
    rw [hperm.mem_iff, hperm.mem_iff]
    exact h.selected e he

end Projection

/-! ## The result -/

/-- The search from no colours leaves the least number of colours. -/
lemma isLeast_of_searched {n : ℕ} {G : SimpleGraph (Fin n)} {best m : ℕ}
    {control : AlgorithmControl} {result : ℕ × AlgorithmControl}
    (hbest : ∃ f, Completes G (fun _ => none) best f)
    (h : Searched G { colors := fun _ => none, usedCount := 0, best, control } m result) :
    IsLeast {k | G.Colorable k} result.1 := by
  constructor
  · apply colorable_iff_exists_completes.mpr
    rcases h.reached with heq | hreached
    · rw [heq]
      exact hbest
    · exact hreached
  · intro k hk
    obtain ⟨f, hf⟩ := colorable_iff_exists_completes.mp hk
    exact h.least k f hf

lemma ends_exactChromaticNumber (nodes : List Uuid) (edges : List ChromaticEdge)
    (control : AlgorithmControl) :
    Ends
      (fun _ => ¬ Accepted nodes edges ∨ 2 ^ 64 ≤ nodes.length ∨ control.limits.outputRows < 1 ∨
        control.limits.iterations <
          control.iterations + 1 + searchCost nodes.length nodes.length)
      (fun k => Accepted nodes edges ∧ IsLeast {k | (projection nodes edges).Colorable k} k)
      (exactChromaticNumber nodes edges control) := by
  unfold exactChromaticNumber
  refine Ends.bind (control.ends_checkpoint.mono_error fun e he => ?_) ?_
  · omega
  intro after hafter
  subst hafter
  refine Ends.bind (ends_refuseIf fun h => .inr (.inr (.inl h))) fun _ _ => ?_
  refine Ends.bind ((ends_indexNodes nodes).mono_error fun e he => .inl fun h => he h.nodup) ?_
  intro index ⟨hnodes, hperm⟩
  have hnodup := hperm.nodup_iff.mpr hnodes
  have hlength := hperm.length_eq
  refine Ends.bind ((ends_simpleNeighbors hnodup edges).mono_error fun e he =>
    .inl fun h => he ((EdgesAccepted.perm hperm).mpr h.edges)) ?_
  intro neighbors ⟨hedges, hG⟩
  have haccepted : Accepted nodes edges := ⟨hnodes, (EdgesAccepted.perm hperm).mp hedges⟩
  have hcolorable : {k | (projection nodes edges).Colorable k} =
      {k | (indexGraph index edges).Colorable k} := by
    ext k
    exact (colorable_indexGraph hperm hnodup k).symm
  rw [hcolorable]
  by_cases hempty : index = []
  · rw [if_pos hempty]
    refine .ok ⟨haccepted, ?_, fun k _ => Nat.zero_le k⟩
    subst hempty
    exact colorable_iff_exists_completes.mpr ⟨fun _ => 0, nofun, nofun, nofun⟩
  rw [if_neg hempty]
  refine Ends.bind ((ends_greedyUpperBound hG).mono_error fun e he => ?_) ?_
  · rw [hlength] at he
    exact .inr (.inl he)
  intro greedy hgreedy
  refine Ends.bind ((ends_search hG index.length
    { colors := fun _ => none, usedCount := 0, best := greedy.2
      control := { control with iterations := control.iterations + 1 } }
    (fun u v c _ hu => nomatch hu) (fun c => by simp) card_uncolored_none).mono_error fun e he => ?_) ?_
  · rcases he with he | he
    · rw [hlength] at he
      exact .inr (.inl he)
    · have hrounds : control.limits.iterations <
          control.iterations + 1 + searchCost index.length index.length := he
      rw [hlength] at hrounds
      exact .inr (.inr (.inr hrounds))
  · intro result hresult
    exact .ok ⟨haccepted, isLeast_of_searched hgreedy hresult⟩

/-- `exact_chromatic_number` is exact: a number it returns is the least number of colours of a
proper colouring of the simple undirected projection. It accepts distinct nodes with loopless,
consistent edges between them and refuses everything else, and enough rounds for such a graph bring
the number. -/
theorem exactChromaticNumber_isLeast (nodes : List Uuid) (edges : List ChromaticEdge) :
    (∀ control k, exactChromaticNumber nodes edges control = .ok k →
      IsLeast {k | (projection nodes edges).Colorable k} k ∧ Accepted nodes edges) ∧
    (Accepted nodes edges → nodes.length < 2 ^ 64 → ∃ rounds, ∀ control : AlgorithmControl,
      control.iterations + rounds ≤ control.limits.iterations → 1 ≤ control.limits.outputRows →
        ∃ k, exactChromaticNumber nodes edges control = .ok k) := by
  constructor
  · intro control k hk
    exact ((ends_exactChromaticNumber nodes edges control).of_ok hk).symm
  · intro haccepted hlength
    refine ⟨1 + searchCost nodes.length nodes.length, fun control hrounds hrows => ?_⟩
    have htotal := ends_exactChromaticNumber nodes edges control
    cases hresult : exactChromaticNumber nodes edges control with
    | ok k => exact ⟨k, rfl⟩
    | error e =>
      rcases htotal.of_error hresult with he | he | he | he
      · exact absurd haccepted he
      · omega
      · omega
      · omega

/-- A triangle with a pendant node, its edges stored in both directions, needs three colours. -/
theorem exactChromaticNumber_isLeast_triangle :
    let edge (id source target : ℕ) : ChromaticEdge :=
      { edge := Fin.ofNat _ id, source := Fin.ofNat _ source, target := Fin.ofNat _ target }
    let edges := [edge 1 1 2, edge 1 2 1, edge 2 2 3, edge 3 3 1, edge 4 3 4]
    IsLeast {k | (projection [3, 1, 2, 4] edges).Colorable k} 3 ∧ Accepted [3, 1, 2, 4] edges :=
  (exactChromaticNumber_isLeast _ _).1
    { limits := { iterations := 100, outputRows := 1 }, iterations := 0 } 3
    (by decide +kernel)

end GraphForge.Algorithms.ChromaticNumber
