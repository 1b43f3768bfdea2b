import GraphForge.Algorithms.BipartiteMatchingSearch

/-!
# Maximum bipartite matching is maximum

If the layers of a phase reach a free right node, some left node of the phase has an augmenting
path, so every phase matches one more left node. If they reach none, the nodes reached form a cover
of the edges that no matching exceeds.
-/

namespace GraphForge.Algorithms.BipartiteMatching

open List Except

variable {L R : Type} {adjacency : L → List R} {m : Matching L R} {d₀ distance : L → Option ℕ}

/-! ## A phase -/

/-- What holds in a phase after the left nodes `processed`: the layers are `d₀` and the matching was
`m` before it. As long as no path was found, the free nodes gone through are given up. -/
structure PhaseInv (adjacency : L → List R) (m : Matching L R) (d₀ : L → Option ℕ)
    (processed : List L) (s : Matching L R × (L → Option ℕ)) : Prop where
  valid : Valid adjacency s.1
  waiting : ∀ l, s.1.leftMatch l = none → l ∉ processed → s.2 l ≠ none
  shrinks : ∀ l, s.1.leftMatch l = none → m.leftMatch l = none
  progress : (∃ l, m.leftMatch l = none ∧ s.1.leftMatch l ≠ none) ∨
    (s.1 = m ∧ (∀ l, s.2 l = d₀ l ∨ s.2 l = none) ∧
      (∀ l, d₀ l ≠ none → s.2 l = none → GivenUp adjacency m d₀ s.2 l) ∧
      ∀ l ∈ processed, m.leftMatch l = none → s.2 l = none)

section Phase

variable {layers : Layers L} {processed : List L} {s : Matching L R × (L → Option ℕ)}

/-- If all free nodes are given up, then so are all nodes of the layers. -/
private lemma given_up_of_free (hlayers : LayersInv adjacency m (fun _ => False) layers)
    (hgiven : ∀ l, layers.distance l ≠ none → distance l = none →
      GivenUp adjacency m layers.distance distance l)
    (hfree : ∀ l, m.leftMatch l = none → distance l = none) (d : ℕ) :
    ∀ l, layers.distance l = some d → distance l = none := by
  induction d with
  | zero =>
    intro l hl
    rcases hlayers.layer l 0 hl with ⟨_, h⟩ | ⟨_, _, _, _, _, _, h⟩
    · exact hfree l h
    · exact nomatch h
  | succ d ih =>
    intro l hl
    rcases hlayers.layer l (d + 1) hl with ⟨h, _⟩ | ⟨l', r, d', hr, hmatch, hl', hd⟩
    · exact nomatch h
    -- the node before it was given up, and it has gone through all of its neighbours
    have hd' : d' = d := by omega
    rw [hd'] at hl'
    obtain ⟨next, hnext, hlayer⟩ := hgiven l' (by rw [hl']; exact nofun) (ih l' hl') r hr
    obtain rfl : l = next := Option.some.inj (hmatch.symm.trans hnext)
    apply hlayer
    rw [hl, hl']
    rfl

/-- A phase whose layers reach a free right node augments the matching. -/
lemma PhaseInv.augments (h : PhaseInv adjacency m layers.distance processed s)
    (hlayers : LayersInv adjacency m (fun _ => False) layers) (hfound : layers.found = true)
    (hall : ∀ l, l ∈ processed) : ∃ l, m.leftMatch l = none ∧ s.1.leftMatch l ≠ none := by
  rcases h.progress with h | ⟨_, _, hgiven, hprocessed⟩
  · exact h
  obtain ⟨l, r, hl, hr, hfree⟩ := hlayers.found hfound
  obtain ⟨d, hd⟩ := Option.ne_none_iff_exists'.mp hl
  have hnone := given_up_of_free hlayers hgiven (fun l => hprocessed l (hall l)) d l hd
  obtain ⟨next, hnext, _⟩ := hgiven l hl hnone r hr
  rw [hfree] at hnext
  exact nomatch hnext

variable [Fintype L] [DecidableEq L] [DecidableEq R]

/-- One more left vertex is processed. -/
lemma PhaseInv.augmentFrom {l₀ : L} (h : PhaseInv adjacency m d₀ processed s)
    (hnew : l₀ ∉ processed) :
    Ends (fun _ => False) (PhaseInv adjacency m d₀ (processed ++ [l₀]))
      (augmentFrom adjacency s l₀) := by
  unfold BipartiteMatching.augmentFrom
  by_cases hfree : s.1.leftMatch l₀ = none
  · rw [if_pos (by rw [hfree]; rfl)]
    have hreached := h.waiting l₀ hfree hnew
    have hwaiting : ∀ s' : Search L R,
        (∀ l, s.1.leftMatch l = none → l ≠ l₀ → s'.distance l = s.2 l) →
        ∀ l, s.1.leftMatch l = none → l ∉ processed ++ [l₀] → s'.distance l ≠ none := by
      intro s' hkept l hl hnot
      obtain ⟨hnot, hne⟩ : l ∉ processed ∧ l ≠ l₀ := by simpa using hnot
      rw [hkept l hl hne]
      exact h.waiting l hl hnot
    -- the new path matches `l₀`
    have hfound : ∀ d s', Augmented adjacency s.1 d s.2 l₀ s' →
        PhaseInv adjacency m d₀ (processed ++ [l₀]) (s'.matching, s'.distance) := by
      intro d s' hs'
      constructor
      · exact hs'.valid
      · exact fun l hl => hwaiting s' hs'.free l ((hs'.matched l).mp hl).1
      · exact fun l hl => h.shrinks l ((hs'.matched l).mp hl).1
      · exact .inl ⟨l₀, h.shrinks l₀ hfree, fun hl => ((hs'.matched l₀).mp hl).2 rfl⟩
    rcases h.progress with ⟨l₁, hl₁, hmatched⟩ | ⟨hsame, hdistance, hgiven, hprocessed⟩
    · -- a path was found before: the layers for this search are the distances that are left
      have hlayers : ∀ l, s.2 l = s.2 l ∨ s.2 l = none := fun l => .inl rfl
      have hrun := ends_augmentIterative h.valid hfree hlayers hreached
        fun l hl hnone => absurd hnone hl
      refine hrun.bind fun s' hs' => .ok ?_
      rcases hs' with ⟨hs', _⟩ | hs'
      · constructor
        · exact hs'.matching ▸ h.valid
        · exact hs'.matching ▸ hwaiting s' hs'.free
        · exact hs'.matching ▸ h.shrinks
        · exact .inl ⟨l₁, hl₁, hs'.matching ▸ hmatched⟩
      · exact hfound _ s' hs'
    · have hrun := ends_augmentIterative h.valid hfree hdistance hreached
        fun l hl hnone => hsame ▸ hgiven l hl hnone
      refine hrun.bind fun s' hs' => .ok ?_
      rcases hs' with ⟨hs', hempty⟩ | hs'
      · constructor
        · exact hs'.matching ▸ h.valid
        · exact hs'.matching ▸ hwaiting s' hs'.free
        · exact hs'.matching ▸ h.shrinks
        · refine .inr ⟨hs'.matching.trans hsame, hs'.distance, hsame ▸ hs'.givenUp, ?_⟩
          intro l hl hfree'
          by_cases heq : l = l₀
          · rw [heq]
            exact hs'.ended hempty
          · have hmem : l ∈ processed := by simpa [heq] using hl
            have hkept : s'.distance l = s.2 l := hs'.free l (hsame ▸ hfree') heq
            exact hkept.trans (hprocessed l hmem hfree')
      · exact hfound _ s' hs'
  · rw [if_neg (by simpa using hfree)]
    refine .ok ⟨h.valid, ?_, h.shrinks, ?_⟩
    · intro l hl hnot
      exact h.waiting l hl fun hmem => hnot (mem_append_left _ hmem)
    · rcases h.progress with hmatched | ⟨hsame, hdistance, hgiven, hprocessed⟩
      · exact .inl hmatched
      refine .inr ⟨hsame, hdistance, hgiven, fun l hl hfree' => ?_⟩
      have hmem : l ∈ processed := by
        rcases mem_append.mp hl with hl | hl
        · exact hl
        · rw [mem_singleton.mp hl, ← hsame] at hfree'
          exact absurd hfree' hfree
      exact hprocessed l hmem hfree'

/-- A phase processes every left vertex. -/
lemma ends_augmentAll {lefts : List L} (hnodup : lefts.Nodup) (hvalid : Valid adjacency m)
    (hlayers : LayersInv adjacency m (fun _ => False) layers) :
    Ends (fun _ => False) (PhaseInv adjacency m layers.distance lefts)
      (augmentAll lefts adjacency m layers.distance) := by
  unfold augmentAll
  apply Ends.foldlM_split
  · intro processed l rest s hsplit h
    rw [hsplit] at hnodup
    apply h.augmentFrom
    exact fun hmem => (nodup_append.mp hnodup).2.2 l hmem l mem_cons_self rfl
  · constructor
    · exact hvalid
    · intro l hl _
      show layers.distance l ≠ none
      rw [hlayers.free l hl]
      exact nofun
    · exact fun l hl => hl
    · exact .inr ⟨rfl, fun l => .inl rfl, fun l hl hnone => absurd hnone hl, nofun⟩

omit [DecidableEq L] [DecidableEq R] in
/-- Fewer left nodes are free after a phase whose layers reach a free right node. -/
lemma free_lt_of_augments (hshrinks : ∀ l, s.1.leftMatch l = none → m.leftMatch l = none)
    (haugments : ∃ l, m.leftMatch l = none ∧ s.1.leftMatch l ≠ none) : s.1.free < m.free := by
  obtain ⟨l, hl, hmatched⟩ := haugments
  apply Finset.card_lt_card
  rw [Finset.ssubset_iff_of_subset (Finset.monotone_filter_right _ fun l _ => hshrinks l)]
  exact ⟨l, by simpa using hl, by simpa using hmatched⟩

end Phase

/-! ## The main loop -/

section Loop

variable [Fintype L]

/-- The left nodes that are matched. -/
def Matching.matched (m : Matching L R) : Finset L :=
  Finset.univ.filter fun left => m.leftMatch left ≠ none

omit [Fintype L] in
/-- Where the layers reach no free right node, an edge of a reached node leads to a matched right
node, whose partner is reached as well. -/
private lemma partner_of_reached {layers : Layers L}
    (hlayers : LayersInv adjacency m (fun _ => False) layers) (hfound : layers.found = false) {l : L}
    {r : R} (hr : r ∈ adjacency l) (hl : layers.distance l ≠ none) :
    ∃ next, m.rightMatch r = some next ∧ layers.distance next ≠ none := by
  obtain ⟨hfree, hpartner⟩ := hlayers.handled l hl (fun h => h) r hr
  cases hmatch : m.rightMatch r with
  | none =>
    rw [hfree hmatch] at hfound
    exact nomatch hfound
  | some next => exact ⟨next, rfl, hpartner next hmatch⟩

/-- Where the layers reach no free right node, no matching has more edges. -/
lemma length_le_card_matched {layers : Layers L} (hvalid : Valid adjacency m)
    (hlayers : LayersInv adjacency m (fun _ => False) layers) (hfound : layers.found = false)
    {pairs : List (L × R)} (hedge : ∀ p ∈ pairs, p.2 ∈ adjacency p.1)
    (hapart : pairs.Pairwise fun p q => p.1 ≠ q.1 ∧ p.2 ≠ q.2) : pairs.length ≤ m.matched.card := by
  classical
  -- an edge from outside the layers stands for its left node, the others for the partner of the right
  let cover : L × R → L := fun p =>
    if layers.distance p.1 = none then p.1 else (m.rightMatch p.2).getD p.1
  have hout : ∀ p, layers.distance p.1 = none → cover p = p.1 := fun p h => if_pos h
  have hin : ∀ p ∈ pairs, layers.distance p.1 ≠ none →
      m.rightMatch p.2 = some (cover p) ∧ layers.distance (cover p) ≠ none := by
    intro p hp hreached
    obtain ⟨next, hnext, hdist⟩ := partner_of_reached hlayers hfound (hedge p hp) hreached
    have hcover : cover p = next := by
      show (if layers.distance p.1 = none then p.1 else (m.rightMatch p.2).getD p.1) = next
      rw [if_neg hreached, hnext]
      rfl
    rw [hcover]
    exact ⟨hnext, hdist⟩
  have hmatched : ∀ p ∈ pairs, cover p ∈ m.matched := by
    intro p hp
    refine Finset.mem_filter.mpr ⟨Finset.mem_univ _, ?_⟩
    by_cases h : layers.distance p.1 = none
    · intro hfree
      rw [hout p h] at hfree
      rw [hlayers.free p.1 hfree] at h
      exact nomatch h
    · rw [(hvalid.agree (cover p) p.2).mpr (hin p hp h).1]
      exact nofun
  have hnodup : (pairs.map cover).Nodup := by
    apply pairwise_map.mpr
    refine hapart.imp_of_mem fun {p q} hp hq hpq heq => ?_
    by_cases h : layers.distance p.1 = none
    · by_cases h' : layers.distance q.1 = none
      · rw [hout p h, hout q h'] at heq
        exact hpq.1 heq
      · rw [← hout p h, heq] at h
        exact (hin q hq h').2 h
    by_cases h' : layers.distance q.1 = none
    · rw [← hout q h', ← heq] at h'
      exact (hin p hp h).2 h'
    · -- two right nodes with one partner
      have hp' := (hvalid.agree _ _).mpr (hin p hp h).1
      have hq' := (hvalid.agree _ _).mpr (hin q hq h').1
      rw [heq, hq'] at hp'
      exact hpq.2 (Option.some.inj hp').symm
  calc pairs.length = (pairs.map cover).toFinset.card := by
        rw [toFinset_card_of_nodup hnodup, length_map]
    _ ≤ m.matched.card := by
        apply Finset.card_le_card
        intro l hl
        obtain ⟨p, hp, heq⟩ := mem_map.mp (mem_toFinset.mp hl)
        exact heq ▸ hmatched p hp

variable {lefts : List L}

/-- What the main loop keeps; `control` is the one it was entered with. A phase costs a round and
matches a left node. -/
structure LoopInv (adjacency : L → List R) (control : AlgorithmControl) (s : PhaseState L R) :
    Prop where
  valid : Valid adjacency s.matching
  layers : LayersInv adjacency s.matching (fun _ => False) s.layers
  limits : s.control.limits = control.limits
  rounds : s.control.iterations + s.matching.free ≤ control.iterations + Fintype.card L + 1

lemma ends_enterPhase [DecidableEq L] (hlefts : ∀ l, l ∈ lefts) (hvalid : Valid adjacency m)
    {control before : AlgorithmControl} (hlimits : before.limits = control.limits)
    (hrounds : before.iterations + m.free ≤ control.iterations + Fintype.card L) :
    Ends (fun _ => control.limits.iterations < control.iterations + Fintype.card L + 1)
      (fun s => LoopInv adjacency control s ∧ s.matching = m)
      (enterPhase lefts adjacency m before) := by
  unfold enterPhase
  refine ((AlgorithmControl.ends_checkpoint before).mono_error fun e he => ?_).bind
    fun after hafter => ?_
  · rw [hlimits] at he
    omega
  · refine ((ends_findLayers hlefts).mono_error fun _ => False.elim).bind fun layers hlayers => ?_
    refine .ok ⟨⟨hvalid, hlayers, ?_, ?_⟩, rfl⟩
    · rw [hafter]
      exact hlimits
    · rw [hafter]
      show before.iterations + 1 + m.free ≤ _
      omega

lemma free_add_card_matched (m : Matching L R) : m.free + m.matched.card = Fintype.card L :=
  Finset.card_filter_add_card_filter_not fun l => m.leftMatch l = none

variable [DecidableEq L] [DecidableEq R]

/-- A phase that found a path leaves fewer free vertices. -/
lemma LoopInv.runPhase {control : AlgorithmControl} {s : PhaseState L R}
    (h : LoopInv adjacency control s) (hlefts : ∀ l, l ∈ lefts) (hnodup : lefts.Nodup)
    (hfound : s.layers.found = true) :
    Ends (fun _ => control.limits.iterations < control.iterations + Fintype.card L + 1)
      (fun s' => LoopInv adjacency control s' ∧ s'.matching.free < s.matching.free)
      (runPhase lefts adjacency s) := by
  unfold BipartiteMatching.runPhase
  refine ((ends_augmentAll hnodup h.valid h.layers).mono_error fun _ => False.elim).bind
    fun s' hphase => ?_
  have hlt := free_lt_of_augments hphase.shrinks (hphase.augments h.layers hfound hlefts)
  have hrounds := h.rounds
  refine (ends_enterPhase hlefts hphase.valid h.limits (by omega)).mono fun s'' hs'' => ?_
  exact ⟨hs''.1, hs''.2 ▸ hlt⟩

/-- The main loop ends, without a free right node in the layers. -/
lemma ends_runPhases (hlefts : ∀ l, l ∈ lefts) (hnodup : lefts.Nodup) (control : AlgorithmControl) :
    Ends (fun _ => control.limits.iterations < control.iterations + Fintype.card L + 1)
      (fun s => LoopInv adjacency control s ∧ s.layers.found = false)
      (runPhases lefts adjacency control) := by
  unfold runPhases
  have hempty : Valid adjacency ({ leftMatch := fun _ => none, rightMatch := fun _ => none } :
      Matching L R) := ⟨fun l r => ⟨nofun, nofun⟩, nofun⟩
  refine (ends_enterPhase hlefts hempty rfl
    (Nat.add_le_add_left (Finset.card_le_univ _) _)).bind fun s hs => ?_
  exact WhileLoop.ends_run (fun s h hfound => h.runPhase hlefts hnodup hfound) hs.1

end Loop

/-! ## The projection -/

/-- No two of the edges share an endpoint on either side. -/
def IsMatching (edges : List BipartiteEdge) : Prop :=
  edges.Pairwise fun a b => a.source ≠ b.source ∧ a.target ≠ b.target

/-- The edges lead from the left to the right nodes. -/
def Accepted (projection : BipartiteProjection) : Prop :=
  ∀ edge ∈ projection.edges, edge.source ∈ projection.leftNodes ∧ edge.target ∈ projection.rightNodes

section Projection

variable {nodes : List Uuid} {projection : BipartiteProjection}

/-- The index holds the last position of a node. -/
lemma lookup_indexOf (nodes : List Uuid) (node : Uuid) : (indexOf nodes).lookup node =
    topmost (fun i => if node = nodes.get i then some i else none) (finRange nodes.length) := by
  unfold indexOf topmost
  rw [← getD_findSome?_map_some]
  apply view_foldl (fun index node => AList.lookup node index)
    fun i q => (if q = nodes.get i then some i else none).map some
  intro i _ index q
  rw [Map.lookup_insert_ite]
  split <;> rfl

lemma get_of_lookup_indexOf {node : Uuid} {i : Fin nodes.length}
    (h : (indexOf nodes).lookup node = some i) : nodes.get i = node := by
  rw [lookup_indexOf] at h
  obtain ⟨j, _, hj⟩ := exists_of_findSome?_eq_some h
  split_ifs at hj with heq
  rw [← Option.some.inj hj, heq]

lemma not_mem_of_lookup_indexOf {node : Uuid} (h : (indexOf nodes).lookup node = none) :
    node ∉ nodes := by
  intro hnode
  obtain ⟨i, hi⟩ := get_of_mem hnode
  rw [lookup_indexOf, topmost, findSome?_eq_none_iff] at h
  have hnone := h i (mem_reverse.mpr (mem_finRange i))
  rw [if_pos hi.symm] at hnone
  cases hnone

/-- Nodes are the same where their positions are. -/
lemma eq_iff_of_lookup_indexOf {node node' : Uuid} {i i' : Fin nodes.length}
    (h : (indexOf nodes).lookup node = some i) (h' : (indexOf nodes).lookup node' = some i') :
    node = node' ↔ i = i' := by
  constructor
  · intro heq
    rw [heq, h'] at h
    exact (Option.some.inj h).symm
  · intro heq
    rw [← get_of_lookup_indexOf h, ← get_of_lookup_indexOf h', heq]

/-- The positions of the ends of an edge. -/
def Places (projection : BipartiteProjection) (edge : BipartiteEdge)
    (pair : Fin projection.leftNodes.length × Fin projection.rightNodes.length) : Prop :=
  (indexOf projection.leftNodes).lookup edge.source = some pair.1 ∧
    (indexOf projection.rightNodes).lookup edge.target = some pair.2

variable {edge edge' : BipartiteEdge}
  {pair pair' : Fin projection.leftNodes.length × Fin projection.rightNodes.length}

section
variable (h : Places projection edge pair) (h' : Places projection edge' pair')
include h h'

lemma Places.source_eq_iff :
    edge.source = edge'.source ↔ pair.1 = pair'.1 := eq_iff_of_lookup_indexOf h.1 h'.1

lemma Places.target_eq_iff :
    edge.target = edge'.target ↔ pair.2 = pair'.2 := eq_iff_of_lookup_indexOf h.2 h'.2

end

/-- What is recorded of the edges gone through. -/
structure RecordedInv (projection : BipartiteProjection) (edges : List BipartiteEdge)
    (recorded : Recorded projection.leftNodes.length projection.rightNodes.length) : Prop where
  placed : ∀ edge ∈ edges, ∃ pair ∈ recorded.pairs, Places projection edge pair
  kept : ∀ pair ∈ recorded.pairs, ∃ edge, recorded.edgeByPair.lookup pair = some edge
  sound : ∀ pair edge, recorded.edgeByPair.lookup pair = some edge →
    edge ∈ edges ∧ Places projection edge pair

lemma keepSmaller_eq (edge : BipartiteEdge) (current : Option BipartiteEdge) :
    keepSmaller edge current = edge ∨ current = some (keepSmaller edge current) := by
  cases current with
  | none => exact .inl rfl
  | some other =>
    by_cases hlt : edge.edge < other.edge
    · exact .inl (if_pos hlt)
    · exact .inr (congrArg some (if_neg hlt).symm)

/-- One edge is recorded, unless an end is outside. -/
lemma RecordedInv.recordEdge {edges : List BipartiteEdge}
    {recorded : Recorded projection.leftNodes.length projection.rightNodes.length}
    (h : RecordedInv projection edges recorded) (edge : BipartiteEdge) :
    Ends
      (fun _ => ¬ (edge.source ∈ projection.leftNodes ∧ edge.target ∈ projection.rightNodes))
      (RecordedInv projection (edges ++ [edge])) (recordEdge projection recorded edge) := by
  unfold BipartiteMatching.recordEdge
  cases hleft : (indexOf projection.leftNodes).lookup edge.source with
  | none => exact .error fun h => not_mem_of_lookup_indexOf hleft h.1
  | some left =>
    cases hright : (indexOf projection.rightNodes).lookup edge.target with
    | none => exact .error fun h => not_mem_of_lookup_indexOf hright h.2
    | some right =>
      refine .ok ⟨?_, ?_, ?_⟩
      · refine forall_mem_concat.mpr ⟨fun e he => ?_, ?_⟩
        · obtain ⟨pair, hpair, hplaces⟩ := h.placed e he
          exact ⟨pair, mem_append_left _ hpair, hplaces⟩
        · exact ⟨(left, right), mem_append_right _ mem_cons_self, hleft, hright⟩
      · intro pair hpair
        by_cases heq : pair = (left, right)
        · exact ⟨_, by rw [heq]; exact AList.lookup_insert _⟩
        · obtain ⟨e, he⟩ := h.kept pair (by simpa [heq] using hpair)
          exact ⟨e, (AList.lookup_insert_ne heq).trans he⟩
      · intro pair e he
        rw [Map.lookup_insert_ite] at he
        split_ifs at he with heq
        · replace he := Option.some.inj he
          rcases keepSmaller_eq edge (recorded.edgeByPair.lookup (left, right)) with hkeep | hkeep
          · rw [← he, hkeep, heq]
            exact ⟨mem_append_right _ mem_cons_self, hleft, hright⟩
          · rw [he] at hkeep
            obtain ⟨hmem, hplaces⟩ := h.sound _ e hkeep
            exact ⟨mem_append_left _ hmem, heq ▸ hplaces⟩
        · obtain ⟨hmem, hplaces⟩ := h.sound pair e he
          exact ⟨mem_append_left _ hmem, hplaces⟩

lemma ends_record (projection : BipartiteProjection) : Ends (fun _ => ¬ Accepted projection)
      (fun recorded => Accepted projection ∧ RecordedInv projection projection.edges recorded)
      (projection.edges.foldlM (recordEdge projection) { pairs := [], edgeByPair := ∅ }) := by
  have hloop := Ends.foldlM_mem
    (f := recordEdge projection) (I := RecordedInv projection) (E := fun _ => ¬ Accepted projection)
    projection.edges
    (fun done recorded edge hedge h =>
      (h.recordEdge edge).mono_error fun _ hnot haccepted => hnot (haccepted edge hedge))
    [] { pairs := [], edgeByPair := ∅ } ⟨nofun, nofun, nofun⟩
  refine hloop.mono fun recorded h => ⟨fun edge hedge => ?_, h⟩
  obtain ⟨pair, _, hplaces⟩ := h.placed edge hedge
  constructor
  · rw [← get_of_lookup_indexOf hplaces.1]
    exact get_mem _ _
  · rw [← get_of_lookup_indexOf hplaces.2]
    exact get_mem _ _

@[simp] lemma mem_adjacencyOf {n k : ℕ} {pairs : List (Fin n × Fin k)} {left : Fin n}
    {right : Fin k} : right ∈ adjacencyOf pairs left ↔ (left, right) ∈ pairs := by
  unfold adjacencyOf
  simp [eq_comm]

/-! ## The result -/

variable {recorded : Recorded projection.leftNodes.length projection.rightNodes.length}
  {m : Matching (Fin projection.leftNodes.length) (Fin projection.rightNodes.length)}

/-- The edges of the matched pairs, before they are sorted. -/
private def matchedEdges
    (recorded : Recorded projection.leftNodes.length projection.rightNodes.length)
    (m : Matching (Fin projection.leftNodes.length) (Fin projection.rightNodes.length)) :
    List BipartiteEdge :=
  (finRange projection.leftNodes.length).filterMap fun left =>
    (m.leftMatch left).bind fun right => recorded.edgeByPair.lookup (left, right)

section
variable (hrecorded : RecordedInv projection projection.edges recorded)
  (hvalid : Valid (adjacencyOf recorded.pairs) m)
include hrecorded hvalid

private lemma kept_of_matched {left : Fin projection.leftNodes.length}
    {right : Fin projection.rightNodes.length} (hmatch : m.leftMatch left = some right) :
    ∃ edge, recorded.edgeByPair.lookup (left, right) = some edge :=
  hrecorded.kept _ (mem_adjacencyOf.mp (hvalid.edge left right hmatch))

private lemma isMatching_matchedEdges : IsMatching (matchedEdges recorded m) := by
  refine Pairwise.filterMap _ ?_ (nodup_finRange projection.leftNodes.length)
  intro left left' hne edge hedge edge' hedge'
  obtain ⟨right, hmatch, hlookup⟩ := Option.bind_eq_some_iff.mp hedge
  obtain ⟨right', hmatch', hlookup'⟩ := Option.bind_eq_some_iff.mp hedge'
  have hplaces := (hrecorded.sound _ _ hlookup).2
  have hplaces' := (hrecorded.sound _ _ hlookup').2
  constructor
  · exact fun heq => hne ((hplaces.source_eq_iff hplaces').mp heq)
  · intro heq
    have hright : right = right' := (hplaces.target_eq_iff hplaces').mp heq
    rw [hvalid.agree] at hmatch hmatch'
    rw [hright, hmatch'] at hmatch
    exact hne (Option.some.inj hmatch).symm

private lemma length_matchedEdges : (matchedEdges recorded m).length = m.matched.card := by
  unfold matchedEdges Matching.matched
  rw [length_filterMap_eq_countP, countP_eq_length_filter]
  show _ = ((finRange projection.leftNodes.length).filter
    fun left => decide (m.leftMatch left ≠ none)).length
  congr 1
  apply filter_congr
  intro left _
  cases hmatch : m.leftMatch left with
  | none => rfl
  | some right =>
    obtain ⟨edge, hedge⟩ := kept_of_matched hrecorded hvalid hmatch
    show (recorded.edgeByPair.lookup (left, right)).isSome = _
    rw [hedge]
    rfl

end

/-- The result is a matching of the graph, and no matching of the graph has more edges. -/
structure IsMaximumMatching (projection : BipartiteProjection) (edges : List BipartiteEdge) :
    Prop where
  subset : ∀ edge ∈ edges, edge ∈ projection.edges
  isMatching : IsMatching edges
  maximum : ∀ other : List BipartiteEdge, (∀ edge ∈ other, edge ∈ projection.edges) →
    IsMatching other → other.length ≤ edges.length

lemma IsMatching.perm {edges edges' : List BipartiteEdge} (h : IsMatching edges)
    (hperm : edges.Perm edges') : IsMatching edges' :=
  Pairwise.perm h hperm fun hab => ⟨hab.1.symm, hab.2.symm⟩

/-- The pairs of positions of another matching. -/
private lemma exists_pairs (hrecorded : RecordedInv projection projection.edges recorded)
    {other : List BipartiteEdge} (hsubset : ∀ edge ∈ other, edge ∈ projection.edges)
    (hother : IsMatching other) :
    ∃ pairs : List (Fin projection.leftNodes.length × Fin projection.rightNodes.length),
      pairs.length = other.length ∧ (∀ p ∈ pairs, p.2 ∈ adjacencyOf recorded.pairs p.1) ∧
      pairs.Pairwise fun p q => p.1 ≠ q.1 ∧ p.2 ≠ q.2 := by
  have hplaced : ∀ edge : { edge // edge ∈ other }, ∃ pair ∈ recorded.pairs,
      Places projection edge.1 pair := fun edge => hrecorded.placed _ (hsubset _ edge.2)
  choose place hmem hplaces using hplaced
  refine ⟨other.attach.map place, by simp, ?_, ?_⟩
  · intro p hp
    obtain ⟨edge, _, rfl⟩ := mem_map.mp hp
    exact mem_adjacencyOf.mpr (hmem edge)
  · apply pairwise_map.mpr
    have hattach : other.attach.Pairwise
        fun a b => a.1.source ≠ b.1.source ∧ a.1.target ≠ b.1.target := by
      rw [← pairwise_map (R := fun a b : BipartiteEdge =>
        a.source ≠ b.source ∧ a.target ≠ b.target), attach_map_subtype_val]
      exact hother
    refine hattach.imp fun {a b} hab => ⟨fun heq => hab.1 ?_, fun heq => hab.2 ?_⟩
    · exact ((hplaces a).source_eq_iff (hplaces b)).mpr heq
    · exact ((hplaces a).target_eq_iff (hplaces b)).mpr heq

/-- The edges of the matched pairs are a maximum matching once the layers reach no free right node. -/
private lemma isMaximumMatching_of_perm (hrecorded : RecordedInv projection projection.edges recorded)
    {control : AlgorithmControl}
    {s : PhaseState (Fin projection.leftNodes.length) (Fin projection.rightNodes.length)}
    (hs : LoopInv (adjacencyOf recorded.pairs) control s) (hfound : s.layers.found = false)
    {edges : List BipartiteEdge} (hperm : edges.Perm (matchedEdges recorded s.matching)) :
    IsMaximumMatching projection edges := by
  constructor
  · intro edge hedge
    obtain ⟨left, _, hleft⟩ := mem_filterMap.mp (hperm.mem_iff.mp hedge)
    obtain ⟨right, _, hlookup⟩ := Option.bind_eq_some_iff.mp hleft
    exact (hrecorded.sound _ _ hlookup).1
  · exact (isMatching_matchedEdges hrecorded hs.valid).perm hperm.symm
  · intro other hsubset hother
    obtain ⟨pairs, hpairs, hedge, hapart⟩ := exists_pairs hrecorded hsubset hother
    have hle := length_le_card_matched hs.valid hs.layers hfound hedge hapart
    rwa [hpairs, ← length_matchedEdges hrecorded hs.valid, ← hperm.length_eq] at hle

/-- The call fails only for an edge that is not accepted, or for lack of rounds or rows. -/
lemma ends_maximumBipartiteMatching (projection : BipartiteProjection) (control : AlgorithmControl) :
    Ends
      (fun _ => Accepted projection →
        control.limits.iterations < control.iterations + projection.leftNodes.length + 2 ∨
        control.limits.outputRows < projection.leftNodes.length)
      (fun edges => Accepted projection ∧ IsMaximumMatching projection edges)
      (maximumBipartiteMatching projection control) := by
  unfold maximumBipartiteMatching
  refine ((AlgorithmControl.ends_checkpoint control).mono_error fun _ he _ => .inl (by omega)).bind
    fun after hafter => ?_
  refine ((ends_record projection).mono_error fun _ hnot haccepted => absurd haccepted hnot).bind
    fun recorded ⟨haccepted, hrecorded⟩ => ?_
  refine Ends.bind (P := fun s =>
    LoopInv (adjacencyOf recorded.pairs) after s ∧ s.layers.found = false) ?_ ?_
  · refine (ends_runPhases mem_finRange (nodup_finRange _) after).mono_error
      fun _ he _ => .inl ?_
    rw [hafter, Fintype.card_fin] at he
    show control.limits.iterations < _
    replace he : control.limits.iterations <
      control.iterations + 1 + projection.leftNodes.length + 1 := he
    omega
  · intro s ⟨hs, hfound⟩
    have hperm := perm_insertionSort (fun a b : BipartiteEdge =>
      toLex (a.source, toLex (a.target, a.edge)) ≤ toLex (b.source, toLex (b.target, b.edge)))
      (matchedEdges recorded s.matching)
    have hlength := length_matchedEdges hrecorded hs.valid
    rw [← hperm.length_eq] at hlength
    have hcard := free_add_card_matched s.matching
    rw [Fintype.card_fin] at hcard
    unfold AlgorithmControl.checkOutputRows
    rw [hs.limits, hafter]
    refine (ends_refuseIf fun hrows => ?_).bind fun _ _ =>
      .ok ⟨haccepted, isMaximumMatching_of_perm hrecorded hs hfound hperm⟩
    exact fun _ => .inr (Nat.lt_of_lt_of_le hrows (hlength.trans_le (by omega)))

end Projection

/-- An accepted projection has a maximum matching for its result, which shares no endpoint where the
sides of the split are disjoint; the call succeeds with a round for each left node and two more.
Every phase whose layers reach a free right node leaves fewer left nodes free. -/
theorem maximumBipartiteMatching_maximum (projection : BipartiteProjection) :
    (∀ control edges, maximumBipartiteMatching projection control = .ok edges →
      Accepted projection ∧ IsMaximumMatching projection edges ∧
      ((∀ node ∈ projection.leftNodes, node ∉ projection.rightNodes) →
        edges.Pairwise fun a b => ∀ node ∈ [a.source, a.target], node ∉ [b.source, b.target])) ∧
    (Accepted projection → ∀ control : AlgorithmControl,
      control.iterations + projection.leftNodes.length + 2 ≤ control.limits.iterations →
      projection.leftNodes.length ≤ control.limits.outputRows →
      ∃ edges, maximumBipartiteMatching projection control = .ok edges) ∧
    ∀ (pairs : List (Fin projection.leftNodes.length × Fin projection.rightNodes.length)) matching,
      Valid (adjacencyOf pairs) matching →
      ∃ layers next distance,
        findLayers (finRange _) (adjacencyOf pairs) matching = .ok layers ∧
        augmentAll (finRange _) (adjacencyOf pairs) matching layers.distance =
          .ok (next, distance) ∧
        Valid (adjacencyOf pairs) next ∧
        (layers.found = true → next.free < matching.free) := by
  refine ⟨fun control edges hok => ?_, fun haccepted control hrounds hrows => ?_,
    fun pairs matching hvalid => ?_⟩
  · obtain ⟨haccepted, hmaximum⟩ := (ends_maximumBipartiteMatching projection control).of_ok hok
    refine ⟨haccepted, hmaximum, fun hsplit => ?_⟩
    refine hmaximum.isMatching.imp_of_mem fun {a b} ha hb hab node hnode hnode' => ?_
    obtain ⟨hsource, htarget⟩ := haccepted a (hmaximum.subset a ha)
    obtain ⟨hsource', htarget'⟩ := haccepted b (hmaximum.subset b hb)
    -- a source is no target, and the others differ
    have hcross : ∀ x ∈ projection.leftNodes, ∀ y ∈ projection.rightNodes, x ≠ y :=
      fun x hx y hy heq => hsplit x hx (heq ▸ hy)
    simp only [mem_cons, not_mem_nil, or_false] at hnode hnode'
    rcases hnode with rfl | rfl
    · exact hnode'.elim hab.1 (hcross _ hsource _ htarget')
    · exact hnode'.elim (fun heq => hcross _ hsource' _ htarget heq.symm) hab.2
  · have hends := (ends_maximumBipartiteMatching projection control).mono_error
      (F := fun _ => False) fun _ he => by
        have := he haccepted
        omega
    obtain ⟨edges, hok, _⟩ := hends.exists_ok
    exact ⟨edges, hok⟩
  · have hsearch : Ends _ (LayersInv (adjacencyOf pairs) matching fun _ => False) _ :=
      ends_findLayers mem_finRange
    obtain ⟨layers, hlayersOk, hlayers⟩ := hsearch.exists_ok
    obtain ⟨⟨next, distance⟩, hphaseOk, hphase⟩ :=
      (ends_augmentAll (nodup_finRange _) hvalid hlayers).exists_ok
    refine ⟨layers, next, distance, hlayersOk, hphaseOk, hphase.valid, fun hfound => ?_⟩
    exact free_lt_of_augments hphase.shrinks (hphase.augments hlayers hfound mem_finRange)

/-- Three left and three right nodes; the first phase matches two of the left nodes to the nodes that
the others need. -/
def zigzag : BipartiteProjection where
  leftNodes := [1, 2, 3]
  rightNodes := [4, 5, 6]
  edges := [⟨1, 1, 4⟩, ⟨2, 1, 5⟩, ⟨3, 2, 4⟩, ⟨4, 3, 5⟩, ⟨5, 3, 6⟩]

/-- Room for the rounds of the sample. -/
def zigzagControl : AlgorithmControl where
  limits := { iterations := 8, outputRows := 3 }
  iterations := 0

theorem maximumBipartiteMatching_maximum_zigzag : Accepted zigzag ∧
    maximumBipartiteMatching zigzag zigzagControl = .ok [⟨2, 1, 5⟩, ⟨3, 2, 4⟩, ⟨5, 3, 6⟩] ∧
    IsMaximumMatching zigzag [⟨2, 1, 5⟩, ⟨3, 2, 4⟩, ⟨5, 3, 6⟩] := by
  have haccepted : Accepted zigzag := by
    unfold Accepted
    decide
  have hresult : maximumBipartiteMatching zigzag zigzagControl =
      .ok [⟨2, 1, 5⟩, ⟨3, 2, 4⟩, ⟨5, 3, 6⟩] := by decide +kernel
  obtain ⟨hsound, hcomplete, _⟩ := maximumBipartiteMatching_maximum zigzag
  obtain ⟨edges, hedges⟩ := hcomplete haccepted zigzagControl (by decide) (by decide)
  obtain rfl := Except.ok.inj (hresult.symm.trans hedges)
  exact ⟨haccepted, hresult, (hsound zigzagControl _ hedges).2.1⟩

end GraphForge.Algorithms.BipartiteMatching
