import Mathlib.Data.Sym.Sym2
import GraphForge.Algorithms.BiconnectedInvariant

/-!
# The blocks are the maximal biconnected sets

The traversal keeps the invariants of the edge stack and of the blocks round by round. After the
last root every node but the roots is absorbed, so every biconnected set lies in a block.
-/

namespace GraphForge.Algorithms.Biconnected

open List DepthFirst Relation BiconnectedSets Except Function

/-! ## The rounds of the traversal -/

section Rounds

variable {V : Type} {adjacency : V → List V} {s : State V} {v w p : V} {i : ℕ}
  {rest : List (V × ℕ)}

/-- The node was entered from the one recorded as its parent. -/
abbrev Parent (parent : V → Option V) (u x : V) : Prop := parent x = some u

/-- An entry counts for the low links unless it leads back to the parent. -/
abbrev Counted (parent : V → Option V) (x y : V) : Prop := parent x ≠ some y

/-- A node the walk has seen has its discovery time as its number. -/
lemma number_of_seen (h : s.walk.Seen v) : (s.discovery v).getD 0 = s.walk.num v := by
  have htime : s.discovery v = some (s.walk.num v) := Walk.time_of_seen h
  rw [htime]
  rfl

variable [LinearOrder V]

/-- What holds of the traversal between two rounds. -/
structure TraversalInv (adjacency : V → List V) (s : State V) : Prop where
  tree : TreeInv adjacency some (Parent s.parent) s.walk
  joined : ∀ u x, Parent s.parent u x → Adjacent adjacency u x
  low : LowInv adjacency some (Counted s.parent) s.lowlink s.walk
  roots : RootsFirst adjacency some (Parent s.parent) s.walk
  stack : StackInv adjacency (Parent s.parent) s.lowlink s.edgeStack s.walk
  blocks : BlocksInv adjacency (Absorbed (Parent s.parent) s.edgeStack) s.blocks

namespace TraversalInv

section
variable (h : TraversalInv adjacency s)
include h

lemma links (hsimple : Simple adjacency) (u x : V) (hlink : TreeLink (Parent s.parent) u x) :
    Adjacent adjacency u x :=
  hlink.elim (h.joined u x) fun hux => hsimple.symm _ _ (h.joined x u hux)

section
variable (hpath : s.walk.path = (v, i) :: rest) (ha : (adjacency v)[i]? = some w)
  (hw : s.walk.Seen w)
include hpath ha hw

lemma skip (hnot : s.parent v = some w ∨ s.walk.num v ≤ s.walk.num w) :
    TraversalInv adjacency { s with frames := (v, i + 1) :: rest } := by
  have hv := onPath_end hpath
  refine { h with
    tree := h.tree.skip hpath ha rfl hw
    low := h.low.skip hpath ha rfl (fun _ _ => rfl) (Nat.le_refl _) ?_
    stack := h.stack.skip hpath }
  intro hcounted
  exact (h.low.low_le v hv).trans (hnot.resolve_left hcounted)

lemma push (hlt : s.walk.num w < s.walk.num v) {low : V → ℕ}
    (hother : ∀ u, u ≠ v → low u = s.lowlink u) (hself : low v = min (s.lowlink v) (s.walk.num w)) :
    TraversalInv adjacency { s with
      frames := (v, i + 1) :: rest, edgeStack := (v, w) :: s.edgeStack, lowlink := low } := by
  have hv := onPath_end hpath
  have hedge : Adjacent adjacency v w := ⟨w, mem_of_getElem? ha, rfl⟩
  have hwon : s.walk.OnPath w :=
    h.tree.back v hv v ⟨h.tree.walk.onPath_seen hv, Nat.le_refl _⟩ w hedge hw hlt
  have hself' : low v = s.lowlink v ∨ low v = s.walk.num w := by
    rcases Nat.le_total (s.lowlink v) (s.walk.num w) with hle | hle
    · exact .inl (hself.trans (Nat.min_eq_left hle))
    · exact .inr (hself.trans (Nat.min_eq_right hle))
  refine { h with
    tree := h.tree.skip hpath ha rfl hw
    low := ?_
    stack := h.stack.push h.tree hpath hedge hwon hlt hother hself'
    blocks := ?_ }
  · show LowInv _ _ _ low _
    refine h.low.skip hpath ha rfl hother ?_ ?_
    · rw [hself]
      exact Nat.min_le_left _ _
    · intro _
      rw [hself]
      exact Nat.min_le_right _ _
  · refine h.blocks.congr (absorbed_cons_iff (fun hq => ?_) (fun _ _ => .inl) fun _ _ => id)
    -- the pushed edge leads back, so it is no tree edge
    have := (h.tree.parent v w hq).2.2.1
    omega

end

lemma start (hsimple : Simple adjacency) (hpath : s.walk.path = []) (hw : ¬ s.walk.Seen w) :
    TraversalInv adjacency (s.discover w) := by
  have hwalk : (s.discover w).walk = s.walk.enter w [] := by
    rw [← hpath]
    rfl
  have hother : ∀ u, u ≠ w → (s.discover w).lowlink u = s.lowlink u :=
    fun u hu => update_of_ne hu _ _
  have hself : (s.discover w).lowlink w = s.walk.next := update_self ..
  constructor
  all_goals try rw [hwalk]
  · exact h.tree.start hsimple.symm hpath hw
  · exact h.joined
  · exact h.low.start h.tree.walk hpath hw (fun _ _ _ => .inl) hother hself
  · exact h.roots.start h.tree.walk hsimple.symm hpath hw
  · exact h.stack.start h.tree hpath hw hother hself
  · exact h.blocks

lemma descend (hsimple : Simple adjacency) (hpath : s.walk.path = (v, i) :: rest)
    (ha : (adjacency v)[i]? = some w) (hw : ¬ s.walk.Seen w) :
    TraversalInv adjacency ({ s with
      frames := (v, i + 1) :: rest
      parent := update s.parent w (some v)
      edgeStack := (v, w) :: s.edgeStack }.discover w) := by
  have hedge : Adjacent adjacency v w := ⟨w, mem_of_getElem? ha, rfl⟩
  have hP : ∀ u x, Parent (update s.parent w (some v)) u x ↔
      Parent s.parent u x ∨ (u = v ∧ x = w) := by
    intro u x
    unfold Parent
    by_cases hxw : x = w
    · rw [hxw, update_self]
      have hnone : s.parent w ≠ some u := fun hu => hw (h.tree.parent u w hu).1
      simp [hnone, eq_comm]
    · simp [hxw]
  have hother : ∀ u, u ≠ w → update s.lowlink w s.nextDiscovery u = s.lowlink u :=
    fun u hu => update_of_ne hu _ _
  have hself : update s.lowlink w s.nextDiscovery w = s.walk.next := update_self ..
  obtain ⟨hstack, habsorbed⟩ := h.stack.descend h.tree hpath hedge hw hP hother hself
  constructor
  · exact h.tree.descend hsimple.symm hpath ha rfl hw hP
  · intro u x hux
    rcases (hP u x).mp hux with hux | ⟨rfl, rfl⟩
    · exact h.joined u x hux
    · exact hedge
  · refine h.low.descend h.tree.walk hpath ha rfl hw (fun x hx b => ?_) hother hself
    show update s.parent w (some v) x ≠ some b → _
    rw [update_of_ne fun hxw => hw (by rwa [hxw] at hx)]
    exact .inl
  · exact h.roots.descend h.tree.walk hw hP _
  · exact hstack
  · exact h.blocks.congr habsorbed

lemma leave_root (hpath : s.walk.path = (v, i) :: rest) (hrow : (adjacency v)[i]? = none)
    (hparent : s.parent v = none) : TraversalInv adjacency { s with frames := rest } := by
  have hroot : ∀ u, ¬ Parent s.parent u v := by
    intro u hu
    rw [Parent, hparent] at hu
    cases hu
  have hnil := h.tree.rest_eq_nil hpath hroot
  refine { h with
    tree := h.tree.leave hpath hrow
    low := h.low.leave h.tree.walk hpath hrow (fun _ => Nat.le_refl _) ?_
    stack := h.stack.leave_root hpath hroot }
  rw [hnil]
  exact nofun

end

section Leave

variable {low : V → ℕ}

/-- The low link of a node that is left goes to its parent. -/
private lemma low_leave (h : TraversalInv adjacency s) {j : ℕ} {below : List (V × ℕ)}
    (hpath : s.walk.path = (v, i) :: (p, j) :: below) (hrow : (adjacency v)[i]? = none)
    (hother : ∀ u, u ≠ p → low u = s.lowlink u) (hself : low p = min (s.lowlink p) (s.lowlink v)) :
    LowInv adjacency some (Counted s.parent) low (s.walk.withPath ((p, j) :: below)) := by
  refine h.low.leave h.tree.walk hpath hrow ?_ ?_
  · intro u
    by_cases hu : u = p
    · rw [hu, hself]
      exact Nat.min_le_left _ _
    · rw [hother u hu]
  · intro u hu
    obtain rfl : p = u := Option.some.inj hu
    rw [hself]
    exact Nat.min_le_right _ _

section
variable (h : TraversalInv adjacency s) (hsimple : Simple adjacency)
  (hpath : s.walk.path = (v, i) :: rest) (hrow : (adjacency v)[i]? = none)
  (hparent : s.parent v = some p) (hother : ∀ u, u ≠ p → low u = s.lowlink u)
  (hself : low p = min (s.lowlink p) (s.lowlink v))
include h hsimple hpath hrow hparent hother hself

/-- Leaving a node whose low link passes its parent by. -/
lemma leave (hlow : s.lowlink v < s.walk.num p) :
    TraversalInv adjacency { s with frames := rest, lowlink := low } := by
  obtain ⟨j, below, rfl⟩ := h.tree.exists_below_of_parent hpath hparent
  refine { h with
    tree := h.tree.leave hpath hrow
    low := h.low_leave hpath hrow hother hself
    stack := h.stack.leave h.tree (h.links hsimple) hpath hrow hlow hother ?_ }
  show low p = s.lowlink p ∨ low p = s.lowlink v
  omega

/-- Leaving a node whose low link does not pass its parent by: a block is cut. -/
lemma cut (hlow : s.walk.num p ≤ s.lowlink v) :
    ∃ above below, s.edgeStack = above ++ (p, v) :: below ∧ (p, v) ∉ above ∧
      ∀ B : List V, B.Pairwise (· < ·) → (∀ x, x ∈ B ↔ ∃ e ∈ above ++ [(p, v)], x = e.1 ∨ x = e.2) →
        TraversalInv adjacency { s with
          frames := rest, lowlink := low, edgeStack := below, blocks := s.blocks ++ [B] } := by
  obtain ⟨j, lower, rfl⟩ := h.tree.exists_below_of_parent hpath hparent
  have hv := onPath_end hpath
  have hp : s.walk.OnPath p := ⟨j, hpath ▸ mem_cons_of_mem _ mem_cons_self⟩
  obtain ⟨above, below, hstack⟩ := append_of_mem (h.stack.path_open v hv p hparent)
  have hcut : Cutting adjacency (Parent s.parent) s.lowlink s.edgeStack s.walk p v i j lower := {
    inv := h.stack
    tree := h.tree
    links := h.links hsimple
    path := hpath
    exits := fun x y hx hxy hy =>
      eq_of_exit h.tree h.low (fun _ _ _ heq _ hcounted => Option.some.inj heq ▸ not_not.mp hcounted)
        hpath hrow hlow hx hxy hy
    low_le := h.low.low_le }
  -- the low link of the parent stays, being at most its number
  have hsame : low = s.lowlink := by
    funext u
    by_cases hu : u = p
    · have := h.low.low_le p hp
      rw [hu, hself]
      omega
    · exact hother u hu
  refine ⟨above, below, hstack, fun hmem => ?_, fun B hsorted hB => ?_⟩
  · have hge := ((h.stack.split above p v below hstack hv hparent).1 _ hmem).2
    have := hcut.num_lt
    simp only at hge
    omega
  · refine { h with
      tree := h.tree.leave hpath hrow
      low := h.low_leave hpath hrow hother hself
      stack := ?_
      blocks := hcut.blocksInv hstack hsimple h.blocks hsorted hB }
    show StackInv adjacency _ low below _
    rw [hsame]
    exact hcut.stackInv hstack

end

end Leave

end TraversalInv

/-- Popping a block takes the edges down to the boundary. -/
lemma popBlock_append {boundary : V × V} {above below : List (V × V)} (hfresh : boundary ∉ above)
    (block : List V) :
    popBlock boundary block (above ++ boundary :: below) =
      .ok (ascending (block ++ (above ++ [boundary]).flatMap fun e => [e.1, e.2]), below) := by
  induction above generalizing block with
  | nil =>
    show (if boundary = boundary then _ else _) = _
    rw [if_pos rfl]
    rfl
  | cons e above ih =>
    have hne : e ≠ boundary := fun heq => hfresh (heq ▸ mem_cons_self)
    show (if e = boundary then _
      else popBlock boundary (block ++ [e.1, e.2]) (above ++ boundary :: below)) = _
    rw [if_neg hne, ih fun hmem => hfresh (mem_cons_of_mem _ hmem)]
    simp only [append_assoc, cons_append, flatMap_cons, nil_append]

/-- Completing a node keeps the invariant and finds its boundary on the stack. -/
lemma ends_complete (h : TraversalInv adjacency s) (hsimple : Simple adjacency)
    (hframes : s.frames = (v, i) :: rest) (hrow : (adjacency v)[i]? = none) :
    Ends (fun _ => False)
      (fun s' => TraversalInv adjacency s' ∧ s'.walk = s.walk.withPath rest)
      ({ s with frames := rest }.complete v) := by
  unfold State.complete
  cases hparent : s.parent v with
  | none =>
    exact .ok ⟨h.leave_root hframes hrow hparent, rfl⟩
  | some p =>
    obtain ⟨-, hps, hplt, -⟩ := h.tree.parent p v hparent
    have hvp : v ≠ p := fun heq => by
      rw [heq] at hplt
      omega
    have hother : ∀ u, u ≠ p →
        update s.lowlink p (min (s.lowlink p) (s.lowlink v)) u = s.lowlink u :=
      fun u hu => update_of_ne hu _ _
    simp only [State.lower, State.number, number_of_seen hps, hother v hvp]
    by_cases hlow : s.walk.num p ≤ s.lowlink v
    · rw [if_pos hlow]
      obtain ⟨above, below, hstack, hfresh, hcut⟩ :=
        h.cut hsimple hframes hrow hparent hother (update_self ..) hlow
      rw [hstack, popBlock_append hfresh]
      refine .ok ⟨hcut _ (pairwise_ascending _) fun x => ?_, rfl⟩
      simp
    · rw [if_neg hlow]
      exact .ok ⟨h.leave hsimple hframes hrow hparent hother (update_self ..) (by omega), rfl⟩

lemma ends_visit [Fintype V] (h : TraversalInv adjacency s) (hsimple : Simple adjacency)
    (hframes : s.frames ≠ []) :
    Ends (fun _ => False)
      (fun s' => (TraversalInv adjacency s' ∧ ∀ v, s.walk.Seen v → s'.walk.Seen v) ∧
        work adjacency s'.walk < work adjacency s.walk) (s.visit adjacency) := by
  unfold State.visit
  cases hf : s.frames with
  | nil => exact absurd hf hframes
  | cons frame rest =>
    obtain ⟨v, i⟩ := frame
    have hpath : s.walk.path = (v, i) :: rest := hf
    have hv := onPath_end hpath
    simp only
    cases ha : (adjacency v)[i]? with
    | none =>
      refine (ends_complete h hsimple hf ha).mono fun s' ⟨hs', hwalk⟩ => ?_
      rw [hwalk]
      exact ⟨⟨hs', fun _ => id⟩, work_leave h.tree.walk hpath⟩
    | some w =>
      simp only
      cases hw : s.discovery w with
      | none =>
        have hunseen : ¬ s.walk.Seen w := fun hseen => hseen hw
        have hwork := work_descend hpath ha hunseen
        exact .ok ⟨⟨h.descend hsimple hf ha hunseen, fun v hv => Walk.seen_enter.mpr (.inr hv)⟩,
          hwork⟩
      | some number =>
        have hseen : s.walk.Seen w := Walk.seen_of_time hw
        have hnumber : s.walk.num w = number := Walk.num_of_time hw
        have hwork := work_skip hpath ha
        simp only [State.number, number_of_seen (h.tree.walk.onPath_seen hv)]
        by_cases hpush : s.parent v ≠ some w ∧ number < s.walk.num v
        · rw [if_pos hpush]
          refine .ok ⟨⟨h.push hf ha hseen (by omega)
            (fun u hu => update_of_ne hu _ _) ?_, fun _ => id⟩, hwork⟩
          rw [update_self, hnumber]
        rw [if_neg hpush]
        refine .ok ⟨⟨h.skip hf ha hseen ?_, fun _ => id⟩, hwork⟩
        by_cases hparent : s.parent v = some w
        · exact .inl hparent
        · by_contra hlt
          exact hpush ⟨hparent, by omega⟩

end Rounds

lemma traversalInv_initial {V : Type} [LinearOrder V] {adjacency : V → List V} :
    TraversalInv adjacency State.initial := by
  have hunseen : ∀ v, ¬ (State.initial (V := V)).walk.Seen v := fun v hv => hv rfl
  have hoff : ∀ v, ¬ (State.initial (V := V)).walk.OnPath v := fun v ⟨_, hi⟩ => nomatch hi
  have hroot : ∀ u x, ¬ Parent (State.initial (V := V)).parent u x := fun u x hu => nomatch hu
  constructor
  · exact .empty hunseen rfl hroot
  · exact fun u x hu => absurd hu (hroot u x)
  · exact .empty rfl
  · exact fun r hr => absurd hr (hunseen r)
  · constructor
    · exact fun f hf => absurd hf (hoff f)
    · exact fun _ q f _ _ hf => absurd hf (hoff f)
    · exact nofun
    · exact nofun
    · exact nofun
    · exact nofun
    · exact nofun
    · exact fun v hv => absurd hv (hoff v)
  · constructor
    · exact nofun
    · exact nofun
    · exact nofun
    · exact fun S _ => .inr fun x _ ⟨q, hq, _⟩ => hroot q x hq
    · exact Pairwise.nil

section Traversal

variable {n : ℕ} {adjacency : Fin n → List (Fin n)}

section
variable {s : State (Fin n)} (h : TraversalInv adjacency s) (hsimple : Simple adjacency)
  (hframes : s.frames = [])
include h hsimple hframes

/-- Between two roots the path is empty, and so is the edge stack. -/
lemma ends_traverse (root : Fin n) : Ends (fun _ => False)
      (fun s' => TraversalInv adjacency s' ∧ s'.frames = [] ∧ s'.walk.Seen root ∧
        ∀ v, s.walk.Seen v → s'.walk.Seen v) (traverse adjacency s root) := by
  unfold traverse
  by_cases hroot : (s.discovery root).isSome
  · rw [if_pos hroot]
    exact .ok ⟨h, hframes, Option.isSome_iff_ne_none.mp hroot, fun _ => id⟩
  rw [if_neg hroot]
  have hunseen : ¬ s.walk.Seen root := fun hseen => hroot (Option.isSome_iff_ne_none.mpr hseen)
  refine (ends_root State.walk (fun t ht hcond => ends_visit ht hsimple (by simpa using hcond))
    (h.start hsimple hframes hunseen) rfl).bind fun s' hs' => ?_
  have hnil : s'.frames = [] := by simpa using hs'.2.1
  exact Ends.pass (not_not.mpr (hs'.1.stack.stack_eq_nil hs'.1.tree hnil))
    (.ok ⟨hs'.1, hnil, hs'.2.2⟩)

/-- After the last root every biconnected set lies in a block. -/
lemma TraversalInv.exists_block (hall : ∀ v, s.walk.Seen v) {S : Set (Fin n)}
    (hS : Block (Adjacent adjacency) S) : ∃ B ∈ s.blocks, S ⊆ {x | x ∈ B} := by
  refine (h.blocks.cover S hS).resolve_right fun hopen => ?_
  have hstack := h.stack.stack_eq_nil h.tree hframes
  -- what is not absorbed then is a root, and no two roots are adjacent
  have hroot : ∀ x ∈ S, ∀ u, ¬ Parent s.parent u x := by
    intro x hx u hu
    have := StackInv.mem_of_not_absorbed (hopen x hx) hu
    rw [hstack] at this
    cases this
  obtain ⟨a, ha, b, hb, hab⟩ := hS.nontrivial
  obtain ⟨x, hx, y, hy, hxa, hya, hxy⟩ := hS.connected.exists_exit hsimple.symm (T := {a}) ha hb rfl
    fun hba => hab (Set.mem_singleton_iff.mp hba).symm
  have hle := h.roots x (hall x) (hroot x hx) y hxy (hall y)
  have hge := h.roots y (hall y) (hroot y hy) x (hsimple.symm x y hxy) (hall x)
  have heq := h.tree.walk.num_inj x y (hall x) (hall y) (Nat.le_antisymm hle hge)
  rw [heq] at hxy
  exact hsimple.irrefl y hxy

end

end Traversal

/-! ## The result -/

section Result

variable {graph : AdjacencyGraph}

/-- The adjacency lists are those of the simple undirected projection. -/
lemma ends_projectedEdges : Ends (fun e => e = unselectedNode ∧ ¬ Selected graph)
      (fun edges => Selected graph ∧ ∀ v w, w ∈ adjacencyOf edges v ↔ Projects graph v w)
      (projectedEdges graph) := by
  unfold projectedEdges
  refine ends_resolveEntries.bind fun pairs ⟨hselected, hpairs⟩ => .ok ⟨hselected, fun v w => ?_⟩
  -- an edge of the list, the smaller end first, stands for either pair
  have hends : ∀ a b : graph.Ordinal, (min a b = v ∧ max a b = w) ∨ (min a b = w ∧ max a b = v) ↔
      (a = v ∧ b = w) ∨ (a = w ∧ b = v) := by
    intro a b
    rcases le_total a b with h | h
    · rw [min_eq_left h, max_eq_right h]
    · rw [min_eq_right h, max_eq_left h]
      tauto
  unfold adjacencyOf
  rw [mem_insertionSort, mem_flatMap_joined]
  have hmem : ∀ a b, (a, b) ∈ (ascending (pairs.map fun pair =>
      toLex (min pair.1 pair.2, max pair.1 pair.2))).map ofLex ↔
      ∃ pair ∈ pairs, min pair.1 pair.2 = a ∧ max pair.1 pair.2 = b := by
    simp [mem_ascending]
  rw [hmem, hmem, ← exists_or]
  simp only [← and_or_left, hends]
  constructor
  · rintro ⟨⟨a, b⟩, hpair, ⟨rfl, rfl⟩ | ⟨rfl, rfl⟩⟩
    · obtain ⟨hne, hentry⟩ := (hpairs a b).mp hpair
      exact ⟨hne, .inl hentry⟩
    · obtain ⟨hne, hentry⟩ := (hpairs a b).mp hpair
      exact ⟨hne.symm, .inr hentry⟩
  · rintro ⟨hne, hentry | hentry⟩
    · exact ⟨(v, w), (hpairs v w).mpr ⟨hne, hentry⟩, .inl ⟨rfl, rfl⟩⟩
    · exact ⟨(w, v), (hpairs w v).mpr ⟨hne.symm, hentry⟩, .inr ⟨rfl, rfl⟩⟩

/-- What the kernel returns: biconnected blocks that cover every biconnected set, two of which share
at most one node. -/
lemma ends_biconnectedBlocks : Ends (fun e => e = unselectedNode ∧ ¬ Selected graph)
      (fun blocks => Selected graph ∧ (∀ B ∈ blocks, B.Pairwise (· < ·)) ∧
        (∀ B ∈ blocks, Block (Projects graph) {x | x ∈ B}) ∧
        (∀ S, Block (Projects graph) S → ∃ B ∈ blocks, S ⊆ {x | x ∈ B}) ∧
        blocks.Pairwise fun B B' => ({x | x ∈ B} ∩ {x | x ∈ B'}).Subsingleton)
      (biconnectedBlocks graph) := by
  unfold biconnectedBlocks
  refine ends_projectedEdges.bind fun edges ⟨hselected, hedges⟩ => ?_
  have hadjacent : Adjacent (adjacencyOf edges) = Projects graph := by
    funext u v
    refine propext ⟨fun ⟨a, ha, heq⟩ => ?_, fun huv => ⟨v, (hedges u v).mpr huv, rfl⟩⟩
    rw [← Option.some.inj heq]
    exact (hedges u a).mp ha
  have hsimple : Simple (adjacencyOf edges) := by
    constructor
    · rw [hadjacent]
      exact fun u v => projects_symm
    · rw [hadjacent]
      exact fun v hv => hv.1 rfl
  refine ((ends_roots State.walk (I := fun s => TraversalInv (adjacencyOf edges) s ∧ s.frames = [])
    ?_ (finRange graph.nodeIds.length) ⟨traversalInv_initial, rfl⟩).mono_error
    fun _ => False.elim).bind ?_
  · intro s root ⟨h, hframes⟩
    exact (ends_traverse h hsimple hframes root).mono fun s' hs' => ⟨⟨hs'.1, hs'.2.1⟩, hs'.2.2⟩
  · intro s ⟨⟨h, hframes⟩, hseen⟩
    have hall : ∀ v, s.walk.Seen v := fun v => hseen v (mem_finRange v)
    have hmem : ∀ B, B ∈ s.blocks.insertionSort (· ≤ ·) ↔ B ∈ s.blocks :=
      fun B => mem_insertionSort _
    refine .ok ⟨hselected, fun B hB => ?_, fun B hB => ?_, fun S hS => ?_, ?_⟩
    · exact h.blocks.ascending B ((hmem B).mp hB)
    · rw [← hadjacent]
      exact h.blocks.block B ((hmem B).mp hB)
    · rw [← hadjacent] at hS
      obtain ⟨B, hB, hsub⟩ := h.exists_block hsimple hframes hall hS
      exact ⟨B, (hmem B).mpr hB, hsub⟩
    · refine (Perm.pairwise_iff ?_ (perm_insertionSort _ _)).mpr h.blocks.share
      intro B B' hBB'
      rwa [Set.inter_comm]

/-- A bridge is a block of its own: a third node would give a way around it. -/
lemma eq_pair_of_bridge {V : Type} {r : V → V → Prop} {u v : V} {S : Set V} (hS : Block r S)
    (hu : u ∈ S) (hv : v ∈ S) (huv : u ≠ v)
    (hbridge : ¬ EqvGen (fun a b => r a b ∧ s(a, b) ≠ s(u, v)) u v) : S = {u, v} := by
  refine Set.Subset.antisymm (fun w hw => ?_) (Set.insert_subset hu (Set.singleton_subset_iff.mpr hv))
  by_contra hnot
  have hwu : w ≠ u := fun heq => hnot (.inl heq)
  have hwv : w ≠ v := fun heq => hnot (.inr heq)
  -- from `u` to `w` without `v`, and on to `v` without `u`
  have havoid : ∀ x, (x = u ∨ x = v) → ∀ a b, within r (S \ {x}) a b →
      r a b ∧ s(a, b) ≠ s(u, v) := by
    intro x hx a b ⟨ha, hb, hab⟩
    refine ⟨hab, fun heq => ?_⟩
    rcases Sym2.eq_iff.mp heq with ⟨rfl, rfl⟩ | ⟨rfl, rfl⟩
    · rcases hx with rfl | rfl
      · exact ha.2 rfl
      · exact hb.2 rfl
    · rcases hx with rfl | rfl
      · exact hb.2 rfl
      · exact ha.2 rfl
  have hout := hS.without v u ⟨hu, huv⟩ w ⟨hw, hwv⟩
  have hback := hS.without u w ⟨hw, hwu⟩ v ⟨hv, huv.symm⟩
  exact hbridge ((EqvGen.mono (havoid v (.inr rfl)) _ _ hout).trans _ _ _
    (EqvGen.mono (havoid u (.inl rfl)) _ _ hback))

/-- The blocks are exactly the maximal biconnected sets of the simple undirected projection. Every
projected edge lies in one block, and a bridge is a block; two blocks share at most one node. The
only failure is an entry that leads out of the selection. -/
theorem biconnectedBlocks_exact (graph : AdjacencyGraph) :
    (¬ Selected graph → biconnectedBlocks graph = .error unselectedNode) ∧
    (Selected graph → ∃ blocks neighbors, biconnectedBlocks graph = .ok blocks ∧
      simpleUndirectedNeighbors graph = .ok neighbors ∧
      (∀ u v, v ∈ neighbors u ↔ Projects graph u v) ∧
      (∀ S : Set graph.Ordinal, Maximal (Block (Projects graph)) S ↔ ∃ B ∈ blocks, S = {x | x ∈ B}) ∧
      (∀ B ∈ blocks, B.Pairwise (· < ·)) ∧ blocks.Nodup ∧
      (∀ u v, Projects graph u v → ∃! B, B ∈ blocks ∧ u ∈ B ∧ v ∈ B) ∧
      (∀ u v, Projects graph u v →
        ¬ EqvGen (fun a b => Projects graph a b ∧ s(a, b) ≠ s(u, v)) u v →
        ∃ B ∈ blocks, {x | x ∈ B} = {u, v}) ∧
      ∀ B ∈ blocks, ∀ B' ∈ blocks, B ≠ B' → ({x | x ∈ B} ∩ {x | x ∈ B'}).Subsingleton) := by
  have hrefuses := (@ends_biconnectedBlocks graph).refuses
  constructor
  · exact hrefuses.1
  · intro hselected
    obtain ⟨blocks, hok, hsorted, hblock, hcover, hshare⟩ := hrefuses.2 hselected
    obtain ⟨neighbors, hneighbors, hprojects⟩ := ends_simpleUndirectedNeighbors.refuses.2 hselected
    have hpair : ∀ B ∈ blocks, ∀ B' ∈ blocks, B ≠ B' →
        ({x | x ∈ B} ∩ {x | x ∈ B'}).Subsingleton := by
      have hsymm : Std.Symm fun B B' : List graph.Ordinal =>
          ({x | x ∈ B} ∩ {x | x ∈ B'}).Subsingleton := ⟨fun B B' h => Set.inter_comm _ _ ▸ h⟩
      exact fun B hB B' hB' => hshare.forall hB hB'
    -- the sets determine the blocks, which are sorted
    have hnodup : blocks.Nodup := by
      refine hshare.imp_of_mem fun {B B'} hB _ hsub heq => ?_
      obtain ⟨a, ha, b, hb, hab⟩ := (hblock B hB).nontrivial
      rw [← heq, Set.inter_self] at hsub
      exact hab (hsub ha hb)
    have hunique : ∀ u v, u ≠ v → ∀ B ∈ blocks, ∀ B' ∈ blocks, u ∈ B → v ∈ B → u ∈ B' → v ∈ B' →
        B = B' := by
      intro u v huv B hB B' hB' hu hv hu' hv'
      by_contra hne
      exact huv (hpair B hB B' hB' hne ⟨hu, hu'⟩ ⟨hv, hv'⟩)
    refine ⟨blocks, neighbors, hok, hneighbors, fun u v => (hprojects u).2 v, fun S => ?_, hsorted,
      hnodup, fun u v huv => ?_, fun u v huv hbridge => ?_, hpair⟩
    · rw [maximal_iff_of_cover (F := {S | ∃ B ∈ blocks, S = {x | x ∈ B}})]
      · exact Iff.rfl
      · rintro _ ⟨B, hB, rfl⟩
        exact hblock B hB
      · intro S hS
        obtain ⟨B, hB, hsub⟩ := hcover S hS
        exact ⟨_, ⟨B, hB, rfl⟩, hsub⟩
      · rintro _ ⟨B, hB, rfl⟩ _ ⟨B', hB', rfl⟩ hne
        exact hpair B hB B' hB' fun heq => hne (heq ▸ rfl)
    · obtain ⟨B, hB, hsub⟩ := hcover _ (block_pair huv huv.1)
      refine ⟨B, ⟨hB, hsub (.inl rfl), hsub (.inr rfl)⟩, fun B' ⟨hB', hu, hv⟩ => ?_⟩
      exact hunique u v huv.1 B' hB' B hB hu hv (hsub (.inl rfl)) (hsub (.inr rfl))
    · obtain ⟨B, hB, hsub⟩ := hcover _ (block_pair huv huv.1)
      exact ⟨B, hB, eq_pair_of_bridge (hblock B hB) (hsub (.inl rfl)) (hsub (.inr rfl)) huv.1 hbridge⟩

/-- Two triangles that share a node, and a pendant edge. -/
def bowtie : AdjacencyGraph where
  nodeIds := [10, 11, 12, 13, 14, 15]
  ascending := by decide
  neighbors := fun u =>
    if u = 10 then [⟨11⟩, ⟨12⟩]
    else if u = 11 then [⟨12⟩, ⟨10⟩]
    else if u = 12 then [⟨13⟩, ⟨14⟩, ⟨12⟩]
    else if u = 13 then [⟨14⟩]
    else if u = 14 then [⟨15⟩]
    else []

/-- The blocks of the two triangles and of the pendant edge. -/
def bowtieBlocks : List (List bowtie.Ordinal) :=
  let node : Fin 6 → bowtie.Ordinal := fun i => i
  [[node 0, node 1, node 2], [node 2, node 3, node 4], [node 4, node 5]]

theorem biconnectedBlocks_exact_bowtie :
    Selected bowtie ∧ biconnectedBlocks bowtie = .ok bowtieBlocks ∧
    ∀ B ∈ bowtieBlocks, Maximal (Block (Projects bowtie)) {x | x ∈ B} := by
  have hselected : Selected bowtie := by
    unfold Selected
    decide
  have hresult : biconnectedBlocks bowtie = .ok bowtieBlocks := by decide +kernel
  obtain ⟨blocks, _, hok, -, -, hmaximal, -⟩ := (biconnectedBlocks_exact bowtie).2 hselected
  rw [hresult] at hok
  obtain rfl := Except.ok.inj hok
  exact ⟨hselected, hresult, fun B hB => (hmaximal _).mpr ⟨B, hB, rfl⟩⟩

end Result

end GraphForge.Algorithms.Biconnected
