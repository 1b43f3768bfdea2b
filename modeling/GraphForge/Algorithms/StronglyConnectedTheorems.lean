import GraphForge.Algorithms.StronglyConnected
import GraphForge.Lib.DepthFirstTree

/-!
# The labels are the strongly connected components

The invariant of the traversal says what the low links know. A node of the component stack that is
not on the path has a low link below its number, which is the number of a node of the stack it
reaches. And an edge looked at, between two nodes of the stack, has been accounted for: some node of
the path at or after any given one before the edge has a low link that is not above the number of
the edge's target. So when a node is completed with its own number as low link, no edge leads from
the nodes above it on the stack to a node of the stack below it, and all of them reach it.
-/

namespace GraphForge.Algorithms.StronglyConnected

open List DepthFirst Relation Except Function

variable {V A : Type} {rows : V → List A} {target : A → Option V}

/-- Each of the two nodes reaches the other. -/
def Mutual (rows : V → List A) (target : A → Option V) (u v : V) : Prop :=
  ReflTransGen (Edge rows target) u v ∧ ReflTransGen (Edge rows target) v u

/-- Each frame was opened by the frame below it. -/
def ParentsMatch : List (DfsFrame V) → Prop
  | [] => True
  | frame :: frames => frame.parent = (frames.head?).map (·.node) ∧ ParentsMatch frames

/-- An entry counts for the low links while both its ends are on the component stack. -/
def Counts (target : A → Option V) (stack : List V) (x : V) (a : A) : Prop :=
  x ∈ stack ∧ ∃ y ∈ stack, target a = some y

/-- What holds of the traversal between two rounds. -/
structure TraversalInv (rows : V → List A) (target : A → Option V) (s : State V) : Prop where
  walk : Inv rows target s.walk
  below : Below (Edge rows target) s.walk
  parents : ParentsMatch s.frames
  onStack_iff : ∀ v, s.onStack v = true ↔ v ∈ s.componentStack
  stack_seen : ∀ v ∈ s.componentStack, s.walk.Seen v
  stack_sorted : s.componentStack.Pairwise fun u v => s.walk.num v < s.walk.num u
  path_stack : ∀ v, s.walk.OnPath v → v ∈ s.componentStack
  low : LowInv rows target (Counts target s.componentStack) s.lowlink s.walk
  low_reached : ∀ v ∈ s.componentStack, ∃ x ∈ s.componentStack, s.walk.num x = s.lowlink v ∧
    ReflTransGen (Edge rows target) v x
  low_lt : ∀ v ∈ s.componentStack, ¬ s.walk.OnPath v → s.lowlink v < s.walk.num v
  -- closed components are not left
  closed : ∀ v, s.walk.Seen v → v ∉ s.componentStack → ∀ y, Edge rows target v y →
    s.walk.Seen y ∧ y ∉ s.componentStack
  labelled : ∀ v, (s.rawLabels v).isSome ↔ s.walk.Seen v ∧ v ∉ s.componentStack
  label_lt : ∀ v c, s.rawLabels v = some c → c < s.componentCount
  classes : ∀ u v c, s.rawLabels u = some c → (s.rawLabels v = some c ↔ Mutual rows target u v)

namespace TraversalInv

attribute [grind →] stack_seen path_stack

variable {s : State V}

lemma path_of_nil (hframes : s.frames = []) : s.walk.path = [] := by
  show State.positions s.frames = []
  rw [hframes]
  rfl

/-- A node of a closed component reaches closed components only. -/
lemma closed_of_reach (h : TraversalInv rows target s) {v y : V} (hv : s.walk.Seen v)
    (hstack : v ∉ s.componentStack) (hreach : ReflTransGen (Edge rows target) v y) :
    s.walk.Seen y ∧ y ∉ s.componentStack := by
  induction hreach with
  | refl => exact ⟨hv, hstack⟩
  | tail _ hedge ih => exact h.closed _ ih.1 ih.2 _ hedge

/-- The component stack holds nothing when the path is empty: its oldest node would have a low link
below its number. -/
lemma stack_eq_nil (h : TraversalInv rows target s) (hframes : s.frames = []) :
    s.componentStack = [] := by
  have hoff : ∀ v, ¬ s.walk.OnPath v := by
    have := path_of_nil hframes
    grind
  rw [eq_nil_iff_forall_not_mem]
  intro v hv
  induction hn : s.walk.num v using Nat.strongRecOn generalizing v with
  | ind n ih =>
    obtain ⟨x, hx, hnum, -⟩ := h.low_reached v hv
    have hlt := h.low_lt v hv (hoff v)
    exact ih (s.walk.num x) (by omega) x hx rfl

section Completed

variable {v : V} {i : ℕ} {rest : List (V × ℕ)}

/-- The nodes of the stack that were met since `v` was: what is above it on the stack, with it. -/
private def Above (s : State V) (v x : V) : Prop :=
  x ∈ s.componentStack ∧ s.walk.num v ≤ s.walk.num x

section
variable (h : TraversalInv rows target s) (hpath : s.walk.path = (v, i) :: rest)
  (hrow : (rows v)[i]? = none) (hroot : s.lowlink v = s.walk.num v)
include h hpath hrow hroot

/-- An edge from above a completed root leads above it or to a closed component. -/
lemma above_or_closed {x y : V} (hx : Above s v x) (hreach : ReflTransGen (Edge rows target) x y) :
    Above s v y ∨ (s.walk.Seen y ∧ y ∉ s.componentStack) := by
  induction hreach with
  | refl => exact .inl hx
  | @tail z y _ hedge ih =>
    rcases ih with hz | ⟨hz, hoff⟩
    · have hzs : s.walk.Since v z := ⟨h.stack_seen z hz.1, hz.2⟩
      by_cases hy : y ∈ s.componentStack
      · left
        obtain ⟨a, ha, htarget⟩ := hedge
        have hlow := h.low.le_num h.walk hpath hrow hzs ha ⟨hz.1, y, hy, htarget⟩ htarget
        rw [hroot] at hlow
        exact ⟨hy, hlow⟩
      · exact .inr ⟨h.walk.seen_of_since hpath hrow hzs hedge, hy⟩
    · exact .inr (h.closed z hz hoff y hedge)

/-- What is above a completed root is its component. -/
lemma mutual_iff_above (x : V) : Mutual rows target v x ↔ Above s v x := by
  have hon := onPath_end hpath
  have hv : Above s v v := ⟨h.path_stack v hon, Nat.le_refl _⟩
  constructor
  · intro ⟨hvx, hxv⟩
    rcases h.above_or_closed hpath hrow hroot hv hvx with hx | ⟨hx, hoff⟩
    · exact hx
    · exact absurd hv.1 (h.closed_of_reach hx hoff hxv).2
  · intro hx
    constructor
    · have hbelow := h.below v hon x ⟨h.stack_seen x hx.1, hx.2⟩
      exact ReflTransGen.mono (fun a b hab => hab.1) _ _ hbelow
    · -- along low links, which fall until they come to `v`
      induction hn : s.walk.num x using Nat.strongRecOn generalizing x with
      | ind n ih =>
        by_cases hxv : x = v
        · rw [hxv]
        have hoff : ¬ s.walk.OnPath x := by
          intro hxon
          exact h.walk.num_ne (h.stack_seen x hx.1) (h.walk.onPath_seen hon) hxv
            (Nat.le_antisymm (h.walk.num_le_of_onPath hpath hxon) hx.2)
        obtain ⟨z, hz, hnum, hreach⟩ := h.low_reached x hx.1
        have hlt := h.low_lt x hx.1 hoff
        rcases h.above_or_closed hpath hrow hroot hx hreach with hz' | ⟨-, hz'⟩
        · exact hreach.trans (ih (s.walk.num z) (by omega) z hz' rfl)
        · exact absurd hz hz'

end

end Completed

section Rounds

variable {v w : V} {i : ℕ} {a : A} {frame : DfsFrame V} {frames : List (DfsFrame V)}

lemma path_of_frames (hframes : s.frames = frame :: frames) :
    s.walk.path = (frame.node, frame.nextNeighbor) :: State.positions frames := by
  show State.positions s.frames = _
  rw [hframes]
  rfl

section
variable (h : TraversalInv rows target s) (hframes : s.frames = frame :: frames)
include h hframes

/-- Looking at an entry whose target was discovered: the low link of the node may fall to the
number of the target, and does so when the target is on the component stack. -/
lemma advance (ha : (rows frame.node)[frame.nextNeighbor]? = some a) (htarget : target a = some w)
    (hw : s.walk.Seen w) {low : V → ℕ} (hother : ∀ u, u ≠ frame.node → low u = s.lowlink u)
    (hle : low frame.node ≤ s.lowlink frame.node)
    (hreached : low frame.node = s.lowlink frame.node ∨
      (w ∈ s.componentStack ∧ low frame.node = s.walk.num w))
    (hlow : w ∈ s.componentStack → low frame.node ≤ s.walk.num w) :
    TraversalInv rows target { s with
      frames := { frame with nextNeighbor := frame.nextNeighbor + 1 } :: frames, lowlink := low } := by
  have hpath := path_of_frames hframes
  have hon := fun u => onPath_withPath_next (u := u) hpath
  have hlow_le : ∀ u, low u ≤ s.lowlink u := by
    intro u
    by_cases hu : u = frame.node <;> grind
  have hparents := h.parents
  rw [hframes] at hparents
  refine { h with
    walk := h.walk.skip hpath ha htarget hw
    below := h.below.skip hpath
    parents := hparents
    path_stack := fun u hu => h.path_stack u ((hon u).mp hu)
    low := ?_
    low_reached := ?_
    low_lt := ?_ }
  · refine h.low.skip hpath ha htarget hother hle fun ⟨_, y, hy, hay⟩ => hlow ?_
    rwa [Option.some.inj (htarget.symm.trans hay)]
  · intro u hu
    by_cases hunode : u = frame.node
    · subst hunode
      rcases hreached with heq | ⟨hstack, heq⟩
      · obtain ⟨x, hx, hnum, hreach⟩ := h.low_reached _ hu
        exact ⟨x, hx, hnum.trans heq.symm, hreach⟩
      · exact ⟨w, hstack, heq.symm, .single ⟨a, mem_of_getElem? ha, htarget⟩⟩
    · obtain ⟨x, hx, hnum, hreach⟩ := h.low_reached u hu
      exact ⟨x, hx, hnum.trans (hother u hunode).symm, hreach⟩
  · intro u hu hoff
    exact Nat.lt_of_le_of_lt (hlow_le u) (h.low_lt u hu fun huon => hoff ((hon u).mpr huon))

/-- Leaving a node that is not the root of its component: its low link goes to the node below. -/
lemma leave (hrow : (rows frame.node)[frame.nextNeighbor]? = none)
    (hroot : s.lowlink frame.node ≠ s.walk.num frame.node) {low : V → ℕ}
    (hle : ∀ u, low u ≤ s.lowlink u) (hchanged : ∀ u, low u = s.lowlink u ∨
      (frames.head?.map (·.node) = some u ∧ low u = s.lowlink frame.node))
    (hparent : ∀ u, frames.head?.map (·.node) = some u → low u ≤ s.lowlink frame.node) :
    TraversalInv rows target { s with frames, lowlink := low } := by
  have hpath := path_of_frames hframes
  have hoff := fun u => onPath_withPath_rest (u := u) hpath
  have hnode := onPath_end hpath
  have hstack := h.path_stack _ hnode
  have hparents := h.parents
  rw [hframes] at hparents
  -- the node below has an edge to the node that is left
  have hedge : ∀ u, frames.head?.map (·.node) = some u → Edge rows target u frame.node := by
    intro u hu
    have hlinked := h.walk.linked
    rw [hpath] at hlinked
    cases frames with
    | nil => cases hu
    | cons below frames =>
      obtain rfl := Option.some.inj hu
      exact (isChain_cons_cons.mp hlinked).1
  refine { h with
    walk := h.walk.leave hpath hrow
    below := h.below.leave hpath
    parents := hparents.2
    path_stack := fun u hu => h.path_stack u (hoff u hu)
    low := ?_
    low_reached := ?_
    low_lt := ?_ }
  · exact h.low.leave h.walk hpath hrow hle fun u hu => hparent u (by cases frames <;> exact hu)
  · intro u hu
    rcases hchanged u with heq | ⟨hhead, heq⟩
    · obtain ⟨x, hx, hnum, hreach⟩ := h.low_reached u hu
      exact ⟨x, hx, hnum.trans heq.symm, hreach⟩
    · obtain ⟨x, hx, hnum, hreach⟩ := h.low_reached _ hstack
      exact ⟨x, hx, hnum.trans heq.symm, hreach.head (hedge u hhead)⟩
  · intro u hu huoff
    by_cases hunode : u = frame.node
    · rw [hunode]
      exact Nat.lt_of_le_of_lt (hle _) (Nat.lt_of_le_of_ne (h.low.low_le _ hnode) hroot)
    · exact Nat.lt_of_le_of_lt (hle u)
        (h.low_lt u hu fun huon => huoff (onPath_rest_of_ne hpath huon hunode))

end

/-- The entries that count once a node is met. -/
lemma counts_cons {x : V} {b : A} (hw : ¬ s.walk.Seen w) (hx : s.walk.Seen x)
    (h : Counts target (w :: s.componentStack) x b) :
    Counts target s.componentStack x b ∨ target b = some w := by
  unfold Counts at *
  grind

variable [DecidableEq V]

section
variable (h : TraversalInv rows target s)
include h

/-- Discovering a node, once the frames below it are those of the same path. -/
private lemma discover (hw : ¬ s.walk.Seen w) {parent : Option V} {frames : List (DfsFrame V)}
    (hwalk : Inv rows target (s.walk.enter w (State.positions frames)))
    (hbelow : Below (Edge rows target) (s.walk.enter w (State.positions frames)))
    (hlow : ∀ low : V → ℕ, (∀ u, u ≠ w → low u = s.lowlink u) → low w = s.walk.next →
      LowInv rows target (Counts target (w :: s.componentStack)) low
        (s.walk.enter w (State.positions frames)))
    (hparents : ParentsMatch ({ node := w, nextNeighbor := 0, parent } :: frames))
    (hpath : ∀ u, (s.walk.withPath (State.positions frames)).OnPath u ↔ s.walk.OnPath u) :
    TraversalInv rows target ({ s with frames }.discover w parent) := by
  have hinv := h.walk
  generalize ht : { s with frames }.discover w parent = t
  have hlow_ne : ∀ u, u ≠ w → t.lowlink u = s.lowlink u := ht ▸ fun u hu => update_of_ne hu _ _
  have hlow_self : t.lowlink w = s.walk.next := ht ▸ update_self ..
  have hstack : t.componentStack = w :: s.componentStack := ht ▸ rfl
  have hlabels : t.rawLabels = s.rawLabels := ht ▸ rfl
  have hon : ∀ u, (s.walk.enter w (State.positions frames)).OnPath u ↔ u = w ∨ s.walk.OnPath u := by
    intro u
    rw [onPath_enter, hpath]
  constructor
  all_goals try rw [show t.walk = s.walk.enter w (State.positions frames) from ht ▸ rfl]
  · exact hwalk
  · exact hbelow
  · exact ht ▸ hparents
  · intro u
    rw [hstack, ← ht]
    show update s.onStack w true u = true ↔ u ∈ w :: s.componentStack
    by_cases huw : u = w <;> simp [huw, h.onStack_iff]
  · grind
  · rw [hstack]
    exact pairwise_cons.mpr ⟨by grind, h.stack_sorted.imp_of_mem (by grind)⟩
  · grind
  · rw [hstack]
    exact hlow _ hlow_ne hlow_self
  · intro u hu
    by_cases huw : u = w
    · exact ⟨u, hu, by grind, .refl⟩
    · obtain ⟨x, hx, hxnum, hreach⟩ := h.low_reached u (by grind)
      exact ⟨x, by grind, by grind, hreach⟩
  · intro u hu hoff
    have hold := h.low_lt u
    by_cases huw : u = w <;> grind
  · intro u hu hstack y hedge
    have hold := h.closed u
    grind
  · intro u
    rw [hlabels, h.labelled]
    grind
  · exact ht ▸ h.label_lt
  · exact hlabels ▸ h.classes

lemma start (hframes : s.frames = []) (hw : ¬ s.walk.Seen w) :
    TraversalInv rows target (s.discover w none) := by
  have hpath := path_of_nil hframes
  rw [show s = { s with frames := [] } by rw [← hframes]]
  refine h.discover hw (h.walk.start hpath hw) (Below.start h.walk hw) ?_ ⟨rfl, trivial⟩ ?_
  · exact fun low => h.low.start h.walk hpath hw fun x hx b => counts_cons hw hx
  · intro u
    show (s.walk.withPath []).OnPath u ↔ _
    rw [Walk.withPath_self hpath]

lemma descend (hframes : s.frames = frame :: frames)
    (ha : (rows frame.node)[frame.nextNeighbor]? = some a) (htarget : target a = some w)
    (hw : ¬ s.walk.Seen w) :
    TraversalInv rows target
      ({ s with frames := { frame with nextNeighbor := frame.nextNeighbor + 1 } :: frames }.discover w
        (some frame.node)) := by
  have hpath := path_of_frames hframes
  have hparents := h.parents
  rw [hframes] at hparents
  refine h.discover hw ?_ ?_ ?_ ?_ ?_
  · exact h.walk.descend hpath ha htarget hw
  · exact h.below.descend h.walk hpath hw (fun _ _ => id) ⟨a, mem_of_getElem? ha, htarget⟩
  · exact fun low => h.low.descend h.walk hpath ha htarget hw fun x hx b => counts_cons hw hx
  · exact ⟨rfl, hparents⟩
  · exact fun u => onPath_withPath_next hpath

end

/-- Closing a component pops the members down to its root. -/
lemma popComponent_append (above below : List V) (hv : v ∉ above) (s : State V) :
    State.popComponent v (above ++ v :: below) s = .ok { s with
      componentStack := below
      onStack := fun u => if u ∈ above ++ [v] then false else s.onStack u
      rawLabels := fun u => if u ∈ above ++ [v] then some s.componentCount else s.rawLabels u } := by
  induction above generalizing s with
  | nil =>
    show (if v = v then _ else _) = _
    rw [if_pos rfl]
    congr 2 <;> funext u <;> by_cases hu : u = v <;> simp [hu]
  | cons member above ih =>
    have hmember : member ≠ v := fun heq => hv (heq ▸ mem_cons_self)
    show (if member = v then _ else State.popComponent v (above ++ v :: below) _) = _
    rw [if_neg hmember, ih fun hmem => hv (mem_cons_of_mem _ hmem)]
    congr 2 <;> funext u <;> by_cases hu : u = member <;> simp [hu]

omit [DecidableEq V] in
/-- The nodes above a node of the stack, with it, are those met since. -/
lemma mem_above_iff (h : TraversalInv rows target s) {above below : List V}
    (hstack : s.componentStack = above ++ v :: below) (x : V) :
    (x ∈ above ++ [v] ↔ Above s v x) ∧
      (x ∈ below ↔ x ∈ s.componentStack ∧ s.walk.num x < s.walk.num v) := by
  have hsorted := h.stack_sorted
  rw [hstack, pairwise_append, pairwise_cons] at hsorted
  obtain ⟨-, ⟨hbelow, -⟩, habove⟩ := hsorted
  have hlt : x ∈ above → s.walk.num v < s.walk.num x :=
    fun hxa => habove x hxa v mem_cons_self
  unfold Above
  grind

/-- Closing the component of a completed root. -/
lemma close (h : TraversalInv rows target s) (hframes : s.frames = frame :: frames)
    (hrow : (rows frame.node)[frame.nextNeighbor]? = none)
    (hroot : s.lowlink frame.node = s.walk.num frame.node) {above below : List V}
    (hstack : s.componentStack = above ++ frame.node :: below) :
    TraversalInv rows target { s with
      frames
      componentStack := below
      onStack := fun u => if u ∈ above ++ [frame.node] then false else s.onStack u
      rawLabels := fun u =>
        if u ∈ above ++ [frame.node] then some s.componentCount else s.rawLabels u
      componentCount := s.componentCount + 1 } := by
  have hpath := path_of_frames hframes
  have hoff := fun u => onPath_withPath_rest (u := u) hpath
  have hmem := h.mem_above_iff hstack
  have hmutual := h.mutual_iff_above hpath hrow hroot
  have hparents := h.parents
  rw [hframes] at hparents
  have hbelow : ∀ u ∈ below, u ∈ s.componentStack ∧ s.walk.num u < s.walk.num frame.node :=
    fun u hu => (hmem u).2.mp hu
  have habove : ∀ u, u ∈ above ++ [frame.node] ↔ u ∈ s.componentStack ∧ u ∉ below := by
    intro u
    rw [(hmem u).1, (hmem u).2]
    unfold Above
    grind
  constructor
  · exact h.walk.leave hpath hrow
  · exact h.below.leave hpath
  · exact hparents.2
  · intro u
    show (if u ∈ above ++ [frame.node] then false else s.onStack u) = true ↔ u ∈ below
    have := h.onStack_iff u
    grind
  · exact fun u hu => h.stack_seen u (hbelow u hu).1
  · have hsorted := h.stack_sorted
    rw [hstack, pairwise_append, pairwise_cons] at hsorted
    exact hsorted.2.1.2
  · intro u hu
    exact (hmem u).2.mpr ⟨h.path_stack u (hoff u hu), h.walk.num_lt_end hpath hu⟩
  · refine (h.low.leave h.walk hpath hrow (fun _ => Nat.le_refl _) fun u hu => ?_).mono ?_
    · have hon : (s.walk.withPath _).OnPath u := onPath_of_head hu
      have := h.low.low_le u (hoff u hon)
      have := h.walk.num_lt_end hpath hon
      omega
    · exact fun x a ⟨hx, y, hy, hay⟩ => ⟨(hbelow x hx).1, y, (hbelow y hy).1, hay⟩
  · intro u hu
    obtain ⟨hus, hlt⟩ := hbelow u hu
    obtain ⟨x, hx, hnum, hreach⟩ := h.low_reached u hus
    have hle : s.lowlink u ≤ s.walk.num u := by
      by_cases hon : s.walk.OnPath u
      · exact h.low.low_le u hon
      · exact Nat.le_of_lt (h.low_lt u hus hon)
    exact ⟨x, (hmem x).2.mpr ⟨hx, by omega⟩, hnum, hreach⟩
  · intro u hu huoff
    obtain ⟨hus, hlt⟩ := hbelow u hu
    exact h.low_lt u hus fun huon => huoff (onPath_rest_of_ne hpath huon (by grind))
  · intro u hu hnot y hedge
    by_cases hus : u ∈ s.componentStack
    · have hu' := (hmem u).1.mp ((habove u).mpr ⟨hus, hnot⟩)
      rcases h.above_or_closed hpath hrow hroot hu' (.single hedge) with hy | hy
      · exact ⟨h.stack_seen y hy.1, ((habove y).mp ((hmem y).1.mpr hy)).2⟩
      · exact ⟨hy.1, fun hyb => hy.2 (hbelow y hyb).1⟩
    · obtain ⟨hys, hy⟩ := h.closed u hu hus y hedge
      exact ⟨hys, fun hyb => hy (hbelow y hyb).1⟩
  · intro u
    show (if u ∈ above ++ [frame.node] then some s.componentCount else s.rawLabels u).isSome ↔
      s.walk.Seen u ∧ u ∉ below
    have := h.labelled u
    grind
  · intro u c hc
    show c < s.componentCount + 1
    have := h.label_lt u c
    grind
  · intro u x c hc
    show (if x ∈ above ++ [frame.node] then some s.componentCount else s.rawLabels x) = some c ↔ _
    have hlt := h.label_lt
    by_cases hu : u ∈ above ++ [frame.node]
    · have hroot_u := (hmutual u).mpr ((hmem u).1.mp hu)
      have htrans : Mutual rows target u x ↔ Mutual rows target frame.node x :=
        ⟨fun hux => ⟨hroot_u.1.trans hux.1, hux.2.trans hroot_u.2⟩,
          fun hx => ⟨hroot_u.2.trans hx.1, hx.2.trans hroot_u.1⟩⟩
      grind
    simp only [if_neg hu] at hc
    have hu' := (h.labelled u).mp (by rw [hc]; rfl)
    have hold := h.classes u x c hc
    -- a node of an older component does not reach the new one
    have hclosed : Mutual rows target u x → x ∉ s.componentStack :=
      fun hux => (h.closed_of_reach hu'.1 hu'.2 hux.1).2
    grind

end Rounds

end TraversalInv

/-! ## The traversal -/

section Traversal

variable {graph : AdjacencyGraph}

/-- Where an adjacency entry leads. -/
abbrev leadsTo (graph : AdjacencyGraph) (edge : AlgorithmEdge) : Option graph.Ordinal :=
  graph.ordinal edge.neighborId

/-- The invariant of a traversal of the graph. -/
abbrev GraphInv (graph : AdjacencyGraph) (s : State graph.Ordinal) : Prop :=
  TraversalInv graph.row (leadsTo graph) s

section
variable {s : State graph.Ordinal} (h : GraphInv graph s)
include h

lemma ends_complete {frame : DfsFrame graph.Ordinal} {frames : List (DfsFrame graph.Ordinal)}
    (hframes : s.frames = frame :: frames)
    (hrow : (graph.row frame.node)[frame.nextNeighbor]? = none) :
    Ends (fun _ => False)
      (fun s' => GraphInv graph s' ∧ s'.walk = s.walk.withPath (State.positions frames))
      ({ s with frames := frames }.complete frame.node frame.parent) := by
  have hpath := TraversalInv.path_of_frames hframes
  have hnode := onPath_end hpath
  have hseen := h.walk.onPath_seen hnode
  have hstack := h.path_stack _ hnode
  have hparents := h.parents
  rw [hframes] at hparents
  have hnumber : s.discovery frame.node = some (s.walk.num frame.node) := Walk.time_of_seen hseen
  -- the node below was met earlier
  have hbelow : ∀ u, frame.parent = some u → s.walk.OnPath u ∧ s.walk.num u < s.walk.num frame.node := by
    intro u hu
    rw [hparents.1] at hu
    cases frames with
    | nil => cases hu
    | cons below frames =>
      obtain rfl := Option.some.inj hu
      have hbelow := onPath_end (s := s.walk.withPath (State.positions (below :: frames))) rfl
      exact ⟨onPath_withPath_rest hpath hbelow, h.walk.num_lt_end hpath hbelow⟩
  -- the state once the low link has gone to the parent
  obtain ⟨low, hlow, hstate⟩ : ∃ low : graph.Ordinal → ℕ,
      (∀ u, low u = if frame.parent = some u then min (s.lowlink u) (s.lowlink frame.node)
        else s.lowlink u) ∧
      { s with frames := frames }.lowerParent frame.node frame.parent =
        { s with frames := frames, lowlink := low } := by
    cases frame.parent with
    | none => exact ⟨s.lowlink, fun u => (if_neg nofun).symm, rfl⟩
    | some p =>
      refine ⟨_, fun u => ?_, rfl⟩
      by_cases hu : u = p <;> grind [update_apply]
  have hlow_node : low frame.node = s.lowlink frame.node := by
    rw [hlow, if_neg]
    intro hself
    exact Nat.lt_irrefl _ (hbelow _ hself).2
  unfold State.complete
  rw [hstate]
  simp only [hnumber, hlow_node]
  by_cases hroot : s.lowlink frame.node = s.walk.num frame.node
  · -- the low link of a root changes nothing below it
    have hsame : low = s.lowlink := by
      funext u
      have hle := h.low.low_le u
      grind
    obtain ⟨above, below, hsplit⟩ := append_of_mem hstack
    have hfresh : frame.node ∉ above := by
      intro hmem
      have hsorted := h.stack_sorted
      rw [hsplit, pairwise_append] at hsorted
      exact Nat.lt_irrefl _ (hsorted.2.2 _ hmem _ mem_cons_self)
    rw [if_pos (congrArg some hroot.symm), hsame, hsplit,
      TraversalInv.popComponent_append above below hfresh]
    exact .ok ⟨h.close hframes hrow hroot hsplit, rfl⟩
  · rw [if_neg fun heq => hroot (Option.some.inj heq).symm]
    refine .ok ⟨h.leave hframes hrow hroot (by grind) ?_ ?_, rfl⟩
    · intro u
      rw [← hparents.1]
      grind
    · intro u hu
      rw [← hparents.1] at hu
      grind

/-- A round keeps the invariant and does some of the work; it fails only on an entry that leads out
of the selection. -/
lemma ends_visit (hframes : s.frames ≠ []) : Ends (fun _ => ¬ Selected graph)
      (fun s' => (GraphInv graph s' ∧ ∀ v, s.walk.Seen v → s'.walk.Seen v) ∧
        work graph.row s'.walk < work graph.row s.walk)
      (visit graph s) := by
  unfold visit
  cases hf : s.frames with
  | nil => exact absurd hf hframes
  | cons frame frames =>
    have hpath := TraversalInv.path_of_frames hf
    simp only
    cases ha : (graph.row frame.node)[frame.nextNeighbor]? with
    | none =>
      refine ((ends_complete h hf ha).mono_error fun _ => False.elim).mono ?_
      intro s' ⟨hs', hwalk⟩
      rw [hwalk]
      exact ⟨⟨hs', fun _ => id⟩, work_leave h.walk hpath⟩
    | some edge =>
      simp only
      cases htarget : graph.ordinal edge.neighborId with
      | none =>
        exact .error fun hselected => AdjacencyGraph.ordinal_eq_none_iff.mp htarget
          (hselected frame.node edge (mem_of_getElem? ha))
      | some w =>
        simp only
        cases hw : s.discovery w with
        | none =>
          have hunseen : ¬ s.walk.Seen w := fun hseen => hseen hw
          have hwork := work_descend hpath ha hunseen
          exact .ok ⟨⟨h.descend hf ha htarget hunseen, fun v hv => Walk.seen_enter.mpr (.inr hv)⟩,
            hwork⟩
        | some number =>
          have hseen : s.walk.Seen w := Walk.seen_of_time hw
          have hnumber : s.walk.num w = number := Walk.num_of_time hw
          have hwork := work_skip hpath ha
          simp only
          by_cases hstack : s.onStack w = true
          · rw [if_pos hstack]
            have hmem := (h.onStack_iff w).mp hstack
            refine .ok ⟨⟨h.advance hf ha htarget hseen ?_ ?_ ?_ ?_, fun _ => id⟩, hwork⟩
            · exact fun u hu => update_of_ne hu _ _
            all_goals
              grind
          · rw [if_neg hstack]
            have hnot : w ∉ s.componentStack := fun hmem => hstack ((h.onStack_iff w).mpr hmem)
            exact .ok ⟨⟨h.advance hf ha htarget hseen (fun _ _ => rfl) (Nat.le_refl _) (.inl rfl)
              (fun hmem => absurd hmem hnot), fun _ => id⟩, hwork⟩

lemma ends_traverse (hframes : s.frames = []) (root : graph.Ordinal) :
    Ends (fun _ => ¬ Selected graph)
      (fun s' => GraphInv graph s' ∧ s'.frames = [] ∧ s'.walk.Seen root ∧
        ∀ v, s.walk.Seen v → s'.walk.Seen v) (traverse graph s root) := by
  unfold traverse
  by_cases hroot : (s.discovery root).isSome
  · rw [if_pos hroot]
    exact .ok ⟨h, hframes, Option.isSome_iff_ne_none.mp hroot, fun _ => id⟩
  · rw [if_neg hroot]
    have hunseen : ¬ s.walk.Seen root := fun hseen => hroot (Option.isSome_iff_ne_none.mpr hseen)
    refine (ends_root State.walk (fun t ht hcond => ends_visit ht (by simpa using hcond))
      (h.start hframes hunseen) rfl).mono fun s' hs' => ?_
    exact ⟨hs'.1, by simpa using hs'.2.1, hs'.2.2⟩

end

lemma graphInv_initial : GraphInv graph State.initial := by
  have hunseen : ∀ v, ¬ (State.initial (V := graph.Ordinal)).walk.Seen v := fun v hv => hv rfl
  have hoff : ∀ v, ¬ (State.initial (V := graph.Ordinal)).walk.OnPath v := fun v ⟨_, hi⟩ => nomatch hi
  constructor
  · exact .empty hunseen rfl
  · exact fun f hf => absurd hf (hoff f)
  · trivial
  · exact fun v => ⟨nofun, nofun⟩
  · exact nofun
  · exact Pairwise.nil
  · exact fun v hv => absurd hv (hoff v)
  · exact .empty rfl
  · exact nofun
  · exact nofun
  · exact fun v hv => absurd hv (hunseen v)
  · exact fun v => ⟨nofun, fun hv => absurd hv.1 (hunseen v)⟩
  · exact nofun
  · exact nofun

/-- After all the roots every node is labelled, by its component. -/
lemma ends_traversal : Ends (fun _ => ¬ Selected graph)
      (fun s : State graph.Ordinal => Selected graph ∧
        ∀ u, ∃ c < s.componentCount, s.rawLabels u = some c ∧
          ∀ v, s.rawLabels v = some c ↔ Mutual graph.row (leadsTo graph) u v)
      ((finRange graph.nodeIds.length).foldlM (traverse graph) .initial) := by
  refine (ends_roots State.walk (I := fun s => GraphInv graph s ∧ s.frames = []) ?_
    (finRange graph.nodeIds.length) ⟨graphInv_initial, rfl⟩).mono ?_
  · intro s root ⟨h, hframes⟩
    exact (ends_traverse h hframes root).mono fun s' hs' => ⟨⟨hs'.1, hs'.2.1⟩, hs'.2.2⟩
  · intro s ⟨⟨h, hframes⟩, hseen⟩
    have hall : ∀ v, s.walk.Seen v := fun v => hseen v (mem_finRange v)
    have hstack := h.stack_eq_nil hframes
    constructor
    · intro v edge hedge
      by_contra hnot
      obtain ⟨w, hw, -⟩ := h.walk.finished_of_path_nil (TraversalInv.path_of_nil hframes) (hall v) hedge
      have hnone : leadsTo graph edge = none := AdjacencyGraph.ordinal_eq_none_iff.mpr hnot
      rw [hnone] at hw
      cases hw
    · intro u
      have hlabel := (h.labelled u).mpr ⟨hall u, by rw [hstack]; exact not_mem_nil⟩
      obtain ⟨c, hc⟩ := Option.isSome_iff_exists.mp hlabel
      exact ⟨c, h.label_lt u c hc, hc, fun v => h.classes u v c hc⟩

end Traversal

/-! ## The labels -/

/-- The labels are `0, 1, 2, …` in the order in which they are first used: a label not used before
is the number of labels used before. -/
def InOrderOfFirst (labels : List ℕ) : Prop :=
  ∀ before label after, labels = before ++ label :: after → label ∉ before →
    label = before.toFinset.card

/-- What the renumbering has done with the raw labels gone through. -/
structure Renumbered (done : List (Option ℕ)) (state : Renumbering) : Prop where
  labels : state.labels.map some = done.map (·.bind state.canonical)
  injective : ∀ c d l, state.canonical c = some l → state.canonical d = some l → c = d
  used : ∀ c l, state.canonical c = some l → l ∈ state.labels
  next : state.labels.toFinset = Finset.range state.next
  ordered : InOrderOfFirst state.labels

lemma InOrderOfFirst.append {labels : List ℕ} (h : InOrderOfFirst labels) {label : ℕ}
    (hlabel : label ∉ labels → label = labels.toFinset.card) : InOrderOfFirst (labels ++ [label]) := by
  intro before l after heq hl
  rcases eq_nil_or_concat after with rfl | ⟨after, last, rfl⟩
  · obtain ⟨rfl, hlast⟩ := append_inj' heq rfl
    obtain rfl := singleton_inj.mp hlast
    exact hlabel hl
  · rw [concat_eq_append, ← cons_append, ← append_assoc] at heq
    exact h before l after (append_inj' heq rfl).1 hl

lemma Renumbered.step {done : List (Option ℕ)} {state : Renumbering} (h : Renumbered done state)
    {count c : ℕ} (hc : c < count) :
    ∃ state', renumber count state (some c) = .ok state' ∧ Renumbered (done ++ [some c]) state' := by
  unfold renumber
  simp only
  rw [if_pos hc]
  cases hlabel : state.canonical c with
  | some label =>
    refine ⟨_, rfl, ?_, h.injective, ?_, ?_, ?_⟩
    · rw [map_append, map_append, h.labels, map_singleton, map_singleton, Option.bind_some, hlabel]
    · exact fun d l hd => mem_append_left _ (h.used d l hd)
    · rw [toFinset_append, h.next]
      have hmem := h.used c label hlabel
      rw [← mem_toFinset, h.next] at hmem
      simpa using hmem
    · exact h.ordered.append fun hnot => absurd (h.used c label hlabel) hnot
  | none =>
    have hfresh : state.next ∉ state.labels := by
      rw [← mem_toFinset, h.next]
      simp
    have hold : ∀ d l, state.canonical d = some l →
        update state.canonical c (some state.next) d = some l := by
      grind [update_apply]
    -- a number given now or before belongs to one raw label
    refine ⟨_, rfl, ?_, ?_, ?_, ?_, ?_⟩
    · show (state.labels ++ [state.next]).map some = (done ++ [some c]).map fun raw =>
        raw.bind (update state.canonical c (some state.next))
      rw [map_append, map_append, map_singleton, map_singleton,
        Option.bind_some, update_self, h.labels]
      congr 1
      apply map_congr_left
      intro raw hraw
      have hsome : raw.bind state.canonical ∈ state.labels.map some := by
        rw [h.labels]
        exact mem_map_of_mem hraw
      obtain ⟨l, -, hl⟩ := mem_map.mp hsome
      obtain ⟨d, rfl, hd⟩ := Option.bind_eq_some_iff.mp hl.symm
      show state.canonical d = update state.canonical c (some state.next) d
      rw [hold d l hd, hd]
    · intro d e l hd he
      have := h.used
      have := h.injective d e l
      grind
    · intro d l hd
      have := h.used d l
      grind
    · rw [toFinset_append, h.next, Finset.range_add_one, Finset.insert_eq, Finset.union_comm]
      rfl
    · apply h.ordered.append
      intro _
      rw [h.next, Finset.card_range]

/-- `canonical_labels` keeps the classes of the raw labels and numbers them in order. -/
lemma exists_canonicalLabels (raw : List (Option ℕ)) (count : ℕ)
    (hraw : ∀ r ∈ raw, ∃ c < count, r = some c) :
    ∃ labels, canonicalLabels raw count = .ok labels ∧ labels.length = raw.length ∧
      (∀ i j (hi : i < labels.length) (hj : j < labels.length),
        labels[i] = labels[j] ↔ raw[i]? = raw[j]?) ∧ InOrderOfFirst labels := by
  have hloop : Ends (fun _ => False) (Renumbered raw) (raw.foldlM (renumber count)
      { canonical := fun _ => none, next := 0, labels := [] }) := by
    refine Ends.foldlM_mem raw (I := Renumbered) ?_ [] _ ?_
    · intro done state r hr h
      obtain ⟨c, hc, rfl⟩ := hraw r hr
      obtain ⟨state', hstate, h'⟩ := h.step hc
      rw [hstate]
      exact .ok h'
    · refine ⟨rfl, nofun, nofun, rfl, ?_⟩
      intro before label after heq
      simp at heq
  obtain ⟨state, hstate, h⟩ := Ends.exists_ok hloop
  have hlength : state.labels.length = raw.length := by
    have := congrArg List.length h.labels
    rwa [length_map, length_map] at this
  have hentry : ∀ i (hi : i < state.labels.length),
      ∃ c, raw[i]? = some (some c) ∧ state.canonical c = some state.labels[i] := by
    intro i hi
    have hget := congrArg (·[i]?) h.labels
    simp only [getElem?_map, List.getElem?_eq_getElem hi,
      List.getElem?_eq_getElem (hlength ▸ hi)] at hget
    obtain ⟨c, hc, hlabel⟩ := Option.bind_eq_some_iff.mp (Option.some.inj hget).symm
    exact ⟨c, by rw [List.getElem?_eq_getElem (hlength ▸ hi), hc], hlabel⟩
  refine ⟨state.labels, ?_, hlength, ?_, h.ordered⟩
  · unfold canonicalLabels
    rw [hstate]
    rfl
  · intro i j hi hj
    obtain ⟨c, hc, hci⟩ := hentry i hi
    obtain ⟨d, hd, hdj⟩ := hentry j hj
    rw [hc, hd]
    constructor
    · intro heq
      rw [← heq] at hdj
      rw [h.injective c d _ hci hdj]
    · intro heq
      obtain rfl := Option.some.inj (Option.some.inj heq)
      rw [hci] at hdj
      exact Option.some.inj hdj

/-- The edges of the walk are the adjacency entries. -/
lemma edge_eq_hasEntry (graph : AdjacencyGraph) :
    Edge graph.row (leadsTo graph) = HasEntry graph := by
  funext u v
  unfold Edge HasEntry leadsTo
  simp only [AdjacencyGraph.ordinal_eq_some_iff]
  exact propext (exists_congr fun edge => and_congr_right fun _ => eq_comm)

/-- `strongly_connected_labels` is exact: two nodes get the same label exactly when each can reach
the other, and the labels are `0, 1, 2, …` in the order of the first nodes of the components. It
returns labels for every graph whose entries stay in the selection, and for no other. -/
theorem stronglyConnectedLabels_exact (graph : AdjacencyGraph) :
    (∀ labels, stronglyConnectedLabels graph = .ok labels →
      ∃ hlength : labels.length = graph.nodeIds.length,
        (∀ u v : graph.Ordinal, labels[u] = labels[v] ↔
          ReflTransGen (HasEntry graph) u v ∧ ReflTransGen (HasEntry graph) v u) ∧
        InOrderOfFirst labels) ∧
    ((∃ labels, stronglyConnectedLabels graph = .ok labels) ↔
      ∀ v, ∀ edge ∈ graph.row v, edge.neighborId ∈ graph.nodeIds) := by
  have hends : Ends (fun _ => ¬ Selected graph)
      (fun labels => Selected graph ∧ ∃ hlength : labels.length = graph.nodeIds.length,
        (∀ u v : graph.Ordinal, labels[u] = labels[v] ↔
          ReflTransGen (HasEntry graph) u v ∧ ReflTransGen (HasEntry graph) v u) ∧
        InOrderOfFirst labels) (stronglyConnectedLabels graph) := by
    unfold stronglyConnectedLabels
    refine ends_traversal.bind fun s ⟨hselected, hclasses⟩ => ?_
    obtain ⟨labels, hlabels, hlength, hiff, hordered⟩ :=
      exists_canonicalLabels (ofFn s.rawLabels) s.componentCount (by
        intro r hr
        obtain ⟨u, rfl⟩ := (mem_ofFn' _ _).mp hr
        obtain ⟨c, hc, hraw, -⟩ := hclasses u
        exact ⟨c, hc, hraw⟩)
    rw [hlabels]
    rw [length_ofFn] at hlength
    refine .ok ⟨hselected, hlength, fun u v => ?_, hordered⟩
    obtain ⟨c, -, hc, hcv⟩ := hclasses u
    have hget : ∀ w : graph.Ordinal, (ofFn s.rawLabels)[w.val]? = some (s.rawLabels w) := by
      intro w
      rw [List.getElem?_ofFn, dif_pos w.isLt]
    have hsame := hiff u v (by omega) (by omega)
    rw [hget u, hget v, hc, Option.some.injEq, eq_comm (a := some c), hcv v] at hsame
    rw [← edge_eq_hasEntry]
    exact hsame
  constructor
  · intro labels hlabels
    exact (hends.of_ok hlabels).2
  · constructor
    · intro ⟨labels, hlabels⟩
      exact (hends.of_ok hlabels).1
    · intro hselected
      cases hresult : stronglyConnectedLabels graph with
      | ok labels => exact ⟨labels, rfl⟩
      | error e => exact absurd hselected (hends.of_error hresult)

/-- Two cycles joined one way, and a node apart: three components. -/
def twoCycles : AdjacencyGraph where
  nodeIds := [2, 3, 5, 7, 9]
  ascending := by decide
  neighbors := fun id =>
    if id = 2 then [⟨5⟩, ⟨3⟩]
    else if id = 3 then [⟨7⟩]
    else if id = 5 then [⟨2⟩]
    else if id = 7 then [⟨3⟩, ⟨7⟩]
    else []

theorem stronglyConnectedLabels_exact_twoCycles :
    stronglyConnectedLabels twoCycles = .ok [0, 1, 0, 1, 2] ∧
      ReflTransGen (HasEntry twoCycles) ⟨1, by decide⟩ ⟨3, by decide⟩ := by
  have hlabels : stronglyConnectedLabels twoCycles = .ok [0, 1, 0, 1, 2] := by decide +kernel
  obtain ⟨_, hclasses, _⟩ := (stronglyConnectedLabels_exact twoCycles).1 _ hlabels
  exact ⟨hlabels, ((hclasses ⟨1, by decide⟩ ⟨3, by decide⟩).mp rfl).1⟩

end GraphForge.Algorithms.StronglyConnected
