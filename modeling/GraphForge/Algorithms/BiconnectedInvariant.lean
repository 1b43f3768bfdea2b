import GraphForge.Algorithms.Biconnected
import GraphForge.Lib.Biconnected
import GraphForge.Lib.DepthFirstTree

/-!
# What the edge stack and the blocks know

A node is absorbed once the edge by which it was entered is popped: it then belongs to a block and
never to another one, except as the node the block hangs from. The stack holds no edge of an
absorbed node. For a node of the path, what lies above its tree edge on the stack was pushed from
nodes met since, and what lies below joins nodes met before.

A node that was left and is not absorbed is tied back: nodes met since that are not absorbed lead
from it to an edge that passes its parent by. This is what makes a block biconnected. A biconnected
set that meets a new block, and no older one, lies in it, since the edges that lead out of it lead
to the node it hangs from.
-/

namespace GraphForge.Algorithms.Biconnected

open List DepthFirst Relation BiconnectedSets

variable {V : Type} {adjacency : V → List V} {P P' : V → V → Prop} {low low' : V → ℕ}
  {stack stack' : List (V × V)} {s : Walk V} {v w p : V} {i j : ℕ} {rest : List (V × ℕ)}

/-- The edges of the graph. -/
abbrev Adjacent (adjacency : V → List V) : V → V → Prop := Edge adjacency some

/-- The adjacency lists are those of a simple undirected graph. -/
structure Simple (adjacency : V → List V) : Prop where
  symm : ∀ u v, Adjacent adjacency u v → Adjacent adjacency v u
  irrefl : ∀ v, ¬ Adjacent adjacency v v

/-- The edge by which the node was entered has been popped. -/
def Absorbed (P : V → V → Prop) (stack : List (V × V)) (x : V) : Prop :=
  ∃ q, P q x ∧ (q, x) ∉ stack

/-- A pushed edge is a new tree edge or none: nothing becomes absorbed, and nothing open. -/
lemma absorbed_cons_iff (hfresh : ¬ P v w) (hP : ∀ u x, P' u x → P u x ∨ (u = v ∧ x = w))
    (hold : ∀ u x, P u x → P' u x) (x : V) :
    Absorbed P' ((v, w) :: stack) x ↔ Absorbed P stack x := by
  constructor
  · intro ⟨q, hq, hnot⟩
    rcases hP q x hq with hq | ⟨rfl, rfl⟩
    · exact ⟨q, hq, fun hmem => hnot (mem_cons_of_mem _ hmem)⟩
    · exact absurd mem_cons_self hnot
  · intro ⟨q, hq, hnot⟩
    refine ⟨q, hold q x hq, fun hmem => hnot ((mem_cons.mp hmem).resolve_left fun heq => ?_)⟩
    obtain ⟨rfl, rfl⟩ := Prod.mk.inj heq
    exact hfresh hq

/-- Met since `x`, and before every node of the path that was met after `x`. -/
def Before (s : Walk V) (x z : V) : Prop :=
  s.Since x z ∧ ∀ f, s.OnPath f → s.num x < s.num f → s.num z < s.num f

/-- Nodes met since `x` lead from it to an edge that passes its parent `q` by. -/
def TiedBack (adjacency : V → List V) (P : V → V → Prop) (stack : List (V × V)) (s : Walk V)
    (q x : V) : Prop :=
  (∃ u, P u q) ∧ ∃ z y,
    EqvGen (within (Adjacent adjacency) {z | Before s x z ∧ ¬ Absorbed P stack z}) x z ∧
    Adjacent adjacency z y ∧ ¬ Absorbed P stack y ∧ s.num y < s.num q

/-- What holds of the edge stack between two rounds. -/
structure StackInv (adjacency : V → List V) (P : V → V → Prop) (low : V → ℕ)
    (stack : List (V × V)) (s : Walk V) : Prop where
  path_open : ∀ f, s.OnPath f → ∀ q, P q f → (q, f) ∈ stack
  split : ∀ above q f below, stack = above ++ (q, f) :: below → s.OnPath f → P q f →
    (∀ e ∈ above, s.Since f e.1) ∧ ∀ e ∈ below, s.num e.1 < s.num f ∧ s.num e.2 < s.num f
  seen : ∀ e ∈ stack, s.Seen e.1 ∧ s.Seen e.2
  edges : ∀ e ∈ stack, Adjacent adjacency e.1 e.2
  kept : ∀ e ∈ stack, ¬ Absorbed P stack e.1 ∧ ¬ Absorbed P stack e.2
  kind : ∀ e ∈ stack, P e.1 e.2 ∨ ∃ u, P u e.1
  tied : ∀ q x, P q x → (q, x) ∈ stack → ¬ s.OnPath x → TiedBack adjacency P stack s q x
  low_open : ∀ v, s.OnPath v → low v = s.num v ∨ ∃ z y, s.Since v z ∧ ¬ Absorbed P stack z ∧
    Adjacent adjacency z y ∧ s.Seen y ∧ s.num y = low v

namespace StackInv

/-- The nodes of the path are not absorbed. -/
lemma not_absorbed_of_onPath (h : StackInv adjacency P low stack s) {f : V} (hf : s.OnPath f) :
    ¬ Absorbed P stack f := fun ⟨q, hq, hnot⟩ => hnot (h.path_open f hf q hq)

lemma mem_of_not_absorbed {q x : V} (hx : ¬ Absorbed P stack x) (hq : P q x) : (q, x) ∈ stack := by
  by_contra hnot
  exact hx ⟨q, hq, hnot⟩

section
variable (h : StackInv adjacency P low stack s)
include h

/-- The parent of a node that is not absorbed is not absorbed. -/
lemma not_absorbed_parent {q x : V} (hx : ¬ Absorbed P stack x) (hq : P q x) :
    ¬ Absorbed P stack q :=
  (h.kept _ (mem_of_not_absorbed hx hq)).1

/-- Nodes that are not absorbed hang together below a node of the path. -/
lemma eqvGen_open (ht : TreeInv adjacency some P s)
    (hP : ∀ u x, TreeLink P u x → Adjacent adjacency u x) {f x : V} (hf : s.OnPath f)
    (hx : s.Since f x) (hopen : ¬ Absorbed P stack x) :
    EqvGen (within (Adjacent adjacency) {z | s.Since f z ∧ ¬ Absorbed P stack z}) f x := by
  induction hn : s.num x using Nat.strongRecOn generalizing x with
  | ind n ih =>
    by_cases hxf : x = f
    · rw [hxf]
      exact .refl f
    have hne := ht.walk.num_ne hx.1 (ht.walk.onPath_seen hf) hxf
    have hle := hx.2
    obtain ⟨q, hq⟩ := ht.entered f hf x hx.1 (by omega)
    have hqs := ht.since_parent hf hx hxf hq
    have hqopen := h.not_absorbed_parent hopen hq
    have hlt := (ht.parent q x hq).2.2.1
    exact (ih (s.num q) (by omega) hqs hqopen rfl).trans _ _ _
      (.rel _ _ ⟨⟨hqs, hqopen⟩, ⟨hx, hopen⟩, hP q x (.inl hq)⟩)

lemma stack_eq_nil (ht : TreeInv adjacency some P s) (hpath : s.path = []) : stack = [] := by
  have hoff : ∀ x, ¬ s.OnPath x := by
    intro x ⟨k, hk⟩
    rw [hpath] at hk
    cases hk
  -- the parent of a node that is not absorbed would be another such node, met earlier
  have hnone : ∀ q x, P q x → (q, x) ∉ stack := by
    intro q x hq hmem
    induction hn : s.num x using Nat.strongRecOn generalizing q x with
    | ind n ih =>
      obtain ⟨⟨u, hu⟩, -⟩ := h.tied q x hq hmem (hoff x)
      have hlt := (ht.parent q x hq).2.2.1
      exact ih (s.num q) (by omega) u q hu (mem_of_not_absorbed (h.kept _ hmem).1 hu) rfl
  rw [eq_nil_iff_forall_not_mem]
  intro e he
  rcases h.kind e he with htree | ⟨u, hu⟩
  · exact hnone e.1 e.2 htree he
  · exact hnone u e.1 hu (mem_of_not_absorbed (h.kept e he).1 hu)

end

end StackInv

/-- What a tie needs to stay. -/
lemma TiedBack.mono {s' : Walk V} {q x : V} (h : TiedBack adjacency P stack s q x)
    (hP : ∀ u x, P u x → P' u x) (hbefore : ∀ z, Before s x z → Before s' x z)
    (hopen : ∀ z, Before s x z → ¬ Absorbed P stack z → ¬ Absorbed P' stack' z)
    (hend : ∀ y, ¬ Absorbed P stack y → s.num y < s.num q →
      ¬ Absorbed P' stack' y ∧ s'.num y < s'.num q) : TiedBack adjacency P' stack' s' q x := by
  obtain ⟨⟨u, hu⟩, z, y, hway, hedge, hyopen, hylt⟩ := h
  obtain ⟨hyopen', hylt'⟩ := hend y hyopen hylt
  refine ⟨⟨u, hP u q hu⟩, z, y, ?_, hedge, hyopen', hylt'⟩
  refine EqvGen.mono (fun a b hab => within_mono (fun c hc => ?_) hab) _ _ hway
  exact ⟨hbefore c hc.1, hopen c hc.1 hc.2⟩

namespace StackInv

section
variable (h : StackInv adjacency P low stack s)
include h

lemma withPath {path : List (V × ℕ)} (hsub : ∀ f, (s.withPath path).OnPath f → s.OnPath f)
    (hlost : ∀ q x, s.OnPath x → ¬ (s.withPath path).OnPath x → P q x →
      TiedBack adjacency P stack (s.withPath path) q x)
    (hlow : ∀ v, (s.withPath path).OnPath v → low' v = s.num v ∨ ∃ z y, s.Since v z ∧
      ¬ Absorbed P stack z ∧ Adjacent adjacency z y ∧ s.Seen y ∧ s.num y = low' v) :
    StackInv adjacency P low' stack (s.withPath path) := by
  constructor
  · exact fun f hf => h.path_open f (hsub f hf)
  · exact fun above q f below hsplit hf => h.split above q f below hsplit (hsub f hf)
  · exact h.seen
  · exact h.edges
  · exact h.kept
  · exact h.kind
  · intro q x hq hmem hoff
    by_cases hon : s.OnPath x
    · exact hlost q x hon hoff hq
    · refine (h.tied q x hq hmem hon).mono (fun _ _ => id) (fun z hz => ?_) (fun _ _ => id)
        fun y hy hlt => ⟨hy, hlt⟩
      exact ⟨hz.1, fun f hf => hz.2 f (hsub f hf)⟩
  · exact hlow

lemma skip (hpath : s.path = (v, i) :: rest) :
    StackInv adjacency P low stack (s.withPath ((v, i + 1) :: rest)) := by
  have hon := fun u => onPath_withPath_next (u := u) hpath
  refine h.withPath (fun f => (hon f).mp) (fun q x hx hoff => ?_) fun u hu => ?_
  · exact absurd ((hon x).mpr hx) hoff
  · exact h.low_open u ((hon u).mp hu)

lemma push (ht : TreeInv adjacency some P s) (hpath : s.path = (v, i) :: rest)
    (hedge : Adjacent adjacency v w) (hw : s.OnPath w) (hlt : s.num w < s.num v)
    (hother : ∀ u, u ≠ v → low' u = low u) (hself : low' v = low v ∨ low' v = s.num w) :
    StackInv adjacency P low' ((v, w) :: stack) (s.withPath ((v, i + 1) :: rest)) := by
  have hon := fun u => onPath_withPath_next (u := u) hpath
  have hv := onPath_end hpath
  have hvs := ht.walk.onPath_seen hv
  -- the new edge is no edge of the tree
  have hback : ¬ P v w := fun hq => by
    have := (ht.parent v w hq).2.2.1
    omega
  have habsorbed : ∀ x, Absorbed P ((v, w) :: stack) x ↔ Absorbed P stack x :=
    absorbed_cons_iff hback (fun _ _ => .inl) fun _ _ => id
  constructor
  · exact fun f hf q hq => mem_cons_of_mem _ (h.path_open f ((hon f).mp hf) q hq)
  · intro above q f below hsplit hf hq
    cases above with
    | nil =>
      obtain ⟨heq, -⟩ := List.cons.inj hsplit
      obtain ⟨rfl, rfl⟩ := Prod.mk.inj heq
      exact absurd hq hback
    | cons e above =>
      obtain ⟨rfl, htail⟩ := List.cons.inj hsplit
      obtain ⟨habove, hbelow⟩ := h.split above q f below htail ((hon f).mp hf) hq
      exact ⟨forall_mem_cons.mpr
        ⟨⟨hvs, ht.walk.num_le_of_onPath hpath ((hon f).mp hf)⟩, habove⟩, hbelow⟩
  · exact forall_mem_cons.mpr ⟨⟨hvs, ht.walk.onPath_seen hw⟩, h.seen⟩
  · exact forall_mem_cons.mpr ⟨hedge, h.edges⟩
  · simp only [habsorbed]
    exact forall_mem_cons.mpr
      ⟨⟨h.not_absorbed_of_onPath hv, h.not_absorbed_of_onPath hw⟩, h.kept⟩
  · exact forall_mem_cons.mpr ⟨.inr (ht.entered w hw v hvs hlt), h.kind⟩
  · intro q x hq hmem hoff
    have hmem := (mem_cons.mp hmem).resolve_left fun heq => by
      obtain ⟨rfl, rfl⟩ := Prod.mk.inj heq
      exact hback hq
    refine (h.tied q x hq hmem fun hx => hoff ((hon x).mpr hx)).mono
      (fun _ _ => id) (fun z hz => ⟨hz.1, fun f hf => hz.2 f ((hon f).mp hf)⟩)
      (fun z _ hz => ?_) fun y hy hlt => ⟨?_, hlt⟩
    · rwa [habsorbed]
    · rwa [habsorbed]
  · intro u hu
    have hold := h.low_open u ((hon u).mp hu)
    have hkeep : low' u = low u → low' u = s.num u ∨ ∃ z y, s.Since u z ∧
        ¬ Absorbed P ((v, w) :: stack) z ∧ Adjacent adjacency z y ∧ s.Seen y ∧ s.num y = low' u := by
      intro heq
      rw [heq]
      simpa only [habsorbed] using hold
    by_cases huv : u = v
    · rw [huv] at hkeep ⊢
      rcases hself with heq | heq
      · exact hkeep heq
      · refine .inr ⟨v, w, ⟨hvs, Nat.le_refl _⟩, ?_, hedge, ht.walk.onPath_seen hw, heq.symm⟩
        rw [habsorbed]
        exact h.not_absorbed_of_onPath hv
    · exact hkeep (hother u huv)

/-- Leaving a node whose low link passes its parent by: the node is tied back. -/
lemma leave (ht : TreeInv adjacency some P s) (hP : ∀ u x, TreeLink P u x → Adjacent adjacency u x)
    (hpath : s.path = (v, i) :: (p, j) :: rest) (hrow : (adjacency v)[i]? = none)
    (hlow : low v < s.num p) (hother : ∀ u, u ≠ p → low' u = low u)
    (hself : low' p = low p ∨ low' p = low v) :
    StackInv adjacency P low' stack (s.withPath ((p, j) :: rest)) := by
  have hoff := fun u => onPath_withPath_rest (u := u) hpath
  have hv := onPath_end hpath
  have hp : s.OnPath p := ⟨j, hpath ▸ mem_cons_of_mem _ mem_cons_self⟩
  have hpv := ht.parent_of_path hpath
  obtain ⟨hvs, hps, hplt, -⟩ := ht.parent p v hpv
  -- the edge that passes the parent by
  have hreach : ∃ z y, s.Since v z ∧ ¬ Absorbed P stack z ∧ Adjacent adjacency z y ∧ s.Seen y ∧
      s.num y = low v := by
    rcases h.low_open v hv with heq | hreach
    · omega
    · exact hreach
  refine h.withPath hoff (fun q x hx hnot hq => ?_) fun u hu => ?_
  · rw [eq_end_of_lost hpath hx hnot] at hq ⊢
    obtain rfl := ht.unique q p v hq hpv
    obtain ⟨z, y, hz, hzopen, hzy, hys, hnum⟩ := hreach
    have hyv : ¬ s.Since v y := fun hy => by
      have := hy.2
      omega
    obtain ⟨hyon, hylt⟩ := ht.onPath_of_exit hpath hrow hz hzy hyv
    refine ⟨?_, z, y, ?_, hzy, h.not_absorbed_of_onPath hyon, ?_⟩
    · exact ht.entered y hyon q hps (by omega)
    · -- no node of the path comes after the node that is left
      have hlast : ∀ c, s.Since v c → Before (s.withPath ((q, j) :: rest)) v c := by
        intro c hc
        refine ⟨hc, fun f hf hlt => ?_⟩
        have := ht.walk.num_le_of_onPath hpath (hoff f hf)
        simp only [Walk.num_withPath] at hlt
        omega
      have hsub : {c | s.Since v c ∧ ¬ Absorbed P stack c} ⊆
          {c | Before (s.withPath ((q, j) :: rest)) v c ∧ ¬ Absorbed P stack c} :=
        fun c hc => ⟨hlast c hc.1, hc.2⟩
      exact EqvGen.mono (fun a b => within_mono hsub) _ _ (h.eqvGen_open ht hP hv hz hzopen)
    · show s.num y < s.num q
      omega
  · by_cases hup : u = p
    · rw [hup]
      rcases hself with heq | heq
      · rw [heq]
        exact h.low_open p hp
      · obtain ⟨z, y, hz, hrest⟩ := hreach
        have hle := hz.2
        exact .inr ⟨z, y, ⟨hz.1, by omega⟩, heq ▸ hrest⟩
    · rw [hother u hup]
      exact h.low_open u (hoff u hu)

lemma leave_root (hpath : s.path = (v, i) :: rest) (hroot : ∀ u, ¬ P u v) :
    StackInv adjacency P low stack (s.withPath rest) := by
  have hoff := fun u => onPath_withPath_rest (u := u) hpath
  refine h.withPath hoff (fun q x hx hnot hq => ?_) fun u hu => h.low_open u (hoff u hu)
  exact absurd (eq_end_of_lost hpath hx hnot ▸ hq) (hroot q)

end

end StackInv

/-! ## Cutting a block -/

section Cut

variable {above below : List (V × V)}

/-- What a node that is left hands over when its low link does not pass its parent by: the nodes met
since that are not absorbed. -/
def Cut (P : V → V → Prop) (stack : List (V × V)) (s : Walk V) (v : V) : Set V :=
  {x | s.Since v x ∧ ¬ Absorbed P stack x}

/-- The situation when a block is cut. -/
structure Cutting (adjacency : V → List V) (P : V → V → Prop) (low : V → ℕ) (stack : List (V × V))
    (s : Walk V) (p v : V) (i j : ℕ) (rest : List (V × ℕ)) : Prop where
  inv : StackInv adjacency P low stack s
  tree : TreeInv adjacency some P s
  links : ∀ u x, TreeLink P u x → Adjacent adjacency u x
  path : s.path = (v, i) :: (p, j) :: rest
  exits : ∀ x y, s.Since v x → Adjacent adjacency x y → ¬ s.Since v y → y = p
  low_le : ∀ f, s.OnPath f → low f ≤ s.num f

namespace Cutting

section
variable (h : Cutting adjacency P low stack s p v i j rest)
include h

lemma onPath : s.OnPath v :=
  onPath_end h.path

lemma onPath_parent : s.OnPath p :=
  ⟨j, h.path ▸ mem_cons_of_mem _ mem_cons_self⟩

lemma parent : P p v :=
  h.tree.parent_of_path h.path

lemma num_lt : s.num p < s.num v :=
  (h.tree.parent p v h.parent).2.2.1

lemma mem_self : v ∈ Cut P stack s v :=
  ⟨⟨h.tree.walk.onPath_seen h.onPath, Nat.le_refl _⟩, h.inv.not_absorbed_of_onPath h.onPath⟩

lemma not_mem_parent : p ∉ Cut P stack s v := by
  intro hp
  have := hp.1.2
  have := h.num_lt
  omega

/-- Where the edges of the cut lead, among nodes that are not absorbed. -/
lemma mem_of_adjacent {x y : V} (hx : x ∈ Cut P stack s v) (hxy : Adjacent adjacency x y)
    (hy : ¬ Absorbed P stack y) : y ∈ insert p (Cut P stack s v) := by
  by_cases hsince : s.Since v y
  · exact .inr ⟨hsince, hy⟩
  · exact .inl (h.exits x y hx.1 hxy hsince)

lemma exists_entered {x : V} (hx : x ∈ Cut P stack s v) : ∃ q, P q x :=
  h.tree.entered p h.onPath_parent x hx.1.1 (Nat.lt_of_lt_of_le h.num_lt hx.1.2)

/-- The nodes of the cut, the first apart, have their parents in it. -/
lemma exists_parent {x : V} (hx : x ∈ Cut P stack s v) (hxv : x ≠ v) :
    ∃ q, P q x ∧ q ∈ Cut P stack s v ∧ s.num q < s.num x := by
  obtain ⟨q, hq⟩ := h.exists_entered hx
  exact ⟨q, hq, ⟨h.tree.since_parent h.onPath hx.1 hxv hq, h.inv.not_absorbed_parent hx.2 hq⟩,
    (h.tree.parent q x hq).2.2.1⟩

lemma not_onPath {x : V} (hx : s.Since v x) (hxv : x ≠ v) : ¬ s.OnPath x := by
  intro hon
  exact h.tree.walk.num_ne hx.1 (h.tree.walk.onPath_seen h.onPath) hxv
    (Nat.le_antisymm (h.tree.walk.num_le_of_onPath h.path hon) hx.2)

/-- Without a node of the cut everything else stays connected to the node it hangs from: a node goes
to its parent, or is tied back past it. -/
lemma eqvGen_without {w : V} (hw : w ∈ Cut P stack s v) {u : V}
    (hu : u ∈ insert p (Cut P stack s v) \ {w}) :
    EqvGen (within (Adjacent adjacency) (insert p (Cut P stack s v) \ {w})) p u := by
  set others := insert p (Cut P stack s v) \ {w}
  have hpw : p ∈ others := ⟨.inl rfl, fun heq => h.not_mem_parent (heq ▸ hw)⟩
  induction hn : s.num u using Nat.strongRecOn generalizing u with
  | ind n ih =>
    obtain ⟨hu, huw⟩ := hu
    rcases hu with rfl | hu
    · exact .refl u
    by_cases huv : u = v
    · subst huv
      exact .rel _ _ ⟨hpw, ⟨.inr hu, huw⟩, h.links p u (.inl h.parent)⟩
    obtain ⟨q, hq, hqmem, hqlt⟩ := h.exists_parent hu huv
    by_cases hqw : q = w
    · -- the parent is taken away, and the node is tied back past it
      obtain ⟨-, z, y, hway, hzy, hyopen, hylt⟩ := h.inv.tied q u hq
        (StackInv.mem_of_not_absorbed hu.2 hq) (h.not_onPath hu.1 huv)
      have hvu := hu.1.2
      have hsub : {z | Before s u z ∧ ¬ Absorbed P stack z} ⊆ Cut P stack s v \ {w} := by
        intro c ⟨⟨⟨hcs, hc⟩, _⟩, hcopen⟩
        refine ⟨⟨⟨hcs, by omega⟩, hcopen⟩, fun hcw => ?_⟩
        rw [Set.mem_singleton_iff.mp hcw, ← hqw] at hc
        omega
      have hcut : Cut P stack s v \ {w} ⊆ others :=
        Set.sdiff_subset_sdiff_left (Set.subset_insert _ _)
      have hz := hsub (mem_of_eqvGen_within hway
        ⟨⟨⟨hu.1.1, Nat.le_refl _⟩, fun f _ hlt => hlt⟩, hu.2⟩)
      have hymem : y ∈ others := by
        refine ⟨h.mem_of_adjacent hz.1 hzy hyopen, fun hyw => ?_⟩
        rw [Set.mem_singleton_iff.mp hyw, ← hqw] at hylt
        omega
      have hup : EqvGen (within (Adjacent adjacency) others) u y :=
        (EqvGen.mono (fun a b => within_mono (hsub.trans hcut)) _ _ hway).trans _ _ _
          (.rel _ _ ⟨hcut hz, hymem, hzy⟩)
      exact (ih (s.num y) (by omega) hymem rfl).trans _ _ _ hup.symm
    · have hqmem' : q ∈ others := ⟨.inr hqmem, hqw⟩
      exact (ih (s.num q) (by omega) hqmem' rfl).trans _ _ _
        (.rel _ _ ⟨hqmem', ⟨.inr hu, huw⟩, h.links q u (.inl hq)⟩)

/-- The cut with the node it hangs from is biconnected. -/
lemma block : Block (Adjacent adjacency) (insert p (Cut P stack s v)) := by
  have hpv : p ≠ v := fun heq => h.not_mem_parent (heq ▸ h.mem_self)
  -- without `p` everything hangs together below `v`
  have hcenter : ∀ T : Set V, Cut P stack s v ⊆ T → T ⊆ insert p (Cut P stack s v) →
      ∀ u ∈ T, EqvGen (within (Adjacent adjacency) T) v u := by
    intro T hsub hT u hu
    rcases hT hu with rfl | humem
    · exact .rel _ _ ⟨hsub h.mem_self, hu, h.links v u (.inr h.parent)⟩
    · exact EqvGen.mono (fun a b => within_mono hsub) _ _
        (h.inv.eqvGen_open h.tree h.links h.onPath humem.1 humem.2)
  constructor
  · exact ⟨p, .inl rfl, v, .inr h.mem_self, hpv⟩
  · exact connectedOn_of_center (hcenter _ (Set.subset_insert _ _) le_rfl)
  · intro w
    by_cases hw : w ∈ Cut P stack s v
    · exact connectedOn_of_center fun u hu => h.eqvGen_without hw hu
    · refine connectedOn_of_center (hcenter _ (fun x hx => ⟨.inr hx, ?_⟩) Set.sdiff_subset)
      exact fun hxw => hw (hxw ▸ hx)

/-- A biconnected set of nodes that are not absorbed lies in the new block, or outside the cut. -/
lemma cover (hsimple : Simple adjacency) {S : Set V} (hS : Block (Adjacent adjacency) S)
    (hopen : ∀ x ∈ S, ¬ Absorbed P stack x) :
    S ⊆ insert p (Cut P stack s v) ∨ ∀ x ∈ S, x ∉ Cut P stack s v := by
  by_contra hnone
  push Not at hnone
  obtain ⟨hout, d, hd, hdcut⟩ := hnone
  obtain ⟨z, hz, hzout⟩ := Set.not_subset.mp hout
  -- without `p` the set would have an edge that leaves the cut
  obtain ⟨x, -, y, ⟨hy, hyp⟩, hx, hynot, hxy⟩ := (hS.without p).exists_exit hsimple.symm
    (a := d) (b := z) (T := Cut P stack s v) ⟨hd, fun heq => h.not_mem_parent (heq ▸ hdcut)⟩
    ⟨hz, fun heq => hzout (.inl heq)⟩ hdcut fun hzcut => hzout (.inr hzcut)
  rcases h.mem_of_adjacent hx hxy (hopen y hy) with heq | hymem
  · exact hyp heq
  · exact hynot hymem

end

variable (h : Cutting adjacency P low stack s p v i j rest) (hstack : stack = above ++ (p, v) :: below)
include h hstack

/-- The tree edges that stay are those to nodes met before. -/
lemma mem_below_iff {q x : V} (hq : P q x) :
    (q, x) ∈ below ↔ (q, x) ∈ stack ∧ s.num x < s.num v := by
  obtain ⟨habove, hbelow⟩ := h.inv.split above p v below hstack h.onPath h.parent
  rw [hstack, mem_append, mem_cons]
  constructor
  · exact fun hmem => ⟨.inr (.inr hmem), (hbelow _ hmem).2⟩
  · rintro ⟨hmem | heq | hmem, hlt⟩
    · have := (habove _ hmem).2
      have := (h.tree.parent q x hq).2.2.1
      simp only at *
      omega
    · rw [(Prod.mk.inj heq).2] at hlt
      omega
    · exact hmem

/-- The ends of the edges that are popped are the block. -/
lemma mem_block_iff (x : V) :
    (∃ e ∈ above ++ [(p, v)], x = e.1 ∨ x = e.2) ↔ x ∈ insert p (Cut P stack s v) := by
  obtain ⟨habove, hbelow⟩ := h.inv.split above p v below hstack h.onPath h.parent
  constructor
  · intro ⟨e, he, hx⟩
    rcases mem_append.mp he with he | he
    · have hmem : e ∈ stack := by
        rw [hstack]
        exact mem_append_left _ he
      obtain ⟨hopen, hopen'⟩ := h.inv.kept e hmem
      have hcut : e.1 ∈ Cut P stack s v := ⟨habove e he, hopen⟩
      rcases hx with rfl | rfl
      · exact .inr hcut
      · exact h.mem_of_adjacent hcut (h.inv.edges e hmem) hopen'
    · rw [mem_singleton.mp he] at hx
      rcases hx with rfl | rfl
      · exact .inl rfl
      · exact .inr h.mem_self
  · rintro (rfl | hx)
    · exact ⟨(x, v), mem_append_right _ mem_cons_self, .inl rfl⟩
    · obtain ⟨q, hq⟩ := h.exists_entered hx
      have hmem := StackInv.mem_of_not_absorbed hx.2 hq
      have hnot := fun hmem => Nat.not_lt.mpr hx.1.2 ((h.mem_below_iff hstack hq).mp hmem).2
      rw [hstack, mem_append, mem_cons] at hmem
      refine ⟨(q, x), ?_, .inr rfl⟩
      rw [mem_append, mem_singleton]
      tauto

/-- The cut is what becomes absorbed. -/
lemma absorbed_iff (x : V) : Absorbed P below x ↔ Absorbed P stack x ∨ x ∈ Cut P stack s v := by
  constructor
  · intro ⟨q, hq, hnot⟩
    by_cases hopen : Absorbed P stack x
    · exact .inl hopen
    · rw [h.mem_below_iff hstack hq, not_and, Nat.not_lt] at hnot
      exact .inr ⟨⟨(h.tree.parent q x hq).1, hnot (StackInv.mem_of_not_absorbed hopen hq)⟩, hopen⟩
  · rintro (⟨q, hq, hnot⟩ | hx)
    · exact ⟨q, hq, fun hmem => hnot ((h.mem_below_iff hstack hq).mp hmem).1⟩
    · obtain ⟨q, hq⟩ := h.exists_entered hx
      exact ⟨q, hq, fun hmem => Nat.not_lt.mpr hx.1.2 ((h.mem_below_iff hstack hq).mp hmem).2⟩

/-- What was met before the node that is left stays as it is. -/
lemma not_absorbed_of_lt {x : V} (hx : ¬ Absorbed P stack x) (hlt : s.num x < s.num v) :
    ¬ Absorbed P below x := by
  rw [h.absorbed_iff hstack]
  rintro (habs | hcut)
  · exact hx habs
  · have := hcut.1.2
    omega

/-- The stack after a block is popped. -/
lemma stackInv : StackInv adjacency P low below (s.withPath ((p, j) :: rest)) := by
  have hoff := fun u => onPath_withPath_rest (u := u) h.path
  obtain ⟨habove, hbelow⟩ := h.inv.split above p v below hstack h.onPath h.parent
  have hsub : ∀ e ∈ below, e ∈ stack := by
    intro e he
    rw [hstack]
    exact mem_append_right _ (mem_cons_of_mem _ he)
  have hlt := fun f => h.tree.walk.num_lt_end h.path (u := f)
  constructor
  · intro f hf q hq
    exact StackInv.mem_of_not_absorbed (h.not_absorbed_of_lt hstack
      (h.inv.not_absorbed_of_onPath (hoff f hf)) (hlt f hf)) hq
  · intro above' q f below' hsplit hf hq
    have hwhole : stack = (above ++ (p, v) :: above') ++ (q, f) :: below' := by
      rw [hstack, hsplit, append_assoc, cons_append]
    obtain ⟨habove', hbelow'⟩ := h.inv.split _ q f below' hwhole (hoff f hf) hq
    exact ⟨fun e he => habove' e (mem_append_right _ (mem_cons_of_mem _ he)), hbelow'⟩
  · exact fun e he => h.inv.seen e (hsub e he)
  · exact fun e he => h.inv.edges e (hsub e he)
  · intro e he
    obtain ⟨hopen, hopen'⟩ := h.inv.kept e (hsub e he)
    obtain ⟨hlt, hlt'⟩ := hbelow e he
    exact ⟨h.not_absorbed_of_lt hstack hopen hlt, h.not_absorbed_of_lt hstack hopen' hlt'⟩
  · exact fun e he => h.inv.kind e (hsub e he)
  · intro q x hq hmem hxoff
    have hxlt : s.num x < s.num v := (hbelow _ hmem).2
    have hqlt := (h.tree.parent q x hq).2.2.1
    have hxoff' : ¬ s.OnPath x := by
      intro hx
      rw [eq_end_of_lost h.path hx hxoff] at hxlt
      omega
    refine (h.inv.tied q x hq (hsub _ hmem) hxoff').mono (fun _ _ => id) (fun z hz => ?_)
      (fun z hz hzopen => ?_) fun y hy hylt => ⟨?_, hylt⟩
    · exact ⟨hz.1, fun f hf => hz.2 f (hoff f hf)⟩
    · exact h.not_absorbed_of_lt hstack hzopen (hz.2 v h.onPath hxlt)
    · exact h.not_absorbed_of_lt hstack hy (by omega)
  · intro f hf
    rcases h.inv.low_open f (hoff f hf) with heq | ⟨z, y, hz, hzopen, hzy, hys, hnum⟩
    · exact .inl heq
    by_cases hzlt : s.num z < s.num v
    · exact .inr ⟨z, y, hz, h.not_absorbed_of_lt hstack hzopen hzlt, hzy, hys, hnum⟩
    -- the edge leads out of the cut, so it leads to `p`, which is then `f`
    have hle := h.low_le f (hoff f hf)
    have hflt := hlt f hf
    have hyp : y = p := by
      refine h.exits z y ⟨hz.1, by omega⟩ hzy fun hy => ?_
      have := hy.2
      omega
    have hfp := h.tree.num_le_below h.path (hoff f hf) hflt
    rw [hyp] at hnum
    left
    show low f = s.num f
    omega

end Cutting

end Cut

/-! ## Meeting a node -/

section Enter

variable [DecidableEq V]

/-- A node is met: what was known of the others stays. -/
private lemma TiedBack.enter {path : List (V × ℕ)} {q x : V}
    (h : TiedBack adjacency P stack s q x) (hinv : Inv adjacency some s) (hw : ¬ s.Seen w)
    (hq : s.Seen q) (hx : s.Seen x) (hP : ∀ u x, P u x → P' u x)
    (hpath : ∀ f, (s.enter w path).OnPath f → f = w ∨ s.OnPath f)
    (hopen : ∀ z, ¬ Absorbed P stack z → ¬ Absorbed P' stack' z) :
    TiedBack adjacency P' stack' (s.enter w path) q x := by
  have hnum : ∀ u, s.Seen u → (s.enter w path).num u = s.num u := fun u => Walk.num_enter hw
  refine h.mono hP (fun z hz => ?_) (fun z _ => hopen z) fun y hy hlt => ⟨hopen y hy, ?_⟩
  · refine ⟨(since_enter hinv hw hx).mpr (.inr hz.1), fun f hf hlt => ?_⟩
    rw [hnum z hz.1.1]
    rcases hpath f hf with rfl | hf
    · rw [Walk.num_enter_self]
      exact hinv.num_lt z hz.1.1
    · have hfs := hinv.onPath_seen hf
      rw [hnum x hx, hnum f hfs] at hlt
      rw [hnum f hfs]
      exact hz.2 f hf hlt
  · -- a node with a smaller number than `q` was met
    have hys : s.Seen y := by
      by_contra hy
      rw [Inv.next_eq_of_not_seen hy] at hlt
      have := hinv.num_lt q hq
      omega
    rwa [hnum y hys, hnum q hq]

section
variable (h : StackInv adjacency P low stack s)
include h

/-- The low links of the others stay when a node is met. -/
private lemma low_open_enter {path : List (V × ℕ)} (hinv : Inv adjacency some s) (hw : ¬ s.Seen w)
    (hpath : ∀ f, (s.enter w path).OnPath f → f = w ∨ s.OnPath f)
    (hopen : ∀ z, ¬ Absorbed P stack z → ¬ Absorbed P' stack' z)
    (hother : ∀ u, u ≠ w → low' u = low u) (hself : low' w = s.next) :
    ∀ u, (s.enter w path).OnPath u → low' u = (s.enter w path).num u ∨ ∃ z y,
      (s.enter w path).Since u z ∧ ¬ Absorbed P' stack' z ∧ Adjacent adjacency z y ∧
      (s.enter w path).Seen y ∧ (s.enter w path).num y = low' u := by
  have hne : ∀ u, s.Seen u → u ≠ w := fun u hu huw => hw (huw ▸ hu)
  have hnum : ∀ u, s.Seen u → (s.enter w path).num u = s.num u := fun u => Walk.num_enter hw
  intro u hu
  rcases hpath u hu with rfl | hu
  · left
    rw [hself, Walk.num_enter_self]
  have hus := hinv.onPath_seen hu
  rw [hother u (hne u hus), hnum u hus]
  rcases h.low_open u hu with heq | ⟨z, y, hz, hzopen, hzy, hys, heq⟩
  · exact .inl heq
  · refine .inr ⟨z, y, (since_enter hinv hw hus).mpr (.inr hz), hopen z hzopen, hzy,
      Walk.seen_enter.mpr (.inr hys), ?_⟩
    rw [hnum y hys, heq]

lemma StackInv.start (ht : TreeInv adjacency some P s) (hpath : s.path = []) (hw : ¬ s.Seen w)
    (hother : ∀ u, u ≠ w → low' u = low u) (hself : low' w = s.next) :
    StackInv adjacency P low' stack (s.enter w []) := by
  have hroot : ∀ q, ¬ P q w := fun q hq => hw (ht.parent q w hq).1
  have hon : ∀ f, (s.enter w []).OnPath f → f = w := by
    intro f hf
    rcases onPath_enter.mp hf with hf | ⟨k, hk⟩
    · exact hf
    · cases hk
  have hstack := h.stack_eq_nil ht hpath
  subst hstack
  constructor
  · exact fun f hf q hq => absurd (hon f hf ▸ hq) (hroot q)
  · exact fun above q f below hsplit hf hq => absurd (hon f hf ▸ hq) (hroot q)
  iterate 5 exact nofun
  · exact low_open_enter h ht.walk hw (fun f hf => .inl (hon f hf)) (fun _ => id) hother hself

/-- Descending pushes the edge to the new node. -/
lemma StackInv.descend (ht : TreeInv adjacency some P s) (hpath : s.path = (v, i) :: rest)
    (hedge : Adjacent adjacency v w) (hw : ¬ s.Seen w)
    (hP : ∀ u x, P' u x ↔ P u x ∨ (u = v ∧ x = w)) (hother : ∀ u, u ≠ w → low' u = low u)
    (hself : low' w = s.next) :
    StackInv adjacency P' low' ((v, w) :: stack) (s.enter w ((v, i + 1) :: rest)) ∧
      ∀ x, Absorbed P' ((v, w) :: stack) x ↔ Absorbed P stack x := by
  have hv := onPath_end hpath
  have hvs := ht.walk.onPath_seen hv
  have hon : ∀ f, (s.enter w ((v, i + 1) :: rest)).OnPath f ↔ f = w ∨ s.OnPath f := by
    intro f
    rw [onPath_enter, onPath_withPath_next hpath]
  have hne : ∀ u, s.Seen u → u ≠ w := fun u hu huw => hw (huw ▸ hu)
  have hnum : ∀ u, s.Seen u → (s.enter w ((v, i + 1) :: rest)).num u = s.num u :=
    fun u => Walk.num_enter hw
  have hfresh : ∀ q, ¬ P q w := fun q hq => hw (ht.parent q w hq).1
  have hnew : P' v w := (hP v w).mpr (.inr ⟨rfl, rfl⟩)
  -- a tree edge of the new stack is the new edge or an old tree edge
  have htree : ∀ q x, P' q x → (q, x) ∈ (v, w) :: stack → (q = v ∧ x = w) ∨ (P q x ∧ (q, x) ∈ stack) := by
    intro q x hq hmem
    rcases (hP q x).mp hq with hq | hq
    · right
      refine ⟨hq, (mem_cons.mp hmem).resolve_left fun heq => ?_⟩
      exact hne x (ht.parent q x hq).1 (Prod.mk.inj heq).2
    · exact .inl hq
  have habsorbed : ∀ x, Absorbed P' ((v, w) :: stack) x ↔ Absorbed P stack x :=
    absorbed_cons_iff (hfresh v) (fun u x => (hP u x).mp) fun u x hux => (hP u x).mpr (.inl hux)
  refine ⟨?_, habsorbed⟩
  have hopen : ∀ z, ¬ Absorbed P stack z → ¬ Absorbed P' ((v, w) :: stack) z := fun z hz => by
    rwa [habsorbed]
  constructor
  · intro f hf q hq
    rcases (hP q f).mp hq with hq | ⟨rfl, rfl⟩
    · refine mem_cons_of_mem _ (h.path_open f (((hon f).mp hf).resolve_left fun hfw => ?_) q hq)
      exact hfresh q (hfw ▸ hq)
    · exact mem_cons_self
  · intro above q f below hsplit hf hq
    cases above with
    | nil =>
      obtain ⟨heq, htail⟩ := List.cons.inj hsplit
      obtain ⟨rfl, rfl⟩ := Prod.mk.inj heq
      refine ⟨nofun, fun e he => ?_⟩
      obtain ⟨hs, hs'⟩ := h.seen e (htail ▸ he)
      rw [Walk.num_enter_self, hnum _ hs, hnum _ hs']
      exact ⟨ht.walk.num_lt _ hs, ht.walk.num_lt _ hs'⟩
    | cons e above =>
      obtain ⟨rfl, htail⟩ := List.cons.inj hsplit
      have hmem : (q, f) ∈ stack := by
        rw [htail]
        exact mem_append_right _ mem_cons_self
      have hfw : f ≠ w := hne f (h.seen _ hmem).2
      have hfon := ((hon f).mp hf).resolve_left hfw
      have hfs := ht.walk.onPath_seen hfon
      have hq' : P q f := ((hP q f).mp hq).resolve_right fun heq => hfw heq.2
      obtain ⟨habove, hbelow⟩ := h.split above q f below htail hfon hq'
      constructor
      · simp only [since_enter ht.walk hw hfs]
        exact forall_mem_cons.mpr ⟨.inr ⟨hvs, ht.walk.num_le_of_onPath hpath hfon⟩,
          fun e he => .inr (habove e he)⟩
      · intro e he
        have hmem : e ∈ stack := by
          rw [htail]
          exact mem_append_right _ (mem_cons_of_mem _ he)
        obtain ⟨hs, hs'⟩ := h.seen e hmem
        rw [hnum _ hs, hnum _ hs', hnum f hfs]
        exact hbelow e he
  · simp only [Walk.seen_enter]
    exact forall_mem_cons.mpr
      ⟨⟨.inr hvs, .inl rfl⟩, fun e he => ⟨.inr (h.seen e he).1, .inr (h.seen e he).2⟩⟩
  · exact forall_mem_cons.mpr ⟨hedge, h.edges⟩
  · simp only [habsorbed]
    exact forall_mem_cons.mpr
      ⟨⟨h.not_absorbed_of_onPath hv, fun ⟨q, hq, _⟩ => hfresh q hq⟩, h.kept⟩
  · refine forall_mem_cons.mpr ⟨.inl hnew, fun e he => ?_⟩
    exact (h.kind e he).imp (fun hq => (hP _ _).mpr (.inl hq))
      fun ⟨u, hu⟩ => ⟨u, (hP _ _).mpr (.inl hu)⟩
  · intro q x hq hmem hoff
    rcases htree q x hq hmem with ⟨-, hxw⟩ | ⟨hq, hmem⟩
    · exact absurd ((hon x).mpr (.inl hxw)) hoff
    · obtain ⟨hxs, hqs, -⟩ := ht.parent q x hq
      exact (h.tied q x hq hmem fun hx => hoff ((hon x).mpr (.inr hx))).enter ht.walk hw hqs hxs
        (fun u x hu => (hP u x).mpr (.inl hu)) (fun f => (hon f).mp) hopen
  · exact low_open_enter h ht.walk hw (fun f => (hon f).mp) hopen hother hself

end

end Enter

/-! ## The blocks -/

section Blocks

variable [LinearOrder V] {absorbed absorbed' : V → Prop} {blocks : List (List V)}

/-- What holds of the blocks cut so far. -/
structure BlocksInv (adjacency : V → List V) (absorbed : V → Prop) (blocks : List (List V)) :
    Prop where
  block : ∀ B ∈ blocks, Block (Adjacent adjacency) {x | x ∈ B}
  ascending : ∀ B ∈ blocks, B.Pairwise (· < ·)
  -- at most the node that a block hangs from is not absorbed
  top : ∀ B ∈ blocks, ∃ p, ∀ x ∈ B, ¬ absorbed x → x = p
  cover : ∀ S, Block (Adjacent adjacency) S →
    (∃ B ∈ blocks, S ⊆ {x | x ∈ B}) ∨ ∀ x ∈ S, ¬ absorbed x
  share : blocks.Pairwise fun B B' => ({x | x ∈ B} ∩ {x | x ∈ B'}).Subsingleton

lemma BlocksInv.congr (h : BlocksInv adjacency absorbed blocks)
    (habsorbed : ∀ x, absorbed' x ↔ absorbed x) : BlocksInv adjacency absorbed' blocks := by
  obtain rfl : absorbed' = absorbed := by
    funext x
    exact propext (habsorbed x)
  exact h

/-- A block is added. -/
lemma Cutting.blocksInv {above below : List (V × V)} {B : List V}
    (hcut : Cutting adjacency P low stack s p v i j rest)
    (hstack : stack = above ++ (p, v) :: below) (hsimple : Simple adjacency)
    (h : BlocksInv adjacency (Absorbed P stack) blocks) (hsorted : B.Pairwise (· < ·))
    (hmem : ∀ x, x ∈ B ↔ ∃ e ∈ above ++ [(p, v)], x = e.1 ∨ x = e.2) :
    BlocksInv adjacency (Absorbed P below) (blocks ++ [B]) := by
  have hB : {x | x ∈ B} = insert p (Cut P stack s v) := by
    ext x
    rw [Set.mem_ofPred_eq, hmem, hcut.mem_block_iff hstack]
  have habsorbed := hcut.absorbed_iff hstack
  constructor
  · refine forall_mem_concat.mpr ⟨h.block, ?_⟩
    rw [hB]
    exact hcut.block
  · exact forall_mem_concat.mpr ⟨h.ascending, hsorted⟩
  · intro B' hB'
    rcases mem_append.mp hB' with hB' | hB'
    · obtain ⟨q, hq⟩ := h.top B' hB'
      exact ⟨q, fun x hx hopen => hq x hx fun habs => hopen ((habsorbed x).mpr (.inl habs))⟩
    rw [mem_singleton.mp hB']
    refine ⟨p, fun x hx hopen => ?_⟩
    have hx' : x ∈ insert p (Cut P stack s v) := hB ▸ hx
    rcases hx' with hxp | hxcut
    · exact hxp
    · exact absurd ((habsorbed x).mpr (.inr hxcut)) hopen
  · intro S hS
    rcases h.cover S hS with ⟨B', hB', hsub⟩ | hopen
    · exact .inl ⟨B', mem_append_left _ hB', hsub⟩
    · rcases hcut.cover hsimple hS hopen with hsub | hout
      · exact .inl ⟨B, mem_append_right _ mem_cons_self, hB ▸ hsub⟩
      · right
        intro x hx habs
        exact ((habsorbed x).mp habs).elim (hopen x hx) (hout x hx)
  · rw [pairwise_append]
    refine ⟨h.share, pairwise_singleton _ _, fun B' hB' B'' hB'' => ?_⟩
    rw [mem_singleton.mp hB'', hB]
    -- the nodes of the new block were not absorbed
    obtain ⟨q, hq⟩ := h.top B' hB'
    have honly : ∀ x ∈ {x | x ∈ B'} ∩ insert p (Cut P stack s v), x = q := by
      intro x ⟨hx, hxnew⟩
      refine hq x hx ?_
      rcases hxnew with rfl | hxcut
      · exact hcut.inv.not_absorbed_of_onPath hcut.onPath_parent
      · exact hxcut.2
    exact fun x hx y hy => (honly x hx).trans (honly y hy).symm

end Blocks

end GraphForge.Algorithms.Biconnected
