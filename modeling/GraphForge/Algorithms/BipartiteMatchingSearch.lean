import GraphForge.Algorithms.BipartiteMatching

/-!
# The searches of a matching phase

The layers hold every left node that an alternating path from a free one reaches, each one but the
first layer reached from the layer before it. A depth-first search that fails has shown that no path
from layer to layer leads on from the nodes it gave up; one that succeeds exchanges the edges along
its stack.
-/

namespace GraphForge.Algorithms.BipartiteMatching

open List Function Option

variable {L R : Type} {adjacency : L → List R} {m : Matching L R}

/-- The two arrays say the same, and matched nodes are neighbours. -/
structure Valid (adjacency : L → List R) (m : Matching L R) : Prop where
  agree : ∀ l r, m.leftMatch l = some r ↔ m.rightMatch r = some l
  edge : ∀ l r, m.leftMatch l = some r → r ∈ adjacency l

/-! ## Layers -/

section Layers

variable {layers : Layers L} {waiting : L → Prop} {left : L} {r : R}

/-- What the layers know once a neighbour of a reached node has been looked at. -/
def Handled (m : Matching L R) (layers : Layers L) (r : R) : Prop :=
  (m.rightMatch r = none → layers.found = true) ∧
    ∀ next, m.rightMatch r = some next → layers.distance next ≠ none

/-- What holds of the layers; the nodes that wait have neighbours left to look at. -/
structure LayersInv (adjacency : L → List R) (m : Matching L R) (waiting : L → Prop)
    (layers : Layers L) : Prop where
  free : ∀ l, m.leftMatch l = none → layers.distance l = some 0
  layer : ∀ l d, layers.distance l = some d → (d = 0 ∧ m.leftMatch l = none) ∨
    ∃ l' r d', r ∈ adjacency l' ∧ m.rightMatch r = some l ∧ layers.distance l' = some d' ∧ d = d' + 1
  reached : ∀ l, waiting l → layers.distance l ≠ none
  handled : ∀ l, layers.distance l ≠ none → ¬ waiting l → ∀ r ∈ adjacency l, Handled m layers r
  found : layers.found = true →
    ∃ l r, layers.distance l ≠ none ∧ r ∈ adjacency l ∧ m.rightMatch r = none

lemma LayersInv.congr {waiting' : L → Prop} (h : LayersInv adjacency m waiting layers)
    (hwaiting : ∀ l, waiting' l ↔ waiting l) : LayersInv adjacency m waiting' layers := by
  obtain rfl : waiting' = waiting := by
    funext l
    exact propext (hwaiting l)
  exact h

/-- The partner of a neighbour is reached for the first time. -/
lemma LayersInv.reach {next : L} {d : ℕ}
    (h : LayersInv adjacency m (fun l => l ∈ layers.queue ∨ l = left) layers) (layers' : Layers L)
    (hr : r ∈ adjacency left) (hmatch : m.rightMatch r = some next)
    (hnew : layers.distance next = none) (hd : layers.distance left = some d)
    (hother : ∀ l, l ≠ next → layers'.distance l = layers.distance l)
    (hself : layers'.distance next = some (d + 1)) (hqueue : layers'.queue = layers.queue ++ [next])
    (hfound : layers'.found = layers.found) :
    LayersInv adjacency m (fun l => l ∈ layers'.queue ∨ l = left) layers' ∧
      ∀ r', Handled m layers r' → Handled m layers' r' := by
  have hold : ∀ l, layers.distance l ≠ none → layers'.distance l = layers.distance l :=
    fun l hl => hother l fun heq => hl (heq ▸ hnew)
  have hmono : ∀ r', Handled m layers r' → Handled m layers' r' := by
    intro r' hr'
    refine ⟨fun hnone => hfound ▸ hr'.1 hnone, fun next' hnext' => ?_⟩
    rw [hold next' (hr'.2 next' hnext')]
    exact hr'.2 next' hnext'
  refine ⟨⟨fun l hl => ?_, fun l e he => ?_, fun l hl => ?_, fun l hl hnot r' hr' => ?_,
    fun hfound' => ?_⟩, hmono⟩
  · have := h.free l hl
    rw [hold l (by rw [this]; exact nofun), this]
  · by_cases hl : l = next
    · rw [hl, hself] at he
      rw [hl]
      refine .inr ⟨left, r, d, hr, hmatch, ?_, (some.inj he).symm⟩
      rw [hold left (by rw [hd]; exact nofun), hd]
    · rw [hother l hl] at he
      rcases h.layer l e he with hfree | ⟨l', r', d', hr', hmatch', hd', heq⟩
      · exact .inl hfree
      · refine .inr ⟨l', r', d', hr', hmatch', ?_, heq⟩
        rw [hold l' (by rw [hd']; exact nofun), hd']
  · by_cases hln : l = next
    · rw [hln, hself]
      exact nofun
    · rw [hother l hln]
      refine h.reached l (hl.imp_left fun hl => ?_)
      rw [hqueue] at hl
      exact (mem_append.mp hl).resolve_right fun hl => hln (mem_singleton.mp hl)
  · rw [hqueue] at hnot
    have hln : l ≠ next := fun heq =>
      hnot (.inl (mem_append_right _ (mem_singleton.mpr heq)))
    rw [hother l hln] at hl
    refine hmono r' (h.handled l hl (fun hw => hnot ?_) r' hr')
    exact hw.imp_left fun hq => mem_append_left _ hq
  · obtain ⟨l, r', hl, hr', hmatch'⟩ := h.found (hfound ▸ hfound')
    exact ⟨l, r', by rwa [hold l hl], hr', hmatch'⟩

variable [DecidableEq L] [Fintype L]

lemma LayersInv.scan (h : LayersInv adjacency m (fun l => l ∈ layers.queue ∨ l = left) layers)
    (hr : r ∈ adjacency left) :
    LayersInv adjacency m (fun l => l ∈ (layers.scan m left r).queue ∨ l = left)
      (layers.scan m left r) ∧
    Handled m (layers.scan m left r) r ∧
    (∀ r', Handled m layers r' → Handled m (layers.scan m left r) r') ∧
    (layers.scan m left r).work ≤ layers.work := by
  have hleft := h.reached left (.inr rfl)
  unfold Layers.scan
  cases hmatch : m.rightMatch r with
  | none =>
    have hmono : ∀ r', Handled m layers r' → Handled m { layers with found := true } r' :=
      fun r' hr' => ⟨fun _ => rfl, hr'.2⟩
    refine ⟨⟨h.free, h.layer, h.reached, fun l hl hnot r' hr' => ?_, fun _ => ?_⟩, ?_, hmono,
      Nat.le_refl _⟩
    · exact hmono r' (h.handled l hl hnot r' hr')
    · exact ⟨left, r, hleft, hr, hmatch⟩
    · refine ⟨fun _ => rfl, fun next hnext => ?_⟩
      rw [hmatch] at hnext
      cases hnext
  | some next =>
    simp only
    have hmatched : m.rightMatch r ≠ none := by
      rw [hmatch]
      exact nofun
    split_ifs with hnew
    · obtain ⟨d, hd⟩ := ne_none_iff_exists'.mp hleft
      have hother : ∀ l, l ≠ next → update layers.distance next
          ((layers.distance left).map (· + 1)) l = layers.distance l :=
        fun l hl => update_of_ne hl _ _
      have hself : update layers.distance next ((layers.distance left).map (· + 1)) next =
          some (d + 1) := by
        rw [update_self, hd]
        rfl
      obtain ⟨hinv, hmono⟩ := h.reach { layers with
        distance := update layers.distance next ((layers.distance left).map (· + 1))
        queue := layers.queue ++ [next] } hr hmatch hnew hd hother hself rfl rfl
      refine ⟨hinv, ⟨fun hnone => absurd hnone hmatched, fun next' hnext' => ?_⟩, hmono, ?_⟩
      · rw [hmatch] at hnext'
        rw [← some.inj hnext']
        exact fun hnone => nomatch hself.symm.trans hnone
      · -- one node less is left to reach, one more waits
        have hset : (Finset.univ.filter fun l => update layers.distance next
            ((layers.distance left).map (· + 1)) l = none) =
            (Finset.univ.filter fun l => layers.distance l = none).erase next := by
          ext l
          by_cases hl : l = next
          · simp [hl, hd]
          · simp [hl]
        have hmem : next ∈ Finset.univ.filter fun l => layers.distance l = none := by simp [hnew]
        have hpos := Finset.card_pos.mpr ⟨next, hmem⟩
        unfold Layers.work
        simp only [hset, Finset.card_erase_of_mem hmem, length_append, length_singleton]
        omega
    · refine ⟨h, ⟨fun hnone => absurd hnone hmatched, fun next' hnext' => ?_⟩, fun _ => id,
        Nat.le_refl _⟩
      rw [hmatch] at hnext'
      rwa [← some.inj hnext']

lemma LayersInv.visit (h : LayersInv adjacency m (· ∈ layers.queue) layers)
    (hne : layers.queue ≠ []) :
    LayersInv adjacency m (· ∈ (layers.visit adjacency m).queue) (layers.visit adjacency m) ∧
      (layers.visit adjacency m).work < layers.work := by
  unfold Layers.visit
  cases hqueue : layers.queue with
  | nil => exact absurd hqueue hne
  | cons left queue =>
    have hstart : LayersInv adjacency m
        (fun l => l ∈ ({ layers with queue } : Layers L).queue ∨ l = left) { layers with queue } := by
      have hcongr : LayersInv adjacency m (fun l => l ∈ queue ∨ l = left) layers :=
        h.congr fun l => by rw [hqueue, mem_cons, or_comm]
      exact ⟨hcongr.free, hcongr.layer, hcongr.reached, hcongr.handled, hcongr.found⟩
    -- the neighbours looked at so far are handled
    have hloop := foldl_invariant (f := Layers.scan m left) (I := fun done (t : Layers L) =>
      (∀ r ∈ done, r ∈ adjacency left) →
      LayersInv adjacency m (fun l => l ∈ t.queue ∨ l = left) t ∧ (∀ r ∈ done, Handled m t r) ∧
        t.work ≤ ({ layers with queue } : Layers L).work)
      (fun done t r ht hdone => by
        obtain ⟨hinv, hhandled, hwork⟩ := ht fun r hr => hdone r (mem_append_left _ hr)
        obtain ⟨hinv', hr', hmono, hwork'⟩ :=
          hinv.scan (hdone r (mem_append_right _ mem_cons_self))
        refine ⟨hinv', fun r' hr'' => ?_, hwork'.trans hwork⟩
        rcases mem_append.mp hr'' with hr'' | hr''
        · exact hmono r' (hhandled r' hr'')
        · rwa [mem_singleton.mp hr''])
      (adjacency left) [] { layers with queue } fun _ => ⟨hstart, nofun, Nat.le_refl _⟩
    obtain ⟨hinv, hhandled, hwork⟩ := hloop fun r => id
    constructor
    · refine ⟨hinv.free, hinv.layer, fun l hl => hinv.reached l (.inl hl), fun l hl hnot => ?_,
        hinv.found⟩
      by_cases hleft : l = left
      · rw [hleft]
        exact hhandled
      · exact hinv.handled l hl fun hw => hw.elim hnot hleft
    · refine Nat.lt_of_le_of_lt hwork ?_
      unfold Layers.work
      rw [hqueue, length_cons]
      exact Nat.lt_succ_self _

variable {lefts : List L}

/-- The layers of a phase: every left node that is reached has its neighbours handled. -/
lemma ends_findLayers (hlefts : ∀ l, l ∈ lefts) :
    Except.Ends (fun _ => False) (LayersInv adjacency m fun _ => False)
      (findLayers lefts adjacency m) := by
  unfold findLayers
  have hdist : ∀ l, (Layers.initial lefts m).distance l =
      if (m.leftMatch l).isNone then some 0 else none := fun l => rfl
  have hstart : LayersInv adjacency m (· ∈ (Layers.initial lefts m).queue)
      (Layers.initial lefts m) := by
    constructor
    · intro l hl
      rw [hdist, hl]
      rfl
    · intro l d hd
      rw [hdist] at hd
      split_ifs at hd with hfree
      · exact .inl ⟨(some.inj hd).symm, by simpa using hfree⟩
    · intro l hl
      have hfree := (mem_filter.mp hl).2
      rw [hdist, if_pos (by simpa using hfree)]
      exact nofun
    · intro l hl hnot
      refine absurd (mem_filter.mpr ⟨hlefts l, ?_⟩) hnot
      by_contra hfree
      rw [hdist, if_neg (by simpa using hfree)] at hl
      exact hl rfl
    · exact nofun
  refine (WhileLoop.ends_run (I := fun layers : Layers L =>
    LayersInv adjacency m (· ∈ layers.queue) layers) ?_ hstart).mono ?_
  · intro layers h hcond
    exact .ok (h.visit (by simpa using hcond))
  · intro layers ⟨h, hcond⟩
    have hnil : layers.queue = [] := by simpa using hcond
    refine h.congr fun l => ?_
    rw [hnil]
    exact (iff_false_intro not_mem_nil).symm

end Layers

/-! ## Augmenting paths -/

section Augment

variable {d₀ : L → Option ℕ} {distance : L → Option ℕ} {root : L} {stack : List (Frame L R)}
  {frame : Frame L R}

/-- The frames of the stack, top first, are an alternating path from the root: each left node is
matched to the right node it was reached by and lies one layer above the one below. -/
def Alternating (adjacency : L → List R) (m : Matching L R) (distance : L → Option ℕ) (root : L) :
    List (Frame L R) → Prop
  | [] => True
  | [frame] => frame.left = root ∧ frame.incomingRight = none ∧ distance root ≠ none
  | frame :: below :: stack =>
    (∃ r, frame.incomingRight = some r ∧ r ∈ adjacency below.left ∧ m.leftMatch frame.left = some r) ∧
      (∃ d, distance below.left = some d ∧ distance frame.left = some (d + 1)) ∧
      Alternating adjacency m distance root (below :: stack)

section
variable (h : Alternating adjacency m distance root (frame :: stack))
include h

lemma Alternating.tail : Alternating adjacency m distance root stack := by
  cases stack with
  | nil => trivial
  | cons below stack => exact h.2.2

/-- Only how far the neighbours have been gone through may change in the top frame. -/
lemma Alternating.advance (n : ℕ) :
    Alternating adjacency m distance root ({ frame with nextNeighbor := n } :: stack) := by
  cases stack with
  | nil => exact h
  | cons below stack => exact h

lemma Alternating.distance_ne_none : distance frame.left ≠ none := by
  cases stack with
  | nil =>
    obtain ⟨hroot, -, hdist⟩ := h
    rwa [hroot]
  | cons below stack =>
    obtain ⟨-, ⟨d, -, hd⟩, -⟩ := h
    rw [hd]
    exact nofun

lemma Alternating.lower {d : ℕ} (hd : distance frame.left = some d) :
    ∀ f ∈ stack, ∃ e < d, distance f.left = some e := by
  induction stack generalizing frame d with
  | nil => exact nofun
  | cons below stack ih =>
    obtain ⟨-, ⟨e, hbelow, habove⟩, htail⟩ := h
    have hde : d = e + 1 := some.inj (hd.symm.trans habove)
    refine forall_mem_cons.mpr ⟨⟨e, by omega, hbelow⟩, fun f hf => ?_⟩
    obtain ⟨e', hlt, he'⟩ := ih htail hbelow f hf
    exact ⟨e', by omega, he'⟩

lemma Alternating.not_mem : frame.left ∉ stack.map (·.left) := by
  intro hmem
  obtain ⟨f, hf, heq⟩ := mem_map.mp hmem
  obtain ⟨d, hd⟩ := ne_none_iff_exists'.mp h.distance_ne_none
  obtain ⟨e, hlt, he⟩ := h.lower hd f hf
  rw [heq, hd] at he
  have := some.inj he
  omega

lemma Alternating.eq_root_of_free (hfree : m.leftMatch frame.left = none) : frame.left = root := by
  cases stack with
  | nil => exact h.1
  | cons below stack =>
    obtain ⟨⟨r, -, -, hr⟩, -⟩ := h
    rw [hr] at hfree
    cases hfree

lemma Alternating.root_mem : root ∈ (frame :: stack).map (·.left) := by
  induction stack generalizing frame with
  | nil => exact mem_singleton.mpr h.1.symm
  | cons below stack ih => exact mem_cons_of_mem _ (ih h.2.2)

end

/-- Distances that the path does not use may change. -/
lemma Alternating.congr {distance' : L → Option ℕ}
    (h : Alternating adjacency m distance root stack)
    (hsame : ∀ f ∈ stack, distance' f.left = distance f.left) :
    Alternating adjacency m distance' root stack := by
  induction stack with
  | nil => trivial
  | cons frame stack ih =>
    have htail := ih h.tail fun f hf => hsame f (mem_cons_of_mem _ hf)
    have hframe := hsame frame mem_cons_self
    cases stack with
    | nil =>
      obtain ⟨hroot, hincoming, hdist⟩ := h
      refine ⟨hroot, hincoming, ?_⟩
      rw [← hroot, hframe, hroot]
      exact hdist
    | cons below stack =>
      obtain ⟨hmatched, ⟨d, hbelow, habove⟩, -⟩ := h
      have hbelow' := hsame below (mem_cons_of_mem _ mem_cons_self)
      exact ⟨hmatched, ⟨d, hbelow'.trans hbelow, hframe.trans habove⟩, htail⟩

section Commit

variable [DecidableEq R]

/-- The matching with a right node set free, whatever the array still says of it. -/
def Matching.release (m : Matching L R) (r : R) : Matching L R :=
  { m with rightMatch := update m.rightMatch r none }

variable {l₀ : L} {r₀ r₁ : R}

/-- What validity says once a right node is set free. -/
private lemma valid_release_iff : Valid adjacency (m.release r₀) ↔
    (∀ l r, m.leftMatch l = some r ↔ r ≠ r₀ ∧ m.rightMatch r = some l) ∧
      ∀ l r, m.leftMatch l = some r → r ∈ adjacency l := by
  have hright (r : R) (l : L) :
      update m.rightMatch r₀ none r = some l ↔ r ≠ r₀ ∧ m.rightMatch r = some l := by
    by_cases hr : r = r₀
    · simp [hr]
    · simp [hr]
  simp only [← hright]
  exact ⟨fun h => ⟨h.agree, h.edge⟩, fun h => ⟨h.1, h.2⟩⟩

variable [DecidableEq L]

section
variable (h : Valid adjacency (m.release r₀)) (hedge : r₀ ∈ adjacency l₀)
include h

/-- The arrays agree after a left node is matched to a right node that was set free, except that
its former partner still points to it. -/
private lemma agree_assign (l : L) (r : R) : (m.assign l₀ r₀).leftMatch l = some r ↔
    m.leftMatch l₀ ≠ some r ∧ (m.assign l₀ r₀).rightMatch r = some l := by
  have hagree := (valid_release_iff.mp h).1
  show update m.leftMatch l₀ (some r₀) l = some r ↔
    _ ∧ update m.rightMatch r₀ (some l₀) r = some l
  have hfree : m.leftMatch l₀ ≠ some r₀ := fun heq => ((hagree l₀ r₀).mp heq).1 rfl
  rw [update_apply, update_apply]
  split_ifs with hl hr hr
  · simp [hl, hr, hfree]
  · rw [hl, Ne, hagree]
    simp [hr, Ne.symm hr]
  · rw [hr, hagree]
    simp [Ne.symm hl]
  · rw [Ne, hagree, hagree]
    have : m.rightMatch r = some l → m.rightMatch r ≠ some l₀ := fun h₁ h₂ =>
      hl (some.inj (h₁.symm.trans h₂))
    tauto

include hedge

private lemma edge_of_assign (l : L) (r : R) (hlr : (m.assign l₀ r₀).leftMatch l = some r) :
    r ∈ adjacency l := by
  replace hlr : update m.leftMatch l₀ (some r₀) l = some r := hlr
  by_cases hl : l = l₀
  · rw [hl, update_self] at hlr
    rw [hl, ← some.inj hlr]
    exact hedge
  · rw [update_of_ne hl] at hlr
    exact h.edge l r hlr

/-- Matching a free left node to a right node that was set free. -/
lemma Valid.assign_free (hfree : m.leftMatch l₀ = none) : Valid adjacency (m.assign l₀ r₀) := by
  refine ⟨fun l r => ?_, edge_of_assign h hedge⟩
  rw [agree_assign h]
  simp [hfree]

/-- Matching a left node to a right node that was set free sets its partner free. -/
lemma Valid.assign_matched (hmatched : m.leftMatch l₀ = some r₁) :
    Valid adjacency ((m.assign l₀ r₀).release r₁) := by
  refine valid_release_iff.mpr ⟨fun l r => ?_, edge_of_assign h hedge⟩
  rw [agree_assign h, hmatched]
  simp [eq_comm]

end

/-- The partners of the nodes of the path may change where the path does not go. -/
lemma Alternating.assign (h : Alternating adjacency m distance root stack)
    (hl : l₀ ∉ stack.map (·.left)) :
    Alternating adjacency (m.assign l₀ r₀) distance root stack := by
  induction stack with
  | nil => trivial
  | cons frame stack ih =>
    have htail := ih h.tail fun hmem => hl (mem_cons_of_mem _ hmem)
    cases stack with
    | nil => exact h
    | cons below stack =>
      obtain ⟨⟨r, hincoming, hr, hmatched⟩, hlayer, -⟩ := h
      refine ⟨⟨r, hincoming, hr, ?_⟩, hlayer, htail⟩
      show update m.leftMatch l₀ (some r₀) frame.left = _
      have hframe : frame.left ≠ l₀ := by
        intro heq
        exact hl (mem_map.mpr ⟨frame, mem_cons_self, heq⟩)
      rw [update_of_ne hframe, hmatched]

/-- Exchanging the edges along the path matches the root besides what was matched before. -/
lemma commit_spec {pathRight : R} (hvalid : Valid adjacency (m.release pathRight))
    (hpath : Alternating adjacency m distance root (frame :: stack))
    (hend : pathRight ∈ adjacency frame.left) (hroot : m.leftMatch root = none) :
    Valid adjacency (commit (frame :: stack) pathRight m) ∧
      ∀ l, (commit (frame :: stack) pathRight m).leftMatch l = none ↔
        m.leftMatch l = none ∧ l ≠ root := by
  have hother : ∀ l, l ≠ frame.left → (m.assign frame.left pathRight).leftMatch l = m.leftMatch l :=
    fun l hl => update_of_ne hl _ _
  induction stack generalizing frame m pathRight with
  | nil =>
    obtain ⟨hleft, hincoming, -⟩ := hpath
    refine ⟨hvalid.assign_free hend (hleft ▸ hroot), fun l => ?_⟩
    show update m.leftMatch frame.left (some pathRight) l = none ↔ _
    rw [hleft]
    by_cases hl : l = root
    · simp [hl]
    · simp [hl]
  | cons below stack ih =>
    have hnot := hpath.not_mem
    obtain ⟨⟨r', hincoming, hr', hmatched⟩, -, htail⟩ := hpath
    have hne : root ≠ frame.left := fun heq => hnot (heq ▸ htail.root_mem)
    obtain ⟨hvalid', hfree⟩ := ih (hvalid.assign_matched hend hmatched) (htail.assign hnot) hr'
      ((hother root hne).trans hroot) fun l hl => update_of_ne hl _ _
    have hstep : commit (frame :: below :: stack) pathRight m =
        commit (below :: stack) r' (m.assign frame.left pathRight) := by
      show commit (below :: stack) (frame.incomingRight.getD pathRight) _ = _
      rw [hincoming]
      rfl
    rw [hstep]
    refine ⟨hvalid', fun l => ?_⟩
    rw [hfree]
    by_cases hl : l = frame.left
    · have hassigned : (m.assign frame.left pathRight).leftMatch frame.left = some pathRight :=
        update_self ..
      rw [hl, hassigned, hmatched]
      simp
    · rw [hother l hl]

end Commit

/-- No neighbour of the node leads on to a higher layer: `d₀` are the layers of the phase, and the
nodes given up have lost their distance. -/
def GivenUp (adjacency : L → List R) (m : Matching L R) (d₀ distance : L → Option ℕ) (l : L) : Prop :=
  ∀ r ∈ adjacency l, ∃ next, m.rightMatch r = some next ∧
    (d₀ next = (d₀ l).map (· + 1) → distance next = none)

/-- What is known of the neighbours that a frame has gone through: they lead on to nodes given up,
or to the frame above. -/
def Looked (adjacency : L → List R) (m : Matching L R) (d₀ distance : L → Option ℕ) :
    Option L → List (Frame L R) → Prop
  | _, [] => True
  | above, frame :: stack =>
    (∀ j < frame.nextNeighbor, ∀ r, (adjacency frame.left)[j]? = some r →
      ∃ next, m.rightMatch r = some next ∧
        (d₀ next = (d₀ frame.left).map (· + 1) → distance next = none ∨ above = some next)) ∧
    Looked adjacency m d₀ distance (some frame.left) stack

/-- Nodes are given up, the one above among them. -/
lemma Looked.mono {distance' : L → Option ℕ} {above above' : Option L}
    (h : Looked adjacency m d₀ distance above stack)
    (hmono : ∀ l, distance l = none → distance' l = none)
    (habove : ∀ l, above = some l → distance' l = none ∨ above' = some l) :
    Looked adjacency m d₀ distance' above' stack := by
  induction stack generalizing above above' with
  | nil => trivial
  | cons frame stack ih =>
    obtain ⟨hframe, htail⟩ := h
    refine ⟨fun j hj r hr => ?_, ih htail fun l hl => .inr hl⟩
    obtain ⟨next, hnext, hlayer⟩ := hframe j hj r hr
    exact ⟨next, hnext, fun hd => (hlayer hd).elim (fun h => .inl (hmono next h)) (habove next)⟩

/-- What holds of a search for an augmenting path while it has found none. `d₁` are the distances
when it starts. -/
structure SearchInv (adjacency : L → List R) (m : Matching L R) (d₀ d₁ : L → Option ℕ) (root : L)
    (s : Search L R) : Prop where
  matching : s.matching = m
  distance : ∀ l, s.distance l = d₀ l ∨ s.distance l = none
  path : Alternating adjacency m s.distance root s.stack
  bounded : ∀ f ∈ s.stack, f.nextNeighbor ≤ (adjacency f.left).length
  looked : Looked adjacency m d₀ s.distance none s.stack
  givenUp : ∀ l, d₀ l ≠ none → s.distance l = none → GivenUp adjacency m d₀ s.distance l
  ended : s.stack = [] → s.distance root = none
  free : ∀ l, m.leftMatch l = none → l ≠ root → s.distance l = d₁ l

/-- What holds once an augmenting path was found. -/
structure Augmented (adjacency : L → List R) (m : Matching L R) (d₀ d₁ : L → Option ℕ) (root : L)
    (s : Search L R) : Prop where
  valid : Valid adjacency s.matching
  matched : ∀ l, s.matching.leftMatch l = none ↔ m.leftMatch l = none ∧ l ≠ root
  distance : ∀ l, s.distance l = d₀ l ∨ s.distance l = none
  free : ∀ l, m.leftMatch l = none → l ≠ root → s.distance l = d₁ l

section Rounds

variable {d₁ : L → Option ℕ} {s : Search L R} {below : List (Frame L R)}

section
variable (h : SearchInv adjacency m d₀ d₁ root s)
include h

section
variable (hstack : s.stack = frame :: below)
include hstack

/-- A frame whose neighbours are exhausted is popped, and its node is given up. -/
lemma SearchInv.pop [DecidableEq L] (hrow : (adjacency frame.left)[frame.nextNeighbor]? = none) :
    SearchInv adjacency m d₀ d₁ root
      { s with distance := update s.distance frame.left none, stack := below } := by
  have hpath := h.path
  have hlooked := h.looked
  rw [hstack] at hpath hlooked
  have hself : update s.distance frame.left none frame.left = none :=
    update_self ..
  have hmono : ∀ l, s.distance l = none → update s.distance frame.left none l = none := by
    intro l hl
    by_cases heq : l = frame.left
    · rw [heq, hself]
    · rw [update_of_ne heq, hl]
  constructor
  · exact h.matching
  · intro l
    show update s.distance frame.left none l = d₀ l ∨ _
    by_cases heq : l = frame.left
    · right
      show update s.distance frame.left none l = none
      rw [heq, hself]
    · show _ ∨ update s.distance frame.left none l = none
      rw [update_of_ne heq]
      exact h.distance l
  · refine hpath.tail.congr fun f hf => update_of_ne (fun heq => hpath.not_mem ?_) _ _
    exact mem_map.mpr ⟨f, hf, heq⟩
  · exact fun f hf => h.bounded f (hstack ▸ mem_cons_of_mem _ hf)
  · refine hlooked.2.mono hmono fun l hl => .inl ?_
    rw [← some.inj hl]
    exact hself
  · intro l hd hl
    by_cases heq : l = frame.left
    · rw [heq]
      intro r hr
      obtain ⟨j, hj, hjr⟩ := getElem_of_mem hr
      obtain ⟨next, hnext, hlayer⟩ := hlooked.1 j
        (Nat.lt_of_lt_of_le hj (List.getElem?_eq_none_iff.mp hrow)) r
        (List.getElem?_eq_some_iff.mpr ⟨hj, hjr⟩)
      exact ⟨next, hnext, fun hd => hmono next ((hlayer hd).resolve_right nofun)⟩
    · have hl' : s.distance l = none := by
        rw [← hl]
        exact (update_of_ne heq _ _).symm
      intro r hr
      obtain ⟨next, hnext, hlayer⟩ := h.givenUp l hd hl' r hr
      exact ⟨next, hnext, fun hd => hmono next (hlayer hd)⟩
  · intro hnil
    obtain rfl : below = [] := hnil
    show update s.distance frame.left none root = none
    rw [← hpath.1, hself]
  · intro l hfree hl
    show update s.distance frame.left none l = d₁ l
    have hne : l ≠ frame.left := by
      intro heq
      rw [heq] at hfree hl
      exact hl (hpath.eq_root_of_free hfree)
    rw [update_of_ne hne]
    exact h.free l hfree hl

private lemma looked_advance {r : R} {next : L}
    (hrow : (adjacency frame.left)[frame.nextNeighbor]? = some r)
    (hnext : m.rightMatch r = some next) (above : Option L)
    (hlayer : d₀ next = (d₀ frame.left).map (· + 1) → s.distance next = none ∨ above = some next) :
    Looked adjacency m d₀ s.distance above
      ({ frame with nextNeighbor := frame.nextNeighbor + 1 } :: below) := by
  have hlooked := h.looked
  rw [hstack] at hlooked
  refine ⟨fun j hj r' hr' => ?_, hlooked.2⟩
  by_cases hji : j = frame.nextNeighbor
  · have heq : r = r' := some.inj (hrow.symm.trans (hji ▸ hr'))
    rw [← heq]
    exact ⟨next, hnext, hlayer⟩
  · replace hj : j < frame.nextNeighbor + 1 := hj
    obtain ⟨next', hnext', hlayer'⟩ := hlooked.1 j (by omega) r' hr'
    exact ⟨next', hnext', fun hd => .inl ((hlayer' hd).resolve_right nofun)⟩

private lemma bounded_advance {r : R} (hrow : (adjacency frame.left)[frame.nextNeighbor]? = some r) :
    ∀ f ∈ { frame with nextNeighbor := frame.nextNeighbor + 1 } :: below,
      f.nextNeighbor ≤ (adjacency f.left).length := by
  intro f hf
  rcases mem_cons.mp hf with rfl | hf
  · exact (List.getElem?_eq_some_iff.mp hrow).1
  · exact h.bounded f (hstack ▸ mem_cons_of_mem _ hf)

/-- A neighbour that does not lead to the next layer is passed over. -/
lemma SearchInv.skip {r : R} {next : L}
    (hrow : (adjacency frame.left)[frame.nextNeighbor]? = some r)
    (hnext : m.rightMatch r = some next)
    (hlayer : s.distance next ≠ (s.distance frame.left).map (· + 1)) :
    SearchInv adjacency m d₀ d₁ root
      { s with stack := { frame with nextNeighbor := frame.nextNeighbor + 1 } :: below } := by
  have hpath := h.path
  rw [hstack] at hpath
  refine { h with
    path := hpath.advance _
    bounded := bounded_advance h hstack hrow
    looked := looked_advance h hstack hrow hnext none fun hd => .inl ?_
    ended := nofun }
  -- the distances that are left are those of the phase
  have hleft := (h.distance frame.left).resolve_right hpath.distance_ne_none
  rw [hleft, ← hd] at hlayer
  exact (h.distance next).resolve_left hlayer

end

/-- A neighbour whose partner is in the next layer is followed. -/
lemma SearchInv.push {r : R} {next : L} (hvalid : Valid adjacency m)
    (hstack : s.stack = frame :: below)
    (hrow : (adjacency frame.left)[frame.nextNeighbor]? = some r)
    (hnext : m.rightMatch r = some next)
    (hlayer : s.distance next = (s.distance frame.left).map (· + 1)) :
    SearchInv adjacency m d₀ d₁ root { s with
      stack := { left := next, nextNeighbor := 0, incomingRight := some r } ::
        { frame with nextNeighbor := frame.nextNeighbor + 1 } :: below } := by
  have hpath := h.path
  rw [hstack] at hpath
  obtain ⟨d, hd⟩ := ne_none_iff_exists'.mp hpath.distance_ne_none
  refine { h with
    path := ⟨⟨r, rfl, mem_of_getElem? hrow, (hvalid.agree next r).mpr hnext⟩, ⟨d, hd, ?_⟩,
      hpath.advance _⟩
    bounded := forall_mem_cons.mpr ⟨Nat.zero_le _, bounded_advance h hstack hrow⟩
    looked := ⟨fun j hj => absurd hj (Nat.not_lt_zero j),
      looked_advance h hstack hrow hnext (some next) fun _ => .inr rfl⟩
    ended := nofun }
  rw [hlayer, hd]
  rfl

end

variable [DecidableEq L] [DecidableEq R]

/-- A free neighbour ends an augmenting path. -/
lemma SearchInv.augment {r : R} (h : SearchInv adjacency m d₀ d₁ root s)
    (hvalid : Valid adjacency m) (hroot : m.leftMatch root = none) (hstack : s.stack = frame :: below)
    (hrow : (adjacency frame.left)[frame.nextNeighbor]? = some r) (hfree : m.rightMatch r = none)
    (stack : List (Frame L R)) :
    Augmented adjacency m d₀ d₁ root { s with
      matching := commit ({ frame with nextNeighbor := frame.nextNeighbor + 1 } :: below) r s.matching
      stack, augmented := true } := by
  have hpath := h.path
  rw [hstack] at hpath
  obtain ⟨hvalid', hmatched⟩ := commit_spec (by rwa [Matching.release, ← hfree, update_eq_self])
    (hpath.advance (frame.nextNeighbor + 1)) (mem_of_getElem? hrow) hroot
  constructor
  · show Valid adjacency (commit _ r s.matching)
    rwa [h.matching]
  · intro l
    show (commit _ r s.matching).leftMatch l = none ↔ _
    rw [h.matching]
    exact hmatched l
  · exact h.distance
  · exact h.free

end Rounds

section Work

variable [Fintype L] [DecidableEq L] {s : Search L R} {below : List (Frame L R)}

section
variable (hstack : s.stack = frame :: below)
include hstack

lemma work_advance {r : R} (hrow : (adjacency frame.left)[frame.nextNeighbor]? = some r)
    (m' : Matching L R) (b : Bool) :
    Search.work adjacency { s with
      matching := m'
      stack := { frame with nextNeighbor := frame.nextNeighbor + 1 } :: below
      augmented := b } < Search.work adjacency s := by
  have hlt := (List.getElem?_eq_some_iff.mp hrow).1
  unfold Search.work
  rw [hstack]
  simp only [map_cons, sum_cons]
  omega

lemma work_pop (hbounded : frame.nextNeighbor ≤ (adjacency frame.left).length) :
    Search.work adjacency
      { s with distance := update s.distance frame.left none, stack := below } <
        Search.work adjacency s := by
  have hset : (Finset.univ.filter fun l => update s.distance frame.left none l ≠ none ∧
      l ∉ below.map (·.left)) =
      Finset.univ.filter fun l => s.distance l ≠ none ∧ l ∉ (frame :: below).map (·.left) := by
    ext l
    by_cases hl : l = frame.left
    · simp [hl]
    · simp [hl]
  unfold Search.work
  rw [hstack]
  simp only [hset, map_cons, sum_cons]
  omega

lemma work_push {r : R} {next : L} (hrow : (adjacency frame.left)[frame.nextNeighbor]? = some r)
    (hreached : s.distance next ≠ none) (hnot : next ∉ (frame :: below).map (·.left)) :
    Search.work adjacency { s with
      stack := { left := next, nextNeighbor := 0, incomingRight := some r } ::
        { frame with nextNeighbor := frame.nextNeighbor + 1 } :: below } < Search.work adjacency s := by
  have hlt := (List.getElem?_eq_some_iff.mp hrow).1
  have hset : (Finset.univ.filter fun l => s.distance l ≠ none ∧
      l ∉ next :: frame.left :: below.map (·.left)) =
      (Finset.univ.filter fun l => s.distance l ≠ none ∧
        l ∉ (frame :: below).map (·.left)).erase next := by
    ext l
    by_cases hl : l = next
    · simp [hl]
    · simp [hl]
  have hmem : next ∈ Finset.univ.filter fun l => s.distance l ≠ none ∧
      l ∉ (frame :: below).map (·.left) :=
    Finset.mem_filter.mpr ⟨Finset.mem_univ next, hreached, hnot⟩
  have hsum := Finset.sum_erase_add _ (fun l => (adjacency l).length + 1) hmem
  unfold Search.work
  rw [hstack, ← hsum]
  simp only [map_cons, sum_cons, hset]
  omega

end

end Work

section Runs

/-- A search that goes on, or one that has augmented the matching. -/
def Searched (adjacency : L → List R) (m : Matching L R) (d₀ d₁ : L → Option ℕ) (root : L)
    (s : Search L R) : Prop :=
  (s.augmented = false ∧ SearchInv adjacency m d₀ d₁ root s) ∨
    (s.augmented = true ∧ Augmented adjacency m d₀ d₁ root s)

variable [Fintype L] [DecidableEq L] [DecidableEq R] {d₁ : L → Option ℕ} {s : Search L R}

/-- A round of the search keeps what is known of it, or it augments the matching; it lowers the
work in either case. -/
lemma SearchInv.visit (h : SearchInv adjacency m d₀ d₁ root s) (hvalid : Valid adjacency m)
    (hroot : m.leftMatch root = none) (hstack : s.stack ≠ []) (hsearching : s.augmented = false) :
    Searched adjacency m d₀ d₁ root (s.visit adjacency) ∧
      Search.work adjacency (s.visit adjacency) < Search.work adjacency s := by
  obtain ⟨frame, below, hstack⟩ := exists_cons_of_ne_nil hstack
  unfold Search.visit
  rw [hstack]
  dsimp only
  cases hrow : (adjacency frame.left)[frame.nextNeighbor]? with
  | none =>
    exact ⟨.inl ⟨hsearching, h.pop hstack hrow⟩,
      work_pop hstack (h.bounded frame (hstack ▸ mem_cons_self))⟩
  | some right =>
    dsimp only
    cases hmatch : s.matching.rightMatch right with
    | none =>
      rw [h.matching] at hmatch
      have haugment := h.augment hvalid hroot hstack hrow hmatch
        ({ frame with nextNeighbor := frame.nextNeighbor + 1 } :: below)
      exact ⟨.inr ⟨rfl, haugment⟩, work_advance hstack hrow _ _⟩
    | some next =>
      rw [h.matching] at hmatch
      dsimp only
      by_cases hlayer : s.distance next = (s.distance frame.left).map (· + 1)
      · rw [if_pos hlayer]
        have hpush := h.push hvalid hstack hrow hmatch hlayer
        refine ⟨.inl ⟨hsearching, hpush⟩, work_push hstack hrow hpush.path.distance_ne_none ?_⟩
        exact hpush.path.not_mem
      · rw [if_neg hlayer]
        exact ⟨.inl ⟨hsearching, h.skip hstack hrow hmatch hlayer⟩,
          work_advance hstack hrow s.matching s.augmented⟩

/-- The search from a free left node that has not been given up. It augments the matching, or it
gives the node up. -/
lemma ends_augmentIterative (hvalid : Valid adjacency m) (hroot : m.leftMatch root = none)
    (hdistance : ∀ l, d₁ l = d₀ l ∨ d₁ l = none) (hreached : d₁ root ≠ none)
    (hgiven : ∀ l, d₀ l ≠ none → d₁ l = none → GivenUp adjacency m d₀ d₁ l) :
    Except.Ends (fun _ => False)
      (fun s => (SearchInv adjacency m d₀ d₁ root s ∧ s.stack = []) ∨
        Augmented adjacency m d₀ d₁ root s)
      (augmentIterative adjacency m d₁ root) := by
  unfold augmentIterative
  refine (WhileLoop.ends_run (I := Searched adjacency m d₀ d₁ root) ?_ ?_).mono ?_
  · intro s hs hcond
    obtain ⟨hsearching, hstack⟩ : s.augmented = false ∧ s.stack ≠ [] := by simpa using hcond
    have h := (hs.resolve_right fun h => by rw [h.1] at hsearching; exact nomatch hsearching).2
    exact .ok (h.visit hvalid hroot hstack hsearching)
  · refine .inl ⟨rfl, ?_⟩
    constructor
    · rfl
    · exact hdistance
    · exact ⟨rfl, rfl, hreached⟩
    · intro f hf
      rw [mem_singleton.mp hf]
      exact Nat.zero_le _
    · exact ⟨fun j hj => absurd hj (Nat.not_lt_zero j), trivial⟩
    · exact hgiven
    · exact nofun
    · exact fun l _ _ => rfl
  · intro s ⟨hs, hcond⟩
    rcases hs with ⟨hsearching, h⟩ | ⟨_, h⟩
    · refine .inl ⟨h, ?_⟩
      rw [hsearching] at hcond
      simpa using hcond
    · exact .inr h

end Runs

end Augment

end GraphForge.Algorithms.BipartiteMatching
