import GraphForge.Lib.DepthFirst

/-!
# The tree and the low links of a depth-first walk

A walk in a symmetric graph leaves behind a tree: `P u x` says that `x` was entered from `u`. The
nodes on the path are linked by it.

Low links are numbers that an algorithm keeps for the nodes on the path. `LowInv` says what they
are good for, given which entries the algorithm counts: no counted entry that was looked at leads to
a smaller number than the low links of the path account for.
-/

namespace DepthFirst

open List Relation

variable {V A : Type} {rows : V → List A} {target : A → Option V} {s : Walk V} {v w : V} {i : ℕ}
  {rest : List (V × ℕ)} {a : A}

/-- A link of the tree, in either direction. -/
def TreeLink (P : V → V → Prop) (u v : V) : Prop := P u v ∨ P v u

/-- The tree of a walk. -/
structure TreeInv (rows : V → List A) (target : A → Option V) (P : V → V → Prop) (s : Walk V) :
    Prop where
  walk : Inv rows target s
  back : Back rows target s
  unique : ∀ u u' x, P u x → P u' x → u = u'
  -- a node is entered from one met earlier, at or below every node of the path met before it
  parent : ∀ u x, P u x → s.Seen x ∧ s.Seen u ∧ s.num u < s.num x ∧
    ∀ f, s.OnPath f → s.num f < s.num x → s.num f ≤ s.num u
  entered : ∀ f, s.OnPath f → ∀ x, s.Seen x → s.num f < s.num x → ∃ u, P u x
  chain : s.path.IsChain fun e e' => P e'.1 e.1
  bottom : ∀ r, s.OnPath r → (∀ f, s.OnPath f → s.num r ≤ s.num f) → ∀ u, ¬ P u r

namespace TreeInv

variable {P : V → V → Prop}

/-- The node below the end of the path is the one its end was entered from. -/
lemma parent_of_path {p : V} {j : ℕ} (h : TreeInv rows target P s)
    (hpath : s.path = (v, i) :: (p, j) :: rest) : P p v := by
  have hchain := h.chain
  rw [hpath] at hchain
  exact (isChain_cons_cons.mp hchain).1

/-- A node that was entered from none is alone on the path when it is its end. -/
lemma rest_eq_nil (ht : TreeInv rows target P s) (hpath : s.path = (v, i) :: rest)
    (hroot : ∀ u, ¬ P u v) : rest = [] := by
  cases rest with
  | nil => rfl
  | cons e rest => exact absurd (ht.parent_of_path hpath) (hroot e.1)

section
variable (h : TreeInv rows target P s)
include h

/-- The end of the path was entered from the node below it. -/
lemma exists_below_of_parent {u : V} (hpath : s.path = (v, i) :: rest) (hu : P u v) :
    ∃ j rest', rest = (u, j) :: rest' := by
  cases rest with
  | nil =>
    exact absurd hu (h.bottom v (by grind) (by grind) u)
  | cons e rest' =>
    obtain ⟨p, j⟩ := e
    rw [h.unique u p v hu (h.parent_of_path hpath)]
    exact ⟨j, rest', rfl⟩

/-- Nothing below a node of the path was entered from outside, the node itself apart. -/
lemma since_parent {f x u : V} (hf : s.OnPath f) (hx : s.Since f x) (hxf : x ≠ f) (hu : P u x) :
    s.Since f u := by
  have := h.parent u x hu
  have := h.walk.num_ne hx.1 (h.walk.onPath_seen hf) hxf
  grind

/-- The edges that lead out from below the node that is left lead back to the path. -/
lemma onPath_of_exit (hpath : s.path = (v, i) :: rest) (hrow : (rows v)[i]? = none) {x y : V}
    (hx : s.Since v x) (hxy : Edge rows target x y) (hy : ¬ s.Since v y) :
    s.OnPath y ∧ s.num y < s.num v := by
  obtain ⟨b, hb, hty⟩ := hxy
  have hys := h.walk.seen_of_since hpath hrow hx ⟨b, hb, hty⟩
  have hlt : s.num y < s.num v := by grind
  exact ⟨h.back v (by grind) x hx y ⟨b, hb, hty⟩ hys hlt, hlt⟩

/-- A node of the path below its end comes at or before the node next to the end. -/
lemma num_le_below {p : V} {j : ℕ} (hpath : s.path = (v, i) :: (p, j) :: rest) {y : V}
    (hy : s.OnPath y) (hlt : s.num y < s.num v) : s.num y ≤ s.num p := by
  have hsorted := h.walk.sorted
  rw [hpath] at hsorted
  have hp := (pairwise_cons.mp (pairwise_cons.mp hsorted).2).1
  grind

end

lemma empty (hunseen : ∀ v, ¬ s.Seen v) (hpath : s.path = []) (hP : ∀ u x, ¬ P u x) :
    TreeInv rows target P s := by
  have hwalk : Inv rows target s := .empty hunseen hpath
  refine ⟨hwalk, fun f hf => ?_, ?_, ?_, ?_, hpath ▸ isChain_nil, ?_⟩
  all_goals grind

lemma skip (h : TreeInv rows target P s)
    (hpath : s.path = (v, i) :: rest) (ha : (rows v)[i]? = some a) (htarget : target a = some w)
    (hw : s.Seen w) : TreeInv rows target P (s.withPath ((v, i + 1) :: rest)) := by
  have hon := fun u => onPath_withPath_next (u := u) hpath
  constructor
  · exact h.walk.skip hpath ha htarget hw
  · exact h.back.skip hpath
  · exact h.unique
  · intro u x hux
    obtain ⟨hx, hu, hlt, hle⟩ := h.parent u x hux
    exact ⟨hx, hu, hlt, fun f hf => hle f ((hon f).mp hf)⟩
  · exact fun f hf => h.entered f ((hon f).mp hf)
  · exact isChain_next (hpath ▸ h.chain)
  · exact fun r hr hmin => h.bottom r ((hon r).mp hr) fun f hf => hmin f ((hon f).mpr hf)

lemma leave (h : TreeInv rows target P s) (hpath : s.path = (v, i) :: rest)
    (hrow : (rows v)[i]? = none) : TreeInv rows target P (s.withPath rest) := by
  have hoff := fun u => onPath_withPath_rest (u := u) hpath
  constructor
  · exact h.walk.leave hpath hrow
  · exact h.back.leave h.walk hpath
  · exact h.unique
  · intro u x hux
    obtain ⟨hx, hu, hlt, hle⟩ := h.parent u x hux
    exact ⟨hx, hu, hlt, fun f hf => hle f (hoff f hf)⟩
  · exact fun f hf => h.entered f (hoff f hf)
  · have hchain := h.chain
    rw [hpath] at hchain
    exact hchain.tail
  · intro r hr hmin
    have := h.walk.num_le_of_onPath hpath (hoff r hr)
    exact h.bottom r (hoff r hr) (by grind)

variable [DecidableEq V]

section
variable (h : TreeInv rows target P s) (hsymm : ∀ u v, Edge rows target u v → Edge rows target v u)
include h hsymm

lemma start (hpath : s.path = []) {r : V} (hr : ¬ s.Seen r) :
    TreeInv rows target P (s.enter r []) := by
  have hinv := h.walk
  constructor
  · exact h.walk.start hpath hr
  · exact Back.start h.walk hsymm hpath hr
  · exact h.unique
  · intro u x hux
    have := h.parent u x hux
    grind
  · grind
  · exact isChain_singleton _
  · intro r' hr' _ u hu
    have := h.parent u r'
    grind

lemma descend (hpath : s.path = (v, i) :: rest) (ha : (rows v)[i]? = some a)
    (htarget : target a = some w) (hw : ¬ s.Seen w) {P' : V → V → Prop}
    (hP : ∀ u x, P' u x ↔ P u x ∨ (u = v ∧ x = w)) :
    TreeInv rows target P' (s.enter w ((v, i + 1) :: rest)) := by
  have hv := onPath_end hpath
  have hon : ∀ f, (s.enter w ((v, i + 1) :: rest)).OnPath f ↔ f = w ∨ s.OnPath f := by
    intro f
    rw [onPath_enter, onPath_withPath_next hpath]
  have hinv := h.walk
  have hfresh : ∀ u, ¬ P u w := fun u hu => hw (h.parent u w hu).1
  have hnew : P' v w := (hP v w).mpr (.inr ⟨rfl, rfl⟩)
  constructor
  · exact h.walk.descend hpath ha htarget hw
  · exact h.back.descend h.walk hsymm hpath hw
  · have hunique := h.unique
    grind
  · intro u x hux
    have hold := h.parent u x
    have hlast := fun f => h.walk.num_le_of_onPath hpath (u := f)
    grind
  · intro f hf x hx hfx
    have hold := h.entered f
    by_cases hxw : x = w
    · exact ⟨v, hxw ▸ hnew⟩
    · obtain ⟨u, hu⟩ : ∃ u, P u x := by grind
      exact ⟨u, (hP u x).mpr (.inl hu)⟩
  · refine isChain_cons_cons.mpr ⟨hnew, ?_⟩
    have hchain : ((v, i + 1) :: rest).IsChain _ := isChain_next (hpath ▸ h.chain)
    exact hchain.imp fun e e' he => (hP e'.1 e.1).mpr (.inl he)
  · intro r hr hmin u hu
    have hrw : r ≠ w := by
      grind
    have hr' : s.OnPath r := ((hon r).mp hr).resolve_left hrw
    exact h.bottom r hr' (fun f hf => by have := hmin f; grind) u (by grind)

end

end TreeInv

/-- A node that was entered from none comes before its neighbours. -/
def RootsFirst (rows : V → List A) (target : A → Option V) (P : V → V → Prop) (s : Walk V) : Prop :=
  ∀ r, s.Seen r → (∀ u, ¬ P u r) → ∀ y, Edge rows target r y → s.Seen y → s.num r ≤ s.num y

namespace RootsFirst

variable {P : V → V → Prop} [DecidableEq V]

lemma start (h : RootsFirst rows target P s) (hinv : Inv rows target s)
    (hsymm : ∀ u v, Edge rows target u v → Edge rows target v u) (hpath : s.path = []) {r : V}
    (hr : ¬ s.Seen r) : RootsFirst rows target P (s.enter r []) := by
  have hapart : ∀ x, s.Seen x → ¬ Edge rows target x r := by
    intro x hx ⟨b, hb, hbr⟩
    obtain ⟨r', hr', hseen⟩ := hinv.finished_of_path_nil hpath hx hb
    rw [hbr] at hr'
    exact hr (Option.some.inj hr' ▸ hseen)
  intro x hx hroot y hxy hy
  have hold := fun hx => h x hx hroot y hxy
  grind

lemma descend (h : RootsFirst rows target P s) (hinv : Inv rows target s) (hw : ¬ s.Seen w)
    {P' : V → V → Prop} (hP : ∀ u x, P' u x ↔ P u x ∨ (u = v ∧ x = w)) (path : List (V × ℕ)) :
    RootsFirst rows target P' (s.enter w path) := by
  intro x hx hroot y hxy hy
  have hxw : x ≠ w := fun hxw => hroot v ((hP v x).mpr (.inr ⟨rfl, hxw⟩))
  have hold := fun hx => h x hx (fun u hu => hroot u ((hP u x).mpr (.inl hu))) y hxy
  grind

end RootsFirst

/-- What low links know, where `C x a` says that the entry `a` of `x` counts. -/
structure LowInv (rows : V → List A) (target : A → Option V) (C : V → A → Prop) (low : V → ℕ)
    (s : Walk V) : Prop where
  low_le : ∀ v, s.OnPath v → low v ≤ s.num v
  accounted : ∀ f, s.OnPath f → ∀ x, s.Since f x → ∀ a, Looked rows s x a → C x a →
    ∀ y, target a = some y → ∃ q, s.OnPath q ∧ s.num f ≤ s.num q ∧ low q ≤ s.num y

namespace LowInv

variable {C C' : V → A → Prop} {low low' : V → ℕ}

lemma empty (hpath : s.path = []) : LowInv rows target C low s := by
  constructor
  all_goals grind

section
variable (h : LowInv rows target C low s)
include h

lemma mono (hC : ∀ x a, C' x a → C x a) : LowInv rows target C' low s :=
  ⟨h.low_le, fun f hf x hx a ha hxa => h.accounted f hf x hx a ha (hC x a hxa)⟩

/-- When a node is left, its low link is at most the number of whatever a counted entry below it
leads to. -/
lemma le_num (hinv : Inv rows target s) (hpath : s.path = (v, i) :: rest)
    (hrow : (rows v)[i]? = none) {x y : V} {b : A} (hx : s.Since v x) (hb : b ∈ rows x) (hC : C x b)
    (hy : target b = some y) : low v ≤ s.num y := by
  have hv := onPath_end hpath
  have hlooked := looked_of_since hinv hpath hrow hx hb
  obtain ⟨q, hq, hvq, hlow⟩ := h.accounted v hv x hx b hlooked hC y hy
  have hqv : q = v := hinv.num_inj q v (hinv.onPath_seen hq) (hinv.onPath_seen hv)
    (Nat.le_antisymm (hinv.num_le_of_onPath hpath hq) hvq)
  rwa [hqv] at hlow

/-- Looking at an entry whose target was met: the low link may fall to the target's number, and has
to if the entry counts. -/
lemma skip (hpath : s.path = (v, i) :: rest) (ha : (rows v)[i]? = some a)
    (htarget : target a = some w) (hother : ∀ u, u ≠ v → low' u = low u) (hle : low' v ≤ low v)
    (hlow : C v a → low' v ≤ s.num w) :
    LowInv rows target C low' (s.withPath ((v, i + 1) :: rest)) := by
  have hon := fun u => onPath_withPath_next (u := u) hpath
  have hv := onPath_end hpath
  have hlow_le : ∀ u, low' u ≤ low u := by
    intro u
    by_cases hu : u = v <;> grind
  constructor
  · exact fun u hu => (hlow_le u).trans (h.low_le u ((hon u).mp hu))
  · intro f hf x hx b hb hC y hy
    rcases looked_of_skip hpath ha hb with hb | ⟨hxv, hba⟩
    · obtain ⟨q, hq, hfq, hqlow⟩ := h.accounted f ((hon f).mp hf) x hx b hb hC y hy
      exact ⟨q, (hon q).mpr hq, hfq, (hlow_le q).trans hqlow⟩
    · exact ⟨v, (hon v).mpr hv, hxv ▸ hx.2, by grind⟩

lemma leave (hinv : Inv rows target s) (hpath : s.path = (v, i) :: rest)
    (hrow : (rows v)[i]? = none) (hle : ∀ u, low' u ≤ low u)
    (hbelow : ∀ u, rest.head?.map (·.1) = some u → low' u ≤ low v) :
    LowInv rows target C low' (s.withPath rest) := by
  have hoff := fun u => onPath_withPath_rest (u := u) hpath
  constructor
  · exact fun u hu => (hle u).trans (h.low_le u (hoff u hu))
  · intro f hf x hx b hb hC y hy
    obtain ⟨q, ⟨k, hk⟩, hfq, hqlow⟩ := h.accounted f (hoff f hf) x hx b
      (looked_of_leave hpath hrow hb) hC y hy
    rw [hpath] at hk
    rcases mem_cons.mp hk with hk | hk
    · -- the node below takes over what the node that is left accounted for
      rw [(Prod.mk.inj hk).1] at hqlow
      cases rest with
      | nil => grind
      | cons e rest =>
        refine ⟨e.1, ⟨e.2, mem_cons_self⟩, ?_, (hbelow e.1 rfl).trans hqlow⟩
        exact (hinv.leave hpath hrow).num_le_of_onPath rfl hf
    · exact ⟨q, ⟨k, hk⟩, hfq, (hle q).trans hqlow⟩

end

variable [DecidableEq V]

section
variable (h : LowInv rows target C low s) (hinv : Inv rows target s)
include h hinv

private lemma enter (hw : ¬ s.Seen w) (hpath : ∀ u, (s.withPath rest).OnPath u ↔ s.OnPath u)
    (hlooked : ∀ x b, Looked rows (s.withPath rest) x b → Looked rows s x b ∨ target b = some w)
    (hC : ∀ x, s.Seen x → ∀ b, C' x b → C x b ∨ target b = some w)
    (hother : ∀ u, u ≠ w → low' u = low u) (hself : low' w = s.next) :
    LowInv rows target C' low' (s.enter w rest) := by
  have hon : ∀ u, (s.enter w rest).OnPath u ↔ u = w ∨ s.OnPath u := by
    intro u
    rw [onPath_enter, hpath]
  constructor
  · intro u hu
    have hold := h.low_le u
    by_cases huw : u = w <;> grind
  · intro f hf x hx b hb hxC y hy
    obtain ⟨hxw, hb⟩ :=
      looked_of_enter (fun k hk => hw (hinv.onPath_seen ((hpath w).mp ⟨k, hk⟩))) hb
    have hfs : s.OnPath f := by grind
    have hcases : Looked rows s x b ∧ C x b ∨ target b = some w := by grind
    rcases hcases with ⟨hb, hC⟩ | hbw
    · obtain ⟨q, hq, hfq, hqlow⟩ := h.accounted f hfs x (by grind) b hb hC y hy
      have hys := hinv.looked x b hb
      have hqw : q ≠ w := by grind
      exact ⟨q, (hon q).mpr (.inr hq), by grind, by grind⟩
    · -- the new node itself accounts for an entry that leads to it
      exact ⟨w, (hon w).mpr (.inl rfl), by grind, by grind⟩

lemma start (hpath : s.path = []) {r : V} (hr : ¬ s.Seen r)
    (hC : ∀ x, s.Seen x → ∀ b, C' x b → C x b ∨ target b = some r)
    (hother : ∀ u, u ≠ r → low' u = low u) (hself : low' r = s.next) :
    LowInv rows target C' low' (s.enter r []) := by
  have hsame := Walk.withPath_self hpath
  apply h.enter hinv hr _ _ hC hother hself
  · intro u
    rw [hsame]
  · intro x b hb
    rw [hsame] at hb
    exact .inl hb

lemma descend (hpath : s.path = (v, i) :: rest) (ha : (rows v)[i]? = some a)
    (htarget : target a = some w) (hw : ¬ s.Seen w)
    (hC : ∀ x, s.Seen x → ∀ b, C' x b → C x b ∨ target b = some w)
    (hother : ∀ u, u ≠ w → low' u = low u) (hself : low' w = s.next) :
    LowInv rows target C' low' (s.enter w ((v, i + 1) :: rest)) := by
  apply h.enter hinv hw (fun u => onPath_withPath_next hpath) _ hC hother hself
  intro x b hb
  rcases looked_of_skip hpath ha hb with hb | ⟨-, hba⟩
  · exact .inl hb
  · rw [hba]
    exact .inr htarget

end

end LowInv

/-- With a low link that is not below the number of the node it was entered from, the edges that
lead out from below the node that is left lead to that node. -/
lemma eq_of_exit {p : V} {j : ℕ} (ht : TreeInv rows target P s) (hl : LowInv rows target C low s)
    (hC : ∀ x b y, target b = some y → b ∈ rows x → ¬ C x b → P y x)
    (hpath : s.path = (v, i) :: (p, j) :: rest) (hrow : (rows v)[i]? = none)
    (hlow : s.num p ≤ low v) {x y : V} (hx : s.Since v x) (hxy : Edge rows target x y)
    (hy : ¬ s.Since v y) : y = p := by
  have hv := onPath_end hpath
  have hpv := ht.parent_of_path hpath
  obtain ⟨hyon, hylt⟩ := ht.onPath_of_exit hpath hrow hx hxy hy
  have hyle := ht.num_le_below hpath hyon hylt
  by_contra hyp
  have hne := ht.walk.num_ne (ht.walk.onPath_seen hyon) (ht.parent p v hpv).2.1 hyp
  obtain ⟨b, hb, hby⟩ := hxy
  by_cases hcounts : C x b
  · have := hl.le_num ht.walk hpath hrow hx hb hcounts hby
    omega
  · have hyx := hC x b y hby hb hcounts
    by_cases hxv : x = v
    · rw [hxv] at hyx
      exact hyp (ht.unique y p v hyx hpv)
    · exact hy (ht.since_parent hv hx hxv hyx)

end DepthFirst
