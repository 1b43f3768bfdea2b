import Mathlib.Algebra.Order.BigOperators.Group.Finset
import Mathlib.Algebra.GroupWithZero.Nat
import GraphForge.Lib.WhileLoop

/-!
# Depth-first walks

A walk numbers the nodes in the order in which it meets them and keeps the path from the current
root to the current node, with the number of entries it has looked at in the row of each node on
it. It starts at a node without a number, descends to a node without a number, skips an entry
whose target has one, and leaves a node whose row is exhausted.

What is said about a walk is said about the nodes on its path. The nodes met since a node of the
path was met are the part of the graph below it, as long as it is on the path, and everything a
low-link algorithm decides when it leaves a node concerns that part.
-/

namespace DepthFirst

open List Function

variable {V A : Type}

/-- The numbers given so far, the next number, and the path, its end first. -/
structure Walk (V : Type) where
  time : V → Option ℕ
  next : ℕ
  path : List (V × ℕ)

namespace Walk

variable (s : Walk V)

/-- The node has been met. -/
def Seen (v : V) : Prop := s.time v ≠ none

/-- The number of a node; a node not met yet comes after all the others. -/
def num (v : V) : ℕ := (s.time v).getD s.next

/-- The node is on the path. -/
def OnPath (v : V) : Prop := ∃ i, (v, i) ∈ s.path

/-- The nodes met since `f` was. -/
def Since (f x : V) : Prop := s.Seen x ∧ s.num f ≤ s.num x

variable {s}

lemma num_of_time {v : V} {t : ℕ} (h : s.time v = some t) : s.num v = t := by
  simp [num, h]

/-- A seen vertex has its number. -/
lemma time_of_seen {v : V} (h : s.Seen v) : s.time v = some (s.num v) := by
  obtain ⟨t, ht⟩ := Option.ne_none_iff_exists'.mp h
  rw [num_of_time ht, ht]

lemma seen_of_time {v : V} {t : ℕ} (h : s.time v = some t) : s.Seen v := by
  simp [Seen, h]

attribute [grind =] OnPath Since

variable (s) in
/-- Go on with another path. -/
def withPath (path : List (V × ℕ)) : Walk V := { s with path }

@[simp, grind =] lemma path_withPath (path : List (V × ℕ)) : (s.withPath path).path = path := rfl

lemma withPath_self {path : List (V × ℕ)} (h : s.path = path) : s.withPath path = s := by
  unfold withPath
  rw [← h]

@[grind =] lemma seen_withPath (path : List (V × ℕ)) (v : V) :
    (s.withPath path).Seen v ↔ s.Seen v := Iff.rfl

@[simp, grind =] lemma num_withPath (path : List (V × ℕ)) (v : V) :
    (s.withPath path).num v = s.num v := rfl

variable [DecidableEq V]

variable (s) in
/-- Meet a node, at the end of a path. -/
def enter (w : V) (path : List (V × ℕ)) : Walk V where
  time := update s.time w (some s.next)
  next := s.next + 1
  path := (w, 0) :: path

@[simp, grind =] lemma next_enter (w : V) (path : List (V × ℕ)) :
    (s.enter w path).next = s.next + 1 := rfl

@[simp, grind =] lemma path_enter (w : V) (path : List (V × ℕ)) :
    (s.enter w path).path = (w, 0) :: path := rfl

@[grind =] lemma seen_enter {w : V} {path : List (V × ℕ)} {v : V} :
    (s.enter w path).Seen v ↔ v = w ∨ s.Seen v := by
  by_cases hvw : v = w <;> simp [Seen, enter, hvw]

@[simp, grind =] lemma num_enter_self (w : V) (path : List (V × ℕ)) :
    (s.enter w path).num w = s.next :=
  num_of_time (update_self ..)

lemma num_enter_of_ne {w : V} {path : List (V × ℕ)} {v : V} (hvw : v ≠ w) (hv : s.Seen v) :
    (s.enter w path).num v = s.num v := by
  apply num_of_time
  show update s.time w (some s.next) v = _
  rw [update_of_ne hvw, time_of_seen hv]

@[grind =] lemma num_enter {w : V} {path : List (V × ℕ)} {v : V} (hw : ¬ s.Seen w) (hv : s.Seen v) :
    (s.enter w path).num v = s.num v :=
  num_enter_of_ne (fun heq => hw (heq ▸ hv)) hv

end Walk

section Rows

variable (rows : V → List A) (target : A → Option V)

/-- An entry of the row of `u` leads to `v`. -/
def Edge (u v : V) : Prop := ∃ a ∈ rows u, target a = some v

/-- An entry of the row of `x` has been looked at. -/
def Looked (s : Walk V) (x : V) (a : A) : Prop :=
  (s.Seen x ∧ ¬ s.OnPath x ∧ a ∈ rows x) ∨ ∃ i, (x, i) ∈ s.path ∧ ∃ j < i, (rows x)[j]? = some a

/-- What holds of every walk. -/
structure Inv (s : Walk V) : Prop where
  num_lt : ∀ v, s.Seen v → s.num v < s.next
  num_inj : ∀ u v, s.Seen u → s.Seen v → s.num u = s.num v → u = v
  path_seen : ∀ e ∈ s.path, s.Seen e.1
  -- nodes nearer to the end of the path were met later
  sorted : s.path.Pairwise fun e e' => s.num e'.1 < s.num e.1
  linked : s.path.IsChain fun e e' => Edge rows target e'.1 e.1
  bounded : ∀ e ∈ s.path, e.2 ≤ (rows e.1).length
  -- what an entry that was looked at leads to has been met
  looked : ∀ x a, Looked rows s x a → ∃ w, target a = some w ∧ s.Seen w

variable {rows target} {s : Walk V} {v w : V} {i : ℕ} {rest : List (V × ℕ)} {a : A}
variable {x y u r : V} {b : A} {path : List (V × ℕ)} {L : V → V → Prop}

/-- What links the nodes of a path does not depend on how far their rows were looked at. -/
lemma isChain_next {j : ℕ} (h : ((v, i) :: rest).IsChain fun e e' => L e'.1 e.1) :
    ((v, j) :: rest).IsChain fun e e' => L e'.1 e.1 := by
  cases rest with
  | nil => exact isChain_singleton _
  | cons e rest =>
    rw [isChain_cons_cons] at h ⊢
    exact h

attribute [grind →] Inv.num_lt Inv.num_inj

/-! ## The entries looked at -/

section Looked

/-- The end of the path is on it. -/
lemma onPath_end (hpath : s.path = (v, i) :: rest) : s.OnPath v := ⟨i, hpath ▸ mem_cons_self⟩

lemma onPath_of_head (h : path.head?.map (·.1) = some u) : (s.withPath path).OnPath u := by
  obtain ⟨e, he, rfl⟩ := Option.map_eq_some_iff.mp h
  exact ⟨e.2, mem_of_head? he⟩

/-- Moving on in the last row leaves the path's vertices as they are. -/
lemma onPath_withPath_next (hpath : s.path = (v, i) :: rest) :
    (s.withPath ((v, i + 1) :: rest)).OnPath u ↔ s.OnPath u := by
  grind

lemma Looked.mem (h : Looked rows s x a) : a ∈ rows x := by
  rcases h with ⟨-, -, h⟩ | ⟨i, -, j, -, h⟩
  · exact h
  · exact mem_of_getElem? h

section
variable (hpath : s.path = (v, i) :: rest)
include hpath

/-- Moving on looks at one more entry. -/
lemma looked_of_skip (ha : (rows v)[i]? = some a)
    (h : Looked rows (s.withPath ((v, i + 1) :: rest)) x b) :
    Looked rows s x b ∨ (x = v ∧ b = a) := by
  rcases h with ⟨hx, hoff, hb⟩ | ⟨k, hk, j, hj, hb⟩
  · exact .inl (.inl ⟨hx, fun hon => hoff ((onPath_withPath_next hpath).mpr hon), hb⟩)
  · rcases mem_cons.mp hk with hk | hk
    · by_cases hji : j = i
      · grind
      · exact .inl (.inr ⟨i, by grind, j, by grind, by grind⟩)
    · exact .inl (.inr ⟨k, hpath ▸ mem_cons_of_mem _ hk, j, hj, hb⟩)

/-- When a node is left, all its entries have been looked at. -/
lemma looked_of_exhausted (hrow : (rows v)[i]? = none) (hb : b ∈ rows v) : Looked rows s v b := by
  obtain ⟨j, hj, hjb⟩ := getElem_of_mem hb
  exact .inr ⟨i, hpath ▸ mem_cons_self, j,
    Nat.lt_of_lt_of_le hj (List.getElem?_eq_none_iff.mp hrow),
    List.getElem?_eq_some_iff.mpr ⟨hj, hjb⟩⟩

/-- Leaving a vertex whose row is done looks at nothing new. -/
lemma looked_of_leave (hrow : (rows v)[i]? = none) (h : Looked rows (s.withPath rest) x b) :
    Looked rows s x b := by
  by_cases hxv : x = v
  · rw [hxv] at h ⊢
    exact looked_of_exhausted hpath hrow h.mem
  · rcases h with ⟨hx, hoff, hb⟩ | ⟨k, hk, h⟩
    · exact .inl ⟨hx, by grind, hb⟩
    · exact .inr ⟨k, hpath ▸ mem_cons_of_mem _ hk, h⟩

end

variable [DecidableEq V]

/-- A node has no entry looked at when it is met, and nothing changes for the others. -/
lemma looked_of_enter (hfresh : ∀ k, (w, k) ∉ rest) (h : Looked rows (s.enter w rest) x b) :
    x ≠ w ∧ Looked rows (s.withPath rest) x b := by
  rcases h with ⟨hx, hoff, hb⟩ | ⟨k, hk, j, hj, hb⟩
  · exact ⟨by grind, .inl ⟨by grind, by grind, hb⟩⟩
  · exact ⟨by grind, .inr ⟨k, by grind, j, hj, hb⟩⟩

end Looked

namespace Inv

/-- The entries of a vertex that is done lead to seen vertices. -/
@[grind →] lemma finished (h : Inv rows target s) (hv : s.Seen v) (hoff : ¬ s.OnPath v)
    (ha : a ∈ rows v) : ∃ w, target a = some w ∧ s.Seen w :=
  h.looked v a (.inl ⟨hv, hoff, ha⟩)

lemma next_eq_of_not_seen {v : V} (hv : ¬ s.Seen v) : s.num v = s.next := by
  simp [Walk.num, not_not.mp hv]

/-- Different vertices have different numbers. -/
lemma num_ne (h : Inv rows target s) {v : V} (hu : s.Seen u) (hv : s.Seen v) (hne : u ≠ v) :
    s.num u ≠ s.num v := fun heq => hne (h.num_inj u v hu hv heq)

/-- Vertices on the path are seen. -/
@[grind →] lemma onPath_seen (h : Inv rows target s) {v : V} (hv : s.OnPath v) : s.Seen v :=
  hv.elim fun _ hi => h.path_seen _ hi

/-- The end of the path was met last. -/
lemma num_le_of_onPath (h : Inv rows target s) (hpath : s.path = (v, i) :: rest) (hu : s.OnPath u) :
    s.num u ≤ s.num v := by
  obtain ⟨j, hj⟩ := hu
  have hsorted := h.sorted
  rw [hpath] at hj hsorted
  rcases mem_cons.mp hj with hj | hj
  · grind
  · exact Nat.le_of_lt ((pairwise_cons.mp hsorted).1 _ hj)

/-- A search that has seen nothing satisfies the invariant. -/
lemma empty (hunseen : ∀ v, ¬ s.Seen v) (hpath : s.path = []) : Inv rows target s := by
  constructor
  all_goals grind [Looked]

section
variable (h : Inv rows target s)
include h

/-- Nothing is met while the path is empty, so every node met is finished. -/
lemma finished_of_path_nil (hpath : s.path = []) {v : V} (hv : s.Seen v) {a : A} (ha : a ∈ rows v) :
    ∃ w, target a = some w ∧ s.Seen w :=
  h.finished hv (by grind) ha

section
variable (hpath : s.path = (v, i) :: rest)
include hpath

private lemma seen_next {e : V × ℕ} (he : e ∈ (v, i + 1) :: rest) : s.Seen e.1 := by
  have hv := h.path_seen (v, i)
  have hrest := h.path_seen e
  grind

private lemma sorted_next : ((v, i + 1) :: rest).Pairwise fun e e' => s.num e'.1 < s.num e.1 := by
  have hsorted := h.sorted
  rw [hpath, pairwise_cons] at hsorted
  exact pairwise_cons.mpr hsorted

private lemma bounded_next (ha : (rows v)[i]? = some a) {e : V × ℕ} (he : e ∈ (v, i + 1) :: rest) :
    e.2 ≤ (rows e.1).length := by
  have hbounded := h.bounded e
  grind

/-- An entry that leads to a seen vertex keeps the invariant. -/
theorem skip (ha : (rows v)[i]? = some a) (htarget : target a = some w) (hw : s.Seen w) :
    Inv rows target (s.withPath ((v, i + 1) :: rest)) := by
  constructor
  · exact h.num_lt
  · exact h.num_inj
  · exact fun e he => h.seen_next hpath he
  · exact h.sorted_next hpath
  · exact isChain_next (hpath ▸ h.linked)
  · exact fun e he => h.bounded_next hpath ha he
  · intro x b hb
    rcases looked_of_skip hpath ha hb with hb | ⟨-, hba⟩
    · exact h.looked x b hb
    · exact ⟨w, hba ▸ htarget, hw⟩

/-- Leaving a vertex whose row is done keeps the invariant. -/
theorem leave (hrow : (rows v)[i]? = none) : Inv rows target (s.withPath rest) := by
  have hsub : ∀ e ∈ rest, e ∈ s.path := fun e he => hpath ▸ mem_cons_of_mem _ he
  have hsorted := h.sorted
  have hlinked := h.linked
  rw [hpath] at hsorted hlinked
  constructor
  · exact h.num_lt
  · exact h.num_inj
  · exact fun e he => h.path_seen e (hsub e he)
  · exact (pairwise_cons.mp hsorted).2
  · exact hlinked.tail
  · exact fun e he => h.bounded e (hsub e he)
  · exact fun x b hb => h.looked x b (looked_of_leave hpath hrow hb)

end

end

variable [DecidableEq V]

/-- What entering a vertex needs of the path it is entered from. -/
private lemma enter (h : Inv rows target s) {w : V} (hw : ¬ s.Seen w)
    (hseen : ∀ e ∈ path, s.Seen e.1) (hsorted : path.Pairwise fun e e' => s.num e'.1 < s.num e.1)
    (hlinked : ((w, 0) :: path).IsChain fun e e' => Edge rows target e'.1 e.1)
    (hbounded : ∀ e ∈ path, e.2 ≤ (rows e.1).length)
    (hlooked : ∀ x b, Looked rows (s.withPath path) x b →
      ∃ y, target b = some y ∧ (y = w ∨ s.Seen y)) :
    Inv rows target (s.enter w path) := by
  constructor
  · grind
  · grind
  · grind
  · rw [Walk.path_enter, pairwise_cons]
    exact ⟨by grind, hsorted.imp_of_mem (by grind)⟩
  · exact hlinked
  · grind
  · intro x b hb
    obtain ⟨y, hy, hyw⟩ := hlooked x b (looked_of_enter (fun k hk => hw (hseen _ hk)) hb).2
    exact ⟨y, hy, Walk.seen_enter.mpr hyw⟩

/-- Entering a new root keeps the invariant. -/
theorem start (h : Inv rows target s) (hpath : s.path = []) (hr : ¬ s.Seen r) :
    Inv rows target (s.enter r []) := by
  refine h.enter hr nofun Pairwise.nil (isChain_singleton _) nofun fun x b hb => ?_
  rw [Walk.withPath_self hpath] at hb
  have := h.looked x b hb
  grind

/-- Following an entry to a new vertex keeps the invariant. -/
theorem descend (h : Inv rows target s) (hpath : s.path = (v, i) :: rest)
    (ha : (rows v)[i]? = some a) (htarget : target a = some w) (hw : ¬ s.Seen w) :
    Inv rows target (s.enter w ((v, i + 1) :: rest)) := by
  apply h.enter hw
  · exact fun e he => h.seen_next hpath he
  · exact h.sorted_next hpath
  · rw [isChain_cons_cons]
    exact ⟨⟨a, mem_of_getElem? ha, htarget⟩, isChain_next (hpath ▸ h.linked)⟩
  · exact fun e he => h.bounded_next hpath ha he
  · intro x b hb
    have hold := h.looked x b
    have := looked_of_skip hpath ha hb
    grind

end Inv

/-! ## What lies below a node of the path -/

section Below

/-- What was met since a node of the path was met hangs together below that node, by links of
`L`. -/
def Below (L : V → V → Prop) (s : Walk V) : Prop :=
  ∀ f, s.OnPath f → ∀ x, s.Since f x →
    Relation.ReflTransGen (fun u v => L u v ∧ s.Since f u ∧ s.Since f v) f x

/-- In a symmetric graph an edge from below a node of the path to a node met earlier leads back to
the path. -/
def Back (rows : V → List A) (target : A → Option V) (s : Walk V) : Prop :=
  ∀ f, s.OnPath f → ∀ x, s.Since f x → ∀ y, Edge rows target x y → s.Seen y → s.num y < s.num f →
    s.OnPath y

section
variable (hpath : s.path = (v, i) :: rest)
include hpath

lemma onPath_withPath_rest (hu : (s.withPath rest).OnPath u) : s.OnPath u :=
  hu.elim fun j hj => ⟨j, hpath ▸ mem_cons_of_mem _ hj⟩

lemma onPath_rest_of_ne (hu : s.OnPath u) (hne : u ≠ v) : (s.withPath rest).OnPath u := by
  grind

/-- Of the path only its end is lost. -/
lemma eq_end_of_lost (hu : s.OnPath u) (hlost : ¬ (s.withPath rest).OnPath u) : u = v := by
  by_contra hne
  exact hlost (onPath_rest_of_ne hpath hu hne)

end

/-- The end of the path was met after the rest of it. -/
lemma Inv.num_lt_end (h : Inv rows target s) (hpath : s.path = (v, i) :: rest)
    (hu : (s.withPath rest).OnPath u) : s.num u < s.num v := by
  obtain ⟨k, hk⟩ := hu
  have hsorted := h.sorted
  rw [hpath] at hsorted
  exact (pairwise_cons.mp hsorted).1 _ hk

/-- Moving on keeps what is below. -/
lemma Below.skip (h : Below L s) (hpath : s.path = (v, i) :: rest) :
    Below L (s.withPath ((v, i + 1) :: rest)) :=
  fun f hf => h f ((onPath_withPath_next hpath).mp hf)

/-- Leaving a vertex keeps what is below. -/
lemma Below.leave (h : Below L s) (hpath : s.path = (v, i) :: rest) : Below L (s.withPath rest) :=
  fun f hf => h f (onPath_withPath_rest hpath hf)

/-- Moving on keeps the back edges. -/
lemma Back.skip (h : Back rows target s) (hpath : s.path = (v, i) :: rest) :
    Back rows target (s.withPath ((v, i + 1) :: rest)) :=
  fun f hf x hx y hxy hy hlt => (onPath_withPath_next hpath).mpr
    (h f ((onPath_withPath_next hpath).mp hf) x hx y hxy hy hlt)

/-- Leaving a vertex keeps the back edges. -/
lemma Back.leave (h : Back rows target s) (hinv : Inv rows target s)
    (hpath : s.path = (v, i) :: rest) : Back rows target (s.withPath rest) := by
  intro f hf x hx y hxy hy hlt
  have hon := onPath_withPath_rest hpath hf
  have hy := h f hon x hx y hxy hy hlt
  -- the node left was met last, so `y` would not come before `f`
  have := hinv.num_le_of_onPath hpath hon
  grind

/-- A neighbour, met already, of a node that is met now is on the path. -/
private lemma onPath_of_edge_new (hinv : Inv rows target s)
    (hsymm : ∀ u v, Edge rows target u v → Edge rows target v u) (hw : ¬ s.Seen w)
    (hwy : Edge rows target w y) (hy : s.Seen y) : s.OnPath y := by
  by_contra hoff
  obtain ⟨a, ha, hta⟩ := hsymm w y hwy
  obtain ⟨x, hx, hxs⟩ := hinv.finished hy hoff ha
  rw [hta] at hx
  exact hw (Option.some.inj hx ▸ hxs)

variable [DecidableEq V]

/-- The path after entering a vertex. -/
lemma onPath_enter : (s.enter w rest).OnPath u ↔ u = w ∨ (s.withPath rest).OnPath u := by
  grind

section
variable (hinv : Inv rows target s)
include hinv

/-- Nothing has been seen since a vertex that is just entered. -/
lemma since_enter_self (hw : ¬ s.Seen w) : (s.enter w rest).Since w x ↔ x = w := by
  grind

/-- For a node met before, one more node was met since. -/
lemma since_enter (hw : ¬ s.Seen w) {f : V} (hf : s.Seen f) :
    (s.enter w rest).Since f x ↔ x = w ∨ s.Since f x := by
  grind

lemma Below.start (hr : ¬ s.Seen r) : Below L (s.enter r []) := by
  intro f hf x hx
  have hfr : f = r := by grind
  rw [hfr] at hx ⊢
  rw [(since_enter_self hinv hr).mp hx]

/-- Descending hangs the new node below the end of the path. -/
lemma Below.descend {L' : V → V → Prop} (h : Below L s) (hpath : s.path = (v, i) :: rest)
    (hw : ¬ s.Seen w) (hL : ∀ u u', L u u' → L' u u') (hlink : L' v w) :
    Below L' (s.enter w ((v, i + 1) :: rest)) := by
  intro f hf x hx
  rcases onPath_enter.mp hf with rfl | hf
  · rw [(since_enter_self hinv hw).mp hx]
  have hon := (onPath_withPath_next hpath).mp hf
  have hfs := hinv.onPath_seen hon
  have hsince : ∀ u, s.Since f u → (s.enter w ((v, i + 1) :: rest)).Since f u :=
    fun u hu => (since_enter hinv hw hfs).mpr (.inr hu)
  have hmono : ∀ u, s.Since f u → Relation.ReflTransGen (fun u u' => L' u u' ∧
      (s.enter w ((v, i + 1) :: rest)).Since f u ∧
      (s.enter w ((v, i + 1) :: rest)).Since f u') f u := by
    intro u hu
    exact Relation.ReflTransGen.mono (fun a b ⟨hab, ha, hb⟩ => ⟨hL a b hab, hsince a ha, hsince b hb⟩)
      _ _ (h f hon u hu)
  rcases (since_enter hinv hw hfs).mp hx with rfl | hx'
  · have hv : s.Since f v := ⟨hinv.path_seen (v, i) (hpath ▸ mem_cons_self),
      hinv.num_le_of_onPath hpath hon⟩
    exact (hmono v hv).tail ⟨hlink, hsince v hv, hx⟩
  · exact hmono x hx'

lemma Back.start (hsymm : ∀ u v, Edge rows target u v → Edge rows target v u) (hpath : s.path = [])
    (hr : ¬ s.Seen r) : Back rows target (s.enter r []) := by
  intro f hf x hx y hxy hy hlt
  have hfr : f = r := by grind
  rw [hfr] at hx hlt
  rw [(since_enter_self hinv hr).mp hx] at hxy
  rcases Walk.seen_enter.mp hy with rfl | hy
  · omega
  · have := onPath_of_edge_new hinv hsymm hr hxy hy
    grind

lemma Back.descend (h : Back rows target s)
    (hsymm : ∀ u v, Edge rows target u v → Edge rows target v u) (hpath : s.path = (v, i) :: rest)
    (hw : ¬ s.Seen w) : Back rows target (s.enter w ((v, i + 1) :: rest)) := by
  intro f hf x hx y hxy hy hlt
  have hnew : Edge rows target w y → s.Seen y → s.OnPath y := onPath_of_edge_new hinv hsymm hw
  have hold := h f
  rw [onPath_enter, onPath_withPath_next hpath] at hf ⊢
  grind

end

end Below

/-- Below the node that is left all entries have been looked at. -/
lemma looked_of_since (hinv : Inv rows target s) (hpath : s.path = (v, i) :: rest)
    (hrow : (rows v)[i]? = none) (hx : s.Since v x) (hb : b ∈ rows x) : Looked rows s x b := by
  by_cases hxv : x = v
  · rw [hxv] at hb ⊢
    exact looked_of_exhausted hpath hrow hb
  · refine .inl ⟨hx.1, fun hon => ?_, hb⟩
    have hv : s.Seen v := hinv.path_seen (v, i) (hpath ▸ mem_cons_self)
    exact hinv.num_ne hx.1 hv hxv (Nat.le_antisymm (hinv.num_le_of_onPath hpath hon) hx.2)

/-- What is below the node that is left leads to nodes that have been met. -/
lemma Inv.seen_of_since (h : Inv rows target s) (hpath : s.path = (v, i) :: rest)
    (hrow : (rows v)[i]? = none) (hx : s.Since v x) (hxy : Edge rows target x y) : s.Seen y := by
  obtain ⟨b, hb, htarget⟩ := hxy
  obtain ⟨y', hy', hseen⟩ := h.looked x b (looked_of_since h hpath hrow hx hb)
  rw [htarget] at hy'
  exact Option.some.inj hy' ▸ hseen

/-! ## The work left -/

section Work

variable [Fintype V]

/-- The entries and nodes a walk has not dealt with. -/
def work (rows : V → List A) (s : Walk V) : ℕ :=
  (∑ v with s.time v = none, ((rows v).length + 1)) +
    (s.path.map fun e => (rows e.1).length + 1 - e.2).sum

/-- Moving on leaves less work. -/
lemma work_skip (hpath : s.path = (v, i) :: rest) (ha : (rows v)[i]? = some a) :
    work rows (s.withPath ((v, i + 1) :: rest)) < work rows s := by
  have hi := (List.getElem?_eq_some_iff.mp ha).1
  unfold work
  refine Nat.add_lt_add_left ?_ _
  rw [hpath, Walk.path_withPath, map_cons, map_cons, sum_cons, sum_cons]
  show (rows v).length + 1 - (i + 1) + _ < (rows v).length + 1 - i + _
  omega

/-- Leaving a vertex leaves less work. -/
lemma work_leave (hinv : Inv rows target s) (hpath : s.path = (v, i) :: rest) :
    work rows (s.withPath rest) < work rows s := by
  have hi : i ≤ (rows v).length := hinv.bounded (v, i) (hpath ▸ mem_cons_self)
  unfold work
  refine Nat.add_lt_add_left ?_ _
  rw [hpath, Walk.path_withPath, map_cons, sum_cons]
  show _ < (rows v).length + 1 - i + _
  omega

variable [DecidableEq V]

/-- A node that is met takes its row out of the work left to other nodes. -/
private lemma sum_not_seen_enter (rows : V → List A) (hw : ¬ s.Seen w) (rest : List (V × ℕ)) :
    (∑ v with (s.enter w rest).time v = none, ((rows v).length + 1)) + ((rows w).length + 1) =
      ∑ v with s.time v = none, ((rows v).length + 1) := by
  have hw' : s.time w = none := not_not.mp hw
  have hset : ({v | (s.enter w rest).time v = none} : Finset V) =
      ({v | s.time v = none} : Finset V).erase w := by
    ext v
    have hseen : (s.enter w rest).Seen v ↔ v = w ∨ s.Seen v := Walk.seen_enter
    unfold Walk.Seen at hseen
    simp only [Finset.mem_filter, Finset.mem_univ, true_and, Finset.mem_erase]
    tauto
  rw [hset]
  exact Finset.sum_erase_add _ _ (by simp [hw'])

/-- Entering a vertex leaves less work. -/
lemma work_descend (hpath : s.path = (v, i) :: rest) (ha : (rows v)[i]? = some a)
    (hw : ¬ s.Seen w) : work rows (s.enter w ((v, i + 1) :: rest)) < work rows s := by
  have hi := (List.getElem?_eq_some_iff.mp ha).1
  have hsum := sum_not_seen_enter rows hw ((v, i + 1) :: rest)
  unfold work
  rw [← hsum, hpath, Walk.path_enter, map_cons, map_cons, map_cons, sum_cons, sum_cons, sum_cons]
  show _ + ((rows w).length + 1 - 0 + ((rows v).length + 1 - (i + 1) + _)) <
    _ + ((rows w).length + 1) + ((rows v).length + 1 - i + _)
  omega

end Work

/-! ## Traversals -/

section Traversal

open Except

variable {σ ε : Type} {E : ε → Prop} {I : σ → Prop} (walk : σ → Walk V)

/-- The loop of a traversal from one root, whose rounds keep an invariant and do some of the work. -/
lemma ends_root [Fintype V] [DecidableEq V] {cond : σ → Bool} {visit : σ → Except ε σ} {s t : σ} {root : V}
    (hvisit : ∀ s, I s → cond s = true → Ends E
      (fun s' => (I s' ∧ ∀ v, (walk s).Seen v → (walk s').Seen v) ∧
        work rows (walk s') < work rows (walk s)) (visit s))
    (h : I t) (hwalk : walk t = (walk s).enter root rest) :
    Ends E (fun s' => I s' ∧ cond s' = false ∧ (walk s').Seen root ∧
      ∀ v, (walk s).Seen v → (walk s').Seen v)
      (WhileLoop.run (fun s => work rows (walk s)) cond visit t) := by
  refine (WhileLoop.ends_run (I := fun s' => I s' ∧ ∀ v, (walk t).Seen v → (walk s').Seen v) ?_
    ⟨h, fun _ => id⟩).mono ?_
  · intro t ⟨ht, hmono⟩ hcond
    refine (hvisit t ht hcond).mono fun s' ⟨⟨hs', hmono'⟩, hlt⟩ => ?_
    exact ⟨⟨hs', fun v hv => hmono' v (hmono v hv)⟩, hlt⟩
  · intro s' ⟨⟨hs', hmono⟩, hcond⟩
    exact ⟨hs', hcond, by grind, by grind⟩

/-- The roots one after the other. -/
lemma ends_roots {traverse : σ → V → Except ε σ} {s : σ}
    (step : ∀ s root, I s → Ends E (fun s' => I s' ∧ (walk s').Seen root ∧
      ∀ v, (walk s).Seen v → (walk s').Seen v) (traverse s root)) (roots : List V) (h : I s) :
    Ends E (fun s' => I s' ∧ ∀ v ∈ roots, (walk s').Seen v) (roots.foldlM traverse s) := by
  refine Ends.foldlM (I := fun done s => I s ∧ ∀ v ∈ done, (walk s).Seen v) ?_ roots [] s ⟨h, nofun⟩
  intro done s root ⟨h, hseen⟩
  refine (step s root h).mono fun s' ⟨hs', hroot, hmono⟩ => ⟨hs', fun v hv => ?_⟩
  rcases mem_append.mp hv with hv | hv
  · exact hmono v (hseen v hv)
  · rwa [mem_singleton.mp hv]

end Traversal

end Rows

end DepthFirst
