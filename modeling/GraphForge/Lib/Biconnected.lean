import Mathlib.Order.Minimal

/-!
# Biconnected sets of nodes

A set of at least two nodes is biconnected when it is connected and stays so without any one of its
nodes. Two nodes that are linked form such a set.

A family of biconnected sets that covers every biconnected set, and of which two share at most one
node, is the family of the maximal ones.
-/

namespace BiconnectedSets

open Relation

variable {V : Type*} {r : V → V → Prop} {S T : Set V}

/-- The links between nodes of a set. -/
def within (r : V → V → Prop) (S : Set V) (a b : V) : Prop := a ∈ S ∧ b ∈ S ∧ r a b

/-- All the nodes of a set are connected in it. -/
def ConnectedOn (r : V → V → Prop) (S : Set V) : Prop :=
  ∀ a ∈ S, ∀ b ∈ S, EqvGen (within r S) a b

/-- A biconnected set of nodes. -/
structure Block (r : V → V → Prop) (S : Set V) : Prop where
  nontrivial : S.Nontrivial
  connected : ConnectedOn r S
  without : ∀ w, ConnectedOn r (S \ {w})

lemma within_mono (h : S ⊆ T) {a b : V} (hab : within r S a b) : within r T a b :=
  ⟨h hab.1, h hab.2.1, hab.2.2⟩

/-- Nothing connects a closed set with its complement. -/
lemma mem_iff_of_eqvGen {p : V → Prop} (hp : ∀ a b, r a b → (p a ↔ p b)) {a b : V}
    (h : EqvGen r a b) : p a ↔ p b := by
  induction h with
  | rel a b hab => exact hp a b hab
  | refl a => exact Iff.rfl
  | symm a b _ ih => exact ih.symm
  | trans a b c _ _ hab hbc => exact hab.trans hbc

lemma mem_of_eqvGen_within {a b : V} (h : EqvGen (within r S) a b) (ha : a ∈ S) : b ∈ S :=
  (mem_iff_of_eqvGen (p := (· ∈ S)) (fun _ _ hab => ⟨fun _ => hab.2.1, fun _ => hab.1⟩) h).mp ha

/-- A set is connected when all its nodes are connected to one of them. -/
lemma connectedOn_of_center {c : V} (h : ∀ a ∈ S, EqvGen (within r S) c a) : ConnectedOn r S :=
  fun a ha b hb => (h a ha).symm.trans _ _ _ (h b hb)

/-- A connected set that has a node in `T` and one outside has a link that leaves `T`. -/
lemma ConnectedOn.exists_exit (h : ConnectedOn r S) (hsymm : ∀ a b, r a b → r b a) {a b : V}
    (ha : a ∈ S) (hb : b ∈ S) (haT : a ∈ T) (hbT : b ∉ T) :
    ∃ x ∈ S, ∃ y ∈ S, x ∈ T ∧ y ∉ T ∧ r x y := by
  by_contra hnone
  push Not at hnone
  have hstay : ∀ x y, within r S x y → x ∈ T → y ∈ T := by
    intro x y ⟨hx, hy, hxy⟩ hxT
    by_contra hyT
    exact hnone x hx y hy hxT hyT hxy
  have hiff := mem_iff_of_eqvGen (p := (· ∈ T))
    (fun x y hxy => ⟨hstay x y hxy, hstay y x ⟨hxy.2.1, hxy.1, hsymm _ _ hxy.2.2⟩⟩) (h a ha b hb)
  exact hbT (hiff.mp haT)

/-- Two nodes that are linked form a biconnected set. -/
lemma block_pair {u v : V} (huv : r u v) (hne : u ≠ v) : Block r {u, v} := by
  constructor
  · exact ⟨u, .inl rfl, v, .inr rfl, hne⟩
  · apply connectedOn_of_center (c := u)
    rintro a (rfl | rfl)
    · exact .refl a
    · exact .rel _ _ ⟨.inl rfl, .inr rfl, huv⟩
  · intro w a ⟨ha, haw⟩ b ⟨hb, hbw⟩
    by_cases hab : a = b
    · rw [hab]
      exact .refl b
    -- without `w` at most one of the two is left, or `w` is none of them
    have hlink : within r ({u, v} \ {w}) u v ∧ ((a = u ∧ b = v) ∨ (a = v ∧ b = u)) := by
      rcases ha with rfl | rfl <;> rcases hb with rfl | rfl
      · exact absurd rfl hab
      · exact ⟨⟨⟨.inl rfl, haw⟩, ⟨.inr rfl, hbw⟩, huv⟩, .inl ⟨rfl, rfl⟩⟩
      · exact ⟨⟨⟨.inl rfl, hbw⟩, ⟨.inr rfl, haw⟩, huv⟩, .inr ⟨rfl, rfl⟩⟩
      · exact absurd rfl hab
    rcases hlink.2 with ⟨rfl, rfl⟩ | ⟨rfl, rfl⟩
    · exact .rel _ _ hlink.1
    · exact (EqvGen.rel _ _ hlink.1).symm

/-- A family that covers the biconnected sets, with at most one node shared by two members, consists
of the maximal ones. -/
theorem maximal_iff_of_cover {F : Set (Set V)} (hblock : ∀ B ∈ F, Block r B)
    (hcover : ∀ S, Block r S → ∃ B ∈ F, S ⊆ B)
    (hshare : ∀ B ∈ F, ∀ B' ∈ F, B ≠ B' → (B ∩ B').Subsingleton) (S : Set V) :
    Maximal (Block r) S ↔ S ∈ F := by
  constructor
  · intro hmax
    obtain ⟨B, hB, hSB⟩ := hcover S hmax.prop
    rw [hmax.eq_of_le (hblock B hB) hSB]
    exact hB
  · intro hS
    refine ⟨hblock S hS, fun T hT hST => ?_⟩
    obtain ⟨B, hB, hTB⟩ := hcover T hT
    -- two members with two nodes in common are the same
    have hSB : S = B := by
      by_contra hne
      obtain ⟨a, ha, b, hb, hab⟩ := (hblock S hS).nontrivial
      exact hab (hshare S hS B hB hne ⟨ha, hTB (hST ha)⟩ ⟨hb, hTB (hST hb)⟩)
    exact hTB.trans hSB.ge

end BiconnectedSets
