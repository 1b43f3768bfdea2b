import Mathlib.Data.List.Sort
import Mathlib.Data.Prod.Lex

/-!
# Newest-wins resolution

Rows fall into groups and carry an age rank; of every group only the newest row counts.

* `IsNewest S x`: the row `x` of the set `S` is the newest of its group;
* `Resolves S out`: the list `out` holds exactly the newest rows of `S`, by ascending
  group;
* `Covers T S`: the set `T` has lost only rows of `S` that a newer row of `T` shadows, so
  that `T` resolves to what `S` resolves to (`Covers.resolves`). This is the invariant of
  a pipeline that drops shadowed rows early;
* `firsts`: keep the first row of every group of a sorted list. It covers the list.
-/

namespace NewestWins

open List

variable {α γ δ : Type*} {group : α → γ} {rank : α → δ}

/-! ## Groups and ranks -/

/-- Rows of one group are told apart by their rank. -/
def Ranked (group : α → γ) (rank : α → δ) (S : Set α) : Prop :=
  ∀ x ∈ S, ∀ y ∈ S, group x = group y → rank x = rank y → x = y

lemma Ranked.subset {S T : Set α} (h : Ranked group rank S) (hT : T ⊆ S) : Ranked group rank T :=
  fun x hx y hy => h x (hT hx) y (hT hy)

/-- Sort by group, and inside a group newest first. -/
def sortKey (group : α → γ) (rank : α → δ) (x : α) : γ ×ₗ δᵒᵈ :=
  toLex (group x, OrderDual.toDual (rank x))

variable [LinearOrder δ]

/-- `x` is the newest row of its group in `S`. -/
def IsNewest (group : α → γ) (rank : α → δ) (S : Set α) (x : α) : Prop :=
  x ∈ S ∧ ∀ y ∈ S, group y = group x → rank y ≤ rank x

/-! ## Dropping shadowed rows early -/

/-- `T` is `S` without some rows that a row of `T` shadows. -/
structure Covers (group : α → γ) (rank : α → δ) (T S : Set α) : Prop where
  subset : T ⊆ S
  shadowed : ∀ x ∈ S, ∃ y ∈ T, group y = group x ∧ rank x ≤ rank y

namespace Covers
variable {S T U : Set α}

lemma refl (S : Set α) : Covers group rank S S :=
  ⟨subset_rfl, fun x hx => ⟨x, hx, rfl, le_rfl⟩⟩

lemma trans (h : Covers group rank U T) (h' : Covers group rank T S) : Covers group rank U S where
  subset := h.subset.trans h'.subset
  shadowed x hx := by
    obtain ⟨y, hy, hg, hr⟩ := h'.shadowed x hx
    obtain ⟨z, hz, hg', hr'⟩ := h.shadowed y hy
    exact ⟨z, hz, hg'.trans hg, hr.trans hr'⟩

lemma union {S' T' : Set α} (h : Covers group rank T S) (h' : Covers group rank T' S') :
    Covers group rank (T ∪ T') (S ∪ S') where
  subset := Set.union_subset_union h.subset h'.subset
  shadowed x hx := by
    rcases hx with hx | hx
    · obtain ⟨y, hy, hyx⟩ := h.shadowed x hx
      exact ⟨y, Or.inl hy, hyx⟩
    · obtain ⟨y, hy, hyx⟩ := h'.shadowed x hx
      exact ⟨y, Or.inr hy, hyx⟩

lemma isNewest_iff (h : Covers group rank T S) (hS : Ranked group rank S) (x : α) :
    IsNewest group rank T x ↔ IsNewest group rank S x := by
  constructor
  · rintro ⟨hx, hnew⟩
    refine ⟨h.subset hx, fun y hy hg => ?_⟩
    obtain ⟨z, hz, hgz, hrz⟩ := h.shadowed y hy
    exact hrz.trans (hnew z hz (hgz.trans hg))
  · rintro ⟨hx, hnew⟩
    obtain ⟨z, hz, hgz, hrz⟩ := h.shadowed x hx
    have heq : z = x :=
      hS z (h.subset hz) x hx hgz (le_antisymm (hnew z (h.subset hz) hgz) hrz)
    exact ⟨heq ▸ hz, fun y hy => hnew y (h.subset hy)⟩

end Covers

variable [LinearOrder γ]

/-! ## Resolution -/

/-- `out` lists the newest rows of `S` by ascending group. -/
structure Resolves (group : α → γ) (rank : α → δ) (S : Set α) (out : List α) : Prop where
  ascending : out.Pairwise (group · < group ·)
  mem_iff : ∀ x, x ∈ out ↔ IsNewest group rank S x

/-- Lists that ascend strictly and have the same members are equal. -/
lemma eq_of_ascending {out out' : List α} (h : out.Pairwise (group · < group ·))
    (h' : out'.Pairwise (group · < group ·)) (hmem : ∀ x, x ∈ out ↔ x ∈ out') : out = out' := by
  exact Pairwise.eq_of_mem_iff h h' hmem

/-- The newest row of the least group, followed by the resolution of the other groups. -/
lemma Resolves.cons {S : Set α} {x : α} {out : List α} (hS : Ranked group rank S)
    (hx : IsNewest group rank S x) (hleast : ∀ y ∈ S, group x ≤ group y)
    (h : Resolves group rank {y | y ∈ S ∧ group y ≠ group x} out) :
    Resolves group rank S (x :: out) where
  ascending := by
    refine pairwise_cons.mpr ⟨fun y hy => ?_, h.ascending⟩
    obtain ⟨hyS, hne⟩ := ((h.mem_iff y).mp hy).1
    exact lt_of_le_of_ne (hleast y hyS) hne.symm
  mem_iff y := by
    rw [mem_cons, h.mem_iff]
    constructor
    · rintro (rfl | ⟨⟨hy, hne⟩, hnew⟩)
      · exact hx
      · exact ⟨hy, fun z hz hg => hnew z ⟨hz, hg ▸ hne⟩ hg⟩
    · rintro ⟨hy, hnew⟩
      by_cases hg : group y = group x
      · exact Or.inl (hS y hy x hx.1 hg (le_antisymm (hx.2 y hy hg) (hnew x hx.1 hg.symm)))
      · exact Or.inr ⟨⟨hy, hg⟩, fun z hz => hnew z hz.1⟩

/-- What is left after dropping shadowed rows resolves to the same list. -/
lemma Covers.resolves {S T : Set α} (h : Covers group rank T S) (hS : Ranked group rank S) {out : List α}
    (hout : Resolves group rank T out) : Resolves group rank S out :=
  ⟨hout.ascending, fun x => (hout.mem_iff x).trans (h.isNewest_iff hS x)⟩

/-! ## The first row of every group -/

lemma sortKey_le_iff {x y : α} : sortKey group rank x ≤ sortKey group rank y ↔
    group x < group y ∨ group x = group y ∧ rank y ≤ rank x := by
  rw [sortKey, sortKey, Prod.Lex.toLex_le_toLex]
  rfl

/-- Keep the rows whose group differs from the group of the row before; `last` is the
group of the row before the list. -/
def firsts (group : α → γ) : Option γ → List α → List α
  | _, [] => []
  | last, x :: xs =>
    if last = some (group x) then firsts group last xs
    else x :: firsts group (some (group x)) xs

lemma firsts_sublist (last : Option γ) (xs : List α) : (firsts group last xs).Sublist xs := by
  induction xs generalizing last with
  | nil => exact .slnil
  | cons x xs ih =>
    rw [firsts]
    split
    · exact (ih last).cons x
    · exact (ih _).cons_cons x

variable {xs : List α}

section
variable (hs : xs.Pairwise (sortKey group rank · ≤ sortKey group rank ·))
include hs

/-- What `firsts` keeps of a sorted list, given the group `last` it starts in. -/
private lemma firsts_spec {last : Option γ} (hlast : ∀ g ∈ last, ∀ x ∈ xs, g ≤ group x) :
    (firsts group last xs).Pairwise (group · < group ·) ∧
    (∀ g ∈ last, ∀ x ∈ firsts group last xs, g < group x) ∧
    ∀ x ∈ xs, last ≠ some (group x) →
      ∃ y ∈ firsts group last xs, group y = group x ∧ rank x ≤ rank y := by
  induction xs generalizing last with
  | nil => simp [firsts]
  | cons a xs ih =>
    obtain ⟨ha, hs'⟩ := pairwise_cons.mp hs
    rw [firsts]
    split
    next heq =>
      obtain ⟨h₁, h₂, h₃⟩ := ih hs' fun g hg x hx => hlast g hg x (mem_cons_of_mem _ hx)
      refine ⟨h₁, h₂, fun x hx hne => ?_⟩
      rcases mem_cons.mp hx with rfl | hx
      · exact absurd heq hne
      · exact h₃ x hx hne
    next hne =>
      have hfrom : ∀ g ∈ some (group a), ∀ x ∈ xs, g ≤ group x := by
        rintro g ⟨⟩ x hx
        rcases sortKey_le_iff.mp (ha x hx) with h | h
        · exact h.le
        · exact h.1.le
      obtain ⟨h₁, h₂, h₃⟩ := ih hs' hfrom
      refine ⟨pairwise_cons.mpr ⟨h₂ _ rfl, h₁⟩, fun g hg x hx => ?_, fun x hx hne' => ?_⟩
      · have hga : g < group a := by
          refine lt_of_le_of_ne (hlast g hg a mem_cons_self) fun h => hne ?_
          rw [← h]
          exact hg
        rcases mem_cons.mp hx with rfl | hx
        · exact hga
        · exact hga.trans (h₂ _ rfl x hx)
      · rcases mem_cons.mp hx with rfl | hx
        · exact ⟨x, mem_cons_self, rfl, le_rfl⟩
        by_cases hg : group a = group x
        · refine ⟨a, mem_cons_self, hg, ?_⟩
          rcases sortKey_le_iff.mp (ha x hx) with h | h
          · exact absurd hg h.ne
          · exact h.2
        · obtain ⟨y, hy, hyx⟩ := h₃ x hx fun h => hg (Option.some.inj h)
          exact ⟨y, mem_cons_of_mem _ hy, hyx⟩

/-- Of a sorted list, `firsts` keeps one row per group, by ascending group. -/
lemma firsts_ascending : (firsts group none xs).Pairwise (group · < group ·) :=
  (firsts_spec hs (by simp)).1

/-- Of a sorted list, `firsts` drops only shadowed rows. -/
lemma covers_firsts : Covers group rank {x | x ∈ firsts group none xs} {x | x ∈ xs} where
  subset x hx := (firsts_sublist none xs).subset hx
  shadowed x hx := (firsts_spec hs (by simp)).2.2 x hx (by simp)

end

/-- A list that ascends strictly has one row per group. -/
lemma eq_of_mem_ascending (h : xs.Pairwise (group · < group ·)) {x y : α} (hx : x ∈ xs)
    (hy : y ∈ xs) (hg : group x = group y) : x = y :=
  inj_on_of_nodup_map ((pairwise_map.mpr h).imp ne_of_lt) hx hy hg

/-- A list with one row per group is its own resolution. -/
lemma resolves_of_ascending (h : xs.Pairwise (group · < group ·)) :
    Resolves group rank {x | x ∈ xs} xs := by
  refine ⟨h, fun x => ⟨fun hx => ⟨hx, fun y hy hg => ?_⟩, fun hx => hx.1⟩⟩
  rw [eq_of_mem_ascending h hy hx hg]

end NewestWins
