import Mathlib.Data.List.Sort

/-!
# Lists: sorting by a key, lists cut in two by a predicate, cutting into pieces
-/

variable {α : Type*}
variable {β κ : Type*} {xs : List α} {ys : List β} {n : ℕ}

namespace List

/-! ## Sorting by a key -/

section
variable [LinearOrder κ] {key : α → κ}

/-- Sorting by a key that no two elements share forgets the order of the input. -/
lemma insertionSort_key_eq_of_perm {ys : List α} (hkeys : (xs.map key).Nodup) (hperm : xs.Perm ys) :
    xs.insertionSort (key · ≤ key ·) = ys.insertionSort (key · ≤ key ·) := by
  have hxs := perm_insertionSort (key · ≤ key ·) xs
  have hsorted := hxs.trans (hperm.trans (perm_insertionSort (key · ≤ key ·) ys).symm)
  apply @Perm.eq_of_pairwise _ (key · ≤ key ·) _ _ _ _ _ hsorted
  · intro a b ha hb hab hba
    have hb' : b ∈ xs := hxs.mem_iff.mp (hsorted.mem_iff.mpr hb)
    exact inj_on_of_nodup_map hkeys (hxs.mem_iff.mp ha) hb' (le_antisymm hab hba)
  · exact pairwise_insertionSort _ xs
  · exact pairwise_insertionSort _ ys

/-- In a list sorted by a key, a relation between an earlier and a later element is one between a
smaller and a larger key. -/
lemma pairwise_iff_of_sorted_key (hsorted : xs.Pairwise (key · < key ·)) {R : α → α → Prop} :
    xs.Pairwise R ↔ ∀ a ∈ xs, ∀ b ∈ xs, key a < key b → R a b := by
  constructor
  · intro h a ha b hb hlt
    obtain ⟨i, hi, rfl⟩ := getElem_of_mem ha
    obtain ⟨j, hj, rfl⟩ := getElem_of_mem hb
    rcases Nat.lt_trichotomy i j with hij | rfl | hij
    · exact pairwise_iff_getElem.mp h i j hi hj hij
    · exact absurd hlt (lt_irrefl _)
    · exact absurd hlt (pairwise_iff_getElem.mp hsorted j i hj hi hij).asymm
  · intro h
    exact hsorted.imp_of_mem fun ha hb hlt => h _ ha _ hb hlt

/-- Sorting by a key that no two elements share. -/
lemma pairwise_lt_insertionSort_key (hkeys : (xs.map key).Nodup) :
    (xs.insertionSort (key · ≤ key ·)).Pairwise (key · < key ·) := by
  have hne : (xs.insertionSort (key · ≤ key ·)).Pairwise (key · ≠ key ·) := by
    rw [← pairwise_map (R := (· ≠ ·))]
    exact (((perm_insertionSort _ xs).map key).nodup_iff).mpr hkeys
  exact (pairwise_insertionSort _ xs).and hne |>.imp fun h => lt_of_le_of_ne h.1 h.2

end

/-! ## Positions -/

/-- Without repetitions the first position of an element is its only one. -/
lemma Nodup.finIdxOf?_eq_some_iff [BEq α] [LawfulBEq α] (h : xs.Nodup) {a : α} {i : Fin xs.length} :
    xs.finIdxOf? a = some i ↔ xs[i] = a := by
  rw [List.finIdxOf?_eq_some_iff]
  constructor
  · exact fun hi => hi.1
  · intro hi
    refine ⟨hi, fun j hji hj => ?_⟩
    have := (nodup_iff_injective_get.mp h) (show xs.get j = xs.get i by
      exact hj.trans hi.symm)
    omega

/-- A loop over a list keeps an invariant on what it has gone through so far. -/
lemma foldl_invariant {f : β → α → β} {I : List α → β → Prop}
    (step : ∀ seen b a, I seen b → I (seen ++ [a]) (f b a)) (xs seen : List α) (b : β)
    (h : I seen b) : I (seen ++ xs) (xs.foldl f b) := by
  induction xs generalizing seen b with
  | nil => rwa [append_nil]
  | cons x xs ih =>
    rw [foldl_cons, ← singleton_append, ← append_assoc]
    exact ih (seen ++ [x]) (f b x) (step seen b x h)

/-! ## Mapping a partial function -/

/-- A map that can fail succeeds when it does at every element. -/
lemma mapM_eq_some_iff {f : α → Option β} :
    xs.mapM f = some ys ↔ Forall₂ (fun x y => f x = some y) xs ys := by
  induction xs generalizing ys with
  | nil => cases ys <;> simp
  | cons x xs ih =>
    rw [mapM_cons]
    cases ys with
    | nil => cases hx : f x <;> cases hxs : xs.mapM f <;> simp
    | cons y ys =>
      rw [forall₂_cons, ← ih]
      cases hx : f x <;> cases hxs : xs.mapM f <;> simp

lemma mapM_congr_of_mem {f g : α → Option β} (h : ∀ x ∈ xs, f x = g x) : xs.mapM f = xs.mapM g := by
  induction xs with
  | nil => rfl
  | cons x xs ih =>
    rw [mapM_cons, mapM_cons, h x mem_cons_self, ih fun y hy => h y (mem_cons_of_mem _ hy)]

/-- Mapping a partial function over a list given by its length and its elements. -/
lemma mapM_map_range_eq_some {f : α → Option β} {g : ℕ → α}
    (h : ∀ k y, ys[k]? = some y → f (g k) = some y) :
    ((range ys.length).map g).mapM f = some ys := by
  rw [mapM_eq_some_iff, forall₂_iff_get]
  refine ⟨by simp, ?_⟩
  intro k hk hk'
  simpa using h k (ys.get ⟨k, hk'⟩) (by simp)

lemma all_congr_of_mem {f g : α → Bool} (h : ∀ x ∈ xs, f x = g x) : xs.all f = xs.all g := by
  rw [Bool.eq_iff_iff, all_eq_true, all_eq_true]
  exact forall₂_congr fun x hx => by rw [h x hx]

/-- Every element of the left list has a partner on the right. -/
lemma Forall₂.exists_of_mem_left {R : α → β → Prop} (h : Forall₂ R xs ys) {x : α} (hx : x ∈ xs) :
    ∃ y ∈ ys, R x y := by
  induction h with
  | nil => cases hx
  | cons hr _ ih =>
    rcases mem_cons.mp hx with rfl | hx
    · exact ⟨_, mem_cons_self, hr⟩
    · obtain ⟨y, hy, hxy⟩ := ih hx
      exact ⟨y, mem_cons_of_mem _ hy, hxy⟩

/-- Related lists have one image under functions that agree on partners. -/
lemma Forall₂.map_eq_map {γ : Type*} {R : α → β → Prop} {f : α → γ} {g : β → γ}
    (h : Forall₂ R xs ys) (hfg : ∀ x y, R x y → f x = g y) : xs.map f = ys.map g := by
  induction h with
  | nil => rfl
  | cons hr _ ih => rw [map_cons, map_cons, hfg _ _ hr, ih]

lemma exists_mem_concat {x : α} {p : α → Prop} :
    (∃ a ∈ xs ++ [x], p a) ↔ (∃ a ∈ xs, p a) ∨ p x := by
  simp [or_and_right, exists_or]

lemma forall_mem_concat {x : α} {p : α → Prop} :
    (∀ a ∈ xs ++ [x], p a) ↔ (∀ a ∈ xs, p a) ∧ p x := by
  simp [or_imp, forall_and]

/-- Related lists stay related when the same positions are picked. -/
lemma Forall₂.filterMap_getElem? {R : α → β → Prop} (h : Forall₂ R xs ys) (positions : List ℕ) :
    Forall₂ R (positions.filterMap (xs[·]?)) (positions.filterMap (ys[·]?)) := by
  induction positions with
  | nil => exact Forall₂.nil
  | cons i positions ih =>
    have hlen := h.length_eq
    by_cases hi : i < xs.length
    · have hi' : i < ys.length := by omega
      rw [filterMap_cons_some (getElem?_eq_getElem hi), filterMap_cons_some (getElem?_eq_getElem hi')]
      exact Forall₂.cons (h.get hi hi') ih
    · rw [filterMap_cons_none (getElem?_eq_none (by omega)),
        filterMap_cons_none (getElem?_eq_none (by omega))]
      exact ih

/-! ## Lists cut in two by a predicate -/

/-- Every member that satisfies `p` comes before every member that does not. -/
def PartitionedBy (p : α → Bool) (xs : List α) : Prop :=
  xs.Pairwise fun a b => p b = true → p a = true

/-- The number of leading members that satisfy `p`: where a binary search cuts a list
partitioned by `p`. -/
def partitionPoint (p : α → Bool) (xs : List α) : ℕ := (xs.takeWhile p).length

namespace PartitionedBy
variable {p : α → Bool} {xs : List α}

/-- A list sorted by a key is partitioned by every bound on the key. -/
lemma of_sorted {key : α → ℕ} (h : xs.Pairwise (key · ≤ key ·)) (n : ℕ) :
    xs.PartitionedBy (fun x => decide (key x < n)) := by
  apply h.imp
  intro a b hab hb
  simp only [decide_eq_true_eq] at hb ⊢
  omega

section
variable (h : xs.PartitionedBy p)
include h

/-- Filtering keeps the partition. -/
lemma filter (q : α → Bool) : (xs.filter q).PartitionedBy p :=
  List.Pairwise.filter q h

/-- The start that satisfies the predicate is all that does. -/
lemma takeWhile_eq : xs.takeWhile p = xs.filter p := by
  induction xs with
  | nil => rfl
  | cons x xs ih =>
    have hrest := pairwise_cons.mp h
    by_cases hx : p x = true
    · rw [takeWhile_cons_of_pos hx, filter_cons_of_pos hx, ih hrest.2]
    · rw [takeWhile_cons_of_neg hx, filter_cons_of_neg hx]
      symm
      apply filter_eq_nil_iff.mpr
      intro y hy hpy
      exact hx (hrest.1 y hy hpy)

/-- Binary search finds the number of elements that satisfy the predicate. -/
lemma partitionPoint_eq : xs.partitionPoint p = xs.countP p := by
  rw [partitionPoint, h.takeWhile_eq, countP_eq_length_filter]

/-- The first elements, as many as satisfy the predicate, are those that do. -/
lemma take_countP : xs.take (xs.countP p) = xs.filter p := by
  rw [← h.takeWhile_eq, countP_eq_length_filter, ← h.takeWhile_eq]
  exact (prefix_iff_eq_take.mp ( takeWhile_prefix p)).symm

lemma drop_countP : xs.drop (xs.countP p) = xs.filter (fun x => !p x) := by
  induction xs with
  | nil => rfl
  | cons x xs ih =>
    have hrest := pairwise_cons.mp h
    by_cases hx : p x = true
    · rw [countP_cons_of_pos hx, drop_succ_cons, ih hrest.2, filter_cons_of_neg (by simp [hx])]
    -- nothing after `x` satisfies `p` either
    have hnone : ∀ y ∈ x :: xs, ¬p y = true := by
      intro y hy hpy
      rcases mem_cons.mp hy with hyx | hy
      · exact hx (hyx ▸ hpy)
      · exact hx (hrest.1 y hy hpy)
    rw [countP_eq_zero.mpr hnone, drop_zero]
    symm
    apply filter_eq_self.mpr
    intro y hy
    simpa using hnone y hy

/-- What follows that start is all that does not satisfy the predicate. -/
lemma dropWhile_eq : xs.dropWhile p = xs.filter (fun x => !p x) := by
  refine @append_cancel_left _ (xs.takeWhile p) _ _ ?_
  rw [takeWhile_append_dropWhile, h.takeWhile_eq, ← h.take_countP, ← h.drop_countP,
    take_append_drop]

end

end PartitionedBy

/-! ## Cutting into pieces -/

/-- At most `fuel` pieces, each as long as `size` says of what is left. -/
def cutAux (size : List α → ℕ) : ℕ → List α → List (List α)
  | 0, _ => []
  | _ + 1, [] => []
  | fuel + 1, x :: xs => (x :: xs).take (size (x :: xs)) ::
      cutAux size fuel ((x :: xs).drop (size (x :: xs)))

/-- The list cut into pieces, each as long as `size` says of what is left. -/
def cut (size : List α → ℕ) (xs : List α) : List (List α) := cutAux size xs.length xs

section
variable {size : List α → ℕ}

/-- A piece of positive size leaves a shorter list. -/
lemma length_drop_size_lt (hsize : ∀ x xs, 0 < size (x :: xs)) (x : α) (xs : List α) :
    ((x :: xs).drop (size (x :: xs))).length ≤ xs.length := by
  have := hsize x xs
  rw [length_drop, length_cons]
  omega

/-- Fuel beyond the length of the list does not matter. -/
lemma cutAux_fuel (hsize : ∀ x xs, 0 < size (x :: xs)) (fuel fuel' : ℕ) (xs : List α)
    (h : xs.length ≤ fuel) (h' : xs.length ≤ fuel') :
    cutAux size fuel xs = cutAux size fuel' xs := by
  induction fuel generalizing fuel' xs with
  | zero =>
    rw [length_eq_zero_iff.mp (Nat.le_zero.mp h)]
    cases fuel' <;> rfl
  | succ fuel ih =>
    cases xs with
    | nil => cases fuel' <;> rfl
    | cons x xs =>
      cases fuel' with
      | zero => simp at h'
      | succ fuel' =>
        have hlt := length_drop_size_lt hsize x xs
        rw [length_cons] at h h'
        rw [cutAux, cutAux, ih fuel' _ (by omega) (by omega)]

@[simp] lemma cut_nil : ([] : List α).cut size = [] := rfl

section
variable (hsize : ∀ x xs, 0 < size (x :: xs))
include hsize

/-- The first piece, and then the pieces of what follows it. -/
lemma cut_cons (x : α) (xs : List α) : (x :: xs).cut size = (x :: xs).take (size (x :: xs)) ::
      ((x :: xs).drop (size (x :: xs))).cut size := by
  have hlt := length_drop_size_lt hsize x xs
  rw [cut, length_cons, cutAux, cut]
  congr 1
  exact cutAux_fuel hsize _ _ _ hlt (Nat.le_refl _)

/-- Induction on what is left after each piece. -/
lemma cut_induction {motive : List α → Prop} (nil : motive [])
    (cons : ∀ x xs, motive ((x :: xs).drop (size (x :: xs))) → motive (x :: xs)) (xs : List α) :
    motive xs := by
  induction hn : xs.length using Nat.strong_induction_on generalizing xs with
  | _ n ih =>
    cases xs with
    | nil => exact nil
    | cons x xs =>
      have hlt := length_drop_size_lt hsize x xs
      rw [length_cons] at hn
      exact cons x xs (ih _ (by omega) _ rfl)

/-- The pieces, put together, are the list. -/
lemma flatten_cut (xs : List α) : (xs.cut size).flatten = xs := by
  induction xs using cut_induction hsize with
  | nil => rfl
  | cons x xs ih => rw [cut_cons hsize, flatten_cons, ih, take_append_drop]

/-- A piece is cut off the front of what is left. -/
lemma exists_of_mem_cut {piece : List α} (h : piece ∈ xs.cut size) :
    ∃ y ys, piece = (y :: ys).take (size (y :: ys)) := by
  induction xs using cut_induction hsize with
  | nil => simp at h
  | cons x xs ih =>
    rw [cut_cons hsize, mem_cons] at h
    rcases h with rfl | h
    · exact ⟨x, xs, rfl⟩
    · exact ih h

/-- No piece is empty. -/
lemma ne_nil_of_mem_cut {piece : List α} (h : piece ∈ xs.cut size) : piece ≠ [] := by
  obtain ⟨y, ys, rfl⟩ := exists_of_mem_cut hsize h
  have := hsize y ys
  simp
  omega

/-- There are no more pieces than elements. -/
lemma length_cut_le (xs : List α) : (xs.cut size).length ≤ xs.length := by
  induction xs using cut_induction hsize with
  | nil => simp
  | cons x xs ih =>
    have hlt := length_drop_size_lt hsize x xs
    rw [cut_cons hsize, length_cons, length_cons]
    omega

end

end

/-! ## Chunks of one length -/

/-- The list cut into chunks of `n` members, the last one possibly shorter. -/
def chunks (n : ℕ) (xs : List α) : List (List α) := xs.cut fun _ => n

/-- Chunks, put together, are the list. -/
lemma flatten_chunks (hn : 0 < n) (xs : List α) : (xs.chunks n).flatten = xs :=
  flatten_cut (fun _ _ => hn) xs

/-- A first chunk of full length is cut off as it is. -/
lemma chunks_append (hn : 0 < n) (h : xs.length = n) (ys : List α) :
    (xs ++ ys).chunks n = xs :: ys.chunks n := by
  cases xs with
  | nil => simp at h; omega
  | cons x xs =>
    rw [chunks, cons_append, cut_cons fun _ _ => hn, ← cons_append, ← h, take_left, drop_left]
    rfl

/-- Cutting a list of several members into chunks of at least two leaves fewer chunks than
members. -/
lemma length_chunks_lt (hn : 2 ≤ n) (h : 2 ≤ xs.length) : (xs.chunks n).length < xs.length := by
  cases xs with
  | nil => simp at h
  | cons x xs =>
    have hpos : ∀ (y : α) (ys : List α), 0 < (fun _ : List α => n) (y :: ys) :=
      fun _ _ => by show 0 < n; omega
    have := @length_cut_le _ (fun _ => n) hpos ((x :: xs).drop n)
    rw [length_drop] at this
    rw [chunks, cut_cons hpos, length_cons]
    omega

end List

lemma Option.getD_of {P : α → Prop} {o : Option α} {a : α} (ha : P a) (ho : ∀ b, o = some b → P b) :
    P (o.getD a) := by
  cases o with
  | none => exact ha
  | some b => exact ho b rfl
