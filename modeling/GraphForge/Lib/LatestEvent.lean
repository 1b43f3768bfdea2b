import GraphForge.Lib.Lists

/-!
# The latest event

A reader that goes through a log and overwrites what it knows ends with the last event that
matters. In a log sorted by a key without ties, that is the event with the greatest key.
-/

namespace List

variable {α β κ : Type*}

/-- A loop that overwrites at every matching element ends with the last one. -/
lemma foldl_ite_eq_getLast (p : α → Bool) (f : α → β) (xs : List α) (b : β) :
    xs.foldl (fun b a => if p a then f a else b) b = ((xs.reverse.find? p).map f).getD b := by
  induction xs generalizing b with
  | nil => rfl
  | cons x xs ih =>
    rw [foldl_cons, ih, reverse_cons, find?_append]
    cases xs.reverse.find? p with
    | some a => rfl
    | none => cases hx : p x <;> simp [hx]

variable [LinearOrder κ] {key : α → κ} {xs : List α}

/-- The last match in a sorted list is the match with the greatest key. -/
lemma find?_reverse_eq_some_iff (hsorted : xs.Pairwise (key · < key ·)) {p : α → Bool} {a : α} :
    xs.reverse.find? p = some a ↔ a ∈ xs ∧ p a = true ∧ ∀ b ∈ xs, p b = true → key b ≤ key a := by
  have hreverse : xs.reverse.Pairwise (key · > key ·) := pairwise_reverse.mpr hsorted
  rw [find?_eq_some_iff_append]
  constructor
  · rintro ⟨hpa, before, rest, hsplit, hbefore⟩
    have hmem : ∀ b, b ∈ xs ↔ b ∈ before ++ a :: rest := by
      intro b
      rw [← hsplit, mem_reverse]
    rw [hsplit] at hreverse
    refine ⟨(hmem a).mpr (by simp), hpa, ?_⟩
    intro b hb hpb
    rcases mem_append.mp ((hmem b).mp hb) with hb | hb
    · have := hbefore b hb
      rw [hpb] at this
      cases this
    · rcases mem_cons.mp hb with rfl | hb
      · exact le_rfl
      · exact (rel_of_pairwise_cons (pairwise_append.mp hreverse).2.1 hb).le
  · rintro ⟨ha, hpa, hmax⟩
    obtain ⟨before, rest, hsplit⟩ := append_of_mem (mem_reverse.mpr ha)
    refine ⟨hpa, before, rest, hsplit, ?_⟩
    intro b hb
    have hbxs : b ∈ xs := mem_reverse.mp (hsplit ▸ mem_append_left _ hb)
    rw [hsplit] at hreverse
    have hlt := (pairwise_append.mp hreverse).2.2 b hb a mem_cons_self
    rw [Bool.not_eq_true']
    by_contra hpb
    exact absurd (hmax b hbxs (Bool.not_eq_false _ ▸ hpb)) (not_le_of_gt hlt)

/-- Sorting and selecting commute. -/
lemma filter_insertionSort_key (hkeys : (xs.map key).Nodup) (p : α → Bool) :
    (xs.insertionSort (key · ≤ key ·)).filter p = (xs.filter p).insertionSort (key · ≤ key ·) := by
  have hperm : ((xs.insertionSort (key · ≤ key ·)).filter p).Perm (xs.filter p) :=
    (perm_insertionSort _ xs).filter p
  have hsub : ((xs.insertionSort (key · ≤ key ·)).filter p).Pairwise (key · ≤ key ·) :=
    (pairwise_insertionSort _ xs).filter p
  have hkeys' : (((xs.insertionSort (key · ≤ key ·)).filter p).map key).Nodup :=
    ((hperm.map key).nodup_iff).mpr (hkeys.sublist (filter_sublist.map key))
  have hsame := insertionSort_key_eq_of_perm hkeys' hperm
  rw [← hsame]
  exact hsub.insertionSort_eq.symm

end List
