import Mathlib.Algebra.BigOperators.Group.List.Basic
import Mathlib.Algebra.GroupWithZero.Nat
import Mathlib.Data.List.Sort

/-!
# Sequences given by multiplicity

`runs keys copies value` lists the value of each key in turn, as often as `copies` says. When the
keys and their values ascend together and the copies count the members of a list by key, the runs
are that list of values in ascending order.
-/

namespace List

variable {α β κ : Type*}

lemma sum_map_ite_one (xs : List α) (p : α → Prop) [DecidablePred p] :
    (xs.map fun x => if p x then 1 else 0).sum = xs.countP (p ·) := by
  induction xs with
  | nil => rfl
  | cons x xs ih =>
    rw [map_cons, sum_cons, ih, countP_cons, Nat.add_comm]
    simp only [decide_eq_true_eq]

/-- Summing over the members that pass a test, where the others contribute nothing. -/
lemma sum_map_filter_eq {p : α → Bool} {f g : α → ℕ} (hpos : ∀ x, p x = true → f x = g x)
    (hneg : ∀ x, ¬ p x = true → g x = 0) (xs : List α) :
    ((xs.filter p).map f).sum = (xs.map g).sum := by
  induction xs with
  | nil => rfl
  | cons x xs ih =>
    rw [map_cons, sum_cons, ← ih]
    by_cases hx : p x = true
    · rw [filter_cons_of_pos hx, map_cons, sum_cons, hpos x hx]
    · rw [filter_cons_of_neg hx, hneg x hx, Nat.zero_add]

/-- Counting the related pairs row by row or column by column. -/
lemma sum_map_countP_comm (xs : List α) (ys : List β) (r : α → β → Bool) :
    (xs.map fun x => ys.countP (r x)).sum = (ys.map fun y => xs.countP (r · y)).sum := by
  induction xs with
  | nil => simp
  | cons x xs ih =>
    have hcons : ∀ ys : List β, (ys.map fun y => (x :: xs).countP (r · y)).sum =
        ys.countP (r x) + (ys.map fun y => xs.countP (r · y)).sum := by
      intro ys
      induction ys with
      | nil => rfl
      | cons y ys ih =>
        rw [map_cons, sum_cons, ih, map_cons, sum_cons, countP_cons, countP_cons]
        omega
    rw [map_cons, sum_cons, ih, hcons]

/-- A list grouped by a key that takes its values in `keys`. -/
lemma flatMap_filter_perm [DecidableEq κ] {keys : List κ} (hkeys : keys.Nodup) {key : α → κ}
    {xs : List α} (h : ∀ x ∈ xs, key x ∈ keys) :
    (keys.flatMap fun k => xs.filter (key · = k)).Perm xs := by
  induction xs with
  | nil => simp
  | cons x xs ih =>
    have htail := ih fun y hy => h y (mem_cons_of_mem x hy)
    -- the first element stands in the group of its key, between the groups before and after it
    obtain ⟨before, after, rfl⟩ := append_of_mem (h x mem_cons_self)
    have hnot : ∀ ks : List κ, key x ∉ ks → (ks.flatMap fun k => (x :: xs).filter (key · = k)) =
          ks.flatMap fun k => xs.filter (key · = k) := by
      intro ks hks
      apply flatMap_congr
      intro k hk
      rw [filter_cons_of_neg]
      intro heq
      exact hks (of_decide_eq_true heq ▸ hk)
    rw [nodup_append, nodup_cons] at hkeys
    have hbefore : key x ∉ before := fun hmem => hkeys.2.2 _ hmem _ mem_cons_self rfl
    rw [flatMap_append, flatMap_cons] at htail ⊢
    rw [hnot before hbefore, hnot after hkeys.2.1.1, filter_cons_of_pos (by simp), cons_append]
    exact perm_middle.trans (htail.cons x)

/-- Each key's value, in its number of copies. -/
def runs (keys : List κ) (copies : κ → ℕ) (value : κ → α) : List α :=
  keys.flatMap fun k => replicate (copies k) (value k)

section Runs

variable {keys : List κ} {copies : κ → ℕ} {value : κ → α}

@[simp] lemma runs_nil : runs [] copies value = [] := rfl

/-- The first entries of the runs: those of the first key, as many as there is room for, and then
those of the rest. -/
lemma take_runs_cons (k : κ) (n : ℕ) : (runs (k :: keys) copies value).take n =
    replicate (min (copies k) n) (value k) ++
      (runs keys copies value).take (n - min (copies k) n) := by
  rw [show runs (k :: keys) copies value = replicate (copies k) (value k) ++ runs keys copies value
    from rfl, take_append, take_replicate, length_replicate, min_comm]
  congr 2
  omega

/-- Copies that count the members of a list by key give the values of its members. -/
lemma runs_perm [DecidableEq κ] {key : β → κ} {xs : List β} (hkeys : keys.Nodup)
    (hmem : ∀ x ∈ xs, key x ∈ keys) (hcopies : ∀ k ∈ keys, copies k = xs.countP (key · = k)) :
    (runs keys copies value).Perm (xs.map fun x => value (key x)) := by
  have hgroups : runs keys copies value =
      (keys.flatMap fun k => xs.filter (key · = k)).map fun x => value (key x) := by
    rw [map_flatMap]
    apply flatMap_congr
    intro k hk
    rw [hcopies k hk, countP_eq_length_filter, eq_comm, eq_replicate_iff, length_map]
    refine ⟨rfl, ?_⟩
    intro v hv
    obtain ⟨x, hx, rfl⟩ := mem_map.mp hv
    rw [of_decide_eq_true (mem_filter.mp hx).2]
  rw [hgroups]
  exact (flatMap_filter_perm hkeys hmem).map _

/-- Ascending keys with values in the same order give ascending runs. -/
lemma pairwise_runs {le : α → α → Prop} (hrefl : ∀ k, le (value k) (value k))
    (h : keys.Pairwise fun a b => copies a ≠ 0 → copies b ≠ 0 → le (value a) (value b)) :
    (runs keys copies value).Pairwise le := by
  rw [runs, pairwise_flatMap]
  constructor
  · intro k _
    rw [pairwise_replicate]
    exact .inr (hrefl k)
  · apply h.imp
    intro a b hab x hx y hy
    rw [mem_replicate] at hx hy
    rw [hx.2, hy.2]
    exact hab hx.1 hy.1

end Runs

end List
