import Mathlib.Data.List.AList
import Mathlib.Data.List.Dedup
import Mathlib.Data.List.Induction
import Mathlib.Data.List.Sort

/-!
# Finite maps and last writes

Maps are association lists with distinct keys. A loop whose every step writes or clears some
keys of a state ends with the last write of each key (`view_foldl`). `ascending` is
the order in which a sorted set is gone through, and `topmost` what such a pass leaves when
later elements override earlier ones.
-/

open List

lemma List.getD_findSome?_map_some {α β : Type*} (f : α → Option β) (xs : List α) :
    (xs.findSome? fun x => (f x).map some).getD none = xs.findSome? f := by
  induction xs with
  | nil => rfl
  | cons x xs ih =>
    rw [findSome?_cons, findSome?_cons]
    cases f x with
    | none => exact ih
    | some b => rfl

/-- Finite maps. -/
abbrev Map (K V : Type) := AList fun _ : K => V

namespace Map

variable {K V W : Type} [DecidableEq K]

lemma lookup_insert_ite (m : Map K V) (a k : K) (v : V) :
    (m.insert k v).lookup a = if a = k then some v else m.lookup a := by
  split
  next h => rw [h, AList.lookup_insert]
  next h => rw [AList.lookup_insert_ne h]

/-- Change every value, its key at hand. -/
def mapValues (f : K → V → W) (m : Map K V) : Map K W :=
  ⟨m.entries.map fun e => ⟨e.1, f e.1 e.2⟩, List.NodupKeys.map₂ f m.entries m.nodupKeys⟩

@[simp] lemma lookup_mapValues (f : K → V → W) (m : Map K V) (a : K) :
    (mapValues f m).lookup a = (m.lookup a).map (f a) :=
  dlookup_map₂ a

/-- A loop that collects the elements of each key, in order. -/
def group (key : V → K) (xs : List V) : Map K (List V) :=
  xs.foldl (fun m x => m.insert (key x) ((m.lookup (key x)).getD [] ++ [x])) ∅

lemma lookup_group (key : V → K) (xs : List V) (k : K) : (group key xs).lookup k =
    if xs.filter (key · = k) = [] then none else some (xs.filter (key · = k)) := by
  induction xs using reverseRecOn with
  | nil => rfl
  | append_singleton xs x ih =>
    unfold group at ih ⊢
    rw [foldl_append, foldl_cons, foldl_nil, lookup_insert_ite, filter_append]
    by_cases hk : k = key x
    · subst hk
      rw [if_pos rfl, ih]
      split <;> simp_all
    · have hne : ¬key x = k := fun h => hk h.symm
      rw [if_neg hk, ih]
      simp [hne]

end Map

/-! ## Last writes -/

/-- A loop whose every step writes, clears or leaves each key of a state (`some x` writes `x`,
and clears the key when `x = none`) leaves in each key what was written last. -/
lemma view_foldl {α K V S : Type} (view : S → K → Option V) {f : S → α → S}
    (writes : α → K → Option (Option V)) {xs : List α}
    (h : ∀ a ∈ xs, ∀ s q, view (f s a) q = (writes a q).getD (view s q)) (s : S) (q : K) :
    view (xs.foldl f s) q = (xs.reverse.findSome? (writes · q)).getD (view s q) := by
  induction xs generalizing s with
  | nil => rfl
  | cons x xs ih =>
    rw [foldl_cons, ih (fun a ha => h a (mem_cons_of_mem _ ha)), reverse_cons,
      findSome?_append, h x mem_cons_self]
    cases xs.reverse.findSome? (writes · q) with
    | none => cases hw : writes x q <;> simp [hw]
    | some w => simp

/-! ## Sorted sets -/

section
variable {α β : Type}

/-- The value of the last element that has one. -/
def topmost (value : α → Option β) (xs : List α) : Option β := xs.reverse.findSome? value

variable [LinearOrder α]

/-- The distinct elements of a list in ascending order. -/
def ascending (xs : List α) : List α := xs.dedup.insertionSort (· ≤ ·)

@[simp] lemma mem_ascending {a : α} {xs : List α} : a ∈ ascending xs ↔ a ∈ xs := by
  rw [ascending, mem_insertionSort, mem_dedup]

lemma nodup_ascending (xs : List α) : (ascending xs).Nodup :=
  (perm_insertionSort (· ≤ ·) xs.dedup).nodup_iff.mpr (nodup_dedup xs)

lemma pairwise_ascending (xs : List α) : (ascending xs).Pairwise (· < ·) := by
  have hle : (ascending xs).Pairwise (· ≤ ·) := pairwise_insertionSort (· ≤ ·) xs.dedup
  exact (hle.and (nodup_ascending xs)).imp fun h => lt_of_le_of_ne h.1 h.2

end
