import Mathlib.Algebra.BigOperators.Group.List.Basic
import Mathlib.Algebra.GroupWithZero.Nat
import GraphForge.Lib.MeasuredFix

/-!
# Searching a graph with a stack

A search keeps a stack of nodes to visit and the set of nodes it has seen. It takes the top of the
stack, stops at the target, and pushes the successors of a node the first time it meets it. Only
the nodes of a finite list have successors, so the search ends: each visit pays for the stack
entries it pushes with the successors of a node it will not expand again.
-/

namespace StackSearch

open List

variable {α : Type}

/-- What the nodes that satisfy a test weigh together. -/
def weight (nodes : List α) (cost : α → ℕ) (p : α → Bool) : ℕ := ((nodes.filter p).map cost).sum

section
variable {nodes : List α} (cost : α → ℕ) {p q : α → Bool} (h : ∀ a ∈ nodes, q a = true → p a = true)
include h

lemma weight_mono : weight nodes cost q ≤ weight nodes cost p := by
  induction nodes with
  | nil => exact Nat.le_refl _
  | cons b nodes ih =>
    have htail := ih fun a ha => h a (mem_cons_of_mem b ha)
    unfold weight at htail ⊢
    by_cases hq : q b = true
    · have hp := h b mem_cons_self hq
      rw [filter_cons_of_pos hq, filter_cons_of_pos hp, map_cons, map_cons, sum_cons, sum_cons]
      omega
    · rw [filter_cons_of_neg hq]
      by_cases hp : p b = true
      · rw [filter_cons_of_pos hp, map_cons, sum_cons]
        omega
      · rwa [filter_cons_of_neg hp]

/-- A node that no longer counts takes its cost out of the weight. -/
lemma cost_add_weight_le {a : α} (ha : a ∈ nodes) (hp : p a = true) (hq : ¬ q a = true) :
    cost a + weight nodes cost q ≤ weight nodes cost p := by
  induction nodes with
  | nil => cases ha
  | cons b nodes ih =>
    have hnodes : ∀ a ∈ nodes, q a = true → p a = true :=
      fun a ha => h a (mem_cons_of_mem b ha)
    have hmono := weight_mono cost hnodes
    unfold weight at hmono ih ⊢
    by_cases hab : a = b
    · rw [hab] at hp hq ⊢
      rw [filter_cons_of_neg hq, filter_cons_of_pos hp, map_cons, sum_cons]
      omega
    have htail := ih hnodes ((mem_cons.mp ha).resolve_left hab)
    by_cases hqb : q b = true
    · have hpb := h b mem_cons_self hqb
      rw [filter_cons_of_pos hqb, filter_cons_of_pos hpb, map_cons, map_cons, sum_cons, sum_cons]
      omega
    · rw [filter_cons_of_neg hqb]
      by_cases hpb : p b = true
      · rw [filter_cons_of_pos hpb, map_cons, sum_cons]
        omega
      · rwa [filter_cons_of_neg hpb]

end

variable [DecidableEq α]

/-- The stack, top first, and the nodes seen. -/
structure State (α : Type) where
  pending : List α
  seen : List α

/-- One round: the target ends the search, a node met before is dropped, and a new one pushes its
successors, the last of them on top. -/
def searchBody (succ : α → List α) (target : α) (search : State α → Bool) (s : State α) : Bool :=
  match s.pending with
  | [] => false
  | a :: pending =>
    if a = target then true
    else if a ∈ s.seen then search { s with pending }
    else search { pending := (succ a).reverse ++ pending, seen := a :: s.seen }

/-- Stack entries, and the successors of the nodes not seen yet. -/
def remaining (nodes : List α) (succ : α → List α) (s : State α) : ℕ :=
  s.pending.length + weight nodes (fun a => (succ a).length) (fun a => decide (a ∉ s.seen))

/-- Whether the search meets the target. -/
def search (nodes : List α) (succ : α → List α) (target : α) (s : State α) : Bool :=
  MeasuredFix.fix (remaining nodes succ) (searchBody succ target) s

section Finite

variable {nodes : List α} {succ : α → List α} {target : α}

section
variable (hsucc : ∀ a, a ∉ nodes → succ a = [])
include hsucc

/-- Expanding a new node leaves less to do. -/
lemma remaining_expand {a : α} {pending seen : List α} (ha : a ∉ seen) :
    remaining nodes succ { pending := (succ a).reverse ++ pending, seen := a :: seen }
      < remaining nodes succ { pending := a :: pending, seen } := by
  have hsub : ∀ b ∈ nodes, decide (b ∉ a :: seen) = true → decide (b ∉ seen) = true := by
    intro b _ hb
    rw [decide_eq_true_eq] at hb ⊢
    exact fun hseen => hb (mem_cons_of_mem a hseen)
  unfold remaining
  simp only [length_append, length_reverse, length_cons]
  by_cases hnode : a ∈ nodes
  · have hpay := cost_add_weight_le (fun a => (succ a).length) hsub hnode
      (decide_eq_true ha) (by simp)
    omega
  · have hmono := weight_mono (fun a => (succ a).length) hsub
    rw [hsucc a hnode, length_nil]
    omega

lemma guarded_searchBody : MeasuredFix.Guarded (remaining nodes succ) (searchBody succ target) := by
  intro f g ⟨pending, seen⟩ hfg
  cases pending with
  | nil => rfl
  | cons a pending =>
    show (if a = target then true else if a ∈ seen then f _ else f _)
      = (if a = target then true else if a ∈ seen then g _ else g _)
    by_cases htarget : a = target
    · rw [if_pos htarget, if_pos htarget]
    rw [if_neg htarget, if_neg htarget]
    by_cases hseen : a ∈ seen
    · rw [if_pos hseen, if_pos hseen]
      apply hfg
      unfold remaining
      simp only [length_cons]
      omega
    · rw [if_neg hseen, if_neg hseen]
      exact hfg _ (remaining_expand hsucc hseen)

theorem search_eq (s : State α) :
    search nodes succ target s = searchBody succ target (search nodes succ target) s :=
  MeasuredFix.fix_eq _ (guarded_searchBody hsucc) s

/-- What the search reports is reachable from the stack. -/
theorem exists_reaches_of_search (s : State α) (h : search nodes succ target s = true) :
    ∃ a ∈ s.pending, Relation.ReflTransGen (fun a b => b ∈ succ a) a target := by
  obtain ⟨n, hn⟩ : ∃ n, remaining nodes succ s = n := ⟨_, rfl⟩
  -- by the measure of the loop
  induction n using Nat.strongRecOn generalizing s with
  | ind n ih =>
    obtain ⟨pending, seen⟩ := s
    rw [search_eq hsucc] at h
    cases pending with
    | nil => cases h
    | cons a pending =>
      have hround : (if a = target then true
          else if a ∈ seen then search nodes succ target { pending, seen }
          else search nodes succ target
            { pending := (succ a).reverse ++ pending, seen := a :: seen }) = true := h
      by_cases htarget : a = target
      · exact ⟨a, mem_cons_self, htarget ▸ .refl⟩
      rw [if_neg htarget] at hround
      by_cases hseen : a ∈ seen
      · rw [if_pos hseen] at hround
        have hless : remaining nodes succ { pending, seen } < n := by
          rw [← hn]
          unfold remaining
          simp only [length_cons]
          omega
        obtain ⟨b, hb, hpath⟩ := ih _ hless _ hround rfl
        exact ⟨b, mem_cons_of_mem a hb, hpath⟩
      · rw [if_neg hseen] at hround
        obtain ⟨b, hb, hpath⟩ := ih _ (hn ▸ remaining_expand hsucc hseen) _ hround rfl
        -- the entry was pushed just now, or it was on the stack before
        rcases mem_append.mp hb with hpushed | hbelow
        · exact ⟨a, mem_cons_self, .head (mem_reverse.mp hpushed) hpath⟩
        · exact ⟨b, mem_cons_of_mem a hbelow, hpath⟩

end

end Finite

end StackSearch
