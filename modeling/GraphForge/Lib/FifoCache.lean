import Mathlib.Algebra.Group.Nat.Defs
import Mathlib.Data.List.Basic

/-!
# A cache that evicts its oldest entries

Entries are charged by weight against a budget. Before an entry goes in, the oldest ones go out
until the new weight fits. The queue of keys may run out first; the caller decides what follows.
Whatever is evicted, an entry that is there was put there: a property of all entries is kept.
-/

/-- Entries by key, the keys oldest first, and the weight charged so far. -/
structure FifoCache (κ α : Type) where
  entries : List (κ × α)
  order : List κ
  charged : ℕ

namespace FifoCache

variable {κ α : Type} [DecidableEq κ]

/-- A cache without entries, which charges for itself. -/
def empty (charged : ℕ) : FifoCache κ α := ⟨[], [], charged⟩

/-- Look up an entry. -/
def get? (c : FifoCache κ α) (key : κ) : Option α := c.entries.lookup key

/-- Addition of machine words that stops at the largest one. -/
def saturatingAdd (a b : ℕ) : ℕ := min (2 ^ 64 - 1) (a + b)

/-- Drop one key: its entry, if it still has one, and that entry's weight. -/
def drop (weigh : α → ℕ) (key : κ) (c : FifoCache κ α) : FifoCache κ α :=
  match c.get? key with
  | some evicted => { c with entries := c.entries.filter (·.1 ≠ key), charged := c.charged - weigh evicted }
  | none => c

/-- Evict from the front of the queue until the charge fits. The flag says whether it does. -/
def makeRoom (weigh : α → ℕ) (charge maximum : ℕ) : List κ → FifoCache κ α → Bool × FifoCache κ α
  | [], c => (saturatingAdd c.charged charge ≤ maximum, { c with order := [] })
  | oldest :: order, c =>
    if saturatingAdd c.charged charge ≤ maximum then (true, { c with order := oldest :: order })
    else makeRoom weigh charge maximum order (c.drop weigh oldest)

/-- Put an entry in, as the newest one. -/
def push (key : κ) (value : α) (charge : ℕ) (c : FifoCache κ α) : FifoCache κ α where
  entries := (key, value) :: c.entries.filter (·.1 ≠ key)
  order := c.order ++ [key]
  charged := saturatingAdd c.charged charge

/-- Every entry satisfies `P`. -/
def Holds (P : κ → α → Prop) (c : FifoCache κ α) : Prop := ∀ entry ∈ c.entries, P entry.1 entry.2

variable {P : κ → α → Prop} {c : FifoCache κ α}

omit [DecidableEq κ] in
lemma Holds.empty (charged : ℕ) : (FifoCache.empty charged : FifoCache κ α).Holds P := by
  intro entry hentry
  cases hentry

lemma Holds.get? (h : c.Holds P) {key : κ} {value : α} (hget : c.get? key = some value) :
    P key value :=
  h _ (List.lookup_eq_some_iff.mp hget |>.elim fun l₁ h => by
    obtain ⟨l₂, hsplit, _⟩ := h
    rw [hsplit]
    exact List.mem_append_right _ List.mem_cons_self)

lemma Holds.drop (h : c.Holds P) (weigh : α → ℕ) (key : κ) : (c.drop weigh key).Holds P := by
  unfold FifoCache.drop
  split
  · intro entry hentry
    exact h entry (List.mem_filter.mp hentry).1
  · exact h

lemma Holds.makeRoom (h : c.Holds P) (weigh : α → ℕ) (charge maximum : ℕ) (order : List κ) :
    (FifoCache.makeRoom weigh charge maximum order c).2.Holds P := by
  induction order generalizing c with
  | nil => exact h
  | cons oldest order ih =>
    unfold FifoCache.makeRoom
    split
    · exact h
    · exact ih (h.drop weigh oldest)

lemma Holds.push (h : c.Holds P) {key : κ} {value : α} (hvalue : P key value) (charge : ℕ) :
    (c.push key value charge).Holds P := by
  intro entry hentry
  rcases List.mem_cons.mp hentry with rfl | hentry
  · exact hvalue
  · exact h entry (List.mem_filter.mp hentry).1

end FifoCache
