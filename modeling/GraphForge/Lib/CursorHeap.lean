import GraphForge.Lib.KWayMerge
import GraphForge.Lib.Outcome

/-!
# Merging from sources that may fail

A k-way merge as programs write it: every cursor holds the row it offers and the source
behind it, reading the source may fail, and a heap of keys is kept beside the cursors
with no static guarantee that the two agree. `CursorHeap.Refines` relates such a state
to the `Merger` of the rows its sources have left to give; the operations of the
program then follow the steps of that merger, and the lookups that could miss a row
never do. What it means that a source gives some rows is a parameter: reading it may only
fail (`Yields`), or also change a state that the sources share (`YieldsFrom`).
-/

variable {α κ σ : Type} {ε : Type*} [LinearOrder κ]

/-! ## Sources -/

/-- The source `s` gives exactly `rows`, one per pull, unless a pull fails with an error
that `E` allows. -/
inductive Yields (E : ε → Prop) (pull : σ → Except ε (Option (α × σ))) : σ → List α → Prop
  | fail {s : σ} {rows : List α} {e : ε} : pull s = .error e → E e → Yields E pull s rows
  | stop {s : σ} : pull s = .ok none → Yields E pull s []
  | more {s s' : σ} {row : α} {rows : List α} : pull s = .ok (some (row, s')) →
      Yields E pull s' rows → Yields E pull s (row :: rows)

/-- The same where the pulls share a state, whatever the state is at each pull. -/
def YieldsFrom {τ : Type} (E : ε → Prop) (pull : σ → StateT τ (Except ε) (Option (α × σ))) :
    σ → List α → Prop
  | s, [] => Except.Runs E (· = none) (pull s)
  | s, row :: rows =>
    Except.Runs E (fun slot => ∃ s', slot = some (row, s') ∧ YieldsFrom E pull s' rows) (pull s)

/-- A cursor's slot, filled by a pull, stands for the rows still to come. -/
def Offers (gives : σ → List α → Prop) : Option (α × σ) → List α → Prop
  | none, rows => rows = []
  | some (row, s), rows => ∃ rest, rows = row :: rest ∧ gives s rest

section
variable {E : ε → Prop} {s s' : σ} {rows : List α}

lemma Yields.ends_pull {pull : σ → Except ε (Option (α × σ))} (h : Yields E pull s rows) :
    Except.Ends E (Offers (Yields E pull) · rows) (pull s) := by
  cases h with
  | fail hp he => rw [hp]; exact .error he
  | stop hp => rw [hp]; exact .ok rfl
  | more hp hrest => rw [hp]; exact .ok ⟨_, rfl, hrest⟩

variable {τ : Type} {pull : σ → StateT τ (Except ε) (Option (α × σ))}

lemma YieldsFrom.runs_pull (h : YieldsFrom E pull s rows) :
    Except.Runs E (Offers (YieldsFrom E pull) · rows) (pull s) := by
  cases rows with
  | nil =>
    refine Except.Runs.mono h fun slot hslot => ?_
    rw [hslot]
    rfl
  | cons row rows =>
    refine Except.Runs.mono h fun slot ⟨s', hslot, hrest⟩ => ?_
    rw [hslot]
    exact ⟨rows, rfl, hrest⟩

/-- What a source gives depends only on its next pull. -/
lemma YieldsFrom.of_pull (hpull : ∀ Q, Except.Runs E Q (pull s') → Except.Runs E Q (pull s))
    (h : YieldsFrom E pull s' rows) : YieldsFrom E pull s rows := by
  cases rows with
  | nil => exact hpull _ h
  | cons row rows => exact hpull _ h

end

/-! ## Lists related slot by slot -/

namespace List.Forall₂
variable {A B : Type*} {R : A → B → Prop} {as : List A} {bs : List B}

lemma exists_of_getElem?_right (h : Forall₂ R as bs) {i : ℕ} {b : B} (hb : bs[i]? = some b) :
    ∃ a, as[i]? = some a ∧ R a b := by
  induction h generalizing i with
  | nil => simp at hb
  | @cons x y xs ys hxy _ ih =>
    cases i with
    | zero =>
      obtain rfl : y = b := by simpa using hb
      exact ⟨x, rfl, hxy⟩
    | succ i => exact ih (by simpa using hb)

lemma set (h : Forall₂ R as bs) {a : A} {b : B} (hab : R a b) (i : ℕ) :
    Forall₂ R (as.set i a) (bs.set i b) := by
  induction h generalizing i with
  | nil => exact .nil
  | cons hxy hrest ih =>
    cases i with
    | zero => exact .cons hab hrest
    | succ i => exact .cons hxy (ih i)

end List.Forall₂

/-! ## Cursors beside a heap -/

/-- One slot per cursor, empty once its source is exhausted, and the heap of the offered
rows' keys. -/
structure CursorHeap (key : α → κ) (σ : Type) where
  slots : List (Option (α × σ))
  heap : MinHeap (κ ×ₗ ℕ)

namespace CursorHeap
variable {key : α → κ}

/-- No cursor. -/
def empty : CursorHeap key σ := ⟨[], MinHeap.empty⟩

/-- Let the heap know the row that cursor `i` offers. -/
def offer (heap : MinHeap (κ ×ₗ ℕ)) (key : α → κ) (i : ℕ) : Option (α × σ) → MinHeap (κ ×ₗ ℕ)
  | none => heap
  | some (row, _) => heap.push (toLex (key row, i))

variable (c : CursorHeap key σ)

/-- Add a cursor with the slot its first pull filled. -/
def append (slot : Option (α × σ)) : CursorHeap key σ :=
  ⟨c.slots ++ [slot], offer c.heap key c.slots.length slot⟩

/-- Refill the slot of cursor `i`. -/
def refill (i : ℕ) (slot : Option (α × σ)) : CursorHeap key σ :=
  ⟨c.slots.set i slot, offer c.heap key i slot⟩

/-- The key and the cursor of the least offered row. -/
def pop : Option (κ × ℕ × CursorHeap key σ) :=
  match c.heap.pop with
  | none => none
  | some (top, heap) => some ((ofLex top).1, (ofLex top).2, { c with heap := heap })

/-- The key of the least offered row. -/
def peek : Option κ := c.heap.peek.map fun top => (ofLex top).1

/-- Take the row cursor `i` offers and pull its next one; `lost` if it offers none. -/
def takeHead {m : Type → Type*} [Monad m] [MonadExceptOf ε m] (pull : σ → m (Option (α × σ)))
    (lost : ε) (c : CursorHeap key σ) (i : ℕ) : m (α × CursorHeap key σ) :=
  match c.slots[i]? with
  | some (some (row, s)) => do
    let slot ← pull s
    return (row, c.refill i slot)
  | _ => throw lost

/-- The cursors stand for the runs that `m` merges. -/
structure Refines (gives : σ → List α → Prop) (c : CursorHeap key σ) (m : Merger key) : Prop where
  slots : List.Forall₂ (Offers gives) c.slots m.cursors
  heap : c.heap = m.heap

variable {gives : σ → List α → Prop}

lemma refines_empty : Refines gives (empty : CursorHeap key σ) Merger.empty :=
  ⟨.nil, rfl⟩

variable {c c' : CursorHeap key σ} {m : Merger key} {k : κ} {i : ℕ}

/-- Adding a cursor opens its run. -/
lemma Refines.append (h : Refines gives c m) {slot : Option (α × σ)} {run : List α}
    (hslot : Offers gives slot run) : Refines gives (c.append slot) (m.openRun run) := by
  refine ⟨?_, ?_⟩
  · rw [Merger.cursors_openRun]
    exact List.rel_append h.slots (.cons hslot .nil)
  · match slot, hslot with
    | none, hslot =>
      rw [show run = [] from hslot]
      exact h.heap
    | some (row, s), ⟨rest, hrun, _⟩ =>
      subst hrun
      show c.heap.push _ = m.heap.push _
      rw [h.heap, h.slots.length_eq]

lemma peek_eq_pop : c.peek = c.pop.map Prod.fst := by
  unfold peek CursorHeap.pop
  rcases hp : c.heap.pop with _ | ⟨top, heap⟩
  · rw [MinHeap.peek, MinHeap.pop_eq_none_iff.mp hp]
    rfl
  · rw [MinHeap.peek_of_pop hp]
    rfl

/-- The heap of a cursor state is empty exactly when the merge is over. -/
lemma Refines.pop_eq_none_iff (h : Refines gives c m) : c.pop = none ↔ m.next = none := by
  rw [← Merger.heap_pop_eq_none_iff, ← h.heap]
  unfold pop
  cases c.heap.pop <;> simp

/-- The cursor that the heap names offers the row of the merge's next step, and once it is refilled
the step is done. -/
lemma Refines.head (h : Refines gives c m) (hp : c.pop = some (k, i, c')) :
    ∃ row m' s rest, m.next = some (row, i, m') ∧ k = key row ∧
      c'.slots[i]? = some (some (row, s)) ∧ gives s rest ∧
      ∀ slot, Offers gives slot rest → Refines gives (c'.refill i slot) m' := by
  unfold CursorHeap.pop at hp
  split at hp
  · simp at hp
  next top heap hpop =>
    obtain ⟨rfl, rfl, rfl⟩ := hp
    rw [h.heap] at hpop
    obtain ⟨row, rest, m', hc, hk, hnext, hcursors, hheap⟩ := Merger.next_of_pop hpop
    obtain ⟨slot, hslot, hoffers⟩ := h.slots.exists_of_getElem?_right hc
    match slot, hoffers with
    | some (row', s), ⟨rest', hrest', hgives⟩ =>
      obtain ⟨rfl, rfl⟩ := List.cons.inj hrest'
      refine ⟨row, m', s, rest, hnext, hk, hslot, hgives, fun slot' hslot' => ⟨?_, ?_⟩⟩
      · show List.Forall₂ _ (c.slots.set _ slot') m'.cursors
        rw [hcursors]
        exact h.slots.set hslot' _
      · show offer heap key _ slot' = m'.heap
        rw [hheap]
        match slot', hslot' with
        | none, hslot' => rw [show rest = [] from hslot']; rfl
        | some (row', s'), ⟨rest', hrest', _⟩ => rw [hrest']; rfl

section
variable {E : ε → Prop} (hp : c.pop = some (k, i, c')) (lost : ε)
include hp

/-- Popping the heap and taking the head of the cursor it names is one step of the
merge; the cursor always has a row to take. -/
lemma Refines.pop {pull : σ → Except ε (Option (α × σ))} (h : Refines (Yields E pull) c m) :
    ∃ row m', m.next = some (row, i, m') ∧ k = key row ∧
      Except.Ends E (fun r : α × CursorHeap key σ => r.1 = row ∧ Refines (Yields E pull) r.2 m')
        (takeHead pull lost c' i) := by
  obtain ⟨row, m', s, rest, hnext, hk, hslot, hgives, hrefill⟩ := h.head hp
  refine ⟨row, m', hnext, hk, ?_⟩
  simp only [takeHead, hslot]
  exact hgives.ends_pull.bind fun slot hslot => .ok ⟨rfl, hrefill slot hslot⟩

/-- The same where the sources share a state. -/
lemma Refines.pop_from {τ : Type} {pull : σ → StateT τ (Except ε) (Option (α × σ))}
    (h : Refines (YieldsFrom E pull) c m) : ∃ row m', m.next = some (row, i, m') ∧ k = key row ∧
      Except.Runs E (fun r : α × CursorHeap key σ => r.1 = row ∧ Refines (YieldsFrom E pull) r.2 m')
        (takeHead pull lost c' i) := by
  obtain ⟨row, m', s, rest, hnext, hk, hslot, hgives, hrefill⟩ := h.head hp
  refine ⟨row, m', hnext, hk, ?_⟩
  simp only [takeHead, hslot]
  exact hgives.runs_pull.bind fun slot hslot => .pure ⟨rfl, hrefill slot hslot⟩

end

end CursorHeap
