import Mathlib.Data.List.Sort
import Mathlib.Data.Prod.Lex

/-!
# K-way merging of sorted runs through a heap

A merge keeps one cursor per run and a heap of the rows the cursors currently offer,
each tagged with its cursor. One step takes the least offered row and lets its cursor
offer the following one.

* `MinHeap`, a priority queue given by its contents in ascending order;
* `Merger`, the cursors and the heap, with the invariant that the heap holds exactly
  the offered rows as a field, so a step never meets a cursor without a row;
* `Merger.rows`, everything a merge takes, with `rows_perm` (nothing is lost or
  repeated) and `rows_sorted` (ascending keys when every run ascends).

Runs may also be opened while the merge is under way (`Merger.openRun`).
-/

/-! ## Priority queue -/

/-- A priority queue by its contents: the items in ascending order. -/
structure MinHeap (κ : Type*) [LinearOrder κ] where
  items : List κ
  sorted : items.Pairwise (· ≤ ·)

namespace MinHeap
variable {κ : Type*} [LinearOrder κ]
variable {h h' : MinHeap κ} {k : κ}

/-- The queue without items. -/
def empty : MinHeap κ := ⟨[], .nil⟩

/-- Add an item. -/
def push (h : MinHeap κ) (k : κ) : MinHeap κ :=
  ⟨h.items.orderedInsert (· ≤ ·) k, h.sorted.orderedInsert k _⟩

/-- The least item. -/
def peek (h : MinHeap κ) : Option κ := h.items.head?

/-- Remove the least item. -/
def pop : MinHeap κ → Option (κ × MinHeap κ)
  | ⟨[], _⟩ => none
  | ⟨k :: ks, hs⟩ => some (k, ⟨ks, hs.tail⟩)

@[simp] lemma items_empty : (empty : MinHeap κ).items = [] := rfl

@[simp] lemma mem_push {a : κ} : a ∈ (h.push k).items ↔ a = k ∨ a ∈ h.items :=
  List.mem_orderedInsert _

/-- Pushing adds one item. -/
lemma push_perm (h : MinHeap κ) (k : κ) : (h.push k).items.Perm (k :: h.items) :=
  List.perm_orderedInsert _ _ _

/-- Nothing is popped from an empty heap only. -/
lemma pop_eq_none_iff : h.pop = none ↔ h.items = [] := by
  rcases h with ⟨_ | ⟨k, ks⟩, hs⟩ <;> simp [pop]

/-- What a successful `pop` takes heads the contents. -/
lemma items_of_pop (hp : h.pop = some (k, h')) : h.items = k :: h'.items := by
  rcases h with ⟨_ | ⟨a, as⟩, hs⟩
  · simp [pop] at hp
  · obtain ⟨rfl, rfl⟩ := hp
    rfl

/-- What is popped was at the top. -/
lemma peek_of_pop (hp : h.pop = some (k, h')) : h.peek = some k := by
  rw [peek, items_of_pop hp, List.head?_cons]

/-- `pop` takes an item no other item is below. -/
lemma le_of_pop (hp : h.pop = some (k, h')) : ∀ a ∈ h.items, k ≤ a := by
  intro a ha
  have hs := h.sorted
  rw [items_of_pop hp] at hs ha
  rcases List.mem_cons.mp ha with rfl | ha
  · exact le_rfl
  · exact List.rel_of_pairwise_cons hs ha

end MinHeap

/-! ## The merge state -/

variable {α κ : Type*} [LinearOrder κ]

/-- A merge under way. `cursors` holds what every run still has to give, `heap` one
item per cursor that is not exhausted: the key of the row it offers, and the cursor's
index. -/
structure Merger (key : α → κ) where
  cursors : List (List α)
  heap : MinHeap (κ ×ₗ ℕ)
  offers : ∀ k i, toLex (k, i) ∈ heap.items ↔
    ∃ row rest, cursors[i]? = some (row :: rest) ∧ k = key row
  nodup : heap.items.Nodup

namespace Merger

open List
variable {key : α → κ}
variable {m m' : Merger key} {i : ℕ} {row : α}

/-- No cursor, no row. -/
def empty : Merger key where
  cursors := []
  heap := MinHeap.empty
  offers := by simp
  nodup := by simp

/-- Pushing the key of a cursor that was missing completes the heap. -/
private lemma offers_push {heap : MinHeap (κ ×ₗ ℕ)} {cursors : List (List α)} {rest : List α}
    (hrow : cursors[i]? = some (row :: rest)) (hothers : ∀ k j, toLex (k, j) ∈ heap.items ↔
      j ≠ i ∧ ∃ r rs, cursors[j]? = some (r :: rs) ∧ k = key r) :
    ∀ k j, toLex (k, j) ∈ (heap.push (toLex (key row, i))).items ↔
      ∃ r rs, cursors[j]? = some (r :: rs) ∧ k = key r := by
  intro k j
  rw [MinHeap.mem_push, hothers]
  constructor
  · rintro (h | ⟨-, h⟩)
    · obtain ⟨rfl, rfl⟩ := Prod.mk.inj (toLex_inj.mp h)
      exact ⟨row, rest, hrow, rfl⟩
    · exact h
  · rintro ⟨r, rs, hr, rfl⟩
    by_cases hj : j = i
    · subst hj
      obtain ⟨rfl, rfl⟩ := List.cons.inj (Option.some.inj (hrow.symm.trans hr))
      exact Or.inl rfl
    · exact Or.inr ⟨hj, r, rs, hr, rfl⟩

private lemma nodup_push {heap : MinHeap (κ ×ₗ ℕ)} {k : κ ×ₗ ℕ} (hn : heap.items.Nodup)
    (hk : k ∉ heap.items) : (heap.push k).items.Nodup :=
  (MinHeap.push_perm heap k).nodup_iff.mpr (nodup_cons.mpr ⟨hk, hn⟩)

/-- Add a cursor over a run; a run without rows offers nothing. -/
def openRun (m : Merger key) : List α → Merger key
  | [] =>
    { cursors := m.cursors ++ [[]]
      heap := m.heap
      nodup := m.nodup
      offers := by
        intro k i
        rw [m.offers]
        rcases Nat.lt_trichotomy i m.cursors.length with h | rfl | h
        · rw [List.getElem?_append_left h]
        · simp
        · rw [List.getElem?_eq_none h.le,
            List.getElem?_eq_none (by rw [List.length_append]; exact h)] }
  | row :: rest =>
    { cursors := m.cursors ++ [row :: rest]
      heap := m.heap.push (toLex (key row, m.cursors.length))
      nodup := by
        refine nodup_push m.nodup fun h => ?_
        obtain ⟨r, rs, hr, -⟩ := (m.offers _ _).mp h
        simp at hr
      offers := by
        refine offers_push List.getElem?_concat_length fun k j => ?_
        rw [m.offers]
        rcases Nat.lt_trichotomy j m.cursors.length with h | rfl | h
        · rw [List.getElem?_append_left h]
          exact ⟨fun hr => ⟨h.ne, hr⟩, fun hr => hr.2⟩
        · simp
        · rw [List.getElem?_eq_none h.le,
            List.getElem?_eq_none (by rw [List.length_append]; exact h)]
          simp }

@[simp] lemma cursors_openRun (m : Merger key) (run : List α) :
    (m.openRun run).cursors = m.cursors ++ [run] := by
  cases run <;> rfl

variable (runs : List (List α))

/-- One cursor per run, in order. -/
def ofRuns : Merger key := runs.foldl openRun empty

/-- Runs are opened in order. -/
lemma cursors_foldl_openRun (m : Merger key) :
    (runs.foldl openRun m).cursors = m.cursors ++ runs := by
  induction runs generalizing m with
  | nil => simp
  | cons run runs ih => rw [foldl_cons, ih, cursors_openRun, append_assoc]; rfl

@[simp] lemma cursors_ofRuns : (ofRuns runs : Merger key).cursors = runs := by
  rw [ofRuns, cursors_foldl_openRun]
  rfl

/-! ## One step -/

/-- Popping leaves the keys of all other cursors. -/
private lemma offers_of_pop {heap : MinHeap (κ ×ₗ ℕ)} {k : κ}
    (hp : m.heap.pop = some (toLex (k, i), heap)) (l j : _) :
    toLex (l, j) ∈ heap.items ↔ j ≠ i ∧ ∃ r rs, m.cursors[j]? = some (r :: rs) ∧ l = key r := by
  have hitems := MinHeap.items_of_pop hp
  have hnodup := m.nodup
  rw [hitems, nodup_cons] at hnodup
  have htop : toLex (k, i) ∈ m.heap.items := by rw [hitems]; exact mem_cons_self
  obtain ⟨r₀, rs₀, hr₀, hk₀⟩ := (m.offers k i).mp htop
  rw [← m.offers, hitems, mem_cons]
  constructor
  · intro hl
    refine ⟨?_, Or.inr hl⟩
    rintro rfl
    -- a second offer of the same cursor would carry the same key
    have hl' : toLex (l, j) ∈ m.heap.items := by rw [hitems]; exact mem_cons_of_mem _ hl
    obtain ⟨r, rs, hr, rfl⟩ := (m.offers l j).mp hl'
    obtain ⟨rfl, rfl⟩ := List.cons.inj (Option.some.inj (hr₀.symm.trans hr))
    exact hnodup.1 (hk₀ ▸ hl)
  · rintro ⟨hj, h | h⟩
    · exact absurd (Prod.mk.inj (toLex_inj.mp h)).2 hj
    · exact h

/-- Take the least offered row, and let its cursor offer the following one. The cursor
the row came from is part of the answer. -/
def next (m : Merger key) : Option (α × ℕ × Merger key) :=
  match hp : m.heap.pop with
  | none => none
  | some (top, heap) =>
    match hc : m.cursors[(ofLex top).2]? with
    | some (row :: rest) =>
      have hlt : (ofLex top).2 < m.cursors.length := (List.getElem?_eq_some_iff.mp hc).1
      have hself : (m.cursors.set (ofLex top).2 rest)[(ofLex top).2]? = some rest := by
        rw [List.getElem?_set_self hlt]
      have hother : ∀ l j, toLex (l, j) ∈ heap.items ↔ j ≠ (ofLex top).2 ∧
          ∃ r rs, (m.cursors.set (ofLex top).2 rest)[j]? = some (r :: rs) ∧ l = key r := by
        intro l j
        rw [offers_of_pop (k := (ofLex top).1) (i := (ofLex top).2) hp]
        refine and_congr_right fun hj => ?_
        rw [List.getElem?_set_ne (Ne.symm hj)]
      have hnodup : heap.items.Nodup := by
        have := m.nodup
        rw [MinHeap.items_of_pop hp] at this
        exact this.of_cons
      some (row, (ofLex top).2,
        match hrest : rest with
        | [] =>
          { cursors := m.cursors.set (ofLex top).2 []
            heap := heap
            nodup := hnodup
            offers := by
              intro l j
              subst hrest
              rw [hother]
              constructor
              · exact fun h => h.2
              · rintro ⟨r, rs, hr, rfl⟩
                refine ⟨?_, r, rs, hr, rfl⟩
                rintro rfl
                rw [hself] at hr
                simp at hr }
        | following :: rest' =>
          { cursors := m.cursors.set (ofLex top).2 (following :: rest')
            heap := heap.push (toLex (key following, (ofLex top).2))
            nodup := nodup_push hnodup fun h => ((hother _ _).mp h).1 rfl
            offers := offers_push hself hother })
    | _ => none

/-- A step in terms of what it pops from the heap. -/
lemma next_of_pop {top : κ ×ₗ ℕ} {heap : MinHeap (κ ×ₗ ℕ)} (hp : m.heap.pop = some (top, heap)) :
    ∃ row rest m', m.cursors[(ofLex top).2]? = some (row :: rest) ∧ (ofLex top).1 = key row ∧
      m.next = some (row, (ofLex top).2, m') ∧ m'.cursors = m.cursors.set (ofLex top).2 rest ∧
      m'.heap = match rest with
        | [] => heap
        | following :: _ => heap.push (toLex (key following, (ofLex top).2)) := by
  have htop : top ∈ m.heap.items := by
    rw [MinHeap.items_of_pop hp]; exact mem_cons_self
  obtain ⟨row, rest, hc, hk⟩ := (m.offers (ofLex top).1 (ofLex top).2).mp htop
  unfold next
  split
  next hnone => simp [hnone] at hp
  next top' heap' hp' =>
    obtain ⟨rfl, rfl⟩ := Prod.mk.inj (Option.some.inj (hp.symm.trans hp'))
    split
    next row' rest' hc' =>
      obtain ⟨rfl, rfl⟩ := List.cons.inj (Option.some.inj (hc.symm.trans hc'))
      refine ⟨row, rest, _, hc, hk, rfl, ?_, ?_⟩ <;> cases rest <;> rfl
    next hnone => exact absurd hc (hnone row rest)

/-- The heap is empty when there is no next row. -/
lemma heap_pop_eq_none_iff : m.heap.pop = none ↔ m.next = none := by
  constructor
  · intro h
    unfold next
    split
    · rfl
    next hp => simp [h] at hp
  · intro h
    by_contra hne
    obtain ⟨⟨top, heap⟩, hp⟩ := Option.ne_none_iff_exists'.mp hne
    obtain ⟨_, _, _, _, _, hnext, _⟩ := next_of_pop hp
    simp [h] at hnext

/-- Everything a step does: the row it takes heads its cursor, is the least one offered,
and only that cursor moves. -/
lemma next_spec (h : m.next = some (row, i, m')) :
    ∃ rest, m.cursors[i]? = some (row :: rest) ∧ m'.cursors = m.cursors.set i rest ∧
      ∀ j r rs, m.cursors[j]? = some (r :: rs) → toLex (key row, i) ≤ toLex (key r, j) := by
  rcases hp : m.heap.pop with _ | ⟨top, heap⟩
  · rw [heap_pop_eq_none_iff, h] at hp
    simp at hp
  obtain ⟨row', rest, m'', hc, hk, hnext, hcursors, -⟩ := next_of_pop hp
  rw [h] at hnext
  obtain ⟨rfl, rfl, rfl⟩ : row = row' ∧ i = (ofLex top).2 ∧ m' = m'' := by simpa using hnext
  refine ⟨rest, hc, hcursors, fun j r rs hr => ?_⟩
  rw [← hk]
  exact MinHeap.le_of_pop hp _ ((m.offers _ _).mpr ⟨r, rs, hr, rfl⟩)

/-- A merge stops exactly when every cursor is exhausted. -/
lemma next_eq_none_iff : m.next = none ↔ ∀ c ∈ m.cursors, c = [] := by
  rw [← heap_pop_eq_none_iff, MinHeap.pop_eq_none_iff]
  constructor
  · intro h c hc
    by_contra hne
    obtain ⟨r, rs, rfl⟩ := exists_cons_of_ne_nil hne
    obtain ⟨j, hj⟩ := mem_iff_getElem?.mp hc
    have hmem := (m.offers (key r) j).mpr ⟨r, rs, hj, rfl⟩
    simp [h] at hmem
  · intro h
    rw [eq_nil_iff_forall_not_mem]
    intro top htop
    obtain ⟨r, rs, hr, -⟩ := (m.offers (ofLex top).1 (ofLex top).2).mp htop
    have := h _ (mem_of_getElem? hr)
    simp at this

/-! ## Whole merges -/

/-- The rows a merge still has to give. -/
def pending (m : Merger key) : List α := m.cursors.flatten

@[simp] lemma pending_ofRuns : (ofRuns runs : Merger key).pending = runs.flatten := by
  rw [pending, cursors_ofRuns]

@[simp] lemma pending_openRun (m : Merger key) (run : List α) :
    (m.openRun run).pending = m.pending ++ run := by
  simp [pending]

/-- Taking the head of one cursor takes one pending row. -/
lemma flatten_set_perm {cursors : List (List α)} {rest : List α}
    (h : cursors[i]? = some (row :: rest)) :
    cursors.flatten.Perm (row :: (cursors.set i rest).flatten) := by
  induction cursors generalizing i with
  | nil => simp at h
  | cons c cs ih =>
    cases i with
    | zero =>
      simp only [List.getElem?_cons_zero, Option.some.injEq] at h
      subst h
      simp
    | succ i =>
      exact ((ih (by simpa using h)).append_left c).trans perm_middle

/-- A step takes one row off the pending ones. -/
lemma pending_of_next (h : m.next = some (row, i, m')) : m.pending.Perm (row :: m'.pending) := by
  obtain ⟨rest, hc, hm', -⟩ := next_spec h
  rw [pending, pending, hm']
  exact flatten_set_perm hc

/-- The next row is one pending row less. -/
lemma length_pending_of_next (h : m.next = some (row, i, m')) :
    m.pending.length = m'.pending.length + 1 := by
  rw [(pending_of_next h).length_eq, length_cons]

/-- Without a next row nothing is pending. -/
lemma pending_eq_nil_of_next (h : m.next = none) : m.pending = [] := by
  rw [pending, flatten_eq_nil_iff]
  exact next_eq_none_iff.mp h

/-- Every cursor gives its rows by ascending key. -/
def Ascending (m : Merger key) : Prop := ∀ c ∈ m.cursors, c.Pairwise (key · ≤ key ·)

/-- Sorted runs make an ascending merge. -/
lemma ascending_ofRuns {runs : List (List α)} (h : ∀ run ∈ runs, run.Pairwise (key · ≤ key ·)) :
    (ofRuns runs : Merger key).Ascending := by
  rw [Ascending, cursors_ofRuns]
  exact h

/-- Opening a sorted run keeps the merge ascending. -/
lemma Ascending.openRun (h : m.Ascending) {run : List α} (hrun : run.Pairwise (key · ≤ key ·)) :
    (m.openRun run).Ascending := by
  intro c hc
  rw [cursors_openRun, mem_append, mem_singleton] at hc
  rcases hc with hc | rfl
  · exact h c hc
  · exact hrun

/-- Taking the next row keeps the merge ascending. -/
lemma Ascending.next (ha : m.Ascending) (h : m.next = some (row, i, m')) : m'.Ascending := by
  obtain ⟨rest, hc, hm', -⟩ := next_spec h
  intro c hcm
  rw [hm'] at hcm
  rcases mem_or_eq_of_mem_set hcm with hcm | rfl
  · exact ha c hcm
  · exact (ha _ (mem_of_getElem? hc)).of_cons

/-- Over ascending runs the row a step takes is the least pending one. -/
lemma Ascending.le_of_next (ha : m.Ascending) (h : m.next = some (row, i, m')) :
    ∀ x ∈ m.pending, key row ≤ key x := by
  obtain ⟨rest, hc, -, hleast⟩ := next_spec h
  intro x hx
  obtain ⟨c, hcm, hxc⟩ := mem_flatten.mp hx
  obtain ⟨r, rs, rfl⟩ := exists_cons_of_ne_nil (ne_nil_of_mem hxc)
  obtain ⟨j, hj⟩ := mem_iff_getElem?.mp hcm
  have hkey : key row ≤ key r := by
    rcases (Prod.Lex.le_iff.mp (hleast j r rs hj)) with h | h
    · exact le_of_lt h
    · exact le_of_eq h.1
  rcases mem_cons.mp hxc with rfl | hx
  · exact hkey
  · exact hkey.trans (rel_of_pairwise_cons (ha _ hcm) hx)

/-- The rows taken in at most `fuel` steps. -/
def take : ℕ → Merger key → List α
  | 0, _ => []
  | fuel + 1, m =>
    match m.next with
    | none => []
    | some (row, _, m') => row :: take fuel m'

/-- All rows of a merge, in the order it takes them. -/
def rows (m : Merger key) : List α := m.take m.pending.length

lemma rows_of_next_none (h : m.next = none) : m.rows = [] := by
  rw [rows, pending_eq_nil_of_next h]
  rfl

/-- The rows are the next one and those that follow. -/
lemma rows_of_next (h : m.next = some (row, i, m')) : m.rows = row :: m'.rows := by
  rw [rows, length_pending_of_next h, take, h]
  rfl

/-- Induction along the steps of a merge. -/
lemma next_induction {motive : Merger key → Prop}
    (stop : ∀ m, m.next = none → motive m)
    (step : ∀ m row i m', m.next = some (row, i, m') → motive m' → motive m) :
    ∀ m, motive m := by
  intro m
  induction hn : m.pending.length generalizing m with
  | zero =>
    refine stop m (next_eq_none_iff.mpr ?_)
    rwa [pending, length_eq_zero_iff, flatten_eq_nil_iff] at hn
  | succ n ih =>
    rcases h : m.next with _ | ⟨row, i, m'⟩
    · exact stop m h
    · have := length_pending_of_next h
      exact step m row i m' h (ih m' (by omega))

/-- Every pending row is emitted, once. -/
lemma rows_perm (m : Merger key) : m.rows.Perm m.pending := by
  induction m using next_induction with
  | stop m h => rw [rows_of_next_none h, pending_eq_nil_of_next h]
  | step m row i m' h ih =>
    rw [rows_of_next h]
    exact (ih.cons row).trans (pending_of_next h).symm

lemma mem_rows {x : α} : x ∈ m.rows ↔ x ∈ m.pending :=
  m.rows_perm.mem_iff

/-- An ascending merge emits in order. -/
lemma Ascending.rows_sorted (ha : m.Ascending) : m.rows.Pairwise (key · ≤ key ·) := by
  induction m using next_induction with
  | stop m h => rw [rows_of_next_none h]; exact .nil
  | step m row i m' h ih =>
    rw [rows_of_next h, pairwise_cons]
    refine ⟨fun x hx => ?_, ih (ha.next h)⟩
    exact ha.le_of_next h x
      ((pending_of_next h).mem_iff.mpr (mem_cons_of_mem _ (mem_rows.mp hx)))

end Merger
