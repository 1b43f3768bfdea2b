import Mathlib.Combinatorics.SimpleGraph.Coloring.Vertex
import GraphForge.Algorithms.ChromaticNumber

/-!
# Searching the colourings of a graph

A partial colouring that uses the colours `0, …, used - 1` and no others can be completed with a
vertex in a fresh colour only if it can be completed with that vertex in the colour `used`: the two
fresh colours are exchanged. So trying the colours up to `used` misses nothing, and a branch that
is cut could only lead to as many colours as the best colouring known.
-/

namespace GraphForge.Algorithms.ChromaticNumber

open List Except Function Nat

variable {n : ℕ}

/-! ## Completing a partial colouring -/

/-- A colouring of the graph with colours below `k` that keeps the colours given so far. -/
structure Completes (G : SimpleGraph (Fin n)) (colors : Colors n) (k : ℕ) (f : Fin n → ℕ) :
    Prop where
  keeps : ∀ v c, colors v = some c → f v = c
  lt : ∀ v, f v < k
  proper : ∀ u v, G.Adj u v → f u ≠ f v

/-- The colours given so far are the first `used` ones. -/
def Uses (colors : Colors n) (used : ℕ) : Prop := ∀ c, c < used ↔ ∃ v, colors v = some c

/-- No edge joins two vertices that were given one colour. -/
def ProperSoFar (G : SimpleGraph (Fin n)) (colors : Colors n) : Prop :=
  ∀ u v c, G.Adj u v → colors u = some c → colors v ≠ some c

section Completions

variable {G : SimpleGraph (Fin n)} {colors : Colors n} {used k : ℕ} {f : Fin n → ℕ} {v : Fin n}

section
variable (huses : Uses colors used) (h : Completes G colors k f)
include huses h

lemma Uses.le_of_completes : used ≤ k := by
  by_contra hlt
  obtain ⟨v, hv⟩ := (huses k).mp (by omega)
  have hk := h.keeps v k hv
  have := h.lt v
  omega

/-- A fresh colour may be exchanged for the first fresh one. -/
lemma Completes.exchange (hfresh : used ≤ f v) :
    Completes G colors k (fun w => Equiv.swap (f v) used (f w)) := by
  have hk := h.lt v
  constructor
  · intro w c hw
    -- a colour in use is neither of the two that are exchanged
    have hc : c < used := (huses c).mpr ⟨w, hw⟩
    show Equiv.swap (f v) used (f w) = c
    rw [h.keeps w c hw]
    exact Equiv.swap_apply_of_ne_of_ne (by omega) (by omega)
  · intro w
    have hw := h.lt w
    show Equiv.swap (f v) used (f w) < k
    rw [Equiv.swap_apply_def]
    split_ifs <;> omega
  · intro u w huw heq
    exact h.proper u w huw ((Equiv.swap (f v) used).injective heq)

/-- Some completion gives a vertex a colour in use or the first fresh one. -/
lemma Completes.exists_le_used (v : Fin n) : ∃ g, Completes G colors k g ∧ g v ≤ used := by
  by_cases hfresh : used ≤ f v
  · refine ⟨_, h.exchange huses hfresh, ?_⟩
    show Equiv.swap (f v) used (f v) ≤ used
    rw [Equiv.swap_apply_left]
  · exact ⟨f, h, by omega⟩

end

/-- A colour given stays when another vertex is given one. -/
lemma update_of_some {w : Fin n} {c d : ℕ} (hv : colors v = none) (hw : colors w = some d) :
    update colors v (some c) w = some d := by
  rw [update_of_ne, hw]
  rintro rfl
  rw [hv] at hw
  cases hw

/-- Giving a vertex its colour fixes that colour in every completion. -/
lemma completes_update_iff (hv : colors v = none) (c : ℕ) :
    Completes G (update colors v (some c)) k f ↔ Completes G colors k f ∧ f v = c := by
  constructor
  · intro h
    refine ⟨⟨?_, h.lt, h.proper⟩, h.keeps v c (update_self ..)⟩
    exact fun w d hw => h.keeps w d (update_of_some hv hw)
  · intro ⟨h, hc⟩
    refine ⟨?_, h.lt, h.proper⟩
    intro w d hw
    by_cases hwv : w = v
    · rw [hwv, update_self] at hw
      rw [hwv, hc, Option.some.inj hw]
    · rw [update_of_ne hwv] at hw
      exact h.keeps w d hw

lemma completes_of_total (hproper : ProperSoFar G colors) (huses : Uses colors used)
    (htotal : ∀ v, (colors v).isSome) :
    Completes G colors used (fun v => (colors v).getD 0) := by
  have hsome : ∀ v, colors v = some ((colors v).getD 0) := by
    intro v
    obtain ⟨c, hc⟩ := Option.isSome_iff_exists.mp (htotal v)
    rw [hc]
    rfl
  constructor
  · intro v c hv
    show (colors v).getD 0 = c
    rw [hv]
    rfl
  · intro v
    exact (huses _).mpr ⟨v, hsome v⟩
  · intro u v huv heq
    apply hproper u v _ huv (hsome u)
    rw [hsome v]
    exact congrArg some heq.symm

end Completions

/-! ## One vertex more -/

section Extend

variable {G : SimpleGraph (Fin n)} {neighbors : Neighbors n} {colors : Colors n} {used c : ℕ}
  {v : Fin n}

lemma mem_uncolored : v ∈ uncolored colors ↔ colors v = none := by
  unfold uncolored
  rw [Finset.mem_filter]
  exact and_iff_right (Finset.mem_univ v)

lemma total_iff_card : (∀ v, (colors v).isSome) ↔ (uncolored colors).card = 0 := by
  rw [Finset.card_eq_zero, Finset.eq_empty_iff_forall_notMem]
  simp only [mem_uncolored, Option.isSome_iff_ne_none, ne_eq]

lemma card_uncolored_none : (uncolored fun _ : Fin n => none).card = n := by
  have hall : uncolored (fun _ : Fin n => none) = Finset.univ := by
    ext v
    simp [mem_uncolored]
  rw [hall, Finset.card_univ, Fintype.card_fin]

lemma uncolored_update : uncolored (update colors v (some c)) = (uncolored colors).erase v := by
  ext w
  rw [mem_uncolored, Finset.mem_erase, mem_uncolored]
  by_cases hwv : w = v
  · rw [hwv, update_self]
    simp
  · simp [hwv]

lemma card_uncolored_update (hv : colors v = none) :
    (uncolored (update colors v (some c))).card + 1 = (uncolored colors).card := by
  rw [uncolored_update]
  exact Finset.card_erase_add_one (mem_uncolored.mpr hv)

/-- Different colours need different vertices. -/
lemma Uses.add_card_uncolored_le (huses : Uses colors used) : used + (uncolored colors).card ≤ n := by
  have hcolored : ∀ c : Fin used, ∃ v, colors v = some c.val := fun c => (huses c).mp c.isLt
  choose vertex hvertex using hcolored
  have hinj : Function.Injective vertex := by
    intro c d h
    have := hvertex c
    rw [h, hvertex d] at this
    exact Fin.ext (Option.some.inj this).symm
  have hdisjoint : Disjoint (Finset.univ.image vertex) (uncolored colors) := by
    rw [Finset.disjoint_left]
    intro w hw hnone
    obtain ⟨c, -, rfl⟩ := Finset.mem_image.mp hw
    rw [mem_uncolored, hvertex c] at hnone
    cases hnone
  have hcard := Finset.card_le_univ (Finset.univ.image vertex ∪ uncolored colors)
  rwa [Finset.card_union_of_disjoint hdisjoint, Finset.card_image_of_injective _ hinj,
    Finset.card_univ, Fintype.card_fin, Fintype.card_fin] at hcard

lemma mem_neighborColors :
    c ∈ neighborColors v neighbors colors ↔ ∃ u ∈ neighbors v, colors u = some c := by
  unfold neighborColors
  rw [Finset.mem_biUnion]
  simp only [Option.mem_toFinset, Option.mem_def]

lemma Uses.lt_of_mem_neighborColors (huses : Uses colors used)
    (hc : c ∈ neighborColors v neighbors colors) : c < used := by
  obtain ⟨u, -, hu⟩ := mem_neighborColors.mp hc
  exact (huses c).mpr ⟨u, hu⟩

/-- The number of colours in use after one more vertex takes `c`. -/
def usedAfter (used c : ℕ) : ℕ := if c = used then used + 1 else used

lemma Uses.update (huses : Uses colors used) (hv : colors v = none) (hc : c ≤ used) :
    Uses (update colors v (some c)) (usedAfter used c) := by
  intro d
  unfold usedAfter
  constructor
  · intro hd
    by_cases hdc : d = c
    · exact ⟨v, by rw [hdc, update_self]⟩
    · obtain ⟨w, hw⟩ := (huses d).mp (by split_ifs at hd <;> omega)
      exact ⟨w, update_of_some hv hw⟩
  · intro ⟨w, hw⟩
    by_cases hwv : w = v
    · rw [hwv, update_self] at hw
      have := Option.some.inj hw
      split_ifs <;> omega
    · rw [update_of_ne hwv] at hw
      have := (huses d).mpr ⟨w, hw⟩
      split_ifs <;> omega

lemma ProperSoFar.update (hG : ∀ u v, v ∈ neighbors u ↔ G.Adj u v) (h : ProperSoFar G colors)
    (hc : c ∉ neighborColors v neighbors colors) :
    ProperSoFar G (update colors v (some c)) := by
  -- a neighbour of `v` does not have the colour `c`
  have hfree : ∀ w, G.Adj v w → colors w ≠ some c := by
    intro w hvw hw
    exact hc (mem_neighborColors.mpr ⟨w, (hG v w).mpr hvw, hw⟩)
  intro u w d huw hu hw
  by_cases huv : u = v
  · rw [huv] at huw hu
    rw [update_self] at hu
    rw [update_of_ne huw.ne'] at hw
    exact hfree w huw (hw.trans hu.symm)
  rw [update_of_ne huv] at hu
  by_cases hwv : w = v
  · rw [hwv] at huw hw
    rw [update_self] at hw
    exact hfree u huw.symm (hu.trans hw.symm)
  · rw [update_of_ne hwv] at hw
    exact h u w d huw hu hw

/-- What the loop of `select_vertex` has selected once it has gone through some vertices. -/
def SelectedFrom (colors : Colors n) (seen : List (Fin n)) (selected : Option (Fin n × ℕ × ℕ)) :
    Prop :=
  (selected = none → ∀ v ∈ seen, (colors v).isSome) ∧
    ∀ v key, selected = some (v, key) → colors v = none

lemma SelectedFrom.step {seen : List (Fin n)} {selected : Option (Fin n × ℕ × ℕ)}
    (h : SelectedFrom colors seen selected) (v : Fin n) :
    SelectedFrom colors (seen ++ [v]) (selectStep neighbors colors selected v) := by
  unfold selectStep
  by_cases hv : (colors v).isSome
  · rw [if_pos hv]
    refine ⟨fun hn w hw => ?_, h.2⟩
    rcases mem_append.mp hw with hw | hw
    · exact h.1 hn w hw
    · rwa [mem_singleton.mp hw]
  rw [if_neg hv]
  have hnone : colors v = none := Option.not_isSome_iff_eq_none.mp hv
  have htaken : ∀ key, SelectedFrom colors (seen ++ [v]) (some (v, key)) := by
    refine fun key => ⟨nofun, fun w key' hw => ?_⟩
    cases hw
    exact hnone
  cases selected with
  | none => exact htaken _
  | some s =>
    simp only
    split_ifs
    · exact htaken _
    · exact ⟨nofun, h.2⟩

/-- `select_vertex` finds a vertex without a colour when there is one. -/
lemma exists_selectVertex (neighbors : Neighbors n) (h : ¬ ∀ v, (colors v).isSome) :
    ∃ v, selectVertex neighbors colors = .ok v ∧ colors v = none := by
  have hend : SelectedFrom colors (finRange n)
      ((finRange n).foldl (selectStep neighbors colors) none) := by
    apply foldl_invariant (I := SelectedFrom colors) (fun seen b a hb => hb.step a) _ []
    exact ⟨fun _ => nofun, nofun⟩
  unfold selectVertex
  generalize List.foldl _ _ _ = selected at hend
  cases selected with
  | none => exact absurd (fun v => hend.1 rfl v (mem_finRange v)) h
  | some s => exact ⟨s.1, rfl, hend.2 s.1 s.2 rfl⟩

lemma ends_increment {value : ℕ} (h : value < n) :
    Ends (fun _ => 2 ^ 64 ≤ n) (· = value + 1) (increment value) := by
  unfold increment checkedAdd
  split_ifs
  · exact .ok rfl
  · exact .error (by omega)

lemma ends_countColor (huses : Uses colors used) (hv : colors v = none) (c : ℕ) :
    Ends (fun _ => 2 ^ 64 ≤ n) (· = usedAfter used c) (countColor used c) := by
  have hcard := huses.add_card_uncolored_le
  have hpos : 0 < (uncolored colors).card := Finset.card_pos.mpr ⟨v, mem_uncolored.mpr hv⟩
  unfold countColor usedAfter
  split_ifs with hc
  · exact ends_increment (by omega)
  · exact .ok rfl

end Extend

/-! ## The search -/

/-- Rounds that suffice to search the colourings of `m` more vertices. -/
def searchCost (n : ℕ) : ℕ → ℕ
  | 0 => 1
  | m + 1 => 1 + (n + 1) * searchCost n m

lemma searchCost_pos (m : ℕ) : 1 ≤ searchCost n m := by
  cases m with
  | zero => exact le_refl 1
  | succ m =>
    show 1 ≤ 1 + (n + 1) * searchCost n m
    omega

/-- A run with no round left cannot pay for a search. -/
lemma lt_add_searchCost (m : ℕ) {iterations limit : ℕ} (h : limit ≤ iterations) :
    2 ^ 64 ≤ n ∨ limit < iterations + searchCost n m := by
  have := searchCost_pos (n := n) m
  omega

/-- What a search may leave: a bound that no completion of the colours given undercuts, and that is
the bound it began with or is reached by a completion; in a limited number of rounds. -/
structure Searched (G : SimpleGraph (Fin n)) (s : SearchState n) (m : ℕ)
    (result : ℕ × AlgorithmControl) : Prop where
  reached : result.1 = s.best ∨ ∃ f, Completes G s.colors result.1 f
  le_best : result.1 ≤ s.best
  least : ∀ k f, Completes G s.colors k f → result.1 ≤ k
  limits : result.2.limits = s.control.limits
  iterations : result.2.iterations ≤ s.control.iterations + searchCost n m

/-- What the loop over the colours of `v` has established once it has gone through `tried`. -/
structure Tried (G : SimpleGraph (Fin n)) (s : SearchState n) (v : Fin n) (m : ℕ)
    (tried : List ℕ) (state : ℕ × AlgorithmControl) : Prop where
  reached : state.1 = s.best ∨ ∃ f, Completes G s.colors state.1 f
  le_best : state.1 ≤ s.best
  least : ∀ k f, Completes G s.colors k f → f v ∈ tried → state.1 ≤ k
  limits : state.2.limits = s.control.limits
  iterations : state.2.iterations ≤ s.control.iterations + 1 + tried.length * searchCost n m

section Search

variable {G : SimpleGraph (Fin n)} {neighbors : Neighbors n}

lemma guarded_searchBody (neighbors : Neighbors n) :
    MeasuredFix.Guarded (fun s => (uncolored s.colors).card) (searchBody neighbors) := by
  intro f g s hfg
  unfold searchBody
  cases s.control.checkpoint with
  | error e => rfl
  | ok control =>
    show (if ∀ v, (s.colors v).isSome then _ else _) = (if ∀ v, (s.colors v).isSome then _ else _)
    by_cases htotal : ∀ v, (s.colors v).isSome
    · rw [if_pos htotal, if_pos htotal]
    obtain ⟨v, hselect, hv⟩ := exists_selectVertex neighbors htotal
    have htry : tryColor f s v (neighborColors v neighbors s.colors) =
        tryColor g s v (neighborColors v neighbors s.colors) := by
      funext state color
      unfold tryColor
      congr 1
      congr 1
      funext nextUsed
      apply hfg
      show (uncolored (update s.colors v (some color))).card < (uncolored s.colors).card
      have := card_uncolored_update (c := color) hv
      omega
    rw [hselect]
    simp only [ok_bind]
    rw [htry]

/-- The equation of the search. -/
lemma search_eq (neighbors : Neighbors n) (s : SearchState n) :
    search neighbors s = searchBody neighbors (search neighbors) s :=
  MeasuredFix.fix_eq _ (guarded_searchBody neighbors) s

/-- One colour of the loop: the colours tried so far now include it. -/
lemma Tried.step (hG : ∀ u v, v ∈ neighbors u ↔ G.Adj u v) {s : SearchState n} {v : Fin n} {m : ℕ}
    (hproper : ProperSoFar G s.colors) (huses : Uses s.colors s.usedCount) (hv : s.colors v = none)
    (hsearch : ∀ t : SearchState n, ProperSoFar G t.colors → Uses t.colors t.usedCount →
      (uncolored t.colors).card = m →
      Ends (fun _ => 2 ^ 64 ≤ n ∨
        t.control.limits.iterations < t.control.iterations + searchCost n m)
        (Searched G t m) (search neighbors t))
    (hm : (uncolored s.colors).card = m + 1) {tried : List ℕ} {state : ℕ × AlgorithmControl}
    (h : Tried G s v m tried state) {color : ℕ} (hcolor : color ≤ s.usedCount)
    (htried : tried.length ≤ n) :
    Ends (fun _ => 2 ^ 64 ≤ n ∨
        s.control.limits.iterations < s.control.iterations + searchCost n (m + 1))
      (Tried G s v m (tried ++ [color]))
      (tryColor (search neighbors) s v (neighborColors v neighbors s.colors) state color) := by
  have hlength : (tried ++ [color]).length = tried.length + 1 := by simp
  have hmul : (tried.length + 1) * searchCost n m = tried.length * searchCost n m + searchCost n m :=
    succ_mul _ _
  unfold tryColor
  by_cases hskip : state.1 ≤ color ∨ color ∈ neighborColors v neighbors s.colors
  · -- no completion that gives `v` this colour is better than the best known
    rw [if_pos hskip]
    refine .ok ⟨h.reached, h.le_best, ?_, h.limits, ?_⟩
    · intro k f hf hmem
      rcases mem_append.mp hmem with hmem | hmem
      · exact h.least k f hf hmem
      have hfv : f v = color := mem_singleton.mp hmem
      rcases hskip with hle | hforbidden
      · have := hf.lt v
        omega
      · obtain ⟨u, hu, hcu⟩ := mem_neighborColors.mp hforbidden
        have := hf.proper v u ((hG v u).mp hu)
        exact absurd (hfv.trans (hf.keeps u color hcu).symm) this
    · rw [hlength]
      have := h.iterations
      omega
  · rw [if_neg hskip]
    refine Ends.bind ((ends_countColor huses hv color).mono_error fun e => Or.inl) ?_
    intro nextUsed hnext
    subst hnext
    have hfree : color ∉ neighborColors v neighbors s.colors := fun hmem => hskip (.inr hmem)
    have hcard := card_uncolored_update (c := color) hv
    refine ((hsearch _ (hproper.update hG hfree) (huses.update hv hcolor) ?_).mono_error ?_).mono ?_
    · show (uncolored (update s.colors v (some color))).card = m
      omega
    · intro e he
      refine he.imp_right fun hlt => ?_
      have hlimits := h.limits
      have hiterations := h.iterations
      have hle : (tried.length + 1) * searchCost n m ≤ (n + 1) * searchCost n m :=
        mul_le_mul_right _ (by omega)
      show _ < _ + (1 + (n + 1) * searchCost n m)
      simp only [hlimits] at hlt
      omega
    · intro result hresult
      refine ⟨?_, hresult.le_best.trans h.le_best, ?_, hresult.limits.trans h.limits, ?_⟩
      · rcases hresult.reached with heq | ⟨f, hf⟩
        · rw [heq]
          exact h.reached
        · exact .inr ⟨f, ((completes_update_iff hv color).mp hf).1⟩
      · intro k f hf hmem
        rcases mem_append.mp hmem with hmem | hmem
        · exact hresult.le_best.trans (h.least k f hf hmem)
        · exact hresult.least k f
            ((completes_update_iff hv color).mpr ⟨hf, mem_singleton.mp hmem⟩)
      · rw [hlength]
        have hbefore := h.iterations
        have hafter : result.2.iterations ≤ state.2.iterations + searchCost n m := hresult.iterations
        omega

/-- The search leaves the least bound, in a limited number of rounds. -/
lemma ends_search (hG : ∀ u v, v ∈ neighbors u ↔ G.Adj u v) (m : ℕ) (s : SearchState n)
    (hproper : ProperSoFar G s.colors) (huses : Uses s.colors s.usedCount)
    (hm : (uncolored s.colors).card = m) :
    Ends (fun _ => 2 ^ 64 ≤ n ∨ s.control.limits.iterations < s.control.iterations + searchCost n m)
      (Searched G s m) (search neighbors s) := by
  induction m generalizing s with
  | zero =>
    have htotal := total_iff_card.mpr hm
    rw [search_eq]
    unfold searchBody
    refine Ends.bind (s.control.ends_checkpoint.mono_error fun e => lt_add_searchCost _) ?_
    intro control hcontrol
    rw [if_pos htotal, hcontrol]
    refine .ok ⟨?_, min_le_left _ _, ?_, rfl, le_refl _⟩
    · rcases le_total s.best s.usedCount with hle | hle
      · exact .inl (min_eq_left hle)
      · refine .inr ⟨fun v => (s.colors v).getD 0, ?_⟩
        rw [min_eq_right hle]
        exact completes_of_total hproper huses htotal
    · intro k f hf
      exact (min_le_right _ _).trans (huses.le_of_completes hf)
  | succ m ih =>
    have htotal : ¬ ∀ v, (s.colors v).isSome := total_iff_card.not.mpr (by omega)
    have hused := huses.add_card_uncolored_le
    rw [search_eq]
    unfold searchBody
    refine Ends.bind (s.control.ends_checkpoint.mono_error fun e => lt_add_searchCost _) ?_
    intro control hcontrol
    rw [if_neg htotal, hcontrol]
    by_cases hcut : s.best ≤ s.usedCount
    · -- every completion uses at least the colours in use
      rw [if_pos hcut]
      refine .ok ⟨.inl rfl, le_refl _, ?_, rfl, ?_⟩
      · intro k f hf
        exact hcut.trans (huses.le_of_completes hf)
      · exact Nat.add_le_add_left (searchCost_pos (m + 1)) _
    rw [if_neg hcut]
    obtain ⟨v, hselect, hv⟩ := exists_selectVertex neighbors htotal
    refine Ends.step hselect ?_
    have hstart : Tried G s v m [] (s.best, { s.control with iterations := s.control.iterations + 1 }) :=
      ⟨.inl rfl, le_refl _, fun k f hf => nofun, rfl, by simp⟩
    refine (Ends.foldlM_split ?_ _ hstart).mono ?_
    · intro tried color rest state hrange htried
      have hmem : color ∈ range (s.usedCount + 1) := by
        rw [hrange]
        simp
      have hlength := congrArg List.length hrange
      rw [length_range, length_append, length_cons] at hlength
      exact htried.step hG hproper huses hv ih hm
        (Nat.lt_succ_iff.mp (mem_range.mp hmem)) (by omega)
    · intro result h
      refine ⟨h.reached, h.le_best, ?_, h.limits, ?_⟩
      · intro k f hf
        obtain ⟨g, hg, hle⟩ := hf.exists_le_used huses v
        exact h.least k g hg (mem_range.mpr (by omega))
      · have hiterations := h.iterations
        rw [length_range] at hiterations
        have hle : (s.usedCount + 1) * searchCost n m ≤ (n + 1) * searchCost n m :=
          mul_le_mul_right _ (by omega)
        show _ ≤ _ + (1 + (n + 1) * searchCost n m)
        omega

end Search

/-! ## The greedy bound -/

section Greedy

variable {G : SimpleGraph (Fin n)} {neighbors : Neighbors n} {colors : Colors n} {used : ℕ}

/-- The colour loop stops at a free colour that is in use or the first fresh one. -/
lemma ends_firstFree {forbidden : Finset ℕ} (hforbidden : ∀ c ∈ forbidden, c < used) (hused : used ≤ n)
    (fuel color : ℕ) (hfuel : fuel + color = forbidden.card) (hpassed : ∀ c < color, c ∈ forbidden) :
    Ends (fun _ => 2 ^ 64 ≤ n) (fun c => c ∉ forbidden ∧ c ≤ used)
      (firstFree forbidden fuel color) := by
  -- the colours passed over are in use
  have hle : color ≤ used := by
    by_contra hlt
    exact lt_irrefl _ (hforbidden used (hpassed used (by omega)))
  induction fuel generalizing color with
  | zero =>
    -- every forbidden colour has been passed over
    have hall : Finset.range color = forbidden := by
      apply Finset.eq_of_subset_of_card_le
      · intro c hc
        exact hpassed c (Finset.mem_range.mp hc)
      · rw [Finset.card_range]
        omega
    refine .ok ⟨?_, hle⟩
    rw [← hall, Finset.mem_range]
    exact lt_irrefl color
  | succ fuel ih =>
    unfold firstFree
    by_cases hc : color ∈ forbidden
    · rw [if_pos hc]
      have hlt := hforbidden color hc
      refine (ends_increment (by omega)).bind fun next hnext => ?_
      apply ih
      · omega
      · intro c hcolor
        by_cases hcc : c = color
        · rwa [hcc]
        · exact hpassed c (by omega)
      · omega
    · rw [if_neg hc]
      exact .ok ⟨hc, hle⟩

/-- A greedy round colours one more vertex properly. -/
lemma ends_greedyRound (hG : ∀ u v, v ∈ neighbors u ↔ G.Adj u v) {state : Colors n × ℕ} {m : ℕ}
    (hproper : ProperSoFar G state.1) (huses : Uses state.1 state.2)
    (hm : (uncolored state.1).card = m + 1) :
    Ends (fun _ => 2 ^ 64 ≤ n)
      (fun after => ProperSoFar G after.1 ∧ Uses after.1 after.2 ∧ (uncolored after.1).card = m)
      (greedyRound neighbors state) := by
  have htotal : ¬ ∀ v, (state.1 v).isSome := total_iff_card.not.mpr (by omega)
  obtain ⟨v, hselect, hv⟩ := exists_selectVertex neighbors htotal
  have hused := huses.add_card_uncolored_le
  unfold greedyRound
  refine Ends.step hselect ?_
  refine (ends_firstFree (fun c => huses.lt_of_mem_neighborColors) (by omega) _ 0 rfl nofun).bind ?_
  intro color ⟨hfree, hle⟩
  refine (ends_countColor huses hv color).bind ?_
  intro used hused
  subst hused
  have hcard := card_uncolored_update (c := color) hv
  exact .ok ⟨hproper.update hG hfree, huses.update hv hle, add_right_cancel (hcard.trans hm)⟩

/-- The greedy bound is the number of colours of a colouring. -/
lemma ends_greedyUpperBound (hG : ∀ u v, v ∈ neighbors u ↔ G.Adj u v) :
    Ends (fun _ => 2 ^ 64 ≤ n) (fun result => ∃ f, Completes G (fun _ => none) result.2 f)
      (greedyUpperBound neighbors) := by
  unfold greedyUpperBound
  refine (Ends.foldlM_split (I := fun done (state : Colors n × ℕ) =>
    ProperSoFar G state.1 ∧ Uses state.1 state.2 ∧ (uncolored state.1).card + done.length = n)
    ?_ _ ?_).mono ?_
  · intro done a rest state hrange ⟨hproper, huses, hcard⟩
    have hlength := congrArg List.length hrange
    rw [length_range, length_append, length_cons] at hlength
    refine (ends_greedyRound hG (m := (uncolored state.1).card - 1) hproper huses (by omega)).mono ?_
    intro after ⟨hproper', huses', hcard'⟩
    refine ⟨hproper', huses', ?_⟩
    rw [length_append, length_singleton]
    omega
  · refine ⟨fun u v c _ hu => (nomatch hu), fun c => ?_, ?_⟩
    · simp
    · exact card_uncolored_none
  · intro result ⟨hproper, huses, hcard⟩
    rw [length_range] at hcard
    have h := completes_of_total hproper huses (total_iff_card.mpr (by omega))
    exact ⟨_, nofun, h.lt, h.proper⟩

end Greedy

end GraphForge.Algorithms.ChromaticNumber
