import GraphForge.Binder.CollectIdentity

/-!
# What the census of a plan says

The walk records facts about every part of a plan. Settling closes the variables that may hold
something other than a node under re-projection, and marks both sides of a membership test as read
unless the left one is a node.
-/

namespace GraphForge.Binder

open List

/-! ## What the census records -/

namespace Census

/-- Everything that `c` records, `d` records too. -/
structure Within (c d : Census) : Prop where
  hasWrite : c.hasWrite = true → d.hasWrite = true
  notNode : c.notNode ⊆ d.notNode
  passThrough : c.passThrough ⊆ d.passThrough
  claimed : c.claimed ⊆ d.claimed
  read : c.read ⊆ d.read
  memberships : c.memberships ⊆ d.memberships

variable {a b c d : Census}

lemma Within.refl (c : Census) : c.Within c :=
  ⟨id, List.Subset.refl _, List.Subset.refl _, List.Subset.refl _, List.Subset.refl _,
    List.Subset.refl _⟩

/-- Two censuses are within a third when each is. -/
@[simp] lemma within_append : (a ++ b).Within d ↔ a.Within d ∧ b.Within d := by
  constructor
  · intro h
    have hw := h.hasWrite
    have hn := append_subset.mp h.notNode
    have hp := append_subset.mp h.passThrough
    have hc := append_subset.mp h.claimed
    have hr := append_subset.mp h.read
    have hm := append_subset.mp h.memberships
    have hl : a.hasWrite = true → d.hasWrite = true := fun ha => hw (by
      show (a.hasWrite || b.hasWrite) = true
      rw [ha]; rfl)
    have hrt : b.hasWrite = true → d.hasWrite = true := fun hb => hw (by
      show (a.hasWrite || b.hasWrite) = true
      rw [hb, Bool.or_true])
    exact ⟨⟨hl, hn.1, hp.1, hc.1, hr.1, hm.1⟩, ⟨hrt, hn.2, hp.2, hc.2, hr.2, hm.2⟩⟩
  · intro ⟨ha, hb⟩
    refine ⟨?_, append_subset.mpr ⟨ha.notNode, hb.notNode⟩,
      append_subset.mpr ⟨ha.passThrough, hb.passThrough⟩,
      append_subset.mpr ⟨ha.claimed, hb.claimed⟩, append_subset.mpr ⟨ha.read, hb.read⟩,
      append_subset.mpr ⟨ha.memberships, hb.memberships⟩⟩
    intro h
    rcases Bool.or_eq_true _ _ ▸ h with h | h
    · exact ha.hasWrite h
    · exact hb.hasWrite h

/-- A membership is `IN` between two variables. -/
lemma membership?_eq_some {op : BinaryOpKind} {left right : IrExpr} {pair : VarId × VarId}
    (h : membership? op left right = some pair) :
    op = .isIn ∧ left = .varRef pair.1 ∧ right = .varRef pair.2 := by
  unfold membership? at h
  split at h
  · cases h
    exact ⟨rfl, rfl, rfl⟩
  · cases h

/-- A measured list is the one argument of `size`. -/
lemma sizeOf?_eq_some {name : String} {args : List IrExpr} {v : VarId}
    (h : sizeOf? name args = some v) : name.toLower = "size" ∧ args = [.varRef v] := by
  unfold sizeOf? at h
  split at h
  · split at h
    · cases h
      exact ⟨‹_›, rfl⟩
    · cases h
  · cases h

/-! ## The fixpoint over re-projections -/

variable {pt : List (VarId × VarId)}

/-- A round forgets no variable. -/
lemma mem_spreadOnce_of_mem {vars : List VarId} {v : VarId} (h : v ∈ vars) :
    v ∈ spreadOnce pt vars := by
  induction pt generalizing vars with
  | nil => exact h
  | cons pair pt ih =>
    apply ih
    show v ∈ if pair.1 ∈ vars then vars.insert pair.2 else vars
    split
    · exact mem_insert_of_mem h
    · exact h

/-- A round follows every pair whose source is marked. -/
lemma target_mem_spreadOnce {vars : List VarId} {pair : VarId × VarId} (hpair : pair ∈ pt)
    (h : pair.1 ∈ vars) : pair.2 ∈ spreadOnce pt vars := by
  induction pt generalizing vars with
  | nil => cases hpair
  | cons head pt ih =>
    rcases mem_cons.mp hpair with rfl | hpair
    · show pair.2 ∈ spreadOnce pt (if pair.1 ∈ vars then vars.insert pair.2 else vars)
      rw [if_pos h]
      exact mem_spreadOnce_of_mem mem_insert_self
    · apply ih hpair
      show pair.1 ∈ if head.1 ∈ vars then vars.insert head.2 else vars
      split
      · exact mem_insert_of_mem h
      · exact h

variable (pt) in
/-- A pass that changes something reaches a target that was outside. -/
lemma spreadOnce_eq_or (vars : List VarId) :
    spreadOnce pt vars = vars ∨ ∃ pair ∈ pt, pair.2 ∉ vars ∧ pair.2 ∈ spreadOnce pt vars := by
  induction pt generalizing vars with
  | nil => exact Or.inl rfl
  | cons head pt ih =>
    by_cases hnew : head.1 ∈ vars ∧ head.2 ∉ vars
    · refine Or.inr ⟨head, mem_cons_self, hnew.2, ?_⟩
      exact target_mem_spreadOnce mem_cons_self hnew.1
    -- the head changes nothing, so the pass is the pass over the rest
    have hsame : spreadOnce (head :: pt) vars = spreadOnce pt vars := by
      show spreadOnce pt (if head.1 ∈ vars then vars.insert head.2 else vars) = spreadOnce pt vars
      split
      · rw [insert_of_mem (by tauto)]
      · rfl
    rw [hsame]
    rcases ih vars with h | ⟨pair, hpair, hout, hin⟩
    · exact Or.inl h
    · exact Or.inr ⟨pair, mem_cons_of_mem _ hpair, hout, hin⟩

variable (pt) in
/-- Marking more leaves fewer targets to mark. -/
lemma pending_le {vars next : List VarId} (hsub : vars ⊆ next) : pending pt next ≤ pending pt vars := by
  apply countP_mono_left
  intro pair _ h
  simp only [decide_eq_true_eq] at h ⊢
  exact fun hmem => h (hsub hmem)

/-- Marking a new target leaves fewer. -/
lemma pending_lt {vars next : List VarId} (hsub : vars ⊆ next) {pair : VarId × VarId}
    (hpair : pair ∈ pt) (hout : pair.2 ∉ vars) (hin : pair.2 ∈ next) :
    pending pt next < pending pt vars := by
  obtain ⟨before, after, rfl⟩ := append_of_mem hpair
  have hbefore := pending_le before hsub
  have hafter := pending_le after hsub
  unfold pending at hbefore hafter ⊢
  -- the reached target is counted on the right side only
  rw [countP_append, countP_append, countP_cons_of_neg (by simpa using hin),
    countP_cons_of_pos (by simpa using hout)]
  omega

/-- Each turn of the loop but the last leaves fewer targets outside. -/
lemma pending_next_lt {sets : List VarId × List VarId}
    (hne : (spreadOnce pt sets.1, spreadOnce pt sets.2) ≠ sets) :
    pending pt (spreadOnce pt sets.1) + pending pt (spreadOnce pt sets.2) <
      pending pt sets.1 + pending pt sets.2 := by
  have hsub : ∀ vars, vars ⊆ spreadOnce pt vars := fun vars v hv => mem_spreadOnce_of_mem hv
  have hle₁ := pending_le pt (hsub sets.1)
  have hle₂ := pending_le pt (hsub sets.2)
  rcases spreadOnce_eq_or pt sets.1 with h₁ | ⟨pair, hpair, hout, hin⟩
  · rcases spreadOnce_eq_or pt sets.2 with h₂ | ⟨pair, hpair, hout, hin⟩
    · exact absurd (Prod.ext h₁ h₂) hne
    · have := pending_lt (hsub sets.2) hpair hout hin
      omega
  · have := pending_lt (hsub sets.1) hpair hout hin
    omega

/-- The equation of the loop: rounds until nothing changes. -/
lemma spread_eq (sets : List VarId × List VarId) : spread pt sets =
      if (spreadOnce pt sets.1, spreadOnce pt sets.2) = sets then sets
      else spread pt (spreadOnce pt sets.1, spreadOnce pt sets.2) := by
  unfold spread
  rw [MeasuredFix.fix_eq]
  intro f g sets hfg
  show (if _ then _ else _) = if _ then _ else _
  split
  · rfl
  · rename_i hne
    exact hfg _ (pending_next_lt hne)

/-- What the loop ends with extends what it started from and is closed under re-projection. -/
lemma spread_closed (sets : List VarId × List VarId) : sets.2 ⊆ (spread pt sets).2 ∧
      ∀ pair ∈ pt, pair.1 ∈ (spread pt sets).2 → pair.2 ∈ (spread pt sets).2 := by
  induction hn : pending pt sets.1 + pending pt sets.2 using Nat.strong_induction_on
    generalizing sets with
  | _ n ih =>
    rw [spread_eq]
    split
    · rename_i hsame
      refine ⟨List.Subset.refl _, ?_⟩
      intro pair hpair h
      have h₂ : spreadOnce pt sets.2 = sets.2 := congrArg Prod.snd hsame
      rw [← h₂]
      exact target_mem_spreadOnce hpair h
    · rename_i hne
      have hless := pending_next_lt hne
      have hnext := ih _ (hn ▸ hless) (spreadOnce pt sets.1, spreadOnce pt sets.2) rfl
      exact ⟨fun v hv => hnext.1 (mem_spreadOnce_of_mem hv), hnext.2⟩

/-- The variables that may hold something other than a node, after all re-projections. -/
def mixed (d : Census) : List VarId := (spread d.passThrough (d.nodeBound, d.notNode)).2

/-- What is defined as more than a node is mixed. -/
lemma notNode_subset_mixed (d : Census) : d.notNode ⊆ d.mixed :=
  (spread_closed (d.nodeBound, d.notNode)).1

/-- A variable that is only ever a node is not mixed. -/
lemma nodeOnly_not_mixed {v : VarId} (h : v ∈ d.settle.nodeOnly) : v ∉ d.mixed := by
  have := (mem_filter.mp h).2
  simpa [mixed] using this

/-- A variable whose value may differ between the two runs: nothing names it and nothing reads
it in full. -/
structure Narrowed (d : Census) (v : VarId) : Prop where
  notNode : v ∈ d.notNode
  unclaimed : v ∉ d.claimed
  unread : v ∉ d.settle.read

/-- A membership test of a variable that is not provably a node reads both operands. -/
lemma read_of_membership {pair : VarId × VarId} (hpair : pair ∈ d.memberships)
    (hm : pair.1 ∉ d.settle.nodeOnly) : pair.1 ∈ d.settle.read ∧ pair.2 ∈ d.settle.read := by
  have hkept : pair ∈ d.memberships.filter fun pair => pair.1 ∉ d.settle.nodeOnly :=
    mem_filter.mpr ⟨hpair, decide_eq_true hm⟩
  have hread : ∀ v ∈ [pair.2, pair.1], v ∈ d.settle.read := fun v hv =>
    mem_append_right _ (mem_flatMap.mpr ⟨pair, hkept, hv⟩)
  exact ⟨hread _ (by simp), hread _ (by simp)⟩

/-- Whatever is tested for membership in a narrowed list is a node. -/
lemma Narrowed.member {pair : VarId × VarId} (h : d.Narrowed pair.2)
    (hpair : pair ∈ d.memberships) : pair.1 ∉ d.mixed := by
  apply nodeOnly_not_mixed
  by_contra hm
  exact h.unread (read_of_membership hpair hm).2

/-- The left side of a membership is not narrowed. -/
lemma not_narrowed_of_membership {pair : VarId × VarId} (hpair : pair ∈ d.memberships) :
    ¬ d.Narrowed pair.1 := by
  intro h
  apply nodeOnly_not_mixed (v := pair.1) _ (d.notNode_subset_mixed h.notNode)
  by_contra hm
  exact h.unread (read_of_membership hpair hm).1

/-- What qualifying says. -/
lemma qualifies_iff {l n : VarId} : c.qualifies l n = true ↔
    c.aggregateDefs.count l = 1 ∧ l ∉ c.claimed ∧ l ∉ c.read ∧ l ∈ c.identityUses ∧
      n ∈ c.nodeOnly := by
  unfold qualifies
  simp only [Bool.and_eq_true, decide_eq_true_eq, and_assoc]

end Census

end GraphForge.Binder
