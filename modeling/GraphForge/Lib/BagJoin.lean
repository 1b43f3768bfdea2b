import Mathlib.Data.Multiset.Bind

/-!
# Joins of bags

Inner and left outer joins of two bags of rows, and what a predicate on the joined rows sees of
them. `glue` puts two rows together, `pad` extends a left row that nothing matches.
-/

namespace Bag

open Multiset

variable {α β γ : Type*} {on : α → β → Bool} {glue : α → β → γ} {pad : α → γ}
  {left lost : Multiset α} {right right' : Multiset β}

/-- Every pair of matching rows. -/
def innerJoin (on : α → β → Bool) (glue : α → β → γ) (left : Multiset α) (right : Multiset β) :
    Multiset γ :=
  left.bind fun a => (right.filter fun b => on a b).map (glue a)

/-- Every pair of matching rows, and every left row without a match, padded. -/
def leftJoin (on : α → β → Bool) (glue : α → β → γ) (pad : α → γ) (left : Multiset α)
    (right : Multiset β) : Multiset γ :=
  left.bind fun a =>
    if (right.filter fun b => on a b).card = 0 then {pad a}
    else (right.filter fun b => on a b).map (glue a)

variable {p : γ → Prop} [DecidablePred p] {q : β → Prop} [DecidablePred q]

/-- A predicate on the images that implies one of the elements sees only the elements that
satisfy it. -/
theorem filter_filterMap_of_imp {f : β → Option γ} (h : ∀ b c, f b = some c → p c → q b) :
    (right.filterMap f).filter p = ((right.filter q).filterMap f).filter p := by
  rw [filter_filterMap, filter_filterMap, filterMap_filter]
  congr 1
  funext b
  by_cases hq : q b
  · rw [if_pos hq]
  rw [if_neg hq]
  cases hf : f b with
  | none => rfl
  | some c =>
    have hp : ¬p c := fun hp => hq (h b c hf hp)
    simp [hp]

/-- Under a predicate that no padded row satisfies, the left join is the inner join. -/
theorem filter_leftJoin (h : ∀ a ∈ left, ¬p (pad a)) :
    (leftJoin on glue pad left right).filter p = (innerJoin on glue left right).filter p := by
  unfold leftJoin innerJoin
  rw [filter_bind, filter_bind]
  apply Multiset.bind_congr
  intro a ha
  by_cases hcard : (right.filter fun b => on a b).card = 0
  · rw [if_pos hcard, card_eq_zero.mp hcard, map_zero, filter_zero,
      filter_singleton, if_neg (h a ha)]
    rfl
  · rw [if_neg hcard]

/-- A predicate that implies one of the right row sees only the right rows that satisfy it. -/
lemma filter_innerJoin_right (h : ∀ a ∈ left, ∀ b, p (glue a b) → q b) :
    (innerJoin on glue left right).filter p =
      (innerJoin on glue left (right.filter q)).filter p := by
  unfold innerJoin
  rw [filter_bind, filter_bind]
  apply Multiset.bind_congr
  intro a ha
  rw [filter_map, filter_map, filter_filter, filter_filter,
    filter_filter]
  congr 1
  apply filter_congr
  intro b _
  constructor
  · intro ⟨hp, hon⟩
    exact ⟨⟨hp, hon⟩, h a ha b hp⟩
  · intro ⟨hboth, _⟩
    exact hboth

/-- Right sides that agree where the predicate looks give the same rows. -/
theorem filter_innerJoin_congr (h : ∀ a ∈ left, ∀ b, p (glue a b) → q b)
    (hright : right.filter q = right'.filter q) :
    (innerJoin on glue left right).filter p = (innerJoin on glue left right').filter p := by
  rw [filter_innerJoin_right h, hright, ← filter_innerJoin_right h]

/-- Left rows none of whose matches satisfies the predicate may be left out. -/
theorem filter_innerJoin_add (h : ∀ a ∈ lost, ∀ b ∈ right, on a b → ¬p (glue a b)) :
    (innerJoin on glue (left + lost) right).filter p = (innerJoin on glue left right).filter p := by
  have hlost : (innerJoin on glue lost right).filter p = 0 := by
    rw [filter_eq_nil]
    intro row hrow
    obtain ⟨a, ha, hrow⟩ := mem_bind.mp hrow
    obtain ⟨b, hb, rfl⟩ := mem_map.mp hrow
    rw [mem_filter] at hb
    exact h a ha b hb.1 hb.2
  unfold innerJoin at hlost ⊢
  rw [add_bind, filter_add, hlost, add_zero]

end Bag
