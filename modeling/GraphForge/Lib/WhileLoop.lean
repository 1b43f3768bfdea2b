import GraphForge.Lib.Outcome

/-!
# Loops with a condition

A loop runs its body while a condition holds. A measure of the state that every round lowers
bounds the number of rounds, so the loop is run with the measure as fuel. The rule for it is the
usual one: a round keeps the invariant and lowers the measure.
-/

namespace WhileLoop

open Except

variable {σ ε : Type}

/-- At most `fuel` rounds. -/
def rounds (cond : σ → Bool) (body : σ → Except ε σ) : ℕ → σ → Except ε σ
  | 0, s => .ok s
  | fuel + 1, s => if cond s then body s >>= rounds cond body fuel else .ok s

/-- `while cond { body }`, with a measure that bounds the rounds. -/
def run (measure : σ → ℕ) (cond : σ → Bool) (body : σ → Except ε σ) (s : σ) : Except ε σ :=
  rounds cond body (measure s + 1) s

variable {measure : σ → ℕ} {cond : σ → Bool} {body : σ → Except ε σ} {E : ε → Prop} {I : σ → Prop}

lemma ends_rounds
    (step : ∀ s, I s → cond s = true → Ends E (fun s' => I s' ∧ measure s' < measure s) (body s))
    (fuel : ℕ) (s : σ) (hfuel : measure s < fuel) (hs : I s) :
    Ends E (fun s' => I s' ∧ cond s' = false) (rounds cond body fuel s) := by
  induction fuel generalizing s with
  | zero => omega
  | succ fuel ih =>
    unfold rounds
    by_cases hc : cond s = true
    · rw [if_pos hc]
      refine (step s hs hc).bind fun s' ⟨hs', hlt⟩ => ?_
      exact ih s' (by omega) hs'
    · rw [if_neg hc]
      exact .ok ⟨hs, Bool.eq_false_iff.mpr hc⟩

/-- A loop whose rounds keep an invariant and lower the measure ends with the invariant and without
the condition. -/
theorem ends_run
    (step : ∀ s, I s → cond s = true → Ends E (fun s' => I s' ∧ measure s' < measure s) (body s))
    {s : σ} (hs : I s) :
    Ends E (fun s' => I s' ∧ cond s' = false) (run measure cond body s) :=
  ends_rounds step _ s (Nat.lt_succ_self _) hs

end WhileLoop
