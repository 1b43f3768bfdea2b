import Mathlib.Order.Basic

/-!
# Recursion that descends along a measure

A recursive function given by its body: `body rec a` says what it returns at `a` when `rec`
answers the recursive calls. The body is *guarded* when those calls are made where a measure is
smaller. Then running the body with the measure as fuel satisfies the recursive equation, and the
function stays executable.
-/

namespace MeasuredFix

variable {α β : Type} [Inhabited β] {measure : α → Nat} {body : (α → β) → α → β}

/-- The body reads its recursive calls only where the measure is smaller. -/
def Guarded (measure : α → Nat) (body : (α → β) → α → β) : Prop :=
  ∀ (f g : α → β) (a : α), (∀ b, measure b < measure a → f b = g b) → body f a = body g a

/-- The function after `fuel` unfoldings. -/
def unfolded (body : (α → β) → α → β) : Nat → α → β
  | 0 => fun _ => default
  | fuel + 1 => body (unfolded body fuel)

/-- The recursive function of a body. -/
def fix (measure : α → Nat) (body : (α → β) → α → β) (a : α) : β :=
  unfolded body (measure a + 1) a

lemma unfolded_eq_of_lt (hbody : Guarded measure body) :
    ∀ (n k : Nat) (a : α), measure a < n → measure a < k → unfolded body n a = unfolded body k a := by
  intro n
  induction n with
  | zero =>
    intro k a hn
    omega
  | succ n ih =>
    intro k a hn hk
    cases k with
    | zero => omega
    | succ k =>
      apply hbody
      -- the calls are below the measure of `a`, so either amount of fuel is enough for them
      intro b hb
      exact ih k b (by omega) (by omega)

variable (measure) in
theorem fix_eq (hbody : Guarded measure body) (a : α) :
    fix measure body a = body (fix measure body) a := by
  show body (unfolded body (measure a)) a = body (fix measure body) a
  apply hbody
  intro b hb
  exact unfolded_eq_of_lt hbody _ _ b hb (Nat.lt_succ_self _)

end MeasuredFix
