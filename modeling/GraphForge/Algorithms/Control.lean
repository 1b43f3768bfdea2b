import GraphForge.Prelude
import GraphForge.Lib.Outcome

/-!
# Limits of an algorithm run

An algorithm kernel runs under limits on its output and the rounds it may take, and counts the
rounds as it goes. Cancellation polls are left out: a poll either ends the run with
`Cancelled` or does nothing.
-/

namespace GraphForge.Algorithms

/-- `AlgorithmLimits`: the limits the kernels of this development read. -/
structure AlgorithmLimits where
  iterations : ℕ
  outputRows : ℕ
  deriving DecidableEq, Repr

/-- The errors the kernels of this development report. -/
inductive AlgorithmError where
  | iterationLimit (observed limit : ℕ)
  | outputLimit (observed limit : ℕ)
  | execution (message : String)
  deriving DecidableEq, Repr, Inhabited

/-- `AlgorithmControl`: the limits and the rounds consumed so far. -/
structure AlgorithmControl where
  limits : AlgorithmLimits
  iterations : ℕ
  deriving DecidableEq, Repr

namespace AlgorithmControl

variable (control : AlgorithmControl)

/-- `checkpoint`: consume one round. -/
def checkpoint : Except AlgorithmError AlgorithmControl :=
  let observed := control.iterations + 1
  if control.limits.iterations < observed then
    .error (.iterationLimit observed control.limits.iterations)
  else .ok { control with iterations := observed }

/-- `check_output_rows`. -/
def checkOutputRows (observed : ℕ) : Except AlgorithmError Unit :=
  .refuseIf (control.limits.outputRows < observed) (.outputLimit observed control.limits.outputRows)

/-- A checkpoint consumes one round, or reports that none was left. -/
lemma ends_checkpoint : Except.Ends (fun _ => control.limits.iterations ≤ control.iterations)
      (fun after => after = { control with iterations := control.iterations + 1 })
      control.checkpoint := by
  unfold checkpoint
  by_cases h : control.limits.iterations < control.iterations + 1
  · rw [if_pos h]
    exact .error (by omega)
  · rw [if_neg h]
    exact .ok rfl

end AlgorithmControl

end GraphForge.Algorithms
