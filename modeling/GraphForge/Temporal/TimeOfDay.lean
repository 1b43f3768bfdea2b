import GraphForge.Lib.Outcome
import GraphForge.Temporal.Calendar
import Mathlib.Algebra.Ring.Int.Defs
import Mathlib.Algebra.Group.Nat.Defs

/-!
# Times of day

A time of day is stored in nanoseconds. The constructors take its components from a map
(`resolve_time`), a projection takes those that are not given from another time
(`project_localtime`), and both leave the check of the components to chrono. Chrono has leap
seconds: it accepts a second and more of nanoseconds if the second is 59. At the last second of the
day the stored value then reaches into the next day. The sub-second components are added up in
`i64` before any check, so large ones overflow.
-/

namespace GraphForge.Temporal

open Except

/-- Why there is no time: the code returns `None`, or an operation of `i64` overflows. -/
inductive TimeFailure where
  | rejected | overflow
  deriving DecidableEq

/-- The result of an operation of `i64`. -/
def i64 (x : ℤ) : Except TimeFailure ℤ := do
  refuseIf (¬FitsI64 x) .overflow
  return x

/-- `u32::try_from(..).ok()?`. -/
def u32 (x : ℤ) : Except TimeFailure ℕ := do
  refuseIf (¬(0 ≤ x ∧ x < 2 ^ 32)) .rejected
  return x.toNat

/-- `TimeParts`, without the precision for rendering. -/
structure TimeParts where
  hour : ℕ
  minute : ℕ
  second : ℕ
  nanos : ℕ

/-- The integers that a map gives for a time of day, and those of `LocalTimeOverrides`. -/
structure TimeFields where
  hour : Option ℤ
  minute : Option ℤ
  second : Option ℤ
  millisecond : Option ℤ
  microsecond : Option ℤ
  nanosecond : Option ℤ

/-- chrono's `NaiveTime::from_hms_nano_opt`: whether there is such a time. -/
def fromHmsNanoOpt (t : TimeParts) : Prop :=
  t.hour < 24 ∧ t.minute < 60 ∧ t.second < 60 ∧
    (t.nanos < 10 ^ 9 ∨ t.second = 59 ∧ t.nanos < 2 * 10 ^ 9)

instance (t : TimeParts) : Decidable (fromHmsNanoOpt t) := inferInstanceAs (Decidable (_ ∧ _))

/-- `u32::try_from(milli * 1_000_000 + micro * 1_000 + nano).ok()?`. -/
def subSecond (milli micro nano : ℤ) : Except TimeFailure ℕ := do
  let millis ← i64 (milli * 1000000)
  let micros ← i64 (micro * 1000)
  let sum ← i64 (millis + micros)
  u32 (← i64 (sum + nano))

/-- `resolve_time` on the components, of which absent ones are zero. -/
def checkedTime (hour minute second milli micro nano : ℤ) : Except TimeFailure TimeParts := do
  let hour ← u32 hour
  let minute ← u32 minute
  let second ← u32 second
  let nanos ← subSecond milli micro nano
  refuseIf (¬fromHmsNanoOpt ⟨hour, minute, second, nanos⟩) .rejected
  return ⟨hour, minute, second, nanos⟩

/-- `resolve_time`. -/
def resolveTime (f : TimeFields) : Except TimeFailure TimeParts :=
  checkedTime (f.hour.getD 0) (f.minute.getD 0) (f.second.getD 0) (f.millisecond.getD 0)
    (f.microsecond.getD 0) (f.nanosecond.getD 0)

/-- `nanos_of_day`. The parts have been checked, so that nothing overflows here. -/
def nanosOfDay (t : TimeParts) : ℕ :=
  (t.hour * 3600 + t.minute * 60 + t.second) * 1000000000 + t.nanos

/-- `time_parts_from_nanos`. -/
def timePartsFromNanos (nanos : ℤ) : TimeParts :=
  let nanos := (nanos % 86400000000000).toNat
  let secs := nanos / 1000000000
  ⟨secs / 3600, secs % 3600 / 60, secs % 60, nanos % 1000000000⟩

/-- The parts that `project_localtime` stores. -/
def projectLocaltime (baseNanos : ℤ) (o : TimeFields) : Except TimeFailure TimeParts := do
  let base := timePartsFromNanos baseNanos
  let hour ← o.hour.elim (.ok base.hour) u32
  let minute ← o.minute.elim (.ok base.minute) u32
  let second ← o.second.elim (.ok base.second) u32
  let nanos ←
    if o.millisecond.isSome ∨ o.microsecond.isSome ∨ o.nanosecond.isSome then
      subSecond (o.millisecond.getD (base.nanos / 1000000 : ℕ))
        (o.microsecond.getD (base.nanos / 1000 % 1000 : ℕ))
        (o.nanosecond.getD (base.nanos % 1000 : ℕ))
    else .ok base.nanos
  refuseIf (¬fromHmsNanoOpt ⟨hour, minute, second, nanos⟩) .rejected
  return ⟨hour, minute, second, nanos⟩

/-! ## The range of the stored value -/

/-- No operation overflows, and the value of the parts that are returned is within a day. -/
def WithinDay : Except TimeFailure TimeParts → Prop :=
  Ends (· ≠ .overflow) (nanosOfDay · < 86400000000000)

/-- If hour, minute and second are numbers of 32 bits, the sub-second sum fits `i64`, also on the
way, and it is not that of a leap second at the end of the day. -/
def Regular (hour minute second milli micro nano : ℤ) : Prop :=
  let sum := milli * 1000000 + micro * 1000 + nano
  0 ≤ hour ∧ hour < 2 ^ 32 → 0 ≤ minute ∧ minute < 2 ^ 32 → 0 ≤ second ∧ second < 2 ^ 32 →
    FitsI64 (milli * 1000000) ∧ FitsI64 (micro * 1000) ∧
    FitsI64 (milli * 1000000 + micro * 1000) ∧ FitsI64 sum ∧
    ¬(hour = 23 ∧ minute = 59 ∧ second = 59 ∧ 10 ^ 9 ≤ sum ∧ sum < 2 * 10 ^ 9)

theorem withinDay_checkedTime (hour minute second milli micro nano : ℤ) :
    WithinDay (checkedTime hour minute second milli micro nano) ↔
      Regular hour minute second milli micro nano := by
  unfold WithinDay checkedTime subSecond u32 i64 Regular
  simp only [bind_assoc, pure_bind, ends_refuseIf_bind, ends_pure_iff, ne_eq, reduceCtorEq,
    not_false_eq_true, implies_true, true_and, not_not, not_true, imp_false]
  unfold FitsI64 fromHmsNanoOpt nanosOfDay
  dsimp only
  omega

theorem i64_eq {x : ℤ} (h : FitsI64 x) : i64 x = .ok x := by
  rw [i64, refuseIf_of_not (not_not.mpr h)]
  rfl

theorem u32_eq {n : ℕ} (h : n < 2 ^ 32) : u32 n = .ok n := by
  rw [u32, refuseIf_of_not (by omega)]
  rfl

theorem u32_getD (x : Option ℤ) {n : ℕ} (h : n < 2 ^ 32) : u32 (x.getD n) = x.elim (.ok n) u32 := by
  cases x with
  | none => exact u32_eq h
  | some x => rfl

/-- The three groups of a fraction add up to it. -/
theorem subSecond_groups {n : ℕ} (h : n < 10 ^ 9) :
    subSecond (n / 1000000 : ℕ) (n / 1000 % 1000 : ℕ) (n % 1000 : ℕ) = .ok n := by
  have hsum : ((n / 1000000 : ℕ) : ℤ) * 1000000 + (n / 1000 % 1000 : ℕ) * 1000 +
      (n % 1000 : ℕ) = n := by omega
  unfold subSecond
  rw [i64_eq, ok_bind, i64_eq, ok_bind, i64_eq, ok_bind, hsum, i64_eq, ok_bind, u32_eq (by omega)]
  all_goals
    unfold FitsI64
    omega

/-- A projection is made of the given components and those of the base. -/
theorem projectLocaltime_eq (baseNanos : ℤ) (o : TimeFields) :
    projectLocaltime baseNanos o =
      let base := timePartsFromNanos baseNanos
      checkedTime (o.hour.getD base.hour) (o.minute.getD base.minute) (o.second.getD base.second)
        (o.millisecond.getD (base.nanos / 1000000 : ℕ))
        (o.microsecond.getD (base.nanos / 1000 % 1000 : ℕ))
        (o.nanosecond.getD (base.nanos % 1000 : ℕ)) := by
  have hbase : (timePartsFromNanos baseNanos).hour < 2 ^ 32 ∧
      (timePartsFromNanos baseNanos).minute < 2 ^ 32 ∧
      (timePartsFromNanos baseNanos).second < 2 ^ 32 ∧
      (timePartsFromNanos baseNanos).nanos < 10 ^ 9 := by
    dsimp only [timePartsFromNanos]
    omega
  unfold projectLocaltime
  rw [checkedTime, u32_getD _ hbase.1, u32_getD _ hbase.2.1, u32_getD _ hbase.2.2.1]
  split_ifs with hgiven
  · rfl
  · simp only [Option.isSome_iff_ne_none, not_or, ne_eq, not_not] at hgiven
    simp only [hgiven, Option.getD_none, subSecond_groups hbase.2.2.2]

/-- The time of day that is stored is within a day, and nothing overflows on the way, exactly for
regular components. -/
theorem withinDay_iff (f : TimeFields) (baseNanos : ℤ) (o : TimeFields) :
    (WithinDay (resolveTime f) ↔ Regular (f.hour.getD 0) (f.minute.getD 0) (f.second.getD 0)
      (f.millisecond.getD 0) (f.microsecond.getD 0) (f.nanosecond.getD 0)) ∧
    (WithinDay (projectLocaltime baseNanos o) ↔
      let base := timePartsFromNanos baseNanos
      Regular (o.hour.getD base.hour) (o.minute.getD base.minute) (o.second.getD base.second)
        (o.millisecond.getD (base.nanos / 1000000 : ℕ))
        (o.microsecond.getD (base.nanos / 1000 % 1000 : ℕ))
        (o.nanosecond.getD (base.nanos % 1000 : ℕ))) := by
  rw [projectLocaltime_eq]
  exact ⟨withinDay_checkedTime .., withinDay_checkedTime ..⟩

/-- A leap second at the end of the day is stored as the first instant of the next day, and a
millisecond component may overflow. -/
theorem resolveTime_leap_second :
    resolveTime ⟨some 23, some 59, some 59, none, none, some 1000000000⟩ =
        .ok ⟨23, 59, 59, 1000000000⟩ ∧
      nanosOfDay ⟨23, 59, 59, 1000000000⟩ = 86400000000000 ∧
      resolveTime ⟨none, none, none, some (2 ^ 63 - 1), none, none⟩ = .error .overflow :=
  ⟨rfl, rfl, rfl⟩

end GraphForge.Temporal
