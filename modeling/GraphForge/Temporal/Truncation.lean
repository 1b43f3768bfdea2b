import GraphForge.Temporal.Calendar

/-!
# Truncating dates

`truncate_date` takes a date to the first day of its millennium, century, decade, year, quarter,
month, week year or week. Number the periods of a unit: period `n` starts no later than a day
exactly when `n` is at most the number of the day's period. The laws of truncation follow from that
alone. The calendar units count months, so that one lemma serves them all.
-/

namespace GraphForge.Temporal

/-- The units that `truncate_date` knows. -/
inductive TruncationUnit where
  | millennium | century | decade | year | weekYear | quarter | month | week | day

/-- `num_days_from_monday`. -/
def numDaysFromMonday (z : ℤ) : ℕ := ((z + 3) % 7).toNat

/-- `truncate_date`. -/
def truncateDate (days : ℤ) (unit : TruncationUnit) : Option ℤ :=
  let year := (civilFromDays days).1
  let month := (civilFromDays days).2.1
  match unit with
  | .millennium => ymdToDays (year / 1000 * 1000) 1 1
  | .century => ymdToDays (year / 100 * 100) 1 1
  | .decade => ymdToDays (year / 10 * 10) 1 1
  | .year => ymdToDays year 1 1
  | .weekYear => fromIsoYwd (isoWeek days).1 1 1
  | .quarter => ymdToDays year ((month - 1) / 3 * 3 + 1) 1
  | .month => ymdToDays year month 1
  | .week => some (days - numDaysFromMonday days)
  | .day => some days

/-- The period of a unit that a day falls in. -/
def period (days : ℤ) (unit : TruncationUnit) : ℤ × ℕ :=
  let year := (civilFromDays days).1
  let month := (civilFromDays days).2.1
  match unit with
  | .millennium => (year / 1000, 0)
  | .century => (year / 100, 0)
  | .decade => (year / 10, 0)
  | .year => (year, 0)
  | .weekYear => ((isoWeek days).1, 0)
  | .quarter => (year, (month - 1) / 3)
  | .month => (year, month)
  | .week => isoWeek days
  | .day => (days, 0)

/-- A monotone retraction onto the first days of periods. -/
def Retraction (f : ℤ → Option ℤ) (p : ℤ → ℤ × ℕ) : Prop :=
  ∃ t : ℤ → ℤ, (∀ a, f a = some (t a)) ∧ (∀ a, t a ≤ a) ∧ (∀ a, t (t a) = t a) ∧
    (∀ a b, a ≤ b → t a ≤ t b) ∧ ∀ a b, t a = t b ↔ p a = p b

theorem retraction_of_starts {f : ℤ → Option ℤ} {p : ℤ → ℤ × ℕ} (start number : ℤ → ℤ)
    (hle : ∀ n a, start n ≤ a ↔ n ≤ number a) (hstart : ∀ n, number (start n) = n)
    (hf : ∀ a, f a = some (start (number a))) (hp : ∀ a b, number a = number b ↔ p a = p b) :
    Retraction f p := by
  have hdown : ∀ a, start (number a) ≤ a := fun a => (hle _ a).mpr le_rfl
  refine ⟨fun a => start (number a), hf, hdown, fun a => ?_, fun a b hab => ?_, fun a b => ?_⟩
  · show start (number (start (number a))) = start (number a)
    rw [hstart]
  · show start (number a) ≤ start (number b)
    rw [hle, hstart, ← hle]
    exact (hdown a).trans hab
  · show start (number a) = start (number b) ↔ p a = p b
    rw [← hp]
    refine ⟨fun h => ?_, fun h => by rw [h]⟩
    rw [← hstart (number a), h, hstart]

/-! ## Months -/

/-- The months are counted through the years. -/
def monthNumber (a : ℤ) : ℤ := 12 * (civilFromDays a).1 + (civilFromDays a).2.1 - 1

/-- The first day of a month, counted from year zero. -/
def monthStart (n : ℤ) : ℤ := daysFromCivil (n / 12) (n % 12 + 1).toNat 1

theorem isCivil_month (n : ℤ) : IsCivil (n / 12, (n % 12 + 1).toNat, 1) :=
  isCivil_first _ (by omega) (by omega)

theorem monthStart_le_iff (n a : ℤ) : monthStart n ≤ a ↔ n ≤ monthNumber a := by
  obtain ⟨hc, ha⟩ := civilFromDays_spec a
  have hlt := daysOf_lt_iff hc (isCivil_month n)
  rw [ha] at hlt
  unfold IsCivil at hc
  show daysOf (n / 12, (n % 12 + 1).toNat, 1) ≤ a ↔ n ≤ 12 * _ + _ - 1
  unfold CivilLt at hlt
  dsimp only at hlt
  omega

theorem monthNumber_monthStart (n : ℤ) : monthNumber (monthStart n) = n := by
  have h := civilFromDays_daysOf (isCivil_month n)
  unfold monthNumber
  rw [show monthStart n = daysOf (n / 12, (n % 12 + 1).toNat, 1) from rfl, h]
  dsimp only
  omega

theorem ymdToDays_first (y : ℤ) {m : ℕ} (h1 : 1 ≤ m) (h12 : m ≤ 12) :
    ymdToDays y m 1 = some (monthStart (12 * y + m - 1)) := by
  rw [ymdToDays_eq_some_iff, monthStart]
  refine ⟨isCivil_first y h1 h12, ?_⟩
  congr 1 <;> omega

/-- A unit of `k` months. -/
theorem retraction_months {k : ℤ} (hk : 0 < k) {y : ℤ → ℤ} {m : ℤ → ℕ} {p : ℤ → ℤ × ℕ}
    (h : ∀ a, (1 ≤ m a ∧ m a ≤ 12) ∧ 12 * y a + m a - 1 = monthNumber a / k * k)
    (hp : ∀ a b, monthNumber a / k = monthNumber b / k ↔ p a = p b) :
    Retraction (fun a => ymdToDays (y a) (m a) 1) p := by
  refine retraction_of_starts (fun n => monthStart (n * k)) (fun a => monthNumber a / k)
    (fun n a => ?_) (fun n => ?_) (fun a => ?_) hp
  · rw [monthStart_le_iff, Int.le_ediv_iff_mul_le hk]
  · rw [monthNumber_monthStart, Int.mul_ediv_cancel _ hk.ne']
  · rw [ymdToDays_first _ (h a).1.1 (h a).1.2, (h a).2]

/-! ## Weeks -/

theorem isoWeek_eq_iff (a b : ℤ) : (a + 3) / 7 = (b + 3) / 7 ↔ isoWeek a = isoWeek b := by
  have ha := isoWeek_spec a
  have hb := isoWeek_spec b
  unfold isoWeekday at ha hb
  constructor
  · intro h
    -- a year begins on a Monday, so not between two days of one week
    have hyear : ∀ y, y ≤ (isoWeek a).1 ↔ y ≤ (isoWeek b).1 := by
      intro y
      rw [← week1Monday_le_iff, ← week1Monday_le_iff, week1Monday_eq]
      omega
    have hy : (isoWeek a).1 = (isoWeek b).1 :=
      le_antisymm ((hyear _).mp le_rfl) ((hyear _).mpr le_rfl)
    rw [hy] at ha
    exact Prod.ext hy (by omega)
  · intro h
    rw [h] at ha
    omega

/-- Truncation to any unit is a monotone retraction, and tells apart exactly the days of different
periods. -/
theorem truncateDate_retraction (unit : TruncationUnit) :
    Retraction (truncateDate · unit) (period · unit) := by
  have hcivil : ∀ a, 1 ≤ (civilFromDays a).2.1 ∧ (civilFromDays a).2.1 ≤ 12 := fun a =>
    ⟨(civilFromDays_spec a).1.1, (civilFromDays_spec a).1.2.1⟩
  unfold truncateDate period
  cases unit
  case weekYear =>
    refine retraction_of_starts _ _ week1Monday_le_iff (fun n => ?_) (fun a => ?_) (fun a b => ?_)
    · -- year `n` is over when year `n + 1` starts
      have hge := (week1Monday_le_iff n _).mp le_rfl
      have hlt := week1Monday_le_iff (n + 1) (week1Monday n)
      have := week1Monday_nextYear n
      have := isoWeeksInYear_mem n
      omega
    · have := isoWeeksInYear_mem (isoWeek a).1
      dsimp only [fromIsoYwd]
      rw [if_neg (by omega)]
      simp
    · simp
  case week =>
    refine retraction_of_starts (fun n => 7 * n - 3) (fun a => (a + 3) / 7)
      (fun n a => by omega) (fun n => by omega) (fun a => ?_) isoWeek_eq_iff
    rw [Option.some.injEq, numDaysFromMonday]
    omega
  case day =>
    exact retraction_of_starts id id (fun _ _ => Iff.rfl) (fun _ => rfl) (fun _ => rfl)
      (fun a b => by simp)
  case' millennium => refine retraction_months (k := 12000) (by omega) ?_ ?_
  case' century => refine retraction_months (k := 1200) (by omega) ?_ ?_
  case' decade => refine retraction_months (k := 120) (by omega) ?_ ?_
  case' year => refine retraction_months (k := 12) (by omega) ?_ ?_
  case' quarter => refine retraction_months (k := 3) (by omega) ?_ ?_
  case' month => refine retraction_months (k := 1) (by omega) ?_ ?_
  -- what remains is arithmetic of the numbers of months
  all_goals simp only [monthNumber, Prod.mk.injEq, and_true]
  all_goals
    intro a
    have := hcivil a
  all_goals first
    | omega
    | intro b
      have := hcivil b
      omega

end GraphForge.Temporal
