import Mathlib.Tactic.IntervalCases

/-!
# The civil calendar

Dates are stored as days since 1970-01-01. `days_from_civil` and `civil_from_days` convert between
such a count and a proleptic Gregorian date by arithmetic on a year that starts in March, so that
the leap day comes last, within an era of 400 years. The week dates of ISO 8601 are computed from
the weekday of the first of January.

The model takes integers. Years are within ±999,999,999, and there no value computed on the way
leaves `i64` (`daysFromCivil_fitsI64`, `civilFromDays_fitsI64`). Rust's division truncates, which is
written `tdiv` where the dividend can be negative.
-/

namespace GraphForge.Temporal

/-- A number of `i64`. -/
def FitsI64 (x : ℤ) : Prop := -2 ^ 63 ≤ x ∧ x < 2 ^ 63

instance (x : ℤ) : Decidable (FitsI64 x) := inferInstanceAs (Decidable (_ ∧ _))

/-- The years the calendar is for. -/
def InYears (year : ℤ) : Prop := -999999999 ≤ year ∧ year ≤ 999999999

instance (year : ℤ) : Decidable (InYears year) := inferInstanceAs (Decidable (_ ∧ _))

/-- A bound on the days of these years. -/
def InDays (z : ℤ) : Prop := -366000000000 ≤ z ∧ z ≤ 366000000000

/-! ## Civil dates -/

/-- `days_from_civil`. -/
def daysFromCivil (y : ℤ) (m d : ℕ) : ℤ :=
  -- shifted so that the leap day is the last day of the year
  let y := if m ≤ 2 then y - 1 else y
  let era := (if 0 ≤ y then y else y - 399).tdiv 400
  let yoe := y - era * 400
  let doy := (153 * (if 2 < m then (m : ℤ) - 3 else m + 9) + 2) / 5 + d - 1
  let doe := yoe * 365 + yoe / 4 - yoe / 100 + doy
  era * 146097 + doe - 719468

/-- `civil_from_days`. -/
def civilFromDays (z : ℤ) : ℤ × ℕ × ℕ :=
  let z := z + 719468
  let era := (if 0 ≤ z then z else z - 146096).tdiv 146097
  let doe := z - era * 146097
  let yoe := (doe - doe / 1460 + doe / 36524 - doe / 146096) / 365
  let y := yoe + era * 400
  let doy := doe - (365 * yoe + yoe / 4 - yoe / 100)
  let mp := (5 * doy + 2) / 153
  let d := (doy - (153 * mp + 2) / 5 + 1).toNat
  let m := (if mp < 10 then mp + 3 else mp - 9).toNat
  (if m ≤ 2 then y + 1 else y, m, d)

/-- `is_leap`. -/
def isLeap (year : ℤ) : Bool :=
  (year % 4 = 0 && year % 100 ≠ 0) || year % 400 = 0

/-- `days_in_month`. -/
def daysInMonth (year : ℤ) (month : ℕ) : ℕ :=
  match month with
  | 1 | 3 | 5 | 7 | 8 | 10 | 12 => 31
  | 4 | 6 | 9 | 11 => 30
  | 2 => if isLeap year then 29 else 28
  | _ => 0

/-- `days_in_year`. -/
def daysInYear (year : ℤ) : ℕ := if isLeap year then 366 else 365

/-- `ymd_to_days`. -/
def ymdToDays (y : ℤ) (m d : ℕ) : Option ℤ :=
  if ¬(1 ≤ m ∧ m ≤ 12) ∨ d < 1 ∨ daysInMonth y m < d then none else some (daysFromCivil y m d)

/-- `ordinal`. -/
def ordinal (z : ℤ) : ℕ := (z - daysFromCivil (civilFromDays z).1 1 1 + 1).toNat

/-- A month of the year and a day of that month, which is what `ymd_to_days` checks. -/
def IsCivil (c : ℤ × ℕ × ℕ) : Prop :=
  1 ≤ c.2.1 ∧ c.2.1 ≤ 12 ∧ 1 ≤ c.2.2 ∧ c.2.2 ≤ daysInMonth c.1 c.2.1

/-- The lexicographic order of dates. -/
def CivilLt (a b : ℤ × ℕ × ℕ) : Prop :=
  a.1 < b.1 ∨ a.1 = b.1 ∧ (a.2.1 < b.2.1 ∨ a.2.1 = b.2.1 ∧ a.2.2 < b.2.2)

/-- The day number of a date. -/
def daysOf (c : ℤ × ℕ × ℕ) : ℤ := daysFromCivil c.1 c.2.1 c.2.2

theorem ymdToDays_eq_some_iff {y : ℤ} {m d : ℕ} {z : ℤ} :
    ymdToDays y m d = some z ↔ IsCivil (y, m, d) ∧ daysFromCivil y m d = z := by
  unfold ymdToDays IsCivil
  split
  · simp only [reduceCtorEq, false_iff]
    omega
  · simp only [Option.some.injEq, iff_and_self]
    omega

theorem isLeap_iff {y : ℤ} : isLeap y = true ↔ y % 4 = 0 ∧ y % 100 ≠ 0 ∨ y % 400 = 0 := by
  simp [isLeap]

/-- Moving a negative dividend down turns truncating division into rounding down. -/
theorem tdiv_era (n : ℤ) (hn : 0 < n) (a : ℤ) :
    (if 0 ≤ a then a else a - (n - 1)).tdiv n = a / n := by
  split
  · exact Int.tdiv_eq_ediv_of_nonneg ‹0 ≤ a›
  · have hup : (n - 1 - a) / n = -(a / n) := by
      have hlt := Int.emod_lt_of_pos a hn
      have hnn := Int.emod_nonneg a hn.ne'
      have hdiv := Int.mul_ediv_add_emod a n
      rw [Int.ediv_eq_iff_of_pos hn, Int.neg_mul, Int.mul_comm]
      omega
    rw [show a - (n - 1) = -(n - 1 - a) by omega, Int.neg_tdiv,
      Int.tdiv_eq_ediv_of_nonneg (by omega), hup, Int.neg_neg]

/-- The leap days of the years up to `y`. -/
def leapDays (y : ℤ) : ℤ := y / 4 - y / 100 + y / 400

theorem leapDays_pred (y : ℤ) : leapDays y = leapDays (y - 1) + if isLeap y then 1 else 0 := by
  have h4 : y / 4 = (y - 1) / 4 + if y % 4 = 0 then 1 else 0 := by split <;> omega
  have h100 : y / 100 = (y - 1) / 100 + if y % 100 = 0 then 1 else 0 := by split <;> omega
  have h400 : y / 400 = (y - 1) / 400 + if y % 400 = 0 then 1 else 0 := by split <;> omega
  simp only [leapDays, h4, h100, h400, isLeap_iff]
  split_ifs <;> omega

/-- The day number without the era: whole years from March on, whole months, days. -/
theorem daysFromCivil_eq (y : ℤ) (m d : ℕ) :
    daysFromCivil y m d =
      365 * (if m ≤ 2 then y - 1 else y) + leapDays (if m ≤ 2 then y - 1 else y)
        + (153 * (if 2 < m then (m : ℤ) - 3 else m + 9) + 2) / 5 + d - 719469 := by
  unfold daysFromCivil leapDays
  generalize (if m ≤ 2 then y - 1 else y) = a
  have hera := tdiv_era 400 (by omega) a
  norm_num only at hera
  dsimp only
  omega

/-- `days_from_civil` stays within `i64`: the year of the era is below 400, and what is computed from
it is small. -/
theorem daysFromCivil_fitsI64 {y : ℤ} (hy : InYears y) {m d : ℕ} (hm : m ≤ 12) (hd : d ≤ 31) :
    let y' := if m ≤ 2 then y - 1 else y
    let era := (if 0 ≤ y' then y' else y' - 399).tdiv 400
    FitsI64 (y' - 399) ∧ FitsI64 (era * 400) ∧ FitsI64 (era * 146097) ∧
      (0 ≤ y' - era * 400 ∧ y' - era * 400 < 400) ∧ InDays (daysFromCivil y m d) := by
  have hdays := daysFromCivil_eq y m d
  have hera := tdiv_era 400 (by omega) (if m ≤ 2 then y - 1 else y)
  norm_num only at hera
  dsimp only [leapDays] at *
  unfold FitsI64 InYears InDays at *
  rw [hera]
  omega

/-- `civil_from_days` stays within `i64` on the days of these years: the day of the era is below
146,097. -/
theorem civilFromDays_fitsI64 {z : ℤ} (hz : InDays z) :
    let z' := z + 719468
    let era := (if 0 ≤ z' then z' else z' - 146096).tdiv 146097
    FitsI64 (z' - 146096) ∧ FitsI64 (era * 146097) ∧ FitsI64 (era * 400 + 400) ∧
      (0 ≤ z' - era * 146097 ∧ z' - era * 146097 < 146097) := by
  have hera := tdiv_era 146097 (by omega) (z + 719468)
  norm_num only at hera
  dsimp only
  unfold FitsI64 InDays at *
  rw [hera]
  omega

theorem daysFromCivil_day (y : ℤ) (m d : ℕ) :
    daysFromCivil y m d = daysFromCivil y m 1 + d - 1 := by
  rw [daysFromCivil_eq, daysFromCivil_eq]
  omega

theorem daysFromCivil_nextMonth (y : ℤ) {m : ℕ} (h1 : 1 ≤ m) (h : m < 12) :
    daysFromCivil y (m + 1) 1 = daysFromCivil y m 1 + daysInMonth y m := by
  rw [daysFromCivil_eq, daysFromCivil_eq]
  -- only from February to March does the shifted year change
  by_cases hfeb : m = 2
  · subst hfeb
    have := leapDays_pred y
    simp only [daysInMonth] at *
    split_ifs at * <;> omega
  · interval_cases m <;> simp_all [daysInMonth] <;> omega

theorem daysFromCivil_nextYear (y : ℤ) :
    daysFromCivil (y + 1) 1 1 = daysFromCivil y 12 1 + 31 := by
  rw [daysFromCivil_eq, daysFromCivil_eq]
  norm_num
  omega

theorem daysFromCivil_year_le {a b : ℤ} (h : a ≤ b) :
    daysFromCivil a 1 1 + 365 * (b - a) ≤ daysFromCivil b 1 1 := by
  rw [daysFromCivil_eq, daysFromCivil_eq]
  unfold leapDays
  omega

/-! ### From a day number to its date -/

/-- The year of an era from its day, with the year split into centuries, groups of four years and
single years. The 366th day comes at the end of a group, and only of the last group of an era if
that group ends a century. -/
theorem yearOfEra {c q r doy doe : ℤ} (hc : 0 ≤ c ∧ c ≤ 3) (hq : 0 ≤ q ∧ q ≤ 24)
    (hr : 0 ≤ r ∧ r ≤ 3) (hdoy : 0 ≤ doy)
    (hleap : doy ≤ 364 ∨ doy = 365 ∧ r = 3 ∧ (q < 24 ∨ c = 3))
    (hdoe : doe = 36524 * c + 1461 * q + 365 * r + doy) :
    (doe - doe / 1460 + doe / 36524 - doe / 146096) / 365 = 100 * c + 4 * q + r := by
  by_cases hlast : doe = 146096
  · subst hlast
    omega
  have hera : doe / 146096 = 0 := by omega
  -- the days before the group may push the quotient up in the last year of it
  have hgroup : doe / 1460 = 25 * c + q ∨
      doe / 1460 = 25 * c + q + 1 ∧ r = 3 ∧ 269 ≤ doy + 24 * c + q := by omega
  omega

/-- A year as eras, centuries, groups of four years and single years. -/
theorem year_digits (y : ℤ) : ∃ e c q r : ℤ, y = 400 * e + (100 * c + 4 * q + r) ∧
    (0 ≤ c ∧ c ≤ 3) ∧ (0 ≤ q ∧ q ≤ 24) ∧ (0 ≤ r ∧ r ≤ 3) :=
  ⟨y / 400, y % 400 / 100, y % 100 / 4, y % 4, by omega, by omega, by omega, by omega⟩

/-- `civil_from_days` on a day given by the year and the month counted from March. -/
theorem civilFromDays_march {y M d : ℤ} (hM : 0 ≤ M ∧ M ≤ 11) (hd : 1 ≤ d)
    (hlen : d ≤ (153 * (M + 1) + 2) / 5 - (153 * M + 2) / 5)
    (hfeb : M = 11 → d ≤ if isLeap (y + 1) then 29 else 28) :
    civilFromDays (365 * y + leapDays y + (153 * M + 2) / 5 + d - 719469) =
      (if M < 10 then y else y + 1, (if M < 10 then M + 3 else M - 9).toNat, d.toNat) := by
  generalize hdoy : (153 * M + 2) / 5 + d - 1 = doy
  have hmp : (5 * doy + 2) / 153 = M := by omega
  have hdoy0 : 0 ≤ doy := by omega
  -- a 366th day is the 29th of February
  have hlong : doy ≤ 364 ∨ doy = 365 ∧ isLeap (y + 1) = true := by
    by_cases hlast : doy ≤ 364
    · exact .inl hlast
    · split_ifs at hfeb with hl
      · exact .inr ⟨by omega, hl⟩
      · omega
  obtain ⟨e, c, q, r, rfl, hc, hq, hr⟩ := year_digits y
  have h4 : (100 * c + 4 * q + r) / 4 = 25 * c + q := by omega
  have h100 : (100 * c + 4 * q + r) / 100 = c := by omega
  have hleap : leapDays (400 * e + (100 * c + 4 * q + r)) = 97 * e + 24 * c + q := by
    unfold leapDays
    omega
  generalize hdoe : 36524 * c + 1461 * q + 365 * r + doy = doe
  have hz : 365 * (400 * e + (100 * c + 4 * q + r)) + (97 * e + 24 * c + q)
      + (153 * M + 2) / 5 + d - 719469 + 719468 = e * 146097 + doe := by omega
  have hera : (if 0 ≤ e * 146097 + doe then e * 146097 + doe
      else e * 146097 + doe - 146096).tdiv 146097 = e := by
    have := tdiv_era 146097 (by omega) (e * 146097 + doe)
    norm_num only at this
    omega
  have hrest : doe - (365 * (100 * c + 4 * q + r) + (25 * c + q) - c) = doy := by omega
  rw [isLeap_iff] at hlong
  have hy := yearOfEra hc hq hr hdoy0 (by omega) hdoe.symm
  unfold civilFromDays
  simp only [hleap, hz, hera, add_sub_cancel_left, hy, h4, h100, hrest, hmp]
  clear hlong hy hz hera hleap h4 h100 hrest hdoe
  split_ifs <;> simp only [Prod.mk.injEq, true_and] <;> omega

/-- A date is read back from its day number. -/
theorem civilFromDays_daysOf {c : ℤ × ℕ × ℕ} (h : IsCivil c) : civilFromDays (daysOf c) = c := by
  obtain ⟨y, m, d⟩ := c
  obtain ⟨h1, h12, hd, hlen⟩ : 1 ≤ m ∧ m ≤ 12 ∧ 1 ≤ d ∧ d ≤ daysInMonth y m := h
  show civilFromDays (daysFromCivil y m d) = _
  rw [daysFromCivil_eq, civilFromDays_march (by split <;> omega) (by omega)]
  · split_ifs <;> simp only [Prod.mk.injEq, true_and] <;> omega
  · interval_cases m <;> simp only [daysInMonth] at hlen <;> (try split at hlen) <;> norm_num <;>
      omega
  · intro hfeb
    obtain rfl : m = 2 := by split at hfeb <;> omega
    simp only [daysInMonth] at hlen
    norm_num
    split_ifs at * <;> omega

/-- The date after a date. -/
def nextCivil (c : ℤ × ℕ × ℕ) : ℤ × ℕ × ℕ :=
  if c.2.2 < daysInMonth c.1 c.2.1 then (c.1, c.2.1, c.2.2 + 1)
  else if c.2.1 < 12 then (c.1, c.2.1 + 1, 1) else (c.1 + 1, 1, 1)

theorem daysInMonth_pos (y : ℤ) {m : ℕ} (h1 : 1 ≤ m) (h12 : m ≤ 12) : 28 ≤ daysInMonth y m := by
  interval_cases m <;> simp only [daysInMonth] <;> (try split) <;> omega

/-- The next date has the next day number. -/
theorem nextCivil_spec {c : ℤ × ℕ × ℕ} (h : IsCivil c) :
    IsCivil (nextCivil c) ∧ daysOf (nextCivil c) = daysOf c + 1 ∧ CivilLt c (nextCivil c) := by
  obtain ⟨y, m, d⟩ := c
  obtain ⟨h1, h12, hd, hlen⟩ : 1 ≤ m ∧ m ≤ 12 ∧ 1 ≤ d ∧ d ≤ daysInMonth y m := h
  have hday := daysFromCivil_day y m d
  dsimp only [nextCivil, IsCivil, daysOf, CivilLt]
  split_ifs with hlast hdec <;> dsimp only
  · have := daysFromCivil_day y m (d + 1)
    omega
  · have := daysFromCivil_nextMonth y h1 hdec
    have := daysInMonth_pos y (m := m + 1) (by omega) hdec
    omega
  · obtain rfl : m = 12 := by omega
    have := daysFromCivil_nextYear y
    simp only [daysInMonth] at *
    omega

/-- The date some days after a date. -/
theorem exists_civil_after {c : ℤ × ℕ × ℕ} (h : IsCivil c) (n : ℕ) :
    ∃ b, IsCivil b ∧ daysOf b = daysOf c + n ∧ (b = c ∨ CivilLt c b) := by
  induction n with
  | zero => exact ⟨c, h, by omega, .inl rfl⟩
  | succ n ih =>
    obtain ⟨b, hb, hdays, hle⟩ := ih
    obtain ⟨hnext, hone, hlt⟩ := nextCivil_spec hb
    refine ⟨nextCivil b, hnext, by omega, .inr ?_⟩
    rcases hle with rfl | hle
    · exact hlt
    · unfold CivilLt at *
      omega

/-- Every day number is that of a date: there are dates early enough. -/
theorem exists_civil (z : ℤ) : ∃ c, IsCivil c ∧ daysOf c = z := by
  have hstart : IsCivil (min z 0, 1, 1) := by simp [IsCivil, daysInMonth]
  have hearly : daysOf (min z 0, 1, 1) ≤ z := by
    unfold daysOf
    rw [daysFromCivil_eq]
    unfold leapDays
    norm_num only
    omega
  obtain ⟨c, hc, hz, -⟩ := exists_civil_after hstart (z - daysOf (min z 0, 1, 1)).toNat
  exact ⟨c, hc, by omega⟩

/-- A day number is read back from its date. -/
theorem civilFromDays_spec (z : ℤ) : IsCivil (civilFromDays z) ∧ daysOf (civilFromDays z) = z := by
  obtain ⟨c, hc, rfl⟩ := exists_civil z
  rw [civilFromDays_daysOf hc]
  exact ⟨hc, rfl⟩

/-- Day numbers are in the order of dates. -/
theorem daysOf_lt_iff {a b : ℤ × ℕ × ℕ} (ha : IsCivil a) (hb : IsCivil b) :
    daysOf a < daysOf b ↔ CivilLt a b := by
  -- of two dates, one comes after the other
  have hafter : ∀ {a b}, IsCivil a → IsCivil b → daysOf a ≤ daysOf b → b = a ∨ CivilLt a b := by
    intro a b ha hb h
    obtain ⟨c, hc, hdays, hle⟩ := exists_civil_after ha (daysOf b - daysOf a).toNat
    rw [← civilFromDays_daysOf hb, show daysOf b = daysOf c by omega, civilFromDays_daysOf hc]
    exact hle
  constructor
  · intro h
    refine (hafter ha hb h.le).resolve_left fun heq => ?_
    rw [heq] at h
    exact h.false
  · intro h
    by_contra hle
    rcases hafter hb ha (by omega) with rfl | h' <;> simp only [CivilLt] at * <;> omega

theorem isCivil_first (y : ℤ) {m : ℕ} (h1 : 1 ≤ m) (h12 : m ≤ 12) : IsCivil (y, m, 1) := by
  have := daysInMonth_pos y h1 h12
  unfold IsCivil
  dsimp only
  omega

/-- A day is in the year of its date. -/
theorem mem_year (z : ℤ) : daysFromCivil (civilFromDays z).1 1 1 ≤ z ∧
    z < daysFromCivil ((civilFromDays z).1 + 1) 1 1 := by
  obtain ⟨hc, hz⟩ := civilFromDays_spec z
  have hfirst := daysOf_lt_iff hc (isCivil_first (civilFromDays z).1 le_rfl (by omega))
  have hnext := daysOf_lt_iff hc (isCivil_first ((civilFromDays z).1 + 1) le_rfl (by omega))
  dsimp only [CivilLt, IsCivil] at *
  rw [hz] at hfirst hnext
  unfold daysOf at hfirst hnext
  dsimp only at hfirst hnext
  omega

/-- The civil calendar: `civil_from_days` gives a date, of which `days_from_civil` gives the day
number back, and conversely; day numbers are ordered as dates are, and two dates with no date
between them are one day apart. -/
theorem civil_bijection :
    (∀ z, IsCivil (civilFromDays z) ∧ daysOf (civilFromDays z) = z) ∧
    (∀ c, IsCivil c → civilFromDays (daysOf c) = c) ∧
    (∀ a b, IsCivil a → IsCivil b → CivilLt a b → daysOf a < daysOf b) ∧
    (∀ a b, IsCivil a → IsCivil b → CivilLt a b →
      (∀ c, IsCivil c → ¬(CivilLt a c ∧ CivilLt c b)) → daysOf b = daysOf a + 1) := by
  refine ⟨civilFromDays_spec, fun c => civilFromDays_daysOf,
    fun a b ha hb => (daysOf_lt_iff ha hb).mpr, ?_⟩
  intro a b ha hb hab hnone
  have hlt := (daysOf_lt_iff ha hb).mpr hab
  by_contra hne
  -- the day after `a` has a date, which would be between
  obtain ⟨hc, hday⟩ := civilFromDays_spec (daysOf a + 1)
  apply hnone _ hc
  rw [← daysOf_lt_iff ha hc, ← daysOf_lt_iff hc hb]
  omega

/-! ## ISO weeks -/

/-- `iso_weekday`: 1 for Monday. -/
def isoWeekday (z : ℤ) : ℕ := ((z + 3) % 7).toNat + 1

/-- `iso_weeks_in_year`. -/
def isoWeeksInYear (isoYear : ℤ) : ℕ :=
  let wd := isoWeekday (daysFromCivil isoYear 1 1)
  if wd = 4 ∨ wd = 3 ∧ isLeap isoYear = true then 53 else 52

/-- `iso_week`. -/
def isoWeek (z : ℤ) : ℤ × ℕ :=
  let y := (civilFromDays z).1
  let week := ((ordinal z : ℤ) - isoWeekday z + 10).tdiv 7
  if week < 1 then (y - 1, isoWeeksInYear (y - 1))
  else if (isoWeeksInYear y : ℤ) < week then (y + 1, 1)
  else (y, week.toNat)

/-- The Monday of the first week of a year, which is the week of the fourth of January. -/
def week1Monday (isoYear : ℤ) : ℤ :=
  let jan4 := daysFromCivil isoYear 1 4
  jan4 - ((isoWeekday jan4 : ℤ) - 1)

/-- `from_iso_ywd`. -/
def fromIsoYwd (isoYear : ℤ) (week weekday : ℕ) : Option ℤ :=
  if ¬(1 ≤ weekday ∧ weekday ≤ 7) ∨ week < 1 ∨ isoWeeksInYear isoYear < week then none
  else some (week1Monday isoYear + ((week - 1 : ℕ) : ℤ) * 7 + ((weekday - 1 : ℕ) : ℤ))

theorem week1Monday_eq (y : ℤ) :
    week1Monday y = daysFromCivil y 1 1 + 3 - (daysFromCivil y 1 1 + 6) % 7 := by
  have := daysFromCivil_day y 1 4
  dsimp only [week1Monday, isoWeekday]
  omega

theorem daysFromCivil_yearLength (y : ℤ) :
    daysFromCivil (y + 1) 1 1 = daysFromCivil y 1 1 + daysInYear y := by
  have := leapDays_pred y
  rw [daysFromCivil_eq, daysFromCivil_eq]
  unfold daysInYear
  norm_num
  split_ifs at * <;> omega

/-- A week year lasts its weeks. -/
theorem week1Monday_nextYear (y : ℤ) :
    week1Monday (y + 1) = week1Monday y + 7 * isoWeeksInYear y := by
  have hlen := daysFromCivil_yearLength y
  rw [week1Monday_eq, week1Monday_eq]
  dsimp only [isoWeeksInYear, isoWeekday, daysInYear] at *
  by_cases hleap : isLeap y = true
  · simp only [hleap, if_true, and_true] at *
    split <;> omega
  · simp only [hleap, Bool.false_eq_true, if_false, and_false, or_false] at *
    split <;> omega

theorem isoWeeksInYear_mem (y : ℤ) : isoWeeksInYear y = 52 ∨ isoWeeksInYear y = 53 := by
  dsimp only [isoWeeksInYear]
  split_ifs <;> omega

theorem week1Monday_le {a b : ℤ} (h : a ≤ b) : week1Monday a ≤ week1Monday b := by
  have := daysFromCivil_year_le h
  rw [week1Monday_eq, week1Monday_eq]
  by_cases hab : a = b
  · rw [hab]
  · omega

/-- The week that `iso_week` names is a week of its year, and it is the week of the day. -/
theorem isoWeek_spec (z : ℤ) :
    1 ≤ (isoWeek z).2 ∧ (isoWeek z).2 ≤ isoWeeksInYear (isoWeek z).1 ∧
      week1Monday (isoWeek z).1 + ((isoWeek z).2 - 1) * 7 + (isoWeekday z - 1) = z := by
  have hyear := mem_year z
  have hord : (ordinal z : ℤ) = z - daysFromCivil (civilFromDays z).1 1 1 + 1 := by
    unfold ordinal
    omega
  have hwd : (isoWeekday z : ℤ) = (z + 3) % 7 + 1 := by
    unfold isoWeekday
    omega
  unfold isoWeek
  dsimp only
  generalize (civilFromDays z).1 = y at *
  rw [hord, hwd, Int.tdiv_eq_ediv_of_nonneg (by omega)]
  have hprev := week1Monday_nextYear (y - 1)
  have hnext := week1Monday_nextYear y
  have hmonday := week1Monday_eq y
  have hmonday' := week1Monday_eq (y + 1)
  have h52 := isoWeeksInYear_mem (y - 1)
  have h52'' := isoWeeksInYear_mem (y + 1)
  rw [sub_add_cancel] at hprev
  split_ifs with hfirst hlast <;> dsimp only <;> omega

theorem week1Monday_le_iff (y a : ℤ) : week1Monday y ≤ a ↔ y ≤ (isoWeek a).1 := by
  have hspec := isoWeek_spec a
  unfold isoWeekday at hspec
  have hnext := week1Monday_nextYear (isoWeek a).1
  by_cases h : y ≤ (isoWeek a).1
  · have := week1Monday_le h
    simp only [h, iff_true]
    omega
  · have := week1Monday_le (a := (isoWeek a).1 + 1) (b := y) (by omega)
    simp only [h, iff_false]
    omega

/-- Week dates and day numbers correspond, and a week that the year does not have is refused. -/
theorem isoWeek_bijection :
    (∀ z, fromIsoYwd (isoWeek z).1 (isoWeek z).2 (isoWeekday z) = some z) ∧
    (∀ y w d, 1 ≤ w ∧ w ≤ isoWeeksInYear y → 1 ≤ d ∧ d ≤ 7 →
      ∃ z, fromIsoYwd y w d = some z ∧ isoWeek z = (y, w) ∧ isoWeekday z = d) ∧
    (∀ y w d, ¬(1 ≤ w ∧ w ≤ isoWeeksInYear y) → fromIsoYwd y w d = none) := by
  refine ⟨fun z => ?_, fun y w d hw hd => ?_, fun y w d hw => ?_⟩
  · have hspec := isoWeek_spec z
    have hwd : 1 ≤ isoWeekday z ∧ isoWeekday z ≤ 7 := by
      unfold isoWeekday
      omega
    unfold fromIsoYwd
    rw [if_neg (by omega)]
    congr 1
    omega
  · refine ⟨_, if_neg (by omega), ?_⟩
    generalize hz : week1Monday y + ((w - 1 : ℕ) : ℤ) * 7 + ((d - 1 : ℕ) : ℤ) = z
    have hwd : isoWeekday z = d := by
      have := week1Monday_eq y
      unfold isoWeekday
      omega
    have hspec := isoWeek_spec z
    have hyear : (isoWeek z).1 = y := by
      -- the weeks of a year are over when the next year's begin
      have hle := week1Monday_le_iff y z
      have hle' := week1Monday_le_iff (y + 1) z
      have hnext := week1Monday_nextYear y
      omega
    rw [hyear] at hspec
    exact ⟨Prod.ext hyear (by omega), hwd⟩
  · unfold fromIsoYwd
    rw [if_pos (by omega)]

/-! ## Ordinal dates -/

/-- `from_ordinal`. -/
def fromOrdinal (year : ℤ) (ordinal : ℕ) : Option ℤ :=
  if ordinal < 1 ∨ daysInYear year < ordinal then none
  else some (daysFromCivil year 1 1 + ordinal - 1)

/-- The day of an ordinal date of these years is within `i64`, and ordinal dates and days determine
each other. -/
theorem fromOrdinal_eq_some_iff {year : ℤ} (hrange : InYears year) (n : ℕ) (z : ℤ) :
    (fromOrdinal year n = some z → FitsI64 z) ∧
      (fromOrdinal year n = some z ↔ (civilFromDays z).1 = year ∧ ordinal z = n) := by
  have hlength := daysFromCivil_yearLength year
  have hyear : (civilFromDays z).1 = year ↔
      daysFromCivil year 1 1 ≤ z ∧ z < daysFromCivil (year + 1) 1 1 := by
    have hmem := mem_year z
    have hbelow := @daysFromCivil_year_le ((civilFromDays z).1 + 1) year
    have habove := @daysFromCivil_year_le (year + 1) (civilFromDays z).1
    grind
  rw [fromOrdinal, Option.ite_none_left_eq_some, Option.some_inj]
  refine ⟨?_, ?_, ?_⟩
  · rintro ⟨hn, rfl⟩
    have hbound := daysFromCivil_fitsI64 hrange (m := 1) (d := 1) (by omega) (by omega)
    unfold FitsI64 InDays daysInYear at *
    split at hn <;> omega
  · rintro ⟨hn, rfl⟩
    have := hyear.mpr (by omega)
    exact ⟨this, by rw [ordinal, this]; omega⟩
  · rintro ⟨rfl, rfl⟩
    have := hyear.mp rfl
    unfold ordinal
    omega

/-- The sixtieth day of a leap year is its leap day. -/
theorem fromOrdinal_leap_day : fromOrdinal 2024 60 = some 19782 ∧
    (civilFromDays 19782).1 = 2024 ∧ ordinal 19782 = 60 :=
  ⟨by decide, (fromOrdinal_eq_some_iff (by decide) 60 19782).2.mp (by decide)⟩

end GraphForge.Temporal
