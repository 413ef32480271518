import Mathlib

/-!
# The Gregorian calendar

Dates of the proleptic Gregorian calendar, numbered by counting the days of whole years
and months. Every day has exactly one date.
-/

namespace Gregorian

variable (year : ℕ)

/-- Years divisible by four, except for centuries not divisible by 400. -/
def isLeap : Bool := year % 4 == 0 && year % 100 != 0 || year % 400 == 0

def yearLength : ℕ := if isLeap year then 366 else 365

variable (leap : Bool)

/-- The days of a month, counted from zero. -/
def monthLength : ℕ → ℕ
  | 1 => if leap then 29 else 28
  | 3 => 30
  | 5 => 30
  | 8 => 30
  | 10 => 30
  | _ => 31

/-- The days of all years before a year. -/
def daysBeforeYear : ℕ → ℕ
  | 0 => 0
  | year + 1 => daysBeforeYear year + yearLength year

/-- The days of a year before a month. -/
def daysBeforeMonth : ℕ → ℕ
  | 0 => 0
  | month + 1 => daysBeforeMonth month + monthLength leap month

/-- A date; months and days are counted from zero. -/
structure Date where
  year : ℕ
  month : ℕ
  day : ℕ
  month_lt : month < 12
  day_lt : day < monthLength (isLeap year) month
deriving DecidableEq

variable (date : Date)

namespace Date

/-- The number of days in the year before a date. -/
def dayOfYear : ℕ := daysBeforeMonth (isLeap date.year) date.month + date.day

/-- The number of days before a date. -/
def dayNumber : ℕ := daysBeforeYear date.year + date.dayOfYear

end Date

theorem daysBeforeMonth_twelve : daysBeforeMonth (isLeap year) 12 = yearLength year := by
  unfold yearLength
  cases isLeap year <;> rfl

theorem yearLength_bounds : 365 ≤ yearLength year ∧ yearLength year ≤ 366 := by
  unfold yearLength
  split <;> omega

theorem isLeap_emod : isLeap ((year : ℤ) % 400).toNat = isLeap year := by
  unfold isLeap
  rw [Bool.eq_iff_iff]
  simp only [Bool.or_eq_true, Bool.and_eq_true, beq_iff_eq, bne_iff_ne]
  omega

/-- The days before a year in closed form. -/
theorem daysBeforeYear_succ :
    daysBeforeYear (year + 1) + year / 100 = 366 + 365 * year + year / 4 + year / 400 := by
  induction year with
  | zero => rfl
  | succ year ih =>
    rw [daysBeforeYear]
    have length : yearLength (year + 1) + (if (year + 1) % 100 = 0 then 1 else 0) =
        365 + (if (year + 1) % 4 = 0 then 1 else 0) +
          (if (year + 1) % 400 = 0 then 1 else 0) := by
      unfold yearLength isLeap
      simp only [Bool.or_eq_true, Bool.and_eq_true, beq_iff_eq, bne_iff_ne]
      split_ifs <;> omega
    split_ifs at length <;> omega

/-- The days before any year. The calendar repeats every 400 years. -/
def daysBefore (year : ℤ) : ℤ := daysBeforeYear (year % 400).toNat + year / 400 * 146097

theorem daysBefore_eq (year : ℤ) :
    daysBefore year = 365 * year + (year + 3) / 4 - (year + 99) / 100 + (year + 399) / 400 := by
  unfold daysBefore
  rcases Nat.eq_zero_or_pos (year % 400).toNat with zero | positive
  · rw [zero, show daysBeforeYear 0 = 0 by rw [daysBeforeYear]]
    omega
  · have closed := daysBeforeYear_succ ((year % 400).toNat - 1)
    rw [Nat.sub_add_cancel positive] at closed
    omega

theorem daysBefore_natCast : daysBefore year = daysBeforeYear year := by
  rw [daysBefore_eq]
  cases year with
  | zero =>
    rfl
  | succ year =>
    have closed := daysBeforeYear_succ year
    omega

theorem daysBeforeYear_succ_eq :
    daysBeforeYear (year + 1) = daysBeforeYear year + yearLength year := by
  rw [daysBeforeYear]

theorem daysBeforeYear_mono {first second : ℕ} (before : first ≤ second) :
    daysBeforeYear first ≤ daysBeforeYear second := by
  induction before with
  | refl => exact le_rfl
  | step _ ih => exact ih.trans (Nat.le_add_right _ _)

theorem daysBeforeMonth_mono {first second : ℕ} (before : first ≤ second) :
    daysBeforeMonth leap first ≤ daysBeforeMonth leap second := by
  induction before with
  | refl => exact le_rfl
  | step _ ih => exact ih.trans (Nat.le_add_right _ _)

/-- A number lies in exactly one step of an unbounded sequence that starts below it. -/
theorem exists_step {f : ℕ → ℕ} {n : ℕ} (start : f 0 ≤ n) (above : ∃ k, n < f (k + 1)) :
    ∃ k, f k ≤ n ∧ n < f (k + 1) := by
  refine ⟨Nat.find above, ?_, Nat.find_spec above⟩
  cases found : Nat.find above with
  | zero => exact start
  | succ k => exact not_lt.mp (Nat.find_min above (by omega))

theorem step_unique {f : ℕ → ℕ} (mono : ∀ {a b}, a ≤ b → f a ≤ f b) {n k l : ℕ}
    (first : f k ≤ n ∧ n < f (k + 1)) (second : f l ≤ n ∧ n < f (l + 1)) : k = l := by
  rcases lt_trichotomy k l with before | same | after
  · have later : f (k + 1) ≤ f l := mono before
    omega
  · exact same
  · have later : f (l + 1) ≤ f k := mono after
    omega

namespace Date

theorem dayOfYear_lt : date.dayOfYear < yearLength date.year := by
  have whole := daysBeforeMonth_mono (isLeap date.year) (Nat.succ_le_of_lt date.month_lt)
  rw [daysBeforeMonth_twelve] at whole
  have inside := date.day_lt
  rw [daysBeforeMonth] at whole
  unfold dayOfYear
  omega

theorem dayNumber_bounds :
    daysBeforeYear date.year ≤ date.dayNumber ∧
      date.dayNumber < daysBeforeYear (date.year + 1) := by
  have inside := date.dayOfYear_lt
  unfold dayNumber
  rw [daysBeforeYear]
  omega

/-- A day has at most one date. -/
theorem dayNumber_injective : Function.Injective dayNumber := by
  intro left right same
  have years : left.year = right.year := by
    have bounds := left.dayNumber_bounds
    rw [same] at bounds
    exact step_unique daysBeforeYear_mono bounds right.dayNumber_bounds
  obtain ⟨year, month, day, monthLt, dayLt⟩ := left
  obtain ⟨year', month', day', monthLt', dayLt'⟩ := right
  obtain rfl : year = year' := years
  unfold dayNumber dayOfYear at same
  simp only at same
  have months : month = month' := by
    refine step_unique (f := daysBeforeMonth (isLeap year)) (daysBeforeMonth_mono _)
      (n := daysBeforeMonth (isLeap year) month + day) ⟨by omega, ?_⟩ ⟨by omega, ?_⟩
    · rw [daysBeforeMonth]
      omega
    · rw [daysBeforeMonth]
      omega
  subst months
  obtain rfl : day = day' := by omega
  rfl

/-- Every day has a date. -/
theorem exists_dayNumber (n : ℕ) : ∃ date : Date, date.dayNumber = n := by
  have large : n < daysBeforeYear (n + 1) := by
    have closed := daysBeforeYear_succ n
    omega
  obtain ⟨year, low, high⟩ := exists_step (f := daysBeforeYear) (Nat.zero_le n) ⟨n, large⟩
  rw [daysBeforeYear] at high
  obtain ⟨month, first, last⟩ := exists_step (f := daysBeforeMonth (isLeap year))
    (n := n - daysBeforeYear year) (Nat.zero_le _) ⟨11, by
      rw [daysBeforeMonth_twelve]
      omega⟩
  have inside : month < 12 := by
    by_contra late
    have whole := daysBeforeMonth_mono (isLeap year) (not_lt.mp late)
    rw [daysBeforeMonth_twelve] at whole
    omega
  rw [daysBeforeMonth] at last
  refine ⟨⟨year, month, n - daysBeforeYear year - daysBeforeMonth (isLeap year) month, inside,
    by omega⟩, ?_⟩
  simp only [dayNumber, dayOfYear]
  omega

end Date

-- Years are large numbers: the days before them are not to be counted one by one.
attribute [irreducible] daysBeforeYear

end Gregorian
