import AlkOS.Libc.Calendar

/-!
# Weeks of the year

A week belongs to the year of its Thursday. The days at both ends of a year may lie in
a week of its neighbour, to which `CalculateIsoBasedWeek` then turns.
-/

namespace Gregorian

/-- Counting from a day on which `passed` days of a week are over. -/
theorem count_weekdays (start residue passed n : ℕ) (small : residue < 7)
    (place : (residue + passed) % 7 = start % 7) (positive : 0 < passed) (short : passed ≤ 7) :
    Nat.count (fun day => (start + day) % 7 = residue) n = (n + passed - 1) / 7 := by
  induction n with
  | zero =>
    rw [Nat.count_zero]
    omega
  | succ n ih =>
    rw [Nat.count_succ]
    split_ifs <;> omega

namespace Date

noncomputable def ofDayNumber (n : ℕ) : Date := (exists_dayNumber n).choose

variable (date : Date)

/-- The first day of the week of a date. The year zero started with a Saturday. -/
def monday : ℕ := date.dayNumber - (date.dayNumber + 5) % 7

noncomputable def thursday : Date := ofDayNumber (date.monday + 3)

/-- The year of a week and its number in the year. -/
noncomputable def isoWeek : ℕ ×ₗ ℕ :=
  toLex (date.thursday.year, date.thursday.dayOfYear / 7 + 1)

/-- How many days of the year, up to a date, fall on a day of the week. -/
def countWeekdays (residue : ℕ) : ℕ :=
  Nat.count (fun day => (daysBeforeYear date.year + day) % 7 = residue) (date.dayOfYear + 1)

theorem dayNumber_thursday : date.thursday.dayNumber = date.monday + 3 :=
  (exists_dayNumber _).choose_spec

variable {date} {other : Date} {year : ℕ}

theorem year_thursday (first : daysBeforeYear year ≤ date.monday + 3)
    (last : date.monday + 3 < daysBeforeYear (year + 1)) : date.thursday.year = year := by
  rw [← date.dayNumber_thursday] at first last
  exact step_unique daysBeforeYear_mono date.thursday.dayNumber_bounds ⟨first, last⟩

/-- Weeks increase. -/
theorem isoWeek_lt (next : other.monday = date.monday + 7) : date.isoWeek < other.isoWeek := by
  have first := date.dayNumber_thursday
  have second := other.dayNumber_thursday
  rw [isoWeek, isoWeek, Prod.Lex.toLex_lt_toLex]
  rcases lt_trichotomy date.thursday.year other.thursday.year with before | same | after
  · exact .inl before
  · unfold dayNumber at first second
    rw [← same] at second
    omega
  · have low := date.thursday.dayNumber_bounds.1
    have high := other.thursday.dayNumber_bounds.2
    have mono := daysBeforeYear_mono (show other.thursday.year + 1 ≤ _ from after)
    omega

end Date

end Gregorian

namespace AlkOS.Libc.Time

open Gregorian

variable (time : Tm)

def sumYearDays : ℤ := kDaysInMonth (isTmYearLeap time.year) time.mon.toNat + time.mday

def jan1Weekday : ℤ := getWeekdayJan1 (sumUpDays (time.year + kTmBaseYear))

def normalizedJan1Weekday : ℤ := if jan1Weekday time = 0 then 7 else jan1Weekday time

def calculateMondayBasedWeek : ℤ :=
  (sumYearDays time - 1 + if jan1Weekday time = 1 then 7
    else if jan1Weekday time = 0 then 6 else jan1Weekday time - 1).tdiv 7

def calculateSundayBasedWeek : ℤ := (sumYearDays time - 1 + normalizedJan1Weekday time).tdiv 7

def daysInFirstWeek : ℤ := 8 - normalizedJan1Weekday time

def totalYearsDays : ℤ := if isTmYearLeap time.year then 366 else 365

def daysInLastNotFullWeek : ℤ := (totalYearsDays time - daysInFirstWeek time).tmod 7

/-- Whether a date lies in a last week that belongs to the next year. -/
def isInNextYear : Bool :=
  (daysInLastNotFullWeek time < 4 && 0 < daysInLastNotFullWeek time) &&
    totalYearsDays time - daysInLastNotFullWeek time < sumYearDays time

def calculateIsoBasedWeek : (fuel : ℕ) → Tm → Option ℤ
  | 0, _ => none
  | fuel + 1, time =>
    if sumYearDays time ≤ daysInFirstWeek time then
      if ¬ 4 ≤ daysInFirstWeek time then
        calculateIsoBasedWeek fuel ⟨0, 0, 0, 31, 11, time.year - 1, 0, 0, 0⟩
      else some 1
    else if isInNextYear time then
      calculateIsoBasedWeek fuel ⟨0, 0, 0, 1, 0, time.year + 1, 0, 0, 0⟩
    else
      some (1 + (if 4 ≤ daysInFirstWeek time then 1 else 0) +
        (sumYearDays time - daysInFirstWeek time - 1).tdiv 7)

def calculateIsoBasedYear : ℤ :=
  if sumYearDays time ≤ daysInFirstWeek time then
    if ¬ 4 ≤ daysInFirstWeek time then kTmBaseYear + time.year - 1 else kTmBaseYear + time.year
  else if isInNextYear time then kTmBaseYear + time.year + 1
  else kTmBaseYear + time.year

/-- The fields of a `tm` that show a date. -/
def Shows (date : Date) : Prop :=
  time.year = date.year - 1900 ∧ time.mon = date.month ∧ time.mday = date.day + 1

/-- The year of a `tm` and its day in the year. -/
structure At (year day : ℕ) : Prop where
  year : kTmBaseYear + time.year = year
  day : sumYearDays time = day + 1

section

variable {time} {year day : ℕ} {date : Date}

theorem Shows.at (shows : Shows time date) : At time date.year date.dayOfYear := by
  obtain ⟨year, month, day⟩ := shows
  constructor
  · rw [kTmBaseYear]
    omega
  · unfold sumYearDays Date.dayOfYear
    rw [year, month, isTmYearLeap_eq, Int.toNat_natCast, kDaysInMonth_eq _ date.month_lt]
    omega

variable (place : At time year day) (late : 1 ≤ year)
include place late

theorem jan1Weekday_eq : jan1Weekday time = ((daysBeforeYear year : ℤ) + 6) % 7 := by
  have start := daysBeforeYear_succ (year - 1)
  rw [Nat.sub_add_cancel late] at start
  unfold jan1Weekday getWeekdayJan1
  rw [Int.add_comm time.year, place.year, sumUpDays_eq late,
    Int.tmod_eq_emod_of_nonneg (by omega)]
  omega

theorem daysInFirstWeek_eq : daysInFirstWeek time = 7 - ((daysBeforeYear year : ℤ) + 5) % 7 := by
  unfold daysInFirstWeek normalizedJan1Weekday
  rw [jan1Weekday_eq place late]
  split_ifs <;> omega

/-- The last days that belong to the next year. -/
theorem isInNextYear_iff : isInNextYear time = true ↔
    ((yearLength year - daysInFirstWeek time) % 7 < 4 ∧
      0 < (yearLength year - daysInFirstWeek time) % 7) ∧
        yearLength year - (yearLength year - daysInFirstWeek time) % 7 < day + 1 := by
  have short := daysInFirstWeek_eq place late
  have long := yearLength_bounds year
  have same : time.year = (year : ℤ) - 1900 := eq_sub_of_add_eq' place.year
  have total : totalYearsDays time = yearLength year := by
    unfold totalYearsDays yearLength
    rw [same, isTmYearLeap_eq]
    split <;> rfl
  unfold isInNextYear daysInLastNotFullWeek
  rw [place.day, total, Int.tmod_eq_emod_of_nonneg (by omega)]
  simp only [Bool.and_eq_true, decide_eq_true_eq]

/-- The weeks count the Sundays and the Mondays of the year so far. -/
theorem calculateWeekdays_eq :
    calculateSundayBasedWeek time =
        Nat.count (fun day => (daysBeforeYear year + day) % 7 = 1) (day + 1) ∧
      calculateMondayBasedWeek time =
        Nat.count (fun day => (daysBeforeYear year + day) % 7 = 2) (day + 1) := by
  have sunday := count_weekdays (daysBeforeYear year) 1 ((daysBeforeYear year + 5) % 7 + 1)
    (day + 1) (by decide) (by omega) (by omega) (by omega)
  have monday := count_weekdays (daysBeforeYear year) 2 ((daysBeforeYear year + 4) % 7 + 1)
    (day + 1) (by decide) (by omega) (by omega) (by omega)
  unfold calculateSundayBasedWeek calculateMondayBasedWeek normalizedJan1Weekday
  rw [place.day, jan1Weekday_eq place late,
    Int.tdiv_eq_ediv_of_nonneg (by split_ifs <;> omega),
    Int.tdiv_eq_ediv_of_nonneg (by split_ifs <;> omega)]
  constructor
  · split_ifs <;> omega
  · split_ifs <;> omega

/-- A day whose Thursday lies in its own year. -/
theorem calculateIsoBased_own {n : ℕ} (thursday : n + (daysBeforeYear year + day + 5) % 7 = day + 3)
    (inside : n < yearLength year) :
    calculateIsoBasedYear time = year ∧
      ∀ fuel, calculateIsoBasedWeek (fuel + 1) time = some ↑(n / 7 + 1) := by
  have first := daysInFirstWeek_eq place late
  have next : ¬ isInNextYear time = true := by
    rw [isInNextYear_iff place late]
    omega
  unfold calculateIsoBasedYear
  simp only [calculateIsoBasedWeek, place.day, place.year, next]
  by_cases early : (day : ℤ) + 1 ≤ daysInFirstWeek time
  · have whole : 4 ≤ daysInFirstWeek time := by omega
    simp only [early, whole, ↓reduceIte, not_true_eq_false, true_and, Option.some.injEq]
    omega
  · simp only [early, ↓reduceIte, Bool.false_eq_true, true_and, Option.some.injEq]
    rw [Int.tdiv_eq_ediv_of_nonneg (by omega)]
    split_ifs <;> omega

end

/-- The two functions return the year and the number of the week of every date. -/
theorem calculateIsoBased_eq {time : Tm} {date : Date} (place : At time date.year date.dayOfYear)
    (late : 2 ≤ date.year) :
    calculateIsoBasedYear time = date.thursday.year ∧ ∀ fuel,
      calculateIsoBasedWeek (fuel + 2) time = some ↑(date.thursday.dayOfYear / 7 + 1) := by
  obtain ⟨year, same, positive⟩ : ∃ year, date.year = year + 1 ∧ 1 ≤ year :=
    ⟨date.year - 1, by omega⟩
  have below := date.dayOfYear_lt
  have inside := date.thursday.dayOfYear_lt
  have first := daysInFirstWeek_eq place (by omega)
  have ends := isInNextYear_iff place (by omega)
  have sum := place.day
  have base := place.year
  have previous := daysBeforeYear_succ_eq year
  have next := daysBeforeYear_succ_eq (year + 1)
  have later := daysBeforeYear_succ_eq (year + 1 + 1)
  have long := yearLength_bounds year
  have long' := yearLength_bounds (year + 1)
  have long'' := yearLength_bounds (year + 1 + 1)
  have monday : date.monday = daysBeforeYear date.year + date.dayOfYear -
    (daysBeforeYear date.year + date.dayOfYear + 5) % 7 := rfl
  have number := date.dayNumber_thursday
  rw [Date.dayNumber] at number
  rw [same] at below place first ends base monday
  rcases lt_or_ge (date.monday + 3) (daysBeforeYear (year + 1)) with early | fine
  · -- The last day of the year before lies in the same week.
    have years : date.thursday.year = year := Date.year_thursday (by omega) early
    rw [years] at number inside ⊢
    have last : At ⟨0, 0, 0, 31, 11, time.year - 1, 0, 0, 0⟩ year (yearLength year - 1) := by
      have shown : time.year - 1 = (year : ℤ) - 1900 := by
        unfold kTmBaseYear at base
        omega
      rw [shown]
      constructor
      · exact add_sub_cancel 1900 (year : ℤ)
      · unfold sumYearDays yearLength
        rw [isTmYearLeap_eq]
        cases isLeap year <;> rfl
    have found := (calculateIsoBased_own last positive (n := date.thursday.dayOfYear) (by omega)
      (by omega)).2
    refine ⟨?_, fun fuel => ?_⟩
    · rw [calculateIsoBasedYear]
      omega
    · rw [calculateIsoBasedWeek, if_pos (by omega), if_pos (by omega), found]
  · rcases lt_or_ge (date.monday + 3) (daysBeforeYear (year + 1 + 1)) with own | after
    · have years := Date.year_thursday fine own
      rw [years] at number inside ⊢
      obtain ⟨found, week⟩ := calculateIsoBased_own place (by omega) (by omega) inside
      exact ⟨found, fun fuel => week (fuel + 1)⟩
    · -- The first day of the next year lies in the same week.
      have years := Date.year_thursday after (by omega)
      rw [years] at number inside ⊢
      have start : At ⟨0, 0, 0, 1, 0, time.year + 1, 0, 0, 0⟩ (year + 1 + 1) 0 := by
        constructor
        · change kTmBaseYear + (time.year + 1) = _
          omega
        · unfold sumYearDays
          cases isTmYearLeap _ <;> rfl
      have found := (calculateIsoBased_own start (by omega) (n := date.thursday.dayOfYear)
        (by omega) (by omega)).2
      refine ⟨?_, fun fuel => ?_⟩
      · rw [calculateIsoBasedYear, if_pos (ends.mpr (by omega))]
        omega
      · rw [calculateIsoBasedWeek, if_neg (by omega), if_pos (ends.mpr (by omega)), found]

/-- Years and weeks are those of the calendar and increase; Sundays and Mondays are counted right.
-/
theorem weeks_of_date :
    (∀ date other : Date, other.monday = date.monday → other.isoWeek = date.isoWeek) ∧
      (∀ date other : Date, other.monday = date.monday + 7 → date.isoWeek < other.isoWeek) ∧
      ∀ (time : Tm) (date : Date), Shows time date → 1900 ≤ date.year → date.year ≤ 9999 →
        (∀ fuel, (calculateIsoBasedYear time, calculateIsoBasedWeek (fuel + 2) time) =
          (↑(ofLex date.isoWeek).1, some ↑(ofLex date.isoWeek).2)) ∧
        calculateSundayBasedWeek time = date.countWeekdays 1 ∧
        calculateMondayBasedWeek time = date.countWeekdays 2 := by
  refine ⟨fun date other same => ?_, fun _ _ => Date.isoWeek_lt, ?_⟩
  · rw [Date.isoWeek, Date.thursday, same, Date.isoWeek, Date.thursday]
  · intro time date shows late _
    obtain ⟨year, week⟩ := calculateIsoBased_eq shows.at (by omega)
    exact ⟨fun fuel => Prod.ext year (week fuel), calculateWeekdays_eq shows.at (by omega)⟩

/-- The third of January 2021 lies in the last week of 2020. -/
theorem weeks_of_date_january :
    ofLex (⟨2021, 0, 2, by decide, by decide⟩ : Date).isoWeek = (2020, 53) := by
  have found := (weeks_of_date.2.2 ⟨0, 0, 0, 3, 0, 121, 0, 2, 0⟩ ⟨2021, 0, 2, by decide, by decide⟩
    ⟨by decide, rfl, rfl⟩ (by decide) (by decide)).1 0
  rw [show (calculateIsoBasedYear _, calculateIsoBasedWeek 2 _) = (2020, some 53) by
    decide +kernel] at found
  simp only [Prod.mk.injEq, Option.some.injEq] at found
  exact Prod.ext (by omega) (by omega)

end AlkOS.Libc.Time
