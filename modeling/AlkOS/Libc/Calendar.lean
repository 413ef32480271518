import AlkOS.Foundation.Gregorian
import AlkOS.Libc.Time

/-!
# Time conversions and the calendar

In UTC the two conversions are inverse to each other and agree with the proleptic
Gregorian calendar in the years 1970 to 7999. The guess of a year is off by one for each
365 leap days, and the loops have room for four corrections.
-/

namespace AlkOS.Libc.Time

open Kernel Gregorian

variable {σ : Type} {s : σ} {build : Build} {localTimeLeft : ℤ → ℤ} {n t : ℕ}
  {time : Tm}

/-- A date with a time of day. -/
structure DateTime where
  date : Date
  hour : ℕ
  minute : ℕ
  second : ℕ
  hour_lt : hour < 24
  minute_lt : minute < 60
  second_lt : second < 60

namespace DateTime

/-- The days since the first of January 1970. -/
def posixDay (dateTime : DateTime) : ℤ := (dateTime.date.dayNumber : ℤ) - daysBeforeYear 1970

/-- The seconds since the first of January 1970. -/
def posix (dateTime : DateTime) : ℤ :=
  dateTime.posixDay * 86400 + dateTime.hour * 3600 + dateTime.minute * 60 + dateTime.second

/-- A date and time as a `tm`. The first of January 1970 was a Thursday. -/
def toTm (dateTime : DateTime) : Tm where
  sec := dateTime.second
  min := dateTime.minute
  hour := dateTime.hour
  mday := dateTime.date.day + 1
  mon := dateTime.date.month
  year := dateTime.date.year - 1900
  wday := (dateTime.posixDay + 4) % 7
  yday := dateTime.date.dayOfYear
  isdst := 0

theorem posix_injective : Function.Injective posix := by
  intro left right same
  obtain ⟨date, hour, minute, second, hourLt, minuteLt, secondLt⟩ := left
  obtain ⟨date', hour', minute', second', hourLt', minuteLt', secondLt'⟩ := right
  unfold posix posixDay at same
  simp only at same
  obtain rfl : date = date' := Date.dayNumber_injective (by omega)
  obtain rfl : hour = hour' := by omega
  obtain rfl : minute = minute' := by omega
  obtain rfl : second = second' := by omega
  rfl

/-- Every time has exactly one date. -/
theorem existsUnique_posix (t : ℕ) : ∃! dateTime : DateTime, dateTime.posix = t := by
  obtain ⟨date, day⟩ := Date.exists_dayNumber (t / 86400 + daysBeforeYear 1970)
  refine ⟨⟨date, t / 3600 % 24, t / 60 % 60, t % 60, by omega, by omega, by omega⟩, ?_,
    fun other same => posix_injective ?_⟩
  · simp only [posix, posixDay]
    omega
  · rw [same]
    simp only [posix, posixDay]
    omega

end DateTime

theorem daysBeforeYear_1970 (n : ℕ) (early : n ≤ 30) :
    daysBeforeYear (1970 + n) = 719528 + 365 * n + (n + 1) / 4 := by
  have closed := daysBeforeYear_succ (1969 + n)
  rw [show 1969 + n + 1 = 1970 + n by omega] at closed
  omega

theorem daysBeforeYear_2000 (n : ℕ) :
    daysBeforeYear (2000 + n) + (n - 1) / 100 =
      730485 + 365 * n + (n - 1) / 4 + (n - 1) / 400 + if 0 < n then 1 else 0 := by
  have closed := daysBeforeYear_succ (1999 + n)
  rw [show 1999 + n + 1 = 2000 + n by omega] at closed
  split <;> omega

/-- There are at most 1455 leap days from 2000 to 7999. -/
theorem daysBeforeYear_2000_bounds (n : ℕ) (early : n ≤ 6000) :
    730485 + 365 * n ≤ daysBeforeYear (2000 + n) ∧
      daysBeforeYear (2000 + n) ≤ 730485 + 365 * n + 1455 := by
  have closed := daysBeforeYear_2000 n
  split at closed <;> omega

/-- The loop stops at the last year that does not leave less than nothing. -/
theorem run_yearLoop {limit : ℕ} {found : ℤ} (k : ℕ) (here : 0 ≤ localTimeLeft found)
    (later : ∀ years, found < years → years ≤ found + k → localTimeLeft years < 0)
    {fuel iterations : ℕ} (enough : k < fuel) (bounded : iterations + k < limit) :
    (yearLoop build limit localTimeLeft fuel iterations (found + k)).run s =
      .ok (found - 1, localTimeLeft found) s := by
  induction k generalizing fuel iterations with
  | zero =>
    obtain ⟨fuel, rfl⟩ : ∃ rest, fuel = rest + 1 := ⟨fuel - 1, by omega⟩
    rw [yearLoop, run_bind (run_assertTrue (by omega)), Int.natCast_zero, Int.add_zero,
      if_neg (by omega)]
    rfl
  | succ k ih =>
    obtain ⟨fuel, rfl⟩ : ∃ rest, fuel = rest + 1 := ⟨fuel - 1, by omega⟩
    rw [yearLoop, run_bind (run_assertTrue (by omega)),
      if_pos (later _ (by omega) le_rfl)]
    have previous : found + (k + 1 : ℕ) - 1 = found + k := by omega
    rw [previous]
    exact ih (fun years above below => later years above (by omega)) (by omega) (by omega)

theorem asI64_of_lt (small : n < 2 ^ 63) : asI64 n = n :=
  Int.bmod_eq_of_le (by norm_num) (by norm_num; omega)

theorem asInt_of_lt (small : n < 2 ^ 31) : asInt n = n :=
  Int.bmod_eq_of_le (by norm_num) (by norm_num; omega)

theorem asU64_natCast (small : n < 2 ^ 64) : asU64 n = n := by
  unfold asU64
  omega

theorem kFirst30PosixYears_eq : kFirst30PosixYears = 946684800 := rfl

theorem kSecondsInUsualYear_eq : kSecondsInUsualYear = 31536000 := rfl

theorem kSecondsInMinute_eq : kSecondsInMinute = 60 := rfl

theorem kSecondsInHour_eq : kSecondsInHour = 3600 := rfl

theorem kSecondsInDay_eq : kSecondsInDay = 86400 := rfl

/-- A time in a year: the seconds before the year and those in it. -/
structure InYear (time n left : ℕ) : Prop where
  early : n < 6030
  inside : left < yearLength (1970 + n) * 86400
  sum : time + daysBeforeYear 1970 * 86400 = daysBeforeYear (1970 + n) * 86400 + left

theorem daysBeforeYear_1970_zero : daysBeforeYear 1970 = 719528 := daysBeforeYear_1970 0 (by omega)

theorem daysBeforeYear_2000_zero : daysBeforeYear 2000 = 730485 := by
  have century := daysBeforeYear_2000 0
  simpa using century

/-- The seconds from one year to another one. -/
def start (first n : ℕ) : ℕ := (daysBeforeYear (first + n) - daysBeforeYear first) * 86400

theorem start_mono (first : ℕ) {a b : ℕ} (before : a ≤ b) : start first a ≤ start first b :=
  Nat.mul_le_mul_right _ (Nat.sub_le_sub_right (daysBeforeYear_mono (by omega)) _)

/-- The search before 2000 computes the time since the start of a year. -/
theorem localTimeLeft30Less_eq {time n : ℕ} (small : time < 2 ^ 63) (early : n ≤ 30) :
    localTimeLeft30Less time n = (time : ℤ) - start 1970 n := by
  unfold localTimeLeft30Less start
  rw [asI64_of_lt small, kSecondsInUsualYear_eq, kSecondsInDay_eq, daysBeforeYear_1970_zero,
    daysBeforeYear_1970 n early, Int.tdiv_eq_ediv_of_nonneg (by omega)]
  split <;> omega

/-- The search from 2000 on computes the time since the start of a year. -/
theorem localTimeLeft30More_eq {since n : ℕ} (small : since < 2 ^ 63) :
    localTimeLeft30More since n = (since : ℤ) - start 2000 n := by
  have closed := daysBeforeYear_2000 n
  unfold localTimeLeft30More start
  rw [asI64_of_lt small, kSecondsInUsualYear_eq, kSecondsInDay_eq, daysBeforeYear_2000_zero]
  cases n with
  | zero =>
    have cycles : ((0 : ℤ) - 1).tdiv 400 = 0 := by decide
    rw [Int.natCast_zero, daysBeforeYear_2000_zero]
    simp
  | succ n =>
    have previous : ((n + 1 : ℕ) : ℤ) - 1 = n := by omega
    rw [previous, Int.tdiv_eq_ediv_of_nonneg (by omega), Int.tdiv_eq_ediv_of_nonneg (by omega),
      Int.tdiv_eq_ediv_of_nonneg (by omega)]
    rw [Nat.add_sub_cancel] at closed
    split <;> split at closed <;> omega

/-- The search finds the year whose start the time follows. -/
theorem run_yearLoop_of_start {first limit time n k left fuel : ℕ}
    (same : ∀ years : ℕ, years ≤ n + k → localTimeLeft years = (time : ℤ) - start first years)
    (sum : time + daysBeforeYear first * 86400 = daysBeforeYear (first + n) * 86400 + left)
    (inside : left < yearLength (first + n) * 86400) (enough : k < fuel) (bounded : k < limit) :
    (yearLoop build limit localTimeLeft fuel 0 (n + k : ℕ)).run s =
      .ok ((n : ℤ) - 1, (left : ℤ)) s := by
  have length := daysBeforeYear_succ_eq (first + n)
  have before := daysBeforeYear_mono (Nat.le_add_right first n)
  have sum : time = start first n + left := by
    unfold start
    omega
  have next : time < start first (n + 1) := by
    unfold start
    rw [← Nat.add_assoc]
    omega
  have here : localTimeLeft n = left := by
    rw [same n (by omega)]
    omega
  rw [← here, Int.natCast_add]
  refine run_yearLoop k (by omega) (fun years above below => ?_) enough (by omega)
  obtain ⟨later, rfl⟩ := Int.eq_ofNat_of_zero_le (show 0 ≤ years by omega)
  have after := start_mono first (show n + 1 ≤ later by omega)
  rw [same later (by omega)]
  omega

/-- The search before 2000 finds the year. -/
theorem run_calculateYears30LessWLeaps {time n left : ℕ} (place : InYear time n left)
    (before : time < kFirst30PosixYears) :
    (calculateYears30LessWLeaps build time).run s = .ok (n, left) s := by
  obtain ⟨_, inside, sum⟩ := place
  have length := daysBeforeYear_succ_eq (1970 + n)
  rw [kFirst30PosixYears_eq] at before
  rw [daysBeforeYear_1970_zero] at sum
  have early : n < 30 := by
    by_contra late
    have whole := daysBeforeYear_mono (show 2000 ≤ 1970 + n by omega)
    rw [daysBeforeYear_2000_zero] at whole
    omega
  have here := daysBeforeYear_1970 n (by omega)
  have next := daysBeforeYear_1970 (n + 1) (by omega)
  rw [← Nat.add_assoc] at next
  -- The guess is the year or the one after it.
  obtain ⟨k, guess, small⟩ : ∃ k, time / kSecondsInUsualYear = n + k ∧ k < 2 := by
    refine ⟨time / kSecondsInUsualYear - n, ?_, ?_⟩ <;> rw [kSecondsInUsualYear_eq] <;> omega
  have found : EStateM.run (yearLoop build 2 (localTimeLeft30Less time) (n + k + 1) 0
      (n + k : ℕ)) s = .ok ((n : ℤ) - 1, (left : ℤ)) s := by
    have same : ∀ years : ℕ, years ≤ n + k →
        localTimeLeft30Less time years = (time : ℤ) - start 1970 years :=
      fun years below => localTimeLeft30Less_eq (by omega) (by omega)
    exact run_yearLoop_of_start same (by rwa [daysBeforeYear_1970_zero]) inside (by omega) small
  unfold calculateYears30LessWLeaps
  simp only [guess]
  rw [run_bind found]
  change EStateM.Result.ok (asU64 ((n : ℤ) - 1 + 1), asU64 left) s = _
  rw [Int.sub_add_cancel, asU64_natCast (by omega), asU64_natCast (by omega)]

/-- The search from 2000 on finds the year. -/
theorem run_calculateYears30MoreWLeaps {time n left : ℕ} (place : InYear time n left)
    (after : kFirst30PosixYears ≤ time) :
    (calculateYears30MoreWLeaps build time).run s = .ok (n, left) s := by
  obtain ⟨early, inside, sum⟩ := place
  rw [kFirst30PosixYears_eq] at after
  rw [daysBeforeYear_1970_zero] at sum
  have late : 30 ≤ n := by
    by_contra before
    have length := daysBeforeYear_succ_eq (1970 + n)
    have whole := daysBeforeYear_mono (show 1970 + n + 1 ≤ 2000 by omega)
    rw [daysBeforeYear_2000_zero] at whole
    omega
  obtain ⟨n, rfl⟩ : ∃ m, n = 30 + m := ⟨n - 30, by omega⟩
  rw [show 1970 + (30 + n) = 2000 + n by omega] at sum inside
  have length := daysBeforeYear_succ_eq (2000 + n)
  obtain ⟨here, _⟩ := daysBeforeYear_2000_bounds n (by omega)
  obtain ⟨_, next⟩ := daysBeforeYear_2000_bounds (n + 1) (by omega)
  rw [← Nat.add_assoc] at next
  have since : asU64 (time - kFirst30PosixYears : ℤ) = time - 946684800 := by
    rw [kFirst30PosixYears_eq]
    unfold asU64
    omega
  -- Before 8000 there are less than five times 365 leap days.
  obtain ⟨k, guess, small⟩ : ∃ k, (time - 946684800) / kSecondsInUsualYear = n + k ∧ k < 5 := by
    rw [kSecondsInUsualYear_eq]
    refine ⟨(time - 946684800) / 31536000 - n, ?_, ?_⟩ <;> omega
  have found : EStateM.run (yearLoop build 5 (localTimeLeft30More (time - 946684800)) (n + k + 1) 0
      (n + k : ℕ)) s = .ok ((n : ℤ) - 1, (left : ℤ)) s := by
    have same : ∀ years : ℕ, years ≤ n + k → localTimeLeft30More (time - 946684800) years =
        ((time - 946684800 : ℕ) : ℤ) - start 2000 years :=
      fun years below => localTimeLeft30More_eq (by omega)
    exact run_yearLoop_of_start same (by rw [daysBeforeYear_2000_zero]; omega) inside (by omega)
      small
  unfold calculateYears30MoreWLeaps
  simp only [since, guess]
  rw [run_bind found]
  rw [run_bind (run_assertTrue (by omega))]
  change EStateM.Result.ok (asU64 ((n : ℤ) - 1 + 1 + 30), asU64 left) s = _
  rw [asU64_natCast (by omega), Int.sub_add_cancel,
    show ((n : ℤ) + 30) = ((30 + n : ℕ) : ℤ) by omega, asU64_natCast (by omega)]

theorem run_calculateYearsFromPosix {time n left : ℕ} (place : InYear time n left) :
    (calculateYearsFromPosix build time).run s = .ok (n, left) s := by
  unfold calculateYearsFromPosix
  by_cases after : kFirst30PosixYears ≤ time
  · rw [if_pos after]
    exact run_calculateYears30MoreWLeaps place after
  · rw [if_neg after]
    exact run_calculateYears30LessWLeaps place (not_le.mp after)

theorem kDaysInMonth_eq (leap : Bool) {month : ℕ} (inside : month < 12) :
    kDaysInMonth leap month = daysBeforeMonth leap month := by
  have table : ∀ leap : Bool, ∀ month : Fin 12,
      kDaysInMonth leap month = daysBeforeMonth leap month := by decide
  exact table leap ⟨month, inside⟩

/-- The month and the day are found. -/
theorem monthAndDay_eq (leap : Bool) {month day : ℕ} (monthLt : month < 12)
    (dayLt : day < monthLength leap month) :
    monthAndDay (daysBeforeMonth leap month + day) leap = (month + 1, day + 1) := by
  have table : ∀ leap : Bool, ∀ month : Fin 12, ∀ day : Fin 31, day < monthLength leap month →
      monthAndDay (daysBeforeMonth leap month + day) leap = (month.val + 1, day.val + 1) := by
    decide +kernel
  have short : monthLength leap month ≤ 31 := by
    unfold monthLength
    split
    · split <;> omega
    all_goals omega
  exact table leap ⟨month, monthLt⟩ ⟨day, by omega⟩ dayLt

theorem run_calculateMonthAndDaysFromPosix (date : Date) :
    (calculateMonthAndDaysFromPosix build date.dayOfYear (isLeap date.year)).run s =
      .ok (date.month + 1, date.day + 1) s := by
  have inside := date.dayOfYear_lt
  unfold yearLength at inside
  unfold calculateMonthAndDaysFromPosix
  rw [run_bind (run_assertTrue inside), Date.dayOfYear,
    monthAndDay_eq _ date.month_lt date.day_lt]
  rfl

theorem isTmYearLeap_of_nonneg {year : ℤ} (late : 0 ≤ 1900 + year) :
    isTmYearLeap year = isLeap ((1900 + year) % 400).toNat := by
  unfold isTmYearLeap isLeapYear kTmBaseYear isLeap
  rw [Int.add_comm year, Bool.eq_iff_iff]
  simp only [Int.tmod_eq_emod_of_nonneg late, Bool.or_eq_true, Bool.and_eq_true, beq_iff_eq,
    bne_iff_ne]
  omega

theorem isTmYearLeap_eq (year : ℕ) : isTmYearLeap ((year : ℤ) - 1900) = isLeap year := by
  rw [isTmYearLeap_of_nonneg (by omega), add_sub_cancel, isLeap_emod]

/-- `SumUpDays` counts the days since the start of the year 1. -/
theorem sumUpDays_eq {year : ℕ} (positive : 1 ≤ year) :
    sumUpDays year = (daysBeforeYear year : ℤ) - 366 := by
  obtain ⟨year, rfl⟩ : ∃ before, year = before + 1 := ⟨year - 1, by omega⟩
  have closed := daysBeforeYear_succ year
  unfold sumUpDays
  rw [Int.tdiv_eq_ediv_of_nonneg (by omega), Int.tdiv_eq_ediv_of_nonneg (by omega),
    Int.tdiv_eq_ediv_of_nonneg (by omega)]
  omega

/-- The day of the week follows from the number of days. -/
theorem calculateDayOfWeek_eq (dateTime : DateTime) (late : 1970 ≤ dateTime.date.year) :
    calculateDayOfWeek (dateTime.date.year - 1900) dateTime.date.month (dateTime.date.day + 1) =
      (dateTime.posixDay + 4) % 7 := by
  have before := daysBeforeYear_mono late
  rw [daysBeforeYear_1970_zero] at before
  unfold calculateDayOfWeek getWeekdayJan1 kTmBaseYear DateTime.posixDay Date.dayNumber
    Date.dayOfYear
  rw [isTmYearLeap_eq, Int.sub_add_cancel, sumUpDays_eq (by omega), Int.toNat_natCast,
    kDaysInMonth_eq _ dateTime.date.month_lt, daysBeforeYear_1970_zero]
  have january : ((daysBeforeYear dateTime.date.year : ℤ) - 366 + 1).tmod 7 =
    ((daysBeforeYear dateTime.date.year : ℤ) - 366 + 1) % 7 :=
      Int.tmod_eq_emod_of_nonneg (by omega)
  rw [Int.tmod_eq_emod_of_nonneg (by omega)]
  omega

/-- The seconds of a date and time since the start of its year. -/
def DateTime.inYear (dateTime : DateTime) : ℕ :=
  dateTime.date.dayOfYear * 86400 + dateTime.hour * 3600 + dateTime.minute * 60 + dateTime.second

/-- The year that a `tm` names, with its months carried over. -/
def namedYear (time : Tm) : ℤ := 1900 + time.year + time.mon / 12

/-- The seconds since 1970 that the fields of a `tm` add up to. -/
def instant (time : Tm) : ℤ :=
  (daysBefore (namedYear time) + daysBeforeMonth (isLeap (namedYear time % 400).toNat)
    (time.mon % 12).toNat + time.mday - 1 - 719528) * 86400 +
    time.hour * 3600 + time.min * 60 + time.sec

/-- The sum is the instant of the fields. -/
theorem sumSeconds_of_nonneg (late : 0 < time.year) (forward : 0 ≤ time.mon) :
    sumSeconds time = instant time := by
  unfold sumSeconds instant namedYear
  simp only [if_neg (not_lt.mpr forward), Int.zero_mul, Int.add_zero,
    Int.tmod_eq_emod_of_nonneg forward, Int.tdiv_eq_ediv_of_nonneg forward, Int.add_assoc 1900]
  rw [daysBefore_eq, ← kDaysInMonth_eq _ (by omega), isTmYearLeap_of_nonneg (by omega),
    kSecondsInUsualYear_eq, kSecondsInDay_eq, kSecondsInHour_eq, kSecondsInMinute_eq,
    show kPosixEpochTmSecondDiff = 2208988800 from rfl, Int.tdiv_eq_ediv_of_nonneg (by omega),
    Int.tdiv_eq_ediv_of_nonneg (by omega), Int.tdiv_eq_ediv_of_nonneg (by omega)]
  omega

/-- Sums below zero are failures. -/
theorem run_convertDateTimeToPosix_utc (dst : time.isdst = 0) :
    (convertDateTimeToPosix time kUtcTimezone).run s =
      .ok (if sumSeconds time < 0 then kConversionFailed else (sumSeconds time).toNat) s := by
  unfold convertDateTimeToPosix
  have standard : ¬(0 < time.isdst ∧ kUtcTimezone.dstTimeOffsetMinutes ≠ 0) :=
    fun both => both.2 rfl
  simp only [show kUtcTimezone.westOffsetMinutes = 0 from rfl, Int.zero_mul, Int.sub_zero,
    if_neg standard]
  rw [run_bind (run_rAssertTrue (le_of_eq dst.symm))]
  split <;> rfl

section

variable (dateTime : DateTime) (late : 1970 ≤ dateTime.date.year)
include dateTime late

theorem DateTime.exists_posix : ∃ t : ℕ, dateTime.posix = t := by
  have before := daysBeforeYear_mono late
  refine Int.eq_ofNat_of_zero_le ?_
  unfold posix posixDay Date.dayNumber
  omega

section

variable (early : dateTime.date.year ≤ 7999) (same : dateTime.posix = t)
include early same

theorem DateTime.place :
    InYear t (dateTime.date.year - 1970) dateTime.inYear := by
  have inside := dateTime.date.dayOfYear_lt
  have hour := dateTime.hour_lt
  have minute := dateTime.minute_lt
  have second := dateTime.second_lt
  unfold posix posixDay Date.dayNumber at same
  rw [daysBeforeYear_1970_zero] at same
  refine ⟨by omega, ?_, ?_⟩
  · rw [Nat.add_sub_cancel' late]
    unfold inYear
    omega
  · rw [Nat.add_sub_cancel' late, daysBeforeYear_1970_zero]
    unfold inYear
    omega

theorem DateTime.posix_lt :
    t < kConversionFailed := by
  have place := dateTime.place late early same
  have whole := daysBeforeYear_mono (show dateTime.date.year ≤ 2000 + 5999 by omega)
  have last := (daysBeforeYear_2000_bounds 5999 (by omega)).2
  have sum := place.sum
  have inside := place.inside
  rw [Nat.add_sub_cancel' late] at sum inside
  have bound : yearLength dateTime.date.year ≤ 366 := (yearLength_bounds _).2
  unfold kConversionFailed
  omega

/-- In UTC a time is converted to the date it belongs to. -/
theorem run_convertFromPosixToTm :
    (convertFromPosixToTm build t kUtcTimezone).run s = .ok dateTime.toTm s := by
  have place := dateTime.place late early same
  have hour := dateTime.hour_lt
  have minute := dateTime.minute_lt
  have second := dateTime.second_lt
  have month := dateTime.date.month_lt
  have dayBound := dateTime.date.dayOfYear_lt
  have yearBound := yearLength_bounds dateTime.date.year
  have dayOfMonth : dateTime.date.day ≤ dateTime.date.dayOfYear := Nat.le_add_left _ _
  have small := dateTime.posix_lt late early same
  have time : asU64 (t + kUtcTimezone.westOffsetMinutes * kSecondsInMinute) = t := by
    exact asU64_natCast (small.trans (by decide))
  have year : asInt (kPosixToTmYearDiff + (dateTime.date.year - 1970)) =
      (dateTime.date.year : ℤ) - 1900 := by
    rw [show kPosixToTmYearDiff = 70 from rfl, asInt_of_lt (by omega)]
    omega
  have dst : getDSTOffset dateTime.inYear kUtcTimezone = 0 := rfl
  have left : (dateTime.inYear + 0) % 2 ^ 64 = dateTime.inYear := by
    unfold DateTime.inYear
    omega
  have days : dateTime.inYear / kSecondsInDay = dateTime.date.dayOfYear := by
    rw [kSecondsInDay_eq]
    unfold DateTime.inYear
    omega
  have hours : (dateTime.inYear - dateTime.date.dayOfYear * kSecondsInDay) / kSecondsInHour =
      dateTime.hour := by
    rw [kSecondsInDay_eq, kSecondsInHour_eq]
    unfold DateTime.inYear
    omega
  have minutes : (dateTime.inYear - dateTime.date.dayOfYear * kSecondsInDay -
      dateTime.hour * kSecondsInHour) / kSecondsInMinute = dateTime.minute := by
    rw [kSecondsInDay_eq, kSecondsInHour_eq, kSecondsInMinute_eq]
    unfold DateTime.inYear
    omega
  have seconds : dateTime.inYear - dateTime.date.dayOfYear * kSecondsInDay -
      dateTime.hour * kSecondsInHour - dateTime.minute * kSecondsInMinute = dateTime.second := by
    rw [kSecondsInDay_eq, kSecondsInHour_eq, kSecondsInMinute_eq]
    unfold DateTime.inYear
    omega
  unfold convertFromPosixToTm
  simp only [time]
  rw [run_bind (run_calculateYearsFromPosix place)]
  simp only [year, dst, left, days, hours, minutes, seconds, isTmYearLeap_eq]
  rw [run_bind (run_calculateMonthAndDaysFromPosix dateTime.date)]
  simp only [Nat.add_sub_cancel]
  rw [asInt_of_lt (show dateTime.second < 2 ^ 31 by omega),
    asInt_of_lt (show dateTime.minute < 2 ^ 31 by omega),
    asInt_of_lt (show dateTime.hour < 2 ^ 31 by omega),
    asInt_of_lt (show dateTime.date.day + 1 < 2 ^ 31 by omega),
    asInt_of_lt (show dateTime.date.month < 2 ^ 31 by omega),
    asInt_of_lt (show dateTime.date.dayOfYear < 2 ^ 31 by omega), Int.natCast_succ,
    calculateDayOfWeek_eq dateTime late]
  rfl

end

/-- The fields of a date sum up to its time. -/
theorem sumSeconds_toTm : sumSeconds dateTime.toTm = dateTime.posix := by
  have month := dateTime.date.month_lt
  rw [sumSeconds_of_nonneg (show 0 < (dateTime.date.year : ℤ) - 1900 by omega)
    (Int.natCast_nonneg _)]
  unfold instant namedYear DateTime.toTm DateTime.posix DateTime.posixDay Date.dayNumber
    Date.dayOfYear
  simp only
  rw [add_sub_cancel, Int.ediv_eq_zero_of_lt (by omega) (by omega), Int.add_zero,
    daysBefore_natCast, isLeap_emod, daysBeforeYear_1970_zero,
    Int.emod_eq_of_lt (by omega) (by omega), Int.toNat_natCast]
  omega

theorem run_convertDateTimeToPosix (same : dateTime.posix = t) :
    (convertDateTimeToPosix dateTime.toTm kUtcTimezone).run s = .ok t s := by
  rw [run_convertDateTimeToPosix_utc rfl, sumSeconds_toTm dateTime late, same,
    if_neg (by omega), Int.toNat_natCast]

end

/-- In UTC the conversions agree with the calendar and are inverse to each other. -/
theorem utc_round_trip (build : Build) (s : σ) :
    (∀ t : ℕ, ∃! dateTime : DateTime, dateTime.posix = t) ∧
      ∀ dateTime : DateTime, 1970 ≤ dateTime.date.year → dateTime.date.year ≤ 7999 →
        ∃ t : ℕ, dateTime.posix = t ∧
          (convertFromPosixToTm build t kUtcTimezone).run s = .ok dateTime.toTm s ∧
          (convertDateTimeToPosix dateTime.toTm kUtcTimezone).run s = .ok t s := by
  refine ⟨DateTime.existsUnique_posix, fun dateTime late early => ?_⟩
  obtain ⟨t, same⟩ := dateTime.exists_posix late
  exact ⟨t, same, run_convertFromPosixToTm dateTime late early same,
    run_convertDateTimeToPosix dateTime late same⟩

/-- The last second of February in the year 2000. -/
def leapDayEnd : DateTime :=
  ⟨⟨2000, 1, 28, by decide, by decide⟩, 23, 59, 59, by decide, by decide, by decide⟩

theorem leapDayEnd_posixDay : leapDayEnd.posixDay = 11016 := by
  have century : daysBeforeYear leapDayEnd.date.year = 730485 := daysBeforeYear_2000_zero
  unfold DateTime.posixDay Date.dayNumber
  rw [century, daysBeforeYear_1970_zero]
  decide

theorem leapDayEnd_posix : leapDayEnd.posix = 951868799 := by
  unfold DateTime.posix
  rw [leapDayEnd_posixDay]
  decide

/-- The last second of February 29, 2000. -/
theorem utc_round_trip_leapDay :
    leapDayEnd.toTm = ⟨59, 59, 23, 29, 1, 100, 2, 59, 0⟩ ∧
      (convertFromPosixToTm .debug 951868799 kUtcTimezone).run () =
        .ok leapDayEnd.toTm () := by
  obtain ⟨t, same, ran, _⟩ := (utc_round_trip .debug ()).2 leapDayEnd (by decide) (by decide)
  obtain rfl : t = 951868799 := Int.natCast_inj.mp (same.symm.trans leapDayEnd_posix)
  refine ⟨?_, ran⟩
  unfold DateTime.toTm
  rw [leapDayEnd_posixDay]
  rfl

end AlkOS.Libc.Time
