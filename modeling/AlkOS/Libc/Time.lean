import AlkOS.Kernel.Basic

/-!
# Time conversions

`ConvertFromPosixToTm` guesses the year from years of 365 days and corrects the guess
downwards; `ConvertDateTimeToPosix` adds up seconds with leap day formulas of its own.
Signed division truncates.
-/

namespace AlkOS.Libc.Time

open Kernel

variable {σ : Type}

def kTmBaseYear : ℤ := 1900
def kSecondsInMinute : ℕ := 60
def kSecondsInHour : ℕ := kSecondsInMinute * 60
def kSecondsInDay : ℕ := kSecondsInHour * 24
def kSecondsInUsualYear : ℕ := kSecondsInDay * 365
def kPosixEpochTmSecondDiff : ℕ := (1970 - 1900) * kSecondsInUsualYear +
  ((1970 - 1900) / 4) * kSecondsInDay
def kFirst30PosixYears : ℕ := 30 * kSecondsInUsualYear + (28 / 4) * kSecondsInDay
def kPosixToTmYearDiff : ℕ := 1970 - 1900
def kConversionFailed : ℕ := 2 ^ 64 - 1

/-- The days before each month. -/
def kDaysInMonth (leap : Bool) (month : ℕ) : ℕ :=
  if leap then [0, 31, 60, 91, 121, 152, 182, 213, 244, 274, 305, 335, 366].getD month 0
  else [0, 31, 59, 90, 120, 151, 181, 212, 243, 273, 304, 334, 365].getD month 0

structure Timezone where
  westOffsetMinutes : ℤ
  dstTimeOffsetMinutes : ℤ
  dstTimeStartSeconds : ℕ
  dstTimeEndSeconds : ℕ

def kUtcTimezone : Timezone := ⟨0, 0, 2 ^ 16 - 1, 2 ^ 16 - 1⟩

structure Tm where
  sec : ℤ
  min : ℤ
  hour : ℤ
  mday : ℤ
  mon : ℤ
  year : ℤ
  wday : ℤ
  yday : ℤ
  isdst : ℤ
deriving DecidableEq, Repr

/-- `static_cast<int>`. -/
def asInt (n : ℕ) : ℤ := (n : ℤ).bmod (2 ^ 32)

/-- `static_cast<i64>`. -/
def asI64 (n : ℕ) : ℤ := (n : ℤ).bmod (2 ^ 64)

/-- `static_cast<u64>`. -/
def asU64 (n : ℤ) : ℕ := (n % 2 ^ 64).toNat

variable (year : ℤ)

def isLeapYear : Bool :=
  year.tmod 4 == 0 && year.tmod 100 != 0 || year.tmod 400 == 0

def isTmYearLeap : Bool := isLeapYear (year + kTmBaseYear)

/-- The sum of `ConvertDateTimeToPosix` before the offsets of the time zone. -/
def sumSeconds (dateTime : Tm) : ℤ :=
  let isMonthNegative : ℤ := if dateTime.mon < 0 then 1 else 0
  let monthRemainder := dateTime.mon.tmod 12 + isMonthNegative * 12
  let years := dateTime.year + dateTime.mon.tdiv 12
  let days := kDaysInMonth (isTmYearLeap years) monthRemainder.toNat
  dateTime.sec + dateTime.min * kSecondsInMinute + dateTime.hour * kSecondsInHour +
    (dateTime.mday - 1) * kSecondsInDay + days * kSecondsInDay + years * kSecondsInUsualYear +
    (years - 1).tdiv 4 * kSecondsInDay - (years - 1).tdiv 100 * kSecondsInDay +
    (300 + years - 1).tdiv 400 * kSecondsInDay - kPosixEpochTmSecondDiff

def convertDateTimeToPosix (dateTime : Tm) (timeZone : Timezone) : Kernel σ ℕ := do
  let time := sumSeconds dateTime - timeZone.westOffsetMinutes * kSecondsInMinute
  let time := if 0 < dateTime.isdst ∧ timeZone.dstTimeOffsetMinutes ≠ 0 then
      time - timeZone.dstTimeOffsetMinutes * kSecondsInMinute
    else time
  rAssertTrue (0 ≤ dateTime.isdst) "DST guess is not supported yet"
  if time < 0 then return kConversionFailed else return time.toNat

/-- The loop of `CalculateMonthAndDaysFromPosix`. -/
def monthAndDay (days : ℕ) (isLeap : Bool) : ℕ × ℕ :=
  match (List.range' 1 11).find? fun idx => days < kDaysInMonth isLeap idx with
  | some idx => (idx, days - kDaysInMonth isLeap (idx - 1) + 1)
  | none => (12, days - kDaysInMonth isLeap 11 + 1)

variable (build : Build)

def calculateMonthAndDaysFromPosix (days : ℕ) (isLeap : Bool) :
    Kernel σ (ℕ × ℕ) := do
  assertTrue build (days < if isLeap then 366 else 365) "days < is_leap_year ? 366 : 365"
  return monthAndDay days isLeap

/-- The loop of the two searches: the year before the one found, and the time left. -/
def yearLoop (limit : ℕ) (localTimeLeft : ℤ → ℤ) :
    (fuel iterations : ℕ) → (years : ℤ) → Kernel σ (ℤ × ℤ)
  | 0, _, _ => throw (.undefined "more steps than years")
  | fuel + 1, iterations, years => do
      assertTrue build (iterations < limit) "iterations++ < limit"
      if localTimeLeft years < 0 then
        yearLoop limit localTimeLeft fuel (iterations + 1) (years - 1)
      else return (years - 1, localTimeLeft years)

/-- The time since 2000 that is left after years and their leap days. -/
def localTimeLeft30More (since : ℕ) (years : ℤ) : ℤ :=
  asI64 since - years * kSecondsInUsualYear - (years - 1).tdiv 4 * kSecondsInDay +
    (years - 1).tdiv 100 * kSecondsInDay - (years - 1).tdiv 400 * kSecondsInDay -
    (if 0 < years then 1 else 0) * kSecondsInDay

variable (time : ℕ)

/-- `CalculateYears30MoreWLeaps`. -/
def calculateYears30MoreWLeaps : Kernel σ (ℕ × ℕ) := do
  let since := asU64 (time - kFirst30PosixYears : ℤ)
  let guess := since / kSecondsInUsualYear
  let (years, left) ← yearLoop build 5 (localTimeLeft30More since) (guess + 1) 0 guess
  assertTrue build (0 ≤ left) "local_time_left >= 0"
  return (asU64 (years + 1 + 30), asU64 left)

/-- The time since 1970 that is left after years and their leap days. -/
def localTimeLeft30Less (years : ℤ) : ℤ :=
  asI64 time - years * kSecondsInUsualYear -
    (if 2 < years then (years + 1).tdiv 4 * kSecondsInDay else 0)

/-- `CalculateYears30LessWLeaps`. -/
def calculateYears30LessWLeaps : Kernel σ (ℕ × ℕ) := do
  let guess := time / kSecondsInUsualYear
  let (years, left) ← yearLoop build 2 (localTimeLeft30Less time) (guess + 1) 0 guess
  return (asU64 (years + 1), asU64 left)

def calculateYearsFromPosix : Kernel σ (ℕ × ℕ) :=
  if kFirst30PosixYears ≤ time then calculateYears30MoreWLeaps build time
  else calculateYears30LessWLeaps build time

def getDSTOffset (timeZone : Timezone) : ℕ :=
  if timeZone.dstTimeOffsetMinutes = 0 then 0
  else if timeZone.dstTimeStartSeconds < timeZone.dstTimeEndSeconds then
    if timeZone.dstTimeStartSeconds ≤ time ∧ time < timeZone.dstTimeEndSeconds then
      asU64 (timeZone.dstTimeOffsetMinutes * kSecondsInMinute)
    else 0
  else if timeZone.dstTimeStartSeconds ≤ time ∨ time < timeZone.dstTimeEndSeconds then
    asU64 (timeZone.dstTimeOffsetMinutes * kSecondsInMinute)
  else 0

/-- `SumUpDays`: the days of the years from 1 on. -/
def sumUpDays : ℤ :=
  (year - 1) * 365 + (year - 1).tdiv 4 - (year - 1).tdiv 100 + (year - 1).tdiv 400

def getWeekdayJan1 (daysSinceCentury : ℤ) : ℤ := (daysSinceCentury + 1).tmod 7

def calculateDayOfWeek (year mon mday : ℤ) : ℤ :=
  (getWeekdayJan1 (sumUpDays (year + kTmBaseYear)) +
    (kDaysInMonth (isTmYearLeap year) mon.toNat + mday) - 1).tmod 7

def convertFromPosixToTm (timer : ℕ) (tz : Timezone) : Kernel σ Tm := do
  let timeLeft := asU64 (timer + tz.westOffsetMinutes * kSecondsInMinute)
  let (years, timeLeft) ← calculateYearsFromPosix build timeLeft
  let year := asInt (kPosixToTmYearDiff + years)
  let dstOffset := getDSTOffset timeLeft tz
  let timeLeft := (timeLeft + dstOffset) % 2 ^ 64
  let days := timeLeft / kSecondsInDay
  let timeLeft := timeLeft - days * kSecondsInDay
  let hours := timeLeft / kSecondsInHour
  let timeLeft := timeLeft - hours * kSecondsInHour
  let minutes := timeLeft / kSecondsInMinute
  let timeLeft := timeLeft - minutes * kSecondsInMinute
  let (month, day) ← calculateMonthAndDaysFromPosix build days (isTmYearLeap year)
  return {
    sec := asInt timeLeft
    min := asInt minutes
    hour := asInt hours
    mday := asInt day
    mon := asInt (month - 1)
    year := year
    wday := calculateDayOfWeek year (asInt (month - 1)) (asInt day)
    yday := asInt days
    isdst := if dstOffset ≠ 0 then 1 else 0 }

end AlkOS.Libc.Time
