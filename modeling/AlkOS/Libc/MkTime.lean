import AlkOS.Libc.Calendar

/-!
# Normalising times

`MkTimeFromTimeZone` in UTC. C rounds the number of years in a negative month towards
zero, which `ConvertDateTimeToPosix` does not correct: the time is one year late.
-/

namespace AlkOS.Libc.Time

open Kernel Gregorian

variable {σ : Type} {s : σ} {build : Build} {time : Tm}

/-- `MkTimeFromTimeZone`: the result, and the fields that it leaves. -/
def mkTimeFromTimeZone (build : Build) (time : Tm) (timeZone : Timezone) : Kernel σ (ℕ × Tm) := do
  let t ← convertDateTimeToPosix time timeZone
  if t = kConversionFailed then return (2 ^ 64 - 1, time)
  let result ← convertFromPosixToTm build t timeZone
  assertTrue build ((← convertDateTimeToPosix result timeZone) = t)
    "ConvertDateTimeToPosix(time_ptr, time_zone) == t"
  return (t, result)

theorem tdiv_bounds (a : ℤ) {b : ℤ} (positive : 0 < b) :
    a / b ≤ a.tdiv b ∧ a.tdiv b ≤ a / b + 1 := by
  rw [Int.tdiv_eq_ediv]
  split_ifs
  · omega
  · rw [Int.sign_eq_one_of_pos positive]
    omega

/-- Negative months are summed up wrong. -/
theorem sumSeconds_ne (backward : time.mon < 0) : sumSeconds time ≠ instant time := by
  have table : ∀ leap other : Bool, ∀ month : Fin 12,
      kDaysInMonth leap month ≤ daysBeforeMonth other month + 1 ∧
        daysBeforeMonth other month ≤ kDaysInMonth leap month + 1 := by decide
  have whole : ∀ leap : Bool, 365 ≤ kDaysInMonth leap 12 := by decide
  unfold sumSeconds instant namedYear
  simp only [if_pos backward, Int.one_mul]
  rw [daysBefore_eq, kSecondsInUsualYear_eq, kSecondsInDay_eq, kSecondsInHour_eq,
    kSecondsInMinute_eq, show kPosixEpochTmSecondDiff = 2208988800 from rfl]
  have quotient : time.mon.tdiv 12 = -(-time.mon / 12) := by
    rw [← Int.tdiv_eq_ediv_of_nonneg (by omega), Int.neg_tdiv, neg_neg]
  have remainder : time.mon.tmod 12 = -(-time.mon % 12) := by
    rw [← Int.tmod_eq_emod_of_nonneg (by omega), Int.neg_tmod, neg_neg]
  rw [quotient, remainder]
  have first := tdiv_bounds (time.year + -(-time.mon / 12) - 1) (show 0 < 4 by decide)
  have second := tdiv_bounds (time.year + -(-time.mon / 12) - 1) (show 0 < 100 by decide)
  have third := tdiv_bounds (300 + (time.year + -(-time.mon / 12)) - 1) (show 0 < 400 by decide)
  by_cases full : -time.mon % 12 = 0
  · rw [show (-(-time.mon % 12) + 12).toNat = 12 by omega,
      show (time.mon % 12).toNat = 0 by omega, daysBeforeMonth]
    have length := whole (isTmYearLeap (time.year + -(-time.mon / 12)))
    omega
  · rw [show (-(-time.mon % 12) + 12).toNat = (time.mon % 12).toNat by omega]
    have days := table (isTmYearLeap (time.year + -(-time.mon / 12)))
      (isLeap ((1900 + time.year + time.mon / 12) % 400).toNat) ⟨(time.mon % 12).toNat, by omega⟩
    simp only at days
    omega

/-- The result is the time that the sum gives. -/
theorem run_mkTimeFromTimeZone {dateTime : DateTime} {t : ℕ} (dst : time.isdst = 0)
    (late : 1970 ≤ dateTime.date.year) (early : dateTime.date.year ≤ 7999)
    (sum : sumSeconds time = t) (posix : dateTime.posix = t) :
    (mkTimeFromTimeZone build time kUtcTimezone).run s = .ok (t, dateTime.toTm) s := by
  unfold mkTimeFromTimeZone
  rw [run_bind (run_convertDateTimeToPosix_utc dst), sum,
    if_neg (show ¬(t : ℤ) < 0 by omega), Int.toNat_natCast,
    if_neg (dateTime.posix_lt late early posix).ne,
    run_bind (run_convertFromPosixToTm dateTime late early posix),
    run_bind (run_convertDateTimeToPosix dateTime late posix),
    run_bind (run_assertTrue rfl)]
  rfl

/-- In UTC the instant of the fields is returned exactly if the month is not negative. -/
theorem mkTimeFromTimeZone_iff (build : Build) (s : σ) (dateTime : DateTime) (dst : time.isdst = 0)
    (since : 70 ≤ time.year) (late : 1970 ≤ dateTime.date.year)
    (early : dateTime.date.year ≤ 7999) (same : dateTime.posix = instant time) :
    (∃ t : ℕ, instant time = t ∧
      (mkTimeFromTimeZone build time kUtcTimezone).run s = .ok (t, dateTime.toTm) s) ↔
        0 ≤ time.mon := by
  obtain ⟨t, posix⟩ := dateTime.exists_posix late
  rw [← same, posix]
  constructor
  · rintro ⟨_, value, ran⟩
    obtain rfl := Int.natCast_inj.mp value
    by_contra backward
    have differ := sumSeconds_ne (not_le.mp backward)
    unfold mkTimeFromTimeZone at ran
    rw [run_bind (run_convertDateTimeToPosix_utc dst)] at ran
    generalize converted : (if sumSeconds time < 0 then kConversionFailed else
      (sumSeconds time).toNat) = value at ran
    split at ran
    · have returned : 2 ^ 64 - 1 = t := congrArg (·.1) (EStateM.Result.ok.inj ran).1
      exact (dateTime.posix_lt late early posix).ne' returned
    · obtain ⟨_, _, _, ran⟩ := run_bind_eq_ok ran
      obtain ⟨_, _, _, ran⟩ := run_bind_eq_ok ran
      obtain ⟨_, _, _, ran⟩ := run_bind_eq_ok ran
      obtain rfl : value = t := congrArg (·.1) (EStateM.Result.ok.inj ran).1
      split at converted <;> omega
  · intro forward
    have sum : sumSeconds time = t :=
      (sumSeconds_of_nonneg (by omega) forward).trans (same.symm.trans posix)
    exact ⟨t, rfl, run_mkTimeFromTimeZone dst late early sum posix⟩

/-- Thirteen months after January 1999 is February 2000. -/
theorem mkTimeFromTimeZone_iff_carry :
    (mkTimeFromTimeZone .debug ⟨59, 59, 23, 29, 13, 99, 0, 0, 0⟩ kUtcTimezone).run () =
      .ok (951868799, leapDayEnd.toTm) () := by
  have value : instant ⟨59, 59, 23, 29, 13, 99, 0, 0, 0⟩ = 951868799 := by
    unfold instant
    rw [daysBefore_eq]
    decide
  obtain ⟨t, same, ran⟩ := (mkTimeFromTimeZone_iff .debug () leapDayEnd rfl (by decide) (by decide)
    (by decide) (leapDayEnd_posix.trans value.symm)).mpr (by decide)
  obtain rfl : t = 951868799 := Int.natCast_inj.mp (same.symm.trans value)
  exact ran

/-- The last second of the day after the 28th of February 2001. -/
def marchDayEnd : DateTime :=
  ⟨⟨2001, 2, 0, by decide, by decide⟩, 23, 59, 59, leapDayEnd.hour_lt, leapDayEnd.minute_lt,
    leapDayEnd.second_lt⟩

/-- Eleven months before January 2001 is February 2000, but the result is in 2001. -/
theorem mkTimeFromTimeZone_late :
    instant ⟨59, 59, 23, 29, -11, 101, 0, 0, 0⟩ = leapDayEnd.posix ∧
      leapDayEnd.posix = 951868799 ∧
      (mkTimeFromTimeZone .debug ⟨59, 59, 23, 29, -11, 101, 0, 0, 0⟩ kUtcTimezone).run () =
        .ok (983491199, marchDayEnd.toTm) () := by
  refine ⟨?_, leapDayEnd_posix,
    run_mkTimeFromTimeZone rfl (by decide) (by decide) (by decide) ?_⟩
  · rw [leapDayEnd_posix]
    unfold instant
    rw [daysBefore_eq]
    decide
  · have start : daysBeforeYear marchDayEnd.date.year = 730851 := daysBeforeYear_2000 1
    unfold DateTime.posix DateTime.posixDay Date.dayNumber
    rw [start, daysBeforeYear_1970_zero]
    decide

end AlkOS.Libc.Time
