/-
**The proleptic Gregorian calendar.**

A `Clock` is a date and a time of day that exist; `instant` is the number of microseconds from the
Unix epoch to it, on a clock that shows UTC.

* `year_le_of_instant_lt`, `le_year_of_le_instant`: a year's clocks lie between its first instant and
  the next year's;
* `inYear_gap`: the same date and time a year earlier is 365 or 366 days earlier;
* `ofInstant`: the clock that shows an instant.
-/

import Mathlib.Data.Int.Order.Basic
import Mathlib.Tactic.IntervalCases

namespace Freshet.Lib

/-! ### Days -/

def isLeap (year : Int) : Bool := year % 4 = 0 && (year % 100 ≠ 0 || year % 400 = 0)

/-- The days of the years before. -/
def daysBeforeYear (year : Int) : Int :=
  (year - 1) * 365 + (year - 1) / 4 - (year - 1) / 100 + (year - 1) / 400

def daysInMonth (year : Int) : Nat → Nat
  | 2 => if isLeap year then 29 else 28
  | 4 | 6 | 9 | 11 => 30
  | _ => 31

/-- The days of the year's months before, January being month 1. -/
def daysBeforeMonth (year : Int) : Nat → Nat
  | 0 | 1 => 0
  | month + 2 => daysBeforeMonth year (month + 1) + daysInMonth year (month + 1)

/-- The days of a year. -/
def yearLength (year : Int) : Nat := if isLeap year then 366 else 365

theorem daysBeforeYear_succ (year : Int) :
    daysBeforeYear (year + 1) = daysBeforeYear year + yearLength year := by
  unfold daysBeforeYear yearLength isLeap
  simp only [Bool.and_eq_true, Bool.or_eq_true, decide_eq_true_eq, ne_eq, decide_not,
    Bool.not_eq_true', decide_eq_false_iff_not]
  split_ifs <;> omega

theorem daysBeforeYear_mono {early late : Int} (ordered : early ≤ late) :
    daysBeforeYear early + 365 * (late - early) ≤ daysBeforeYear late := by
  unfold daysBeforeYear
  omega

/-- The months fill the year. -/
theorem daysBeforeMonth_december (year : Int) : daysBeforeMonth year 12 + 31 = yearLength year := by
  unfold yearLength
  cases leap : isLeap year <;> simp [daysBeforeMonth, daysInMonth, leap]

/-! ### Clocks -/

/-- The date and the time of day exist. -/
structure Fits (year : Int) (month day hour minute second microsecond : Nat) : Prop where
  months : 1 ≤ month ∧ month ≤ 12
  days : 1 ≤ day ∧ day ≤ daysInMonth year month
  hours : hour < 24
  minutes : minute < 60
  seconds : second < 60
  microseconds : microsecond < 1000000

instance (year : Int) (month day hour minute second microsecond : Nat) :
    Decidable (Fits year month day hour minute second microsecond) :=
  decidable_of_iff
    ((1 ≤ month ∧ month ≤ 12) ∧ (1 ≤ day ∧ day ≤ daysInMonth year month) ∧ hour < 24 ∧
      minute < 60 ∧ second < 60 ∧ microsecond < 1000000)
    ⟨fun ⟨a, b, c, d, e, f⟩ => ⟨a, b, c, d, e, f⟩, fun ⟨a, b, c, d, e, f⟩ => ⟨a, b, c, d, e, f⟩⟩

/-- **A date and a time of day that exist**, in any year. -/
structure Clock where
  year : Int
  month : Nat
  day : Nat
  hour : Nat
  minute : Nat
  second : Nat
  microsecond : Nat
  fits : Fits year month day hour minute second microsecond
deriving DecidableEq

def usPerSecond : Int := 1000000

def usPerMinute : Int := 60000000

def usPerHour : Int := 3600000000

def usPerDay : Int := 86400000000

/-- The number of the Unix epoch's day, where the first of January of year 1 is day 1. -/
def epochDay : Int := 719163

/-- The first instant of a year. -/
def yearStart (year : Int) : Int := (daysBeforeYear year + 1 - epochDay) * usPerDay

namespace Clock

/-- The day of the year, from 1. -/
def dayOfYear (clock : Clock) : Nat := daysBeforeMonth clock.year clock.month + clock.day

/-- The microseconds since midnight. -/
def sinceMidnight (clock : Clock) : Int :=
  clock.hour * usPerHour + clock.minute * usPerMinute + clock.second * usPerSecond +
    clock.microsecond

/-- The microseconds from the Unix epoch. -/
def instant (clock : Clock) : Int :=
  yearStart clock.year + ((clock.dayOfYear : Int) - 1) * usPerDay + clock.sinceMidnight

/-- `datetime(…)`: nothing where there is no such date or time. -/
def make (year : Int) (month day hour minute second microsecond : Nat) : Option Clock :=
  if fits : Fits year month day hour minute second microsecond then
    some { year, month, day, hour, minute, second, microsecond, fits }
  else none

/-- `replace(year=…)`. -/
def inYear (clock : Clock) (year : Int) : Option Clock :=
  make year clock.month clock.day clock.hour clock.minute clock.second clock.microsecond

theorem sinceMidnight_bounds (clock : Clock) :
    0 ≤ clock.sinceMidnight ∧ clock.sinceMidnight < usPerDay := by
  have hour := clock.fits.hours
  have minute := clock.fits.minutes
  have second := clock.fits.seconds
  have microsecond := clock.fits.microseconds
  unfold sinceMidnight usPerHour usPerMinute usPerSecond usPerDay
  omega

theorem dayOfYear_bounds (clock : Clock) :
    1 ≤ clock.dayOfYear ∧ clock.dayOfYear ≤ yearLength clock.year := by
  obtain ⟨year, month, day, hour, minute, second, microsecond, fits⟩ := clock
  obtain ⟨lower, upper⟩ := fits.months
  have within := fits.days
  unfold dayOfYear yearLength
  cases leap : isLeap year <;> interval_cases month <;>
    simp [daysBeforeMonth, daysInMonth, leap] at within ⊢ <;> omega

/-- A clock lies in its year. -/
theorem instant_bounds (clock : Clock) :
    yearStart clock.year ≤ clock.instant ∧ clock.instant < yearStart (clock.year + 1) := by
  have day := clock.dayOfYear_bounds
  have time := clock.sinceMidnight_bounds
  have next := daysBeforeYear_succ clock.year
  unfold instant yearStart usPerDay at *
  omega

end Clock

theorem yearStart_mono {early late : Int} (ordered : early ≤ late) :
    yearStart early + 365 * (late - early) * usPerDay ≤ yearStart late := by
  have days := daysBeforeYear_mono ordered
  unfold yearStart usPerDay
  omega

namespace Clock

/-- What lies before a year begins is of an earlier year. -/
theorem year_lt_of_instant_lt {clock : Clock} {year : Int} (before : clock.instant < yearStart year) :
    clock.year < year := by
  by_contra late
  have start := yearStart_mono (not_lt.mp late)
  have bounds := clock.instant_bounds
  unfold usPerDay at start
  omega

/-- What does not lie before a year begins is of that year or a later one. -/
theorem le_year_of_le_instant {clock : Clock} {year : Int} (after : yearStart year ≤ clock.instant) :
    year ≤ clock.year := by
  by_contra early
  have start := yearStart_mono (Int.add_one_le_of_lt (not_le.mp early))
  have bounds := clock.instant_bounds
  unfold usPerDay at start
  omega

/-! ### The same date in another year -/

theorem inYear_self (clock : Clock) : clock.inYear clock.year = some clock :=
  dif_pos clock.fits

theorem year_of_inYear {clock other : Clock} {year : Int} (found : clock.inYear year = some other) :
    other.year = year := by
  unfold inYear make at found
  split_ifs at found
  obtain rfl := Option.some_injective _ found
  rfl

theorem inYear_back {clock other : Clock} {year : Int} (found : clock.inYear year = some other) :
    other.inYear clock.year = some clock := by
  unfold inYear make at found
  split_ifs at found
  obtain rfl := Option.some_injective _ found
  exact clock.inYear_self

/-- Only the 29th of February does not come every year. -/
theorem inYear_eq_none {clock : Clock} {year : Int} (missing : clock.inYear year = none) :
    clock.month = 2 ∧ clock.day = 29 ∧ isLeap clock.year = true := by
  obtain ⟨from', month, day, hour, minute, second, microsecond, fits⟩ := clock
  unfold inYear make at missing
  split_ifs at missing with absent
  obtain ⟨lower, upper⟩ := fits.months
  have within := fits.days
  have outside : ¬ (1 ≤ day ∧ day ≤ daysInMonth year month) := fun inside =>
    absent ⟨fits.months, inside, fits.hours, fits.minutes, fits.seconds, fits.microseconds⟩
  show month = 2 ∧ day = 29 ∧ isLeap from' = true
  cases leap : isLeap from' <;> cases leap' : isLeap year <;> interval_cases month <;>
    simp [daysInMonth, leap, leap'] at within outside ⊢ <;> omega

/-- **The same date and time one year earlier is 365 or 366 days earlier.** -/
theorem inYear_gap {clock other : Clock} (found : clock.inYear (clock.year + 1) = some other) :
    clock.instant + 365 * usPerDay ≤ other.instant ∧
      other.instant ≤ clock.instant + 366 * usPerDay := by
  unfold inYear make at found
  split_ifs at found with fits'
  obtain rfl := Option.some_injective _ found
  obtain ⟨year, month, day, hour, minute, second, microsecond, fits⟩ := clock
  have next := daysBeforeYear_succ year
  obtain ⟨lower, upper⟩ := fits.months
  have days : yearLength year + daysBeforeMonth (year + 1) month =
        365 + daysBeforeMonth year month ∨
      yearLength year + daysBeforeMonth (year + 1) month = 366 + daysBeforeMonth year month := by
    have apart : isLeap year = true → isLeap (year + 1) = false := by
      unfold isLeap
      simp only [Bool.and_eq_true, Bool.or_eq_true, decide_eq_true_eq, ne_eq, decide_not,
        Bool.not_eq_true', decide_eq_false_iff_not, Bool.and_eq_false_iff, Bool.or_eq_false_iff]
      omega
    unfold yearLength
    cases leap : isLeap year <;> cases leap' : isLeap (year + 1) <;> interval_cases month <;>
      simp [daysBeforeMonth, daysInMonth, leap, leap'] at apart ⊢
  unfold instant sinceMidnight dayOfYear yearStart usPerDay
  simp only
  omega

end Clock

/-! ### The clock of an instant -/

/-- The year of an instant: 400 years are 146097 days, and the guess is at most one year off. -/
def yearOf (instant : Int) : Int :=
  let guess := 1 + (instant / usPerDay + epochDay - 1) * 400 / 146097
  if instant < yearStart guess then guess - 1
  else if yearStart (guess + 1) ≤ instant then guess + 1 else guess

theorem yearOf_spec (instant : Int) :
    yearStart (yearOf instant) ≤ instant ∧ instant < yearStart (yearOf instant + 1) := by
  have days : ∀ year, instant < yearStart year ↔
      instant / usPerDay < daysBeforeYear year + 1 - epochDay := by
    intro year
    unfold yearStart
    rw [Int.ediv_lt_iff_lt_mul (by decide)]
  have lower : ∀ day : Int, daysBeforeYear (1 + day * 400 / 146097 - 1) ≤ day := by
    intro day
    unfold daysBeforeYear
    omega
  have upper : ∀ day : Int, day < daysBeforeYear (1 + day * 400 / 146097 + 2) := by
    intro day
    unfold daysBeforeYear
    omega
  have low := lower (instant / usPerDay + epochDay - 1)
  have high := upper (instant / usPerDay + epochDay - 1)
  unfold yearOf
  simp only
  split_ifs with below above
  · rw [← not_lt, days, Int.sub_add_cancel]
    exact ⟨by omega, below⟩
  · have two : ∀ guess : Int, guess + 1 + 1 = guess + 2 := by
      intro guess
      omega
    rw [two, days]
    exact ⟨above, by omega⟩
  · exact ⟨not_lt.mp below, not_le.mp above⟩

/-- The last month, up to the given one, that begins before a day of the year. -/
def monthUpTo (year : Int) (day : Nat) : Nat → Nat
  | 0 => 0
  | month + 1 =>
    if daysBeforeMonth year (month + 1) < day then month + 1 else monthUpTo year day month

theorem monthUpTo_spec (year : Int) {day : Nat} (lower : 1 ≤ day) (last : Nat) :
    1 ≤ monthUpTo year day (last + 1) ∧ monthUpTo year day (last + 1) ≤ last + 1 ∧
      daysBeforeMonth year (monthUpTo year day (last + 1)) < day ∧
      (monthUpTo year day (last + 1) ≤ last →
        day ≤ daysBeforeMonth year (monthUpTo year day (last + 1) + 1)) := by
  induction last with
  | zero =>
    have january : daysBeforeMonth year (0 + 1) < day := lower
    unfold monthUpTo
    rw [if_pos january]
    exact ⟨le_refl _, le_refl _, january, fun nought => absurd nought (by omega)⟩
  | succ last ih =>
    unfold monthUpTo
    split_ifs with begun
    · exact ⟨by omega, le_refl _, begun, fun earlier => absurd earlier (by omega)⟩
    · obtain ⟨first, most, before, next⟩ := ih
      refine ⟨first, by omega, before, fun _ => ?_⟩
      rcases Nat.lt_or_ge (monthUpTo year day (last + 1)) (last + 1) with earlier | here
      · exact next (by omega)
      · have same : monthUpTo year day (last + 1) = last + 1 := le_antisymm most here
        rw [same]
        exact not_lt.mp begun

theorem monthUpTo_days (year : Int) {day : Nat} (lower : 1 ≤ day) (upper : day ≤ yearLength year) :
    (1 ≤ monthUpTo year day 12 ∧ monthUpTo year day 12 ≤ 12) ∧
      daysBeforeMonth year (monthUpTo year day 12) < day ∧
      day ≤ daysBeforeMonth year (monthUpTo year day 12) +
        daysInMonth year (monthUpTo year day 12) := by
  obtain ⟨first, most, before, next⟩ : 1 ≤ monthUpTo year day 12 ∧ monthUpTo year day 12 ≤ 12 ∧
      daysBeforeMonth year (monthUpTo year day 12) < day ∧
      (monthUpTo year day 12 ≤ 11 → day ≤ daysBeforeMonth year (monthUpTo year day 12 + 1)) :=
    monthUpTo_spec year lower 11
  refine ⟨⟨first, most⟩, before, ?_⟩
  rcases Nat.lt_or_ge (monthUpTo year day 12) 12 with earlier | here
  · have later := next (by omega)
    obtain ⟨month, eq⟩ := Nat.exists_eq_add_of_le' first
    rw [eq] at later ⊢
    exact later
  · have december : monthUpTo year day 12 = 12 := le_antisymm most here
    have filled := daysBeforeMonth_december year
    rw [december]
    show day ≤ daysBeforeMonth year 12 + 31
    omega

namespace Clock

/-- The microseconds since the year began. -/
def sinceYear (instant : Int) : Nat := (instant - yearStart (yearOf instant)).toNat

theorem sinceYear_spec (instant : Int) :
    instant = yearStart (yearOf instant) + sinceYear instant ∧
      1 ≤ sinceYear instant / 86400000000 + 1 ∧
      sinceYear instant / 86400000000 + 1 ≤ yearLength (yearOf instant) := by
  obtain ⟨started, ends⟩ := yearOf_spec instant
  have next := daysBeforeYear_succ (yearOf instant)
  have eq : instant = yearStart (yearOf instant) + sinceYear instant := by
    unfold sinceYear
    omega
  unfold yearStart usPerDay at started ends eq
  unfold yearStart usPerDay
  omega

/-- The month of an instant. -/
def monthOf (instant : Int) : Nat :=
  monthUpTo (yearOf instant) (sinceYear instant / 86400000000 + 1) 12

theorem fits_ofInstant (instant : Int) : Fits (yearOf instant) (monthOf instant)
    (sinceYear instant / 86400000000 + 1 - daysBeforeMonth (yearOf instant) (monthOf instant))
    (sinceYear instant / 3600000000 % 24) (sinceYear instant / 60000000 % 60)
    (sinceYear instant / 1000000 % 60) (sinceYear instant % 1000000) := by
  obtain ⟨-, lower, upper⟩ := sinceYear_spec instant
  obtain ⟨months, before, upTo⟩ := monthUpTo_days (yearOf instant) lower upper
  unfold monthOf
  exact ⟨months, by omega, by omega, by omega, by omega, by omega⟩

/-- **The clock that shows an instant.** -/
def ofInstant (instant : Int) : Clock where
  year := yearOf instant
  month := monthOf instant
  day := sinceYear instant / 86400000000 + 1 - daysBeforeMonth (yearOf instant) (monthOf instant)
  hour := sinceYear instant / 3600000000 % 24
  minute := sinceYear instant / 60000000 % 60
  second := sinceYear instant / 1000000 % 60
  microsecond := sinceYear instant % 1000000
  fits := fits_ofInstant instant

/-- **Every instant is shown.** -/
theorem instant_ofInstant (instant : Int) : (ofInstant instant).instant = instant := by
  obtain ⟨eq, lower, upper⟩ := sinceYear_spec instant
  obtain ⟨-, before, -⟩ := monthUpTo_days (yearOf instant) lower upper
  unfold Clock.instant Clock.dayOfYear Clock.sinceMidnight ofInstant monthOf usPerDay usPerHour
    usPerMinute usPerSecond
  simp only
  omega

end Clock

namespace Clock

/-- A clock at a whole minute shows no seconds. -/
theorem whole_minute {clock : Clock} (whole : clock.instant % usPerMinute = 0) :
    clock.second = 0 ∧ clock.microsecond = 0 := by
  have seconds := clock.fits.seconds
  have microseconds := clock.fits.microseconds
  unfold instant sinceMidnight yearStart usPerDay usPerHour usPerMinute usPerSecond at whole
  omega

end Clock

end Freshet.Lib
