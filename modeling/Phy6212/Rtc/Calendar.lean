import Mathlib.Tactic.Basic

/-!
# The calendar of the real-time clock

`mktime` and `gmtime_r` of `phy_rtc.c`. A leap year adds its day after the fact: the closed form of
`clock_calendar2utc` counts `(year - 1969) >> 2` of them, the loop of `clock_utc2calendar` one by
one.
-/

namespace Phy6212.Rtc

/-- The conversion of a second count to the 32-bit `time_t`. -/
def timeT (n : Int) : Int := (n + 2147483648) % 4294967296 - 2147483648

structure Tm where
  sec : Int
  min : Int
  hour : Int
  mday : Int
  mon : Int
  year : Int
  deriving DecidableEq, Repr

def clockIsleapyear (year : Int) : Bool :=
  if year.tmod 400 ≠ 0 then if year.tmod 100 ≠ 0 then year.tmod 4 = 0 else false else true

def leapYear : List Int := [31, 29, 31, 30, 31, 30, 31, 31, 30, 31, 30, 31]

def noleapYear : List Int := [31, 28, 31, 30, 31, 30, 31, 31, 30, 31, 30, 31]

def noleapDaysbeforemonth : List Int := [0, 31, 59, 90, 120, 151, 181, 212, 243, 273, 304, 334, 365]

/-- The days of a month, by the table for the kind of year. -/
def monthDays (leap : Bool) (mon : Int) : Int :=
  (if leap then leapYear else noleapYear).getD mon.toNat 0

def ckCheckTmOk (t : Tm) : Bool :=
  70 ≤ t.year ∧ t.year < 200 ∧ 0 ≤ t.sec ∧ t.sec < 60 ∧ 0 ≤ t.min ∧ t.min < 60 ∧
    0 ≤ t.hour ∧ t.hour < 24 ∧ 0 ≤ t.mon ∧ t.mon < 12 ∧ 1 ≤ t.mday ∧
    t.mday ≤ monthDays (clockIsleapyear (t.year + 1900)) t.mon

def clockDaysbeforemonth (month : Int) (leapyear : Bool) : Int :=
  noleapDaysbeforemonth.getD month.toNat 0 + if 2 ≤ month ∧ leapyear then 1 else 0

def clockCalendar2utc (year month day : Int) : Int :=
  (year - 1970) * 365 + (year - 1969) / 4 + clockDaysbeforemonth month (clockIsleapyear year) +
    (day - 1)

/-- The second count of a calendar time, before it is stored in a `time_t`. -/
def seconds (t : Tm) : Int :=
  ((clockCalendar2utc (t.year + 1900) t.mon t.mday * 24 + t.hour) * 60 + t.min) * 60 + t.sec

def mktime (t : Tm) : Int := if ckCheckTmOk t then timeT (seconds t) else -1

def yearDays (value : Int) : Int := if clockIsleapyear (value + 1970) then 366 else 365

/-- The loop over the years since the epoch; `days` are left in year `value`. -/
def yearLoop (value days : Int) : Int × Int :=
  if yearDays value ≤ days then yearLoop (value + 1) (days - yearDays value) else (value, days)
  termination_by days.toNat
  decreasing_by
    have : 365 ≤ yearDays value := by unfold yearDays; split <;> omega
    omega

/-- The binary search for the month, `none` when it is not over after so many rounds. -/
def monthLoop (leapyear : Bool) (days : Int) : Nat → Int → Int → Option Int
  | 0, _, _ => none
  | rounds + 1, min, max =>
    let value := (min + max) / 2
    if days < clockDaysbeforemonth (value + 1) leapyear then
      if days < clockDaysbeforemonth value leapyear then
        if min < value - 1 then monthLoop leapyear days rounds min (value - 1) else some min
      else some value
    else if value + 1 < max then monthLoop leapyear days rounds (value + 1) max
    else some (value + 1)

/-- Year, month (from 1) and day of a day number. -/
def clockUtc2calendar (days : Int) : Option (Int × Int × Int) :=
  let value := days.tdiv 1461
  let (value, days) := yearLoop (value * 4) (days - value * 1461)
  let leapyear := clockIsleapyear (value + 1970)
  (monthLoop leapyear days 4 0 11).map fun month =>
    (1970 + value, month + 1, days - clockDaysbeforemonth month leapyear + 1)

def gmtimeR (timer : Int) : Option Tm :=
  let jdn := timer.tdiv 86400
  let epoch := timer - 86400 * jdn
  let hour := epoch.tdiv 3600
  let epoch := epoch - 3600 * hour
  let min := epoch.tdiv 60
  let sec := epoch - 60 * min
  (clockUtc2calendar jdn).map fun (year, month, day) =>
    ⟨sec, min, hour, day, month - 1, year - 1900⟩

/-- A day of the years that `ck_check_tm_ok` accepts: year, month and day of the month, all from
zero. -/
def IsDay (value mon day : Int) : Prop :=
  0 ≤ value ∧ value < 130 ∧ 0 ≤ mon ∧ mon < 12 ∧ 0 ≤ day ∧
    day < monthDays (clockIsleapyear (value + 1970)) mon

def dayNumber (value mon day : Int) : Int :=
  value * 365 + (value + 1) / 4 + clockDaysbeforemonth mon (clockIsleapyear (value + 1970)) + day

variable (value : Int)

theorem isleapyear_iff (low : 0 ≤ value) (high : value < 130) :
    clockIsleapyear (value + 1970) = decide (value % 4 = 2) := by
  obtain ⟨v, rfl⟩ := Int.eq_ofNat_of_zero_le low
  have : ∀ v < 130, clockIsleapyear ((v : Nat) + 1970) = decide ((v : Int) % 4 = 2) := by
    decide +kernel
  exact this v (by omega)

theorem yearDays_eq (low : 0 ≤ value) (high : value < 130) :
    yearDays value = if value % 4 = 2 then 366 else 365 := by
  unfold yearDays
  rw [isleapyear_iff value low high]
  simp only [decide_eq_true_eq]

/-- The loop keeps the number of the day it looks for, and it ends inside the year it returns. -/
theorem yearLoop_days (days : Int) (low : 0 ≤ value) (day : 0 ≤ days)
    (high : value * 365 + (value + 1) / 4 + days < 47482) :
    0 ≤ (yearLoop value days).1 ∧ (yearLoop value days).1 < 130 ∧ 0 ≤ (yearLoop value days).2 ∧
      (yearLoop value days).2 < yearDays (yearLoop value days).1 ∧
      (yearLoop value days).1 * 365 + ((yearLoop value days).1 + 1) / 4 + (yearLoop value days).2 =
        value * 365 + (value + 1) / 4 + days := by
  fun_induction yearLoop value days with
  | case1 value days more ih =>
    have size := yearDays_eq value low (by omega)
    have later := ih (by omega) (by omega) (by omega)
    omega
  | case2 value days done =>
    have year : value < 130 := by omega
    exact ⟨low, year, day, Int.not_le.mp done, rfl⟩

theorem exists_month : ∀ (leap : Bool), ∀ d < 366, ((d : Nat) : Int) < (if leap then 366 else 365) →
    ∃ m < 12, clockDaysbeforemonth (m : Nat) leap ≤ d ∧
      d < clockDaysbeforemonth m leap + monthDays leap m := by
  decide +kernel

theorem monthLoop_of_day : ∀ (leap : Bool), ∀ m < 12, ∀ d < (monthDays leap (m : Nat)).toNat,
    monthLoop leap (clockDaysbeforemonth m leap + (d : Nat)) 4 0 11 = some (m : Int) := by
  decide +kernel

theorem month_within : ∀ (leap : Bool), ∀ m < 12, 0 ≤ clockDaysbeforemonth (m : Nat) leap ∧
    clockDaysbeforemonth m leap + monthDays leap m ≤ if leap then 366 else 365 := by
  decide +kernel

variable {day mon value : Int}

theorem daysbeforemonth_add_lt (is : IsDay value mon day) :
    0 ≤ clockDaysbeforemonth mon (clockIsleapyear (value + 1970)) ∧
      clockDaysbeforemonth mon (clockIsleapyear (value + 1970)) + day < yearDays value := by
  obtain ⟨_, _, low, high, _, inside⟩ := is
  obtain ⟨m, rfl⟩ := Int.eq_ofNat_of_zero_le low
  have within := month_within (clockIsleapyear (value + 1970)) m (by omega)
  unfold yearDays
  omega

theorem dayNumber_bounds (is : IsDay value mon day) :
    0 ≤ dayNumber value mon day ∧ dayNumber value mon day < 47482 := by
  have before := daysbeforemonth_add_lt is
  obtain ⟨low, high, _, _, _, _⟩ := is
  have size := yearDays_eq value low high
  unfold dayNumber
  omega

theorem clockUtc2calendar_dayNumber (is : IsDay value mon day) :
    clockUtc2calendar (dayNumber value mon day) = some (1970 + value, mon + 1, day + 1) := by
  have before := daysbeforemonth_add_lt is
  obtain ⟨low, high, first, last, least, inside⟩ := is
  have size := yearDays_eq value low high
  unfold dayNumber clockUtc2calendar
  generalize number : value * 365 + (value + 1) / 4 +
    clockDaysbeforemonth mon (clockIsleapyear (value + 1970)) + day = n
  rw [Int.tdiv_eq_ediv_of_nonneg (by omega)]
  have run := yearLoop_days (n / 1461 * 4) (n - n / 1461 * 1461) (by omega) (by omega) (by omega)
  have size' := yearDays_eq _ run.1 run.2.1
  have year : (yearLoop (n / 1461 * 4) (n - n / 1461 * 1461)).1 = value := by omega
  have found : yearLoop (n / 1461 * 4) (n - n / 1461 * 1461) =
      (value, clockDaysbeforemonth mon (clockIsleapyear (value + 1970)) + day) := by
    refine Prod.ext year ?_
    dsimp only
    omega
  obtain ⟨m, rfl⟩ := Int.eq_ofNat_of_zero_le first
  obtain ⟨d, rfl⟩ := Int.eq_ofNat_of_zero_le least
  have month := monthLoop_of_day (clockIsleapyear (value + 1970)) m (by omega) d (by omega)
  simp only [found, month, Option.map_some]
  congr 3
  omega

theorem exists_dayNumber (n : Int) (low : 0 ≤ n) (high : n < 47482) :
    ∃ value mon day, IsDay value mon day ∧ dayNumber value mon day = n := by
  have run := yearLoop_days 0 n (by omega) low (by omega)
  generalize (yearLoop 0 n).1 = value at run
  generalize (yearLoop 0 n).2 = rest at run
  obtain ⟨first, last, least, inside, number⟩ := run
  obtain ⟨d, rfl⟩ := Int.eq_ofNat_of_zero_le least
  unfold yearDays at inside
  obtain ⟨m, hm, after, within⟩ :=
    exists_month (clockIsleapyear (value + 1970)) d (by omega) inside
  refine ⟨value, m, d - clockDaysbeforemonth m (clockIsleapyear (value + 1970)),
    ⟨first, last, by omega, by omega, by omega, by omega⟩, ?_⟩
  unfold dayNumber
  omega

theorem ckCheckTmOk_iff (t : Tm) : ckCheckTmOk t = true ↔ IsDay (t.year - 70) t.mon (t.mday - 1) ∧
    0 ≤ t.hour ∧ t.hour < 24 ∧ 0 ≤ t.min ∧ t.min < 60 ∧ 0 ≤ t.sec ∧ t.sec < 60 := by
  have year : t.year - 70 + 1970 = t.year + 1900 := by omega
  simp only [ckCheckTmOk, IsDay, decide_eq_true_eq, year]
  omega

theorem seconds_eq (t : Tm) : seconds t = dayNumber (t.year - 70) t.mon (t.mday - 1) * 86400 +
    t.hour * 3600 + t.min * 60 + t.sec := by
  have year : t.year - 70 + 1970 = t.year + 1900 := by omega
  simp only [seconds, dayNumber, clockCalendar2utc, year]
  omega

theorem seconds_bounds {t : Tm} (ok : ckCheckTmOk t = true) :
    0 ≤ seconds t ∧ seconds t < 4102444800 := by
  obtain ⟨is, h0, h1, m0, m1, s0, s1⟩ := (ckCheckTmOk_iff t).mp ok
  have days := dayNumber_bounds is
  rw [seconds_eq]
  omega

theorem gmtimeR_seconds {t : Tm} (ok : ckCheckTmOk t = true) : gmtimeR (seconds t) = some t := by
  obtain ⟨is, h0, h1, m0, m1, s0, s1⟩ := (ckCheckTmOk_iff t).mp ok
  have calendar := clockUtc2calendar_dayNumber is
  have days := dayNumber_bounds is
  rw [seconds_eq]
  generalize dayNumber (t.year - 70) t.mon (t.mday - 1) = n at calendar days
  have day : (n * 86400 + t.hour * 3600 + t.min * 60 + t.sec).tdiv 86400 = n := by
    rw [Int.tdiv_eq_ediv_of_nonneg (by omega)]
    omega
  have hour : (n * 86400 + t.hour * 3600 + t.min * 60 + t.sec - 86400 * n).tdiv 3600 = t.hour := by
    rw [Int.tdiv_eq_ediv_of_nonneg (by omega)]
    omega
  have min : (n * 86400 + t.hour * 3600 + t.min * 60 + t.sec - 86400 * n -
      3600 * t.hour).tdiv 60 = t.min := by
    rw [Int.tdiv_eq_ediv_of_nonneg (by omega)]
    omega
  simp only [gmtimeR, day, hour, min, calendar, Option.map_some]
  congr 2 <;> omega

theorem exists_seconds (time : Int) (low : 0 ≤ time) (high : time < 4102444800) :
    ∃ t, ckCheckTmOk t = true ∧ seconds t = time := by
  obtain ⟨value, mon, day, is, number⟩ := exists_dayNumber (time / 86400) (by omega) (by omega)
  refine ⟨⟨time % 60, time / 60 % 60, time / 3600 % 24, day + 1, mon, value + 70⟩, ?_, ?_⟩
  · rw [ckCheckTmOk_iff]
    dsimp only
    rw [Int.add_sub_cancel, Int.add_sub_cancel]
    exact ⟨is, by omega, by omega, by omega, by omega, by omega, by omega⟩
  · rw [seconds_eq]
    simp only [Int.add_sub_cancel, number]
    omega

theorem timeT_eq {n : Int} (low : 0 ≤ n) (high : n < 2147483648) : timeT n = n := by
  unfold timeT
  omega

/-- `gmtime_r` undoes `mktime` on every accepted calendar time whose second count fits `time_t`, and
`mktime` undoes `gmtime_r` on every `time_t` from 0 to the largest one. -/
theorem calendar_round_trip :
    (∀ t, ckCheckTmOk t = true → seconds t < 2147483648 → gmtimeR (mktime t) = some t) ∧
      ∀ time : Int, 0 ≤ time → time < 2147483648 →
        ∃ t, gmtimeR time = some t ∧ mktime t = time := by
  constructor
  · intro t ok fits
    rw [mktime, if_pos ok, timeT_eq (seconds_bounds ok).1 fits, gmtimeR_seconds ok]
  intro time low high
  obtain ⟨t, ok, rfl⟩ := exists_seconds time low (by omega)
  refine ⟨t, gmtimeR_seconds ok, ?_⟩
  rw [mktime, if_pos ok, timeT_eq low high]

end Phy6212.Rtc
