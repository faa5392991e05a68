import Phy6212.Rtc.Calendar

/-!
# The alarm of the real-time clock

`csi_rtc_set_alarm` turns a calendar time into a value of the 24-bit counter, which makes eight
ticks a second.
-/

namespace Phy6212.Rtc

/-- The counter, the count of its overflows and the time at which both were zero. -/
structure Clock where
  cnt : Fin 16777216
  cc2 : Nat
  rtcBase : Tm
  deriving Repr

def phyRtcReadtime (c : Clock) : Int := ((c.cnt : Int) + (c.cc2 % 16777216 : Nat) * 16777216) / 8

inductive Error where
  | driverParameter
  | rtcTime
  deriving DecidableEq, Repr

/-- The value that `RTC_CC0` is set to. -/
def phyRtcSetmarchtime (c : Clock) (settime : Int) : Except Error Int :=
  if settime < 0 ∨ 16777216 ≤ settime * 8 then .error .driverParameter
  else .ok ((settime * 8 + c.cnt) % 4294967296)

def csiRtcGetTime (c : Clock) : Option Tm := gmtimeR (timeT (phyRtcReadtime c + mktime c.rtcBase))

/-- What the function returns, and the value of `RTC_CC0` if it was set. -/
def csiRtcSetAlarm (c : Clock) (rtctime : Tm) : Option (Except Error Unit × Option Int) := do
  if ckCheckTmOk rtctime then
    let current ← csiRtcGetTime c
    let settime := mktime rtctime - mktime current
    if settime < 0 then return (.error .rtcTime, none)
    else return (.ok (), (phyRtcSetmarchtime c settime).toOption)
  else return (.error .rtcTime, none)

/-- The time of the clock, a calendar time that its `time_t` can hold. -/
def Shows (c : Clock) (now : Int) : Prop :=
  ckCheckTmOk c.rtcBase = true ∧ now = phyRtcReadtime c + seconds c.rtcBase ∧ now < 2147483648

/-- Counting from `cnt`, the counter is next at `value` after `ticks` ticks. -/
def NextAt (cnt value ticks : Int) : Prop :=
  0 ≤ ticks ∧ ticks < 16777216 ∧ (cnt + ticks) % 16777216 = value

instance (cnt value ticks : Int) : Decidable (NextAt cnt value ticks) := by
  unfold NextAt
  infer_instance

/-- What the caller relies on: a call that returns 0 has set the compare register to the value that
the counter reaches at the requested time. -/
def Programmed (c : Clock) (now : Int) (rtctime : Tm) : Prop :=
  ∃ answer, csiRtcSetAlarm c rtctime = some answer ∧ (answer.1 = .ok () →
    ∃ value, answer.2 = some value ∧ NextAt c.cnt value (8 * (seconds rtctime - now)))

theorem mktime_csiRtcGetTime {c : Clock} {now : Int} (shows : Shows c now) :
    ∃ current, csiRtcGetTime c = some current ∧ mktime current = now := by
  obtain ⟨ok, rfl, fits⟩ := shows
  have base := (seconds_bounds ok).1
  have read : 0 ≤ phyRtcReadtime c := by unfold phyRtcReadtime; omega
  have sum : csiRtcGetTime c = gmtimeR (phyRtcReadtime c + seconds c.rtcBase) := by
    rw [csiRtcGetTime, mktime, if_pos ok, timeT_eq base (by omega), timeT_eq (by omega) fits]
  obtain ⟨t, valid, time⟩ :=
    exists_seconds (phyRtcReadtime c + seconds c.rtcBase) (by omega) (by omega)
  refine ⟨t, by rw [sum, ← time, gmtimeR_seconds valid], ?_⟩
  rw [mktime, if_pos valid, time, timeT_eq (by omega) fits]

theorem csiRtcSetAlarm_eq {c : Clock} {now : Int} (shows : Shows c now) (rtctime : Tm) :
    csiRtcSetAlarm c rtctime = some (
      if ckCheckTmOk rtctime ∧ now ≤ mktime rtctime then
        (.ok (), (phyRtcSetmarchtime c (mktime rtctime - now)).toOption)
      else (.error .rtcTime, none)) := by
  obtain ⟨current, got, time⟩ := mktime_csiRtcGetTime shows
  by_cases ok : ckCheckTmOk rtctime = true
  · by_cases past : mktime rtctime - now < 0
    · simp [csiRtcSetAlarm, ok, got, time, show ¬ now ≤ mktime rtctime by omega]
    · simp [csiRtcSetAlarm, ok, got, time, show now ≤ mktime rtctime by omega]
  · simp [csiRtcSetAlarm, ok]

/-- An alarm is programmed as the caller expects exactly when the function refuses it or the counter
reaches the time before it next overflows. -/
theorem alarm_programmed_iff {c : Clock} {now : Int} (shows : Shows c now) (rtctime : Tm) :
    Programmed c now rtctime ↔ ckCheckTmOk rtctime = false ∨ mktime rtctime < now ∨
      c.cnt + 8 * (seconds rtctime - now) < 16777216 := by
  have low : 0 ≤ now := by
    obtain ⟨ok, rfl, _⟩ := shows
    have := (seconds_bounds ok).1
    unfold phyRtcReadtime
    omega
  simp only [Programmed, csiRtcSetAlarm_eq shows, Option.some.injEq, exists_eq_left']
  by_cases ok : ckCheckTmOk rtctime = true
  · have range := seconds_bounds ok
    have time : mktime rtctime = timeT (seconds rtctime) := by rw [mktime, if_pos ok]
    by_cases future : now ≤ mktime rtctime
    · have fits : mktime rtctime = seconds rtctime := by unfold timeT at time; omega
      rw [if_pos ⟨ok, future⟩, fits, phyRtcSetmarchtime]
      rw [fits] at future
      simp only [ok, Bool.true_eq_false, false_or, forall_const]
      split
      · simp only [Except.toOption, reduceCtorEq, false_and, exists_false, false_iff]
        omega
      · simp only [Except.toOption, NextAt, Option.some.injEq, exists_eq_left']
        omega
    · simp [future]
      omega
  · simp [ok]

/-- Half an hour after midnight the counter stands at 14400; it reaches an alarm for four in the
morning before it overflows. -/
theorem alarm_programmed_near :
    let c : Clock := ⟨14400, 0, ⟨0, 0, 0, 1, 0, 120⟩⟩
    Shows c 1577838600 ∧ Programmed c 1577838600 ⟨0, 0, 4, 1, 0, 120⟩ := by
  have shows : Shows ⟨14400, 0, ⟨0, 0, 0, 1, 0, 120⟩⟩ 1577838600 := by unfold Shows; decide +kernel
  exact ⟨shows, (alarm_programmed_iff shows _).mpr (.inr (.inr (by decide +kernel)))⟩

/-- A request for the first day of the next month is beyond the 24 days that the counter can show:
nothing is programmed and the caller gets 0. -/
theorem alarm_far_lost :
    let c : Clock := ⟨14400, 0, ⟨0, 0, 0, 1, 0, 120⟩⟩
    Shows c 1577838600 ∧ csiRtcSetAlarm c ⟨0, 0, 0, 1, 1, 120⟩ = some (.ok (), none) ∧
      ¬ Programmed c 1577838600 ⟨0, 0, 0, 1, 1, 120⟩ := by
  have shows : Shows ⟨14400, 0, ⟨0, 0, 0, 1, 0, 120⟩⟩ 1577838600 := by unfold Shows; decide +kernel
  have far : csiRtcSetAlarm ⟨14400, 0, ⟨0, 0, 0, 1, 0, 120⟩⟩ ⟨0, 0, 0, 1, 1, 120⟩ =
      some (.ok (), none) := by
    rw [csiRtcSetAlarm_eq shows]
    rfl
  refine ⟨shows, far, ?_⟩
  rintro ⟨answer, got, set⟩
  rw [far, Option.some.injEq] at got
  subst got
  obtain ⟨value, none, _⟩ := set rfl
  cases none

end Phy6212.Rtc
