import Mathlib.Algebra.GroupWithZero.Nat
import Phy6212.Pm.Suspend
import Phy6212.Runs.Simulation

/-!
# The time of a sleep

How `sys_soc_resume` adds a sleep to the system tick, which counts 625 microseconds. What a division
leaves over is kept in `rtc_mod_value` and `g_osalTickTrim_mod` for the next wake-up, and carried
only above the divisor, so that a remainder may stand at 625 or at 4 for a while.
-/

namespace Phy6212.Pm

open Runs

/-- The ticks of the RTC from the start of a sleep to the wake-up. -/
def dltTick (currentRTCTick sleepTick : Nat) : Nat :=
  if sleepTick < currentRTCTick then currentRTCTick - sleepTick
  else currentRTCTick + 0xffffff - sleepTick

/-- The ticks since the last wake-up, in the guard of `sys_soc_suspend`. -/
def delt (cnt1 wakeupRtcTick : Nat) : Nat :=
  if wakeupRtcTick ≤ cnt1 then cnt1 - wakeupRtcTick else 0xffffff - wakeupRtcTick + cnt1

/-- **The elapsed ticks are right exactly when the counter has not wrapped**, and those of a sleep
only if the counter has moved. -/
theorem elapsed_ticks_iff (later earlier : Fin 16777216) :
    (dltTick later earlier = (later + 16777216 - earlier) % 16777216 ↔ earlier < later) ∧
      (delt later earlier = (later + 16777216 - earlier) % 16777216 ↔ earlier ≤ later) := by
  unfold dltTick delt
  rw [Fin.lt_def, Fin.le_def]
  constructor
  · split <;> omega
  · split <;> omega

/-- From the last value of the counter to 0 is one tick. -/
theorem elapsed_wrapped : dltTick 0 0xffffff = 0 ∧ delt 0 0xffffff = 0 := by
  decide

/-- The microseconds of a sleep without the tracking of the oscillator: 122/4 and 9/512 of one for
each tick. -/
def sleepTotal (dltTick : Nat) : Nat :=
  uint32 (uint32 (dltTick * 128 - dltTick * 4 - dltTick * 2 + 2) / 4 +
    uint32 (dltTick * 8 + dltTick + 128) / 512)

theorem sleepTotal_eq {ticks : Nat} (counter : ticks < 16777216) :
    sleepTotal ticks = (ticks * 122 + 2) / 4 + (ticks * 9 + 128) / 512 := by
  have coarse : uint32 (ticks * 128 - ticks * 4 - ticks * 2 + 2) = ticks * 122 + 2 := by
    unfold uint32
    omega
  have fine : uint32 (ticks * 8 + ticks + 128) = ticks * 9 + 128 := by
    unfold uint32
    omega
  rw [sleepTotal, coarse, fine]
  exact Nat.mod_eq_of_lt (by omega)

/-- **Both conversions are close**: the microseconds of fewer than `2 ^ 24` ticks are computed
without an overflow and less than one away from `10 ^ 6 / 32768` for each tick, and the ticks of a
sleep at most 3, and one for each 600000 microseconds, away from `32768 / 10 ^ 6`. -/
theorem conversions_close (ticks micros : Nat) (counter : ticks < 16777216) :
    (ticks * 128 < 4294967296 ∧
      sleepTotal ticks = (ticks * 122 + 2) / 4 + (ticks * 9 + 128) / 512 ∧
      sleepTotal ticks * 32768 < ticks * 1000000 + 32768 ∧
      ticks * 1000000 < sleepTotal ticks * 32768 + 32768) ∧
    micros * 32768 * 3 ≤ sleepTicks micros * 3000000 + 9000000 + micros * 5 ∧
      sleepTicks micros * 1000000 ≤ micros * 32768 + 3000000 := by
  refine ⟨⟨by omega, sleepTotal_eq counter, ?_⟩, ?_, micros_sleepTicks_le micros⟩
  · rw [sleepTotal_eq counter]
    omega
  · simp only [sleepTicks]
    omega

theorem conversions_close_second : sleepTotal 32768 = 1000000 ∧ sleepTicks 1000000 = 32768 ∧
    sleepTotal 32768 * 32768 < 32768 * 1000000 + 32768 :=
  ⟨by decide, by decide, (conversions_close 32768 1000000 (by decide)).1.2.2.1⟩

/-- What the code reads at a wake-up. -/
structure Wake where
  wakeupTrim : Nat
  toSleepDeltTick : Nat
  pendingTick : Nat
  sleepTotal : Nat

/-- The delays around a sleep, in quarters of a microsecond. -/
def Wake.delay (w : Wake) : Nat := w.wakeupTrim + w.toSleepDeltTick + 2500 - w.pendingTick

/-- The delays as a `uint32_t`. -/
def Wake.raw (w : Wake) : Nat :=
  uint32 (w.wakeupTrim + w.toSleepDeltTick + 2500 + (4294967296 - w.pendingTick))

/-- The system tick, with the two remainders. -/
structure Ticks where
  osalSysTick : Nat
  rtcModValue : Nat := 0
  osalTickTrimMod : Nat := 0

/-- `g_osal_tick_trim` and `g_osalTickTrim_mod` after a wake-up. -/
def Ticks.trim (s : Ticks) (w : Wake) : Nat × Nat :=
  let trimMod := uint32 (s.osalTickTrimMod + w.raw % 4)
  if 4 < trimMod then (uint32 (w.raw / 4 + 1), trimMod % 4) else (w.raw / 4, trimMod)

/-- `osal_sys_tick` and `rtc_mod_value` after a wake-up. -/
def Ticks.resume (s : Ticks) (w : Wake) : Ticks :=
  let slept := uint32 (w.sleepTotal + (s.trim w).1)
  let sysTick := uint32 (s.osalSysTick + slept / 625)
  let modValue := uint32 (s.rtcModValue + slept % 625)
  if 625 < modValue then ⟨uint32 (sysTick + 1), modValue % 625, (s.trim w).2⟩
  else ⟨sysTick, modValue, (s.trim w).2⟩

/-- A wake-up, with the trim it adds. -/
def Ticks.step (s : Ticks) (w : Wake) : Except Empty (Nat × Ticks) :=
  .ok ((s.trim w).1, s.resume w)

/-- No 32-bit overflow at a wake-up. -/
structure Ticks.Fits (s : Ticks) (w : Wake) : Prop where
  pending : w.pendingTick ≤ w.wakeupTrim + w.toSleepDeltTick + 2500
  delays : w.wakeupTrim + w.toSleepDeltTick + 2500 < 4294967296
  slept : w.sleepTotal + (s.trim w).1 < 4294967296
  ticks : s.osalSysTick + (w.sleepTotal + (s.trim w).1) / 625 +
    (if 625 < s.rtcModValue + (w.sleepTotal + (s.trim w).1) % 625 then 1 else 0) < 4294967296

/-- Both remainders are at most their divisors. One carry at a wake-up is then enough. -/
structure Ticks.Bounded (s : Ticks) : Prop where
  rtcModValue : s.rtcModValue ≤ 625
  osalTickTrimMod : s.osalTickTrimMod ≤ 4

variable {s : Ticks} {w : Wake}

theorem Ticks.Fits.raw (fits : s.Fits w) : w.raw = w.delay := by
  obtain ⟨pending, delays, -, -⟩ := fits
  unfold Wake.raw Wake.delay uint32
  omega

/-- What the trim of a wake-up leaves out stays in the remainder. -/
theorem Ticks.Bounded.trim (bounded : s.Bounded) (fits : s.Fits w) :
    4 * (s.trim w).1 + (s.trim w).2 = w.delay + s.osalTickTrimMod ∧ (s.trim w).2 ≤ 4 := by
  have small : w.delay < 4294967296 := by
    rw [← fits.raw]
    exact Nat.mod_lt _ (by decide)
  have trimMod := bounded.osalTickTrimMod
  simp only [Ticks.trim, fits.raw, uint32]
  split <;> omega

theorem Ticks.Bounded.resume (bounded : s.Bounded) (fits : s.Fits w) :
    625 * (s.resume w).osalSysTick + (s.resume w).rtcModValue =
      625 * s.osalSysTick + s.rtcModValue + (w.sleepTotal + (s.trim w).1) ∧
      (s.resume w).osalTickTrimMod = (s.trim w).2 ∧ (s.resume w).Bounded := by
  have left := (bounded.trim fits).2
  have modValue := bounded.rtcModValue
  obtain ⟨-, -, slept, ticks⟩ := fits
  unfold Ticks.resume
  generalize w.sleepTotal + (s.trim w).1 = micros at slept ticks ⊢
  have sum : uint32 (s.rtcModValue + uint32 micros % 625) = s.rtcModValue + micros % 625 := by
    unfold uint32
    omega
  simp only [sum]
  -- the sum of two remainders is below twice the divisor, so one tick is all that is carried
  by_cases carry : 625 < s.rtcModValue + micros % 625
  · rw [if_pos carry] at ticks ⊢
    unfold uint32
    refine ⟨by simp only; omega, rfl, by simp only; omega, left⟩
  · rw [if_neg carry] at ticks ⊢
    unfold uint32
    refine ⟨by simp only; omega, rfl, by simp only; omega, left⟩

theorem Ticks.Bounded.resumes {ws : List Wake} (bounded : s.Bounded)
    (fits : Guarded Ticks.step Ticks.Fits s ws) : ∃ trims s', run Ticks.step s ws = .ok (trims, s') ∧
      625 * s'.osalSysTick + s'.rtcModValue =
        625 * s.osalSysTick + s.rtcModValue + ((ws.map Wake.sleepTotal).sum + trims.sum) ∧
      4 * trims.sum + s'.osalTickTrimMod = (ws.map Wake.delay).sum + s.osalTickTrimMod ∧
      s'.Bounded := by
  induction ws generalizing s with
  | nil => exact ⟨[], s, rfl, rfl, rfl, bounded⟩
  | cons w ws ih =>
    obtain ⟨fits, later⟩ := fits
    obtain ⟨conserved, trimMod, bounded'⟩ := bounded.resume fits
    have trimmed := (bounded.trim fits).1
    obtain ⟨trims, s', rest, ticks, trim, finish⟩ := ih bounded' (later _ _ rfl)
    refine ⟨(s.trim w).1 :: trims, s', run_cons rfl rest, ?_, ?_, finish⟩
    · simp only [List.map_cons, List.sum_cons]
      omega
    · simp only [List.map_cons, List.sum_cons]
      omega

/-- **No time is lost over any number of sleeps**, if nothing overflows. -/
theorem time_conserved (tick : Nat) (ws : List Wake)
    (fits : Guarded Ticks.step Ticks.Fits ⟨tick, 0, 0⟩ ws) :
    ∃ trims s, run Ticks.step ⟨tick, 0, 0⟩ ws = .ok (trims, s) ∧
      625 * s.osalSysTick + s.rtcModValue =
        625 * tick + ((ws.map Wake.sleepTotal).sum + trims.sum) ∧
      4 * trims.sum + s.osalTickTrimMod = (ws.map Wake.delay).sum ∧
      s.rtcModValue ≤ 625 ∧ s.osalTickTrimMod ≤ 4 := by
  obtain ⟨trims, s, ok, ticks, trim, bounded⟩ :=
    Ticks.Bounded.resumes ⟨Nat.zero_le 625, Nat.zero_le 4⟩ fits
  exact ⟨trims, s, ok, ticks, trim, bounded.rtcModValue, bounded.osalTickTrimMod⟩

theorem time_conserved_twice :
    ∃ trims s, run Ticks.step ⟨0, 0, 0⟩ [⟨16, 0, 3, 1000⟩, ⟨16, 0, 3, 1000⟩] = .ok (trims, s) ∧
      625 * s.osalSysTick + s.rtcModValue = 2000 + trims.sum := by
  obtain ⟨trims, s, ok, ticks, -⟩ :=
    time_conserved 0 [⟨16, 0, 3, 1000⟩, ⟨16, 0, 3, 1000⟩]
      ⟨⟨by decide, by decide, by decide, by decide⟩, fun r s' ok => by
        cases ok
        exact ⟨⟨by decide, by decide, by decide, by decide⟩, fun _ _ _ => trivial⟩⟩
  exact ⟨trims, s, ok, by simpa using ticks⟩

end Phy6212.Pm
