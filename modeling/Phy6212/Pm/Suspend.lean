import Mathlib.Tactic.Basic

/-!
# The length of a sleep

`sys_soc_suspend` of `pm.c` with the tracking of the 32 kHz oscillator off.
-/

namespace Phy6212.Pm

/-- What `init_config` sets, in microseconds. -/
def wakeupAdvance : Nat := 1350

def minSleepTime : Nat := 1500

def maxSleepTime : Nat := 30000000

def uint32 (n : Nat) : Nat := n % 4294967296

/-- What the function reads: the counter, the next timeout of the OSAL timers (0 for none), the
state of the link layer with its remaining time, the time for which the kernel suspends, and the
conditions under which it does not sleep. -/
structure Attempt where
  clockTimeRtc : Fin 16777216
  osalNextTimeout : Nat
  llIdle : Bool
  llRemainderTime : Nat
  suspendMs : Nat
  sleepAllowed : Bool := true
  llWaitingIrq : Bool := false
  timerOverrun : Bool := false
  mcuSleepMode : Bool := false
  deriving Repr

def tickMicros (ticks : Nat) : Nat :=
  uint32 ((ticks * 128 - ticks * 4 - ticks * 2) / 4 + (ticks * 8 + ticks) / 512)

def sleepTicks (next : Nat) : Nat :=
  let temp1 := next / 512
  let temp2 := next / 2048
  next / 32 + temp1 - temp2 + temp2 / 8 - temp2 / 64 - temp2 / 256

def Attempt.llRemainTime (a : Attempt) : Nat :=
  if a.llIdle then maxSleepTime else a.llRemainderTime

/-- The microseconds until the first of the events that the chip has to be awake for. -/
def Attempt.next (a : Attempt) : Nat :=
  let rtcCounter := tickMicros (0xffffff - a.clockTimeRtc)
  let osal := uint32 (a.osalNextTimeout * 1000)
  let next := if osal = 0 then rtcCounter else min rtcCounter osal
  min (uint32 (a.suspendMs * 1000)) (min a.llRemainTime next)

/-- The argument of `enterSleepProcess11`, `none` when the function returns without a sleep. -/
def sysSocSuspend (a : Attempt) : Option Nat :=
  if a.sleepAllowed = false ∨ a.llWaitingIrq ∨ a.timerOverrun ∨ a.mcuSleepMode ∨
      a.next < minSleepTime + wakeupAdvance then none
  else some (sleepTicks (min maxSleepTime (a.next - wakeupAdvance)))

theorem uint32_le (n : Nat) : uint32 n ≤ n := Nat.mod_le _ _

theorem le_of_uint32_eq_zero {n : Nat} (wrapped : uint32 n = 0) : n = 0 ∨ 4294967296 ≤ n := by
  unfold uint32 at wrapped
  omega

theorem tickMicros_le (ticks : Nat) : tickMicros ticks * 32768 ≤ ticks * 1000000 := by
  have wrapped : tickMicros ticks ≤
      (ticks * 128 - ticks * 4 - ticks * 2) / 4 + (ticks * 8 + ticks) / 512 := uint32_le _
  omega

theorem micros_sleepTicks_le (next : Nat) : sleepTicks next * 1000000 ≤ next * 32768 + 3000000 := by
  simp only [sleepTicks]
  omega

/-- The wrap-around of a product makes the time shorter, or 0 for a timer that is more than an hour
away. -/
theorem Attempt.next_le (a : Attempt) :
    a.next ≤ tickMicros (0xffffff - a.clockTimeRtc) ∧ a.next ≤ a.llRemainTime ∧
      a.next ≤ a.suspendMs * 1000 ∧
      (a.osalNextTimeout ≠ 0 → a.next ≤ a.osalNextTimeout * 1000 ∨
        4294967296 ≤ a.osalNextTimeout * 1000) := by
  have kernel := uint32_le (a.suspendMs * 1000)
  have osal := uint32_le (a.osalNextTimeout * 1000)
  simp only [Attempt.next]
  split
  · rename_i wrapped
    have far := le_of_uint32_eq_zero wrapped
    omega
  · omega

/-- The counter does not overflow during a sleep, and a sleep ends before every event that the chip
has to be awake for. -/
theorem sleep_within (a : Attempt) (n : Nat) (asleep : sysSocSuspend a = some n) :
    a.clockTimeRtc + n ≤ 0xffffff ∧
      (a.osalNextTimeout ≠ 0 → n * 1000000 ≤ a.osalNextTimeout * 1000 * 32768) ∧
      n * 1000000 ≤ a.llRemainTime * 32768 ∧ n * 1000000 ≤ a.suspendMs * 1000 * 32768 := by
  have bounds := a.next_le
  have micros := tickMicros_le (0xffffff - a.clockTimeRtc)
  unfold sysSocSuspend at asleep
  split at asleep
  · cases asleep
  rename_i sleeps
  -- the advance of the wake-up is worth 44 ticks, more than the conversion can add
  have long : minSleepTime + wakeupAdvance ≤ a.next :=
    Nat.not_lt.mp fun short => sleeps (by simp [short])
  have ticks := micros_sleepTicks_le (min maxSleepTime (a.next - wakeupAdvance))
  rw [Option.some.inj asleep] at ticks
  unfold minSleepTime wakeupAdvance at long
  unfold maxSleepTime wakeupAdvance at ticks
  omega

/-- An OSAL timer that is 10 ms away is the first event: the chip sleeps for 282 ticks. -/
theorem sleep_within_timer : sysSocSuspend ⟨1000, 10, true, 0, 100, true, false, false, false⟩ =
      some 282 ∧ 1000 + 282 ≤ 0xffffff :=
  ⟨by decide, (sleep_within ⟨1000, 10, true, 0, 100, true, false, false, false⟩ 282 (by decide)).1⟩

end Phy6212.Pm
