import Phy6212.IrNec.Train
import Mathlib.Data.List.Induction

/-!
# The transmitter between transmissions

Any calls and timer expiries may follow each other (`Call`). An accepted transmission ends in time
(`idle_within`).
-/

namespace Phy6212.IrNec

open List

inductive Call where
  | startSend (custom key : UInt8) (timerOk : Bool)
  | stopSend
  | expiry
  deriving DecidableEq, Repr

def Transmitter.call (s : Transmitter) : Call → Transmitter
  | .startSend custom key timerOk => (irNecStartSend s custom key timerOk).2
  | .stopSend => s.step .stopSend
  | .expiry => s.step .tick

def Transmitter.after (s : Transmitter) (calls : List Call) : Transmitter :=
  calls.foldl Transmitter.call s

theorem after_append (s : Transmitter) (before rest : List Call) :
    s.after (before ++ rest) = (s.after before).after rest :=
  foldl_append

variable {s : Transmitter} {custom key : UInt8} {timerOk : Bool}

theorem irNecStartSend_busy (busy : s.isBusy = true) :
    irNecStartSend s custom key timerOk = (-1, s) := by
  rw [irNecStartSend, if_pos busy]

theorem irNecStartSend_failed (free : s.isBusy = false) (custom key : UInt8) :
    (irNecStartSend s custom key false).1 = -1 ∧
      (irNecStartSend s custom key false).2.isBusy = true ∧
      (irNecStartSend s custom key false).2.timer = false := by
  rw [irNecStartSend, free]
  exact ⟨rfl, rfl, rfl⟩

theorem irNecStartSend_refused (refused : (irNecStartSend s custom key timerOk).1 = -1)
    (available : timerOk = false → s.isBusy = true) :
    (irNecStartSend s custom key timerOk).2 = s := by
  by_cases busy : s.isBusy = true
  · rw [irNecStartSend_busy busy]
  cases timerOk with
  | false => exact absurd (available rfl) busy
  | true =>
    rw [irNecStartSend, if_neg busy] at refused
    cases refused

def Transmitter.Owned (s : Transmitter) : Prop := s.isBusy = s.timer

variable (calls : List Call)

theorem irTimerCallback_owned (owned : s.Owned) : (irTimerCallback s).Owned := by
  unfold irTimerCallback
  dsimp only
  split
  · exact owned
  split
  · split
    · split <;> rfl
    · rfl
  split
  · split
    · rfl
    · exact owned
  · exact owned

theorem call_owned (owned : s.Owned) {call : Call}
    (available : ∀ custom key, call = .startSend custom key false → s.isBusy = true) :
    (s.call call).Owned := by
  cases call with
  | stopSend => exact owned
  | expiry =>
    rw [Transmitter.call, Transmitter.step]
    split
    · exact irTimerCallback_owned owned
    · exact owned
  | startSend custom key timerOk =>
    by_cases busy : s.isBusy = true
    · rw [Transmitter.call, irNecStartSend_busy busy]
      exact owned
    cases timerOk with
    | false => exact absurd (available custom key rfl) busy
    | true =>
      rw [Transmitter.call, irNecStartSend, if_neg busy]
      exact irTimerCallback_owned rfl

/-- The calls of a run from the start meet the timer when they need it. -/
def TimerAvailable (calls : List Call) : Prop :=
  ∀ before custom key rest, calls = before ++ .startSend custom key false :: rest →
    (Transmitter.init.after before).isBusy = true

theorem TimerAvailable.before {before rest : List Call}
    (available : TimerAvailable (before ++ rest)) :
    TimerAvailable before := by
  intro first custom key more split
  apply available first custom key _
  rw [split, append_assoc, cons_append]

theorem owned_run (available : TimerAvailable calls) : (Transmitter.init.after calls).Owned := by
  induction calls using reverseRecOn with
  | nil => rfl
  | append_singleton calls call ih =>
    rw [after_append]
    apply call_owned (ih available.before)
    intro custom key same
    apply available calls custom key []
    rw [same]

theorem idle_within {n : Nat} {pending : Bool} (held : Represents custom key s (.sending n pending))
    (enough : 472 ≤ n + calls.count .expiry) :
    ∃ early late, calls = early ++ late ∧ n + early.count .expiry ≤ 472 ∧
      (s.after early).isBusy = false := by
  induction calls generalizing s n pending with
  | nil =>
    have few : n < 472 := held.1
    rw [count_nil] at enough
    omega
  | cons call calls ih =>
    cases call with
    | startSend custom' key' timerOk =>
      have refused : s.call (.startSend custom' key' timerOk) = s := by
        rw [Transmitter.call, irNecStartSend_busy held.2.1]
      obtain ⟨early, late, split, few, idle⟩ := ih held enough
      refine ⟨.startSend custom' key' timerOk :: early, late, by rw [split]; rfl, ?_, ?_⟩
      · exact few
      · rw [Transmitter.after, foldl_cons, refused]
        exact idle
    | stopSend =>
      obtain ⟨early, late, split, few, idle⟩ := ih (represents_step held .stopSend) enough
      refine ⟨.stopSend :: early, late, by rw [split]; rfl, ?_, idle⟩
      exact few
    | expiry =>
      have few : n < 472 := held.1
      have next := represents_step held .tick
      rw [count_cons_self] at enough
      rw [Progress.step] at next
      split at next
      · refine ⟨[.expiry], calls, rfl, ?_, next.1⟩
        exact few
      obtain ⟨early, late, split, few, idle⟩ := ih next (by omega)
      refine ⟨.expiry :: early, late, by rw [split]; rfl, ?_, idle⟩
      rw [count_cons_self]
      omega

/-- In every state of the run the transmitter is busy exactly when it has a timer, every start that
returns -1 leaves the state as it was, and every accepted transmission is idle at the latest behind
two expiries for each of its codes. -/
structure Orderly (calls : List Call) : Prop where
  owned : ∀ before rest, calls = before ++ rest → (Transmitter.init.after before).Owned
  refused : ∀ before custom key timerOk rest, calls = before ++ .startSend custom key timerOk :: rest →
    (irNecStartSend (Transmitter.init.after before) custom key timerOk).1 = -1 →
    (irNecStartSend (Transmitter.init.after before) custom key timerOk).2 = Transmitter.init.after before
  ends : ∀ before custom key timerOk rest, calls = before ++ .startSend custom key timerOk :: rest →
    (irNecStartSend (Transmitter.init.after before) custom key timerOk).1 = 0 →
    2 * (34 + 2 * 101) ≤ rest.count .expiry →
    ∃ early late, rest = early ++ late ∧ early.count .expiry ≤ 2 * (34 + 2 * 101) ∧
      ((irNecStartSend (Transmitter.init.after before) custom key timerOk).2.after early).isBusy = false

/-- **Orderly runs** are those in which no start from the idle transmitter finds that there is no
timer. -/
theorem orderly_iff (calls : List Call) : Orderly calls ↔ TimerAvailable calls := by
  constructor
  · intro orderly before custom key rest split
    by_contra idle
    have free : (Transmitter.init.after before).isBusy = false := Bool.not_eq_true _ ▸ idle
    obtain ⟨returned, busy, -⟩ := irNecStartSend_failed free custom key
    rw [orderly.refused before custom key false rest split returned] at busy
    exact idle busy
  intro available
  refine ⟨?_, ?_, ?_⟩
  · intro before rest split
    subst split
    exact owned_run before available.before
  · intro before custom key timerOk rest split returned
    apply irNecStartSend_refused returned
    intro failed
    subst failed
    exact available before custom key rest split
  intro before custom key timerOk rest split returned enough
  obtain ⟨early, late, whole, few, idle⟩ :=
    idle_within rest (represents_start returned) (by omega)
  exact ⟨early, late, whole, by omega, idle⟩

theorem call_stuck (busy : s.isBusy = true) (without : s.timer = false) (call : Call) :
    (s.call call).isBusy = true ∧ (s.call call).timer = false := by
  cases call with
  | startSend custom key timerOk =>
    rw [Transmitter.call, irNecStartSend_busy busy]
    exact ⟨busy, without⟩
  | stopSend => exact ⟨busy, without⟩
  | expiry =>
    rw [Transmitter.call, Transmitter.step, without]
    exact ⟨busy, without⟩

theorem stuck_run (busy : s.isBusy = true) (without : s.timer = false) :
    (s.after calls).isBusy = true ∧ (s.after calls).timer = false := by
  induction calls generalizing s with
  | nil => exact ⟨busy, without⟩
  | cons call calls ih =>
    obtain ⟨busy, without⟩ := call_stuck busy without call
    exact ih busy without

/-- **A start without a timer** from the idle transmitter returns -1 and blocks it for ever. -/
theorem failed_start_blocks :
    ¬ Orderly [.startSend 0x40 0x15 false] ∧
      (irNecStartSend Transmitter.init 0x40 0x15 false).1 = -1 ∧
      ∀ calls, (Transmitter.init.after (.startSend 0x40 0x15 false :: calls)).isBusy = true ∧
        (Transmitter.init.after (.startSend 0x40 0x15 false :: calls)).timer = false := by
  obtain ⟨returned, busy, without⟩ := irNecStartSend_failed (s := Transmitter.init) rfl 0x40 0x15
  refine ⟨?_, returned, fun calls => stuck_run calls busy without⟩
  intro orderly
  have owned : _ = _ := orderly.owned [.startSend 0x40 0x15 false] [] rfl
  cases owned

end Phy6212.IrNec
