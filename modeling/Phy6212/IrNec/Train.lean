import Phy6212.IrNec.Transmitter

/-!
# The train of codes of a transmission

How far a transmission has come is told by the number of its callbacks (`Progress`).
-/

namespace Phy6212.IrNec

open List

def position (k : Nat) : Nat := if k < 36 then k else 34 + k % 2

def codeAt (custom key : UInt8) (k : Nat) : Code :=
  (frame custom key ++ [Code.c1, Code.c2]).getD (position k) .d0

def train (custom key : UInt8) (m : Nat) : List Code := (range m).map (codeAt custom key)

/-- A transmission behind a number of callbacks, with or without a stop pending, or over
behind a number of codes. -/
inductive Progress where
  | sending (n : Nat) (pending : Bool)
  | idle (m : Nat)
  deriving DecidableEq, Repr

/-- Every second callback ends a code. Behind the stop code a pending stop ends the
transmission there, and the 101st repetition ends it anyway. -/
def Progress.step : Progress → Action → Progress
  | .sending n pending, .tick =>
    if n % 2 = 1 ∧ (34 ≤ n / 2 + 1 ∧ pending = true ∨ n / 2 + 1 = 236) then .idle (n / 2 + 1)
    else .sending (n + 1) pending
  | .sending n _, .stopSend => .sending n true
  | .idle m, _ => .idle m

def Represents (custom key : UInt8) (s : Transmitter) : Progress → Prop
  | .sending n pending =>
    n < 472 ∧ s.isBusy = true ∧ s.timer = true ∧ s.isPendingToStop = pending ∧
    s.codes = frame custom key ++ [.c1, .c2] ∧ s.isHighPeriod = decide (n % 2 = 1) ∧
    s.index = position (n / 2) ∧ s.cycleTimes = (n / 2 - 34) / 2 ∧
    s.emitted = train custom key ((n + 1) / 2)
  | .idle m => s.isBusy = false ∧ s.timer = false ∧ s.emitted = train custom key m

variable {custom key : UInt8} {s : Transmitter} (m : Nat)

theorem train_succ : train custom key (m + 1) = train custom key m ++ [codeAt custom key m] := by
  simp [train, range_succ]

theorem position_succ : position (m + 1) = if 36 ≤ position m + 1 then 34 else position m + 1 := by
  unfold position
  split <;> split <;> split <;> omega

theorem wraps_iff : 36 ≤ position m + 1 ↔ 35 ≤ m ∧ m % 2 = 1 := by
  unfold position
  split <;> omega

theorem le_position_iff : 34 ≤ position m + 1 ↔ 33 ≤ m := by
  unfold position
  split <;> omega

variable {pending : Bool}

theorem represents_mark {n : Nat} (held : Represents custom key s (.sending n pending))
    (even : n % 2 = 0) : Represents custom key (irTimerCallback s) (.sending (n + 1) pending) := by
  obtain ⟨few, busy, timer, stop, codes, high, index, cycles, emitted⟩ := held
  have low : s.isHighPeriod = false := by rw [high, even]; rfl
  have half : (n + 1) / 2 = n / 2 := by omega
  rw [irTimerCallback, if_pos low]
  refine ⟨by omega, busy, timer, stop, codes, ?_, ?_, ?_, ?_⟩
  · simp [show (n + 1) % 2 = 1 by omega]
  · rw [half]
    exact index
  · rw [half]
    exact cycles
  · have next : s.codes.getD s.index .d0 = codeAt custom key (n / 2) := by
      rw [codes, index]
      rfl
    simp only [Transmitter.emitted, filterMap_append] at emitted ⊢
    rw [emitted, half, next, show (n + 1 + 1) / 2 = n / 2 + 1 by omega, train_succ]
    rfl

/-- The callback at the end of a code: the transmission is over with a pending stop, if this
is the stop code or a later one, and with the 101st repetition. -/
def Transmitter.Over (s : Transmitter) : Prop :=
  34 ≤ s.index + 1 ∧ s.isPendingToStop = true ∨ 36 ≤ s.index + 1 ∧ 100 < s.cycleTimes + 1

theorem irTimerCallback_over (high : s.isHighPeriod = true) (finished : s.Over) :
    (irTimerCallback s).isBusy = false ∧ (irTimerCallback s).timer = false ∧
      (irTimerCallback s).emitted = s.emitted := by
  rw [irTimerCallback, if_neg (by rw [high]; decide)]
  simp only [Transmitter.emitted]
  rcases finished with stops | ⟨wraps, timeout⟩
  · rw [if_pos stops]
    split
    · split <;> simp [Transmitter.finish, Pulse.started]
    · simp [Transmitter.finish, Pulse.started]
  split
  · split
    · split <;> simp [Transmitter.finish, Pulse.started]
    · simp [Transmitter.finish, Pulse.started]
  · simp [Transmitter.finish, Pulse.started]

theorem irTimerCallback_next (high : s.isHighPeriod = true) (next : ¬ s.Over) :
    irTimerCallback s = { s with
      pulses := s.pulses ++ [.space (necCodeParam s.code).l]
      carrier := false
      isHighPeriod := false
      index := if 36 ≤ s.index + 1 then 34 else s.index + 1
      cycleTimes := if 36 ≤ s.index + 1 then s.cycleTimes + 1 else s.cycleTimes } := by
  obtain ⟨goes_on, in_time⟩ := not_or.mp next
  rw [irTimerCallback, if_neg (by rw [high]; decide)]
  simp only [if_neg goes_on]
  by_cases wraps : 36 ≤ s.index + 1
  · have few : ¬ 100 < s.cycleTimes + 1 := fun many => in_time ⟨wraps, many⟩
    rw [if_pos wraps, if_neg few, if_pos wraps, if_pos wraps]
  · rw [if_neg wraps, if_neg wraps, if_neg wraps]

theorem represents_space {n : Nat} (held : Represents custom key s (.sending n pending))
    (odd : n % 2 = 1) :
    Represents custom key (irTimerCallback s) (Progress.step (.sending n pending) .tick) := by
  obtain ⟨few, busy, timer, stop, codes, high, index, cycles, emitted⟩ := held
  have high : s.isHighPeriod = true := by rw [high, odd]; rfl
  have half : (n + 1) / 2 = n / 2 + 1 := by omega
  have wraps := wraps_iff (n / 2)
  have over_iff : s.Over ↔ 34 ≤ n / 2 + 1 ∧ pending = true ∨ n / 2 + 1 = 236 := by
    unfold Transmitter.Over
    rw [index, cycles, stop, le_position_iff, wraps]
    constructor
    · rintro (⟨late, asked⟩ | ⟨repeats, many⟩)
      · exact .inl ⟨by omega, asked⟩
      · exact .inr (by omega)
    · rintro (⟨late, asked⟩ | last)
      · exact .inl ⟨by omega, asked⟩
      · exact .inr (by omega)
  by_cases finished : s.Over
  · obtain ⟨idle, off, same⟩ := irTimerCallback_over high finished
    have ends : Progress.step (.sending n pending) .tick = .idle _ :=
      if_pos ⟨odd, over_iff.mp finished⟩
    rw [ends]
    exact ⟨idle, off, by rw [same, emitted, half]⟩
  have goes_on : Progress.step (.sending n pending) .tick = .sending _ pending :=
    if_neg fun both => finished (over_iff.mpr both.2)
  have last : n / 2 + 1 ≠ 236 := fun last => finished (over_iff.mpr (.inr last))
  rw [goes_on, irTimerCallback_next high finished]
  refine ⟨by omega, busy, timer, stop, codes, ?_, ?_, ?_, ?_⟩
  · simp [show (n + 1) % 2 = 0 by omega]
  · simp only [index, half, position_succ]
  · simp only [index, cycles, half, wraps]
    split <;> omega
  · simp only [Transmitter.emitted, filterMap_append] at emitted ⊢
    rw [emitted, show (n + 1 + 1) / 2 = (n + 1) / 2 by omega]
    simp [Pulse.started]

theorem represents_step {p : Progress} (held : Represents custom key s p) (a : Action) :
    Represents custom key (s.step a) (p.step a) := by
  cases p with
  | idle m =>
    obtain ⟨idle, off, emitted⟩ := held
    cases a with
    | tick =>
      rw [Transmitter.step, off]
      exact ⟨idle, off, emitted⟩
    | stopSend => exact ⟨idle, off, emitted⟩
  | sending n pending =>
    have timer : s.timer = true := held.2.2.1
    cases a with
    | tick =>
      rw [Transmitter.step, if_pos timer]
      rcases Nat.mod_two_eq_zero_or_one n with even | odd
      · have goes_on : Progress.step (.sending n pending) .tick = .sending _ pending :=
          if_neg fun both => by omega
        rw [goes_on]
        exact represents_mark held even
      · exact represents_space held odd
    | stopSend =>
      obtain ⟨few, busy, timer, stop, rest⟩ := held
      exact ⟨few, busy, timer, rfl, rest⟩

theorem represents_run {p : Progress} (as : List Action) (held : Represents custom key s p) :
    Represents custom key (as.foldl Transmitter.step s) (as.foldl Progress.step p) := by
  induction as generalizing s p with
  | nil => exact held
  | cons a as ih => exact ih (represents_step held a)

theorem represents_start {timerOk : Bool} (started : (irNecStartSend s custom key timerOk).1 = 0) :
    Represents custom key (irNecStartSend s custom key timerOk).2 (.sending 1 false) := by
  unfold irNecStartSend at started ⊢
  split at started
  · cases started
  rename_i free
  cases timerOk with
  | false => cases started
  | true =>
    rw [if_neg free]
    refine represents_mark ⟨by decide, rfl, rfl, rfl, buildCodes_eq custom key, rfl, rfl, rfl,
      rfl⟩ rfl

/-- The number of timer callbacks before the first call of `ir_nec_stop_send`. -/
def ticksBeforeStop : List Action → Nat
  | .tick :: as => ticksBeforeStop as + 1
  | _ => 0

/-- The number of codes of a transmission whose stop is asked for behind `n` callbacks. -/
def ending (n : Nat) : Nat := if n < 472 then max 34 (n / 2 + 1) else 236

variable {n : Nat} (as : List Action)

theorem idle_stays (m : Nat) : as.foldl Progress.step (.idle m) = .idle m := by
  induction as with
  | nil => rfl
  | cons a as ih => exact ih

theorem idle_of_pending {m : Nat} (few : n < 472)
    (idle : as.foldl Progress.step (.sending n true) = .idle m) : m = max 34 (n / 2 + 1) := by
  induction as generalizing n with
  | nil => cases idle
  | cons a as ih =>
    cases a with
    | stopSend => exact ih few idle
    | tick =>
      rw [foldl_cons, Progress.step] at idle
      split at idle
      · rw [idle_stays, Progress.idle.injEq] at idle
        omega
      · next goes_on =>
        simp only [and_true] at goes_on
        rw [ih (by omega) idle]
        omega

theorem idle_run {m : Nat} (few : n < 472)
    (idle : as.foldl Progress.step (.sending n false) = .idle m) :
    m = ending (n + ticksBeforeStop as) := by
  induction as generalizing n with
  | nil => cases idle
  | cons a as ih =>
    cases a with
    | stopSend =>
      rw [idle_of_pending as few idle]
      exact (if_pos few).symm
    | tick =>
      rw [foldl_cons, Progress.step] at idle
      rw [ticksBeforeStop]
      simp only [Bool.false_eq_true, and_false, false_or] at idle
      split at idle
      · rw [idle_stays, Progress.idle.injEq] at idle
        rw [ending, if_neg (by omega)]
        omega
      · next goes_on =>
        rw [ih (by omega) idle]
        congr 1
        omega

theorem sending_run {n' : Nat} {pending' : Bool} (few : n < 472)
    (sending : as.foldl Progress.step (.sending n pending) = .sending n' pending') :
    n' = n + as.count .tick ∧ n' < 472 := by
  induction as generalizing n pending with
  | nil =>
    cases sending
    exact ⟨rfl, few⟩
  | cons a as ih =>
    cases a with
    | stopSend => simpa using ih few sending
    | tick =>
      rw [foldl_cons, Progress.step] at sending
      split at sending
      · rw [idle_stays] at sending
        cases sending
      · next goes_on =>
        obtain ⟨counted, few'⟩ := ih (by omega) sending
        rw [count_cons_self]
        omega

def Complete (custom key : UInt8) (codes : List Code) : Prop :=
  ∃ k, codes = frame custom key ++ (replicate k [Code.c1, Code.c2]).flatten

variable (custom key : UInt8)

theorem length_frame : (frame custom key).length = 34 := rfl

variable (k : Nat)

theorem codeAt_c1 : codeAt custom key (34 + 2 * k) = .c1 := by
  have place : position (34 + 2 * k) = 34 := by
    unfold position
    split <;> omega
  rw [codeAt, place]
  rfl

theorem codeAt_c2 : codeAt custom key (34 + 2 * k + 1) = .c2 := by
  have place : position (34 + 2 * k + 1) = 35 := by
    unfold position
    split <;> omega
  rw [codeAt, place]
  rfl

theorem train_frame : train custom key 34 = frame custom key := rfl

theorem train_repeats : train custom key (34 + 2 * k) =
    frame custom key ++ (replicate k [Code.c1, Code.c2]).flatten := by
  induction k with
  | zero => rw [Nat.mul_zero, Nat.add_zero, train_frame, replicate_zero, flatten_nil,
      append_nil]
  | succ k ih =>
    rw [Nat.mul_succ, ← Nat.add_assoc, train_succ, train_succ, ih, codeAt_c1, codeAt_c2,
      replicate_succ', flatten_concat]
    simp

theorem train_complete {m : Nat} (enough : 34 ≤ m) :
    Complete custom key (train custom key m) ↔ m % 2 = 0 := by
  constructor
  · rintro ⟨k, equal⟩
    have lengths := congrArg length equal
    simp only [train, length_map, length_range, length_append, length_frame,
      length_flatten, map_replicate, length_cons, length_nil,
      sum_replicate_nat] at lengths
    omega
  intro even
  refine ⟨(m - 34) / 2, ?_⟩
  rw [← train_repeats]
  congr 1
  omega

/-- When a stop is asked for in time: before the space of the stop code; between the space of the
first code of a repetition and the mark of the second one; or not before the transmission is
over. -/
def Timely (as : List Action) : Prop :=
  let n := ticksBeforeStop as + 1
  n < 68 ∨ n % 4 = 2 ∨ n % 4 = 3 ∨ 472 ≤ n

/-- **Which codes a transmission has.** -/
theorem train_complete_iff (s : Transmitter) (custom key : UInt8) (timerOk : Bool)
    (started : (irNecStartSend s custom key timerOk).1 = 0) (as : List Action) :
    let t := as.foldl Transmitter.step (irNecStartSend s custom key timerOk).2
    (471 ≤ as.count .tick → t.isBusy = false) ∧
      (t.isBusy = false → (Complete custom key t.emitted ↔ Timely as)) := by
  intro t
  have held := represents_run as (represents_start started)
  cases place : as.foldl Progress.step (.sending 1 false) with
  | sending n pending =>
    obtain ⟨counted, few⟩ := sending_run as (by decide) place
    rw [place] at held
    have busy : t.isBusy = true := held.2.1
    refine ⟨fun many => by omega, fun idle => ?_⟩
    rw [busy] at idle
    cases idle
  | idle m =>
    rw [place] at held
    obtain ⟨idle, -, emitted⟩ := held
    have codes : t.emitted = train custom key m := emitted
    have last := idle_run as (by decide) place
    have enough : 34 ≤ m := by
      rw [last, ending]
      split <;> omega
    refine ⟨fun _ => idle, fun _ => ?_⟩
    rw [codes, train_complete custom key enough, last, ending, Timely, Nat.add_comm 1]
    split <;> omega

theorem train_complete_iff_once :
    let t := (.stopSend :: replicate 471 .tick).foldl Transmitter.step
      (irNecStartSend Transmitter.init 0x12 0x34 true).2
    t.isBusy = false ∧ Complete 0x12 0x34 t.emitted := by
  have both := train_complete_iff Transmitter.init 0x12 0x34 true rfl
    (.stopSend :: replicate 471 .tick)
  have ticks : (Action.stopSend :: replicate 471 .tick).count .tick = 471 := by
    rw [count_cons_of_ne (by decide), count_replicate_self]
  have idle := both.1 (Nat.le_of_eq ticks.symm)
  exact ⟨idle, (both.2 idle).mpr (.inl (by decide))⟩

/-- **Half a repetition**: a stop in the space of the stop code ends the transmission behind the
first code of a repetition. -/
theorem half_a_repetition :
    let as : List Action := replicate 67 .tick ++ .stopSend :: replicate 2 .tick
    let t := as.foldl Transmitter.step (irNecStartSend Transmitter.init 0x12 0x34 true).2
    (irNecStartSend Transmitter.init 0x12 0x34 true).1 = 0 ∧ t.isBusy = false ∧
      t.emitted = frame 0x12 0x34 ++ [Code.c1] ∧ ¬ Complete 0x12 0x34 t.emitted := by
  intro as t
  have idle : t.isBusy = false := by decide +kernel
  have emitted : t.emitted = frame 0x12 0x34 ++ [Code.c1] := by decide +kernel
  refine ⟨rfl, idle, emitted, ?_⟩
  rw [emitted, show frame 0x12 0x34 ++ [Code.c1] = train 0x12 0x34 35 from rfl,
    train_complete 0x12 0x34 (by decide)]
  decide

end Phy6212.IrNec
