import Phy6212.Uart.Driver

/-!
# The user of the UART is called

When no `uart_csky_recv` is in progress, the user must have been called for the bytes in the ring
buffer.
-/

namespace Phy6212.Uart

variable {n : Nat}

def UartDev.Quiet (s : UartDev n) : Prop := ∀ i, s.calls i = none

def UartDev.Noticed (s : UartDev n) : Prop :=
  s.history.arrived ≠ [] → .read ∈ s.history.notices

def NoOverflow (s : UartDev n) : Action n → Prop
  | .event (.received bytes) => s.readBuffer.length + bytes.length < rbSize
  | _ => True

/-- The condition on a step: a call that clears the flag has read the ring buffer after the last
receive interrupt that found the flag set. -/
def Unraced (s : UartDev n) : Action n → Prop
  | .event e => NoOverflow s (.event e)
  | .work i _ => ∀ c ∈ s.calls i, c.place = .clear → s.history.late i = false
  | _ => True

instance : ∀ (s : UartDev n) (a : Action n), Decidable (NoOverflow s a)
  | s, .event (.received bytes) =>
    inferInstanceAs (Decidable (s.readBuffer.length + bytes.length < rbSize))
  | _, .event .sendComplete => .isTrue trivial
  | _, .event .rxOverflow => .isTrue trivial
  | _, .event .other => .isTrue trivial
  | _, .recv _ _ _ _ => .isTrue trivial
  | _, .work _ _ => .isTrue trivial
  | _, .expire _ => .isTrue trivial

instance : ∀ (s : UartDev n) (a : Action n), Decidable (Unraced s a)
  | s, .event e => inferInstanceAs (Decidable (NoOverflow s (.event e)))
  | s, .work i _ =>
    inferInstanceAs (Decidable (∀ c ∈ s.calls i, c.place = .clear → s.history.late i = false))
  | _, .recv _ _ _ _ => .isTrue trivial
  | _, .expire _ => .isTrue trivial

/-- The flag without a call of the user since the last reading belongs to a reader that is still
in its call; bytes that are not announced make this reader late. -/
structure Announced (s : UartDev n) : Prop where
  registered : s.writeEvent = true
  flag : s.stateRead = true → .read ∉ s.history.notices →
    ∃ i, s.history.reader = some i ∧ s.calls i ≠ none
  bytes : s.history.arrived ≠ [] → .read ∉ s.history.notices →
    ∃ i, s.history.reader = some i ∧ s.calls i ≠ none ∧ s.history.late i = true

namespace Announced

variable {s : UartDev n}

theorem init : Announced (UartDev.init n true) where
  registered := rfl
  flag := nofun
  bytes nonempty := absurd rfl nonempty

section

variable (held : Announced s)

include held

theorem congr {s' : UartDev n} (registered : s'.writeEvent = s.writeEvent)
    (flag : s'.stateRead = s.stateRead) (history : s'.history = s.history)
    (calls : ∀ i, s.calls i ≠ none → s'.calls i ≠ none) : Announced s' where
  registered := registered.trans held.registered
  flag set unseen := by
    rw [history] at unseen ⊢
    obtain ⟨i, reader, running⟩ := held.flag (flag ▸ set) unseen
    exact ⟨i, reader, calls i running⟩
  bytes nonempty unseen := by
    rw [history] at nonempty unseen ⊢
    obtain ⟨i, reader, running, late⟩ := held.bytes nonempty unseen
    exact ⟨i, reader, calls i running, late⟩

theorem eventSetRead : Announced s.eventSetRead := by
  unfold UartDev.eventSetRead
  split
  · refine held.congr rfl rfl rfl fun i running => ?_
    simpa using running
  · exact held.congr rfl rfl rfl fun i running => running

variable {c : Call}

theorem setCall {i : Fin n} : Announced (s.setCall i (some c)) := by
  refine held.congr rfl rfl rfl fun j running => ?_
  by_cases here : j = i
  · subst here
    simp [UartDev.setCall]
  · simpa [UartDev.setCall, here] using running

theorem received {bytes : List UInt8} (fits : s.readBuffer.length + bytes.length < rbSize) :
    Announced (s.usartEvent (.received bytes)) := by
  have stored : bytes.take (rbSize - 1 - s.readBuffer.length) = bytes :=
    List.take_of_length_le (by omega)
  simp only [UartDev.usartEvent, UartDev.ringbufferWrite, stored, ne_eq, not_true_eq_false, if_false]
  apply eventSetRead
  unfold UartDev.noticeRead
  cases set : s.stateRead with
  | false =>
    simp only [if_true, held.registered]
    refine ⟨?_, ?_, ?_⟩
    · simp [UartDev.notify]
    · intro _ unseen
      exact absurd (by simp [UartDev.notify]) unseen
    · intro _ unseen
      exact absurd (by simp [UartDev.notify]) unseen
  | true =>
    by_cases empty : bytes = []
    · subst empty
      simp only [List.append_nil, ne_eq, not_true_eq_false, if_false]
      exact held.congr rfl set.symm rfl fun i running => running
    simp only [ne_eq, empty, not_false_eq_true, if_true]
    refine ⟨held.registered, fun _ unseen => held.flag set unseen, ?_⟩
    intro _ unseen
    obtain ⟨i, reader, running⟩ := held.flag set unseen
    exact ⟨i, reader, running, rfl⟩

theorem usartEvent {e : Event} (fits : NoOverflow s (.event e)) : Announced (s.usartEvent e) := by
  cases e with
  | received bytes => exact held.received fits
  | other => exact held
  | rxOverflow => exact ⟨held.registered, nofun, fun nonempty => absurd rfl nonempty⟩
  | sendComplete =>
    have same : ∀ s : UartDev n, Announced s → Announced { s with eventWrite := true } :=
      fun s held => held.congr rfl rfl rfl fun i running => running
    apply same
    split
    · simp only [UartDev.notify, held.registered, if_true]
      refine ⟨rfl, fun set unseen => held.flag set ?_,
        fun nonempty unseen => held.bytes nonempty ?_⟩ <;> simpa using unseen
    · exact held

theorem recvRead {i : Fin n} : Announced (s.recvRead i c) where
  registered := held.registered
  flag _ _ := ⟨i, rfl, by simp [UartDev.recvRead]⟩
  bytes nonempty := absurd rfl nonempty

theorem recvClear {i : Fin n} (inTime : s.history.late i = false) :
    Announced (s.recvClear i c) where
  registered := held.registered
  flag := nofun
  bytes nonempty unseen := by
    obtain ⟨j, reader, running, late⟩ := held.bytes nonempty unseen
    have other : j ≠ i := by
      rintro rfl
      rw [late] at inTime
      cases inTime
    exact ⟨j, reader, by simpa [UartDev.recvClear, UartDev.setCall, other] using running, late⟩

theorem step {s' : UartDev n} {a : Action n} (unraced : Unraced s a)
    (ok : s.step a = .ok s') : Announced s' := by
  cases a with
  | event e =>
    cases ok
    exact held.usartEvent unraced
  | recv i size timeoutMs now =>
    rw [UartDev.step] at ok
    split at ok
    · cases ok
    · cases ok
      exact held.setCall
  | expire i =>
    rw [UartDev.step] at ok
    split at ok
    · cases ok
    split at ok
    · cases ok
      exact held.setCall
    · cases ok
  | work i now =>
    rw [UartDev.step] at ok
    split at ok
    · cases ok
    rename_i c here
    cases place : c.place with
    | read =>
      simp only [place] at ok
      cases ok
      exact held.recvRead
    | check =>
      simp only [place] at ok
      cases ok
      simp only [UartDev.recvCheck]
      split <;> exact held.setCall
    | get =>
      simp only [place] at ok
      cases ok
      unfold UartDev.recvGet
      split
      · apply setCall
        exact held.congr rfl rfl rfl fun i running => running
      · exact held.setCall
    | blocked =>
      simp only [place] at ok
      cases ok
    | clear =>
      simp only [place] at ok
      cases ok
      exact held.recvClear (unraced c here place)

end

end Announced

/-- **The user is called for every byte that waits.** -/
theorem noticed_of_unraced (s : UartDev n)
    (run : Runs.Reaches UartDev.step Unraced (UartDev.init n true) s) (quiet : s.Quiet) :
    s.Noticed := by
  have held : Announced s :=
    run.invariant Announced.init fun _ _ _ held unraced ok => held.step unraced ok
  intro nonempty
  by_contra unseen
  obtain ⟨i, -, running, -⟩ := held.bytes nonempty unseen
  exact running (quiet i)

theorem quiet_one {s : UartDev 1} (ended : s.calls 0 = none) : s.Quiet := by
  intro i
  rw [Subsingleton.elim i 0]
  exact ended

def readInTime : List (Action 1) :=
  [.event (.received [65]), .recv 0 16 0 5, .work 0 5, .work 0 5, .work 0 5, .event (.received [66])]

theorem noticed_of_unraced_one :
    ∃ s, Runs.Reaches UartDev.step Unraced (UartDev.init 1 true) s ∧ s.Quiet ∧
      s.history.arrived = [66] ∧ s.Noticed := by
  have run : Runs.Reaches UartDev.step Unraced (UartDev.init 1 true) _ :=
    Runs.reaches_checked (show readInTime.foldlM _ _ = some _ from rfl)
  exact ⟨_, run, quiet_one rfl, rfl, noticed_of_unraced _ run (quiet_one rfl)⟩

/-- The second byte comes between the reading of the ring buffer and the clearing of the flag. -/
def readTooEarly : List (Action 1) :=
  [.event (.received [65]), .recv 0 16 0 5, .work 0 5, .event (.received [66]), .work 0 5, .work 0 5]

/-- **A byte waits in the ring buffer, and the user does not know.** -/
theorem byte_without_notice :
    ∃ s, Runs.Reaches UartDev.step NoOverflow (UartDev.init 1 true) s ∧ s.Quiet ∧
      s.readBuffer = [66] ∧ s.history.arrived = [66] ∧ ¬ s.Noticed := by
  have run : Runs.Reaches UartDev.step NoOverflow (UartDev.init 1 true) _ :=
    Runs.reaches_checked (show readTooEarly.foldlM _ _ = some _ from rfl)
  refine ⟨_, run, quiet_one rfl, rfl, rfl, fun noticed => ?_⟩
  cases noticed (List.cons_ne_nil 66 [])

end Phy6212.Uart
