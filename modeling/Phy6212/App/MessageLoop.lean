import Mathlib.Data.List.Basic
import Phy6212.Runs.Reach

/-!
# The messages of the application

`app_send_message` puts a message into a queue of 50 and sets `APP_EVENT_MSG`; the loop of
`app_main` waits for the event and takes one message for it.
-/

namespace Phy6212.App

open List

def ioMsgQueueLen : Nat := 50

structure AppMsg where
  type : UInt16
  subtype : UInt16
  param : UInt32
  deriving DecidableEq, Repr

inductive AppEvent where
  | msg
  | pm
  | voice
  | ota
  deriving DecidableEq, Repr

structure Flags where
  msg : Bool := false
  pm : Bool := false
  voice : Bool := false
  ota : Bool := false
  deriving DecidableEq, Repr

def Flags.set (f : Flags) : AppEvent → Flags
  | .msg => { f with msg := true }
  | .pm => { f with pm := true }
  | .voice => { f with voice := true }
  | .ota => { f with ota := true }

/-- Where the loop of `app_main` is, with the events it has obtained: at `app_event_get`, at the
test for messages, in `event_handler_io_message` before one of its calls, or at the other tests. -/
inductive Main where
  | wait
  | message (flags : Flags)
  | recv (flags : Flags)
  | handle (flags : Flags) (msg : AppMsg)
  | check (flags : Flags)
  | rearm (flags : Flags)
  | voice (flags : Flags)
  | ota (flags : Flags)
  deriving DecidableEq, Repr

/-- The queue, the events, the senders that have put a message into the queue and have not set
the event, and the loop; and the messages that were accepted and those that were handled. -/
structure State (n : Nat) where
  queue : List AppMsg
  flags : Flags
  queued : Fin n → Bool
  main : Main
  sent : List AppMsg
  handled : List AppMsg

def State.init (n : Nat) : State n := ⟨[], {}, fun _ => false, .wait, [], []⟩

inductive Action (n : Nat) where
  | send (i : Fin n) (msg : AppMsg)
  | set (i : Fin n)
  | raise (e : AppEvent)
  | loop
  deriving DecidableEq, Repr

inductive Refused where
  | busy
  | idle
  | waiting
  deriving DecidableEq, Repr

variable {n : Nat}

def State.loop (s : State n) : Except Refused (State n) :=
  match s.main with
  | .wait =>
    if s.flags = {} then .error .waiting
    else .ok { s with flags := {}, main := .message s.flags }
  | .message f => .ok { s with main := if f.msg then .recv f else .voice f }
  | .recv f =>
    match s.queue with
    | [] => .ok { s with main := .voice f }
    | msg :: queue => .ok { s with queue := queue, main := .handle f msg }
  | .handle f msg => .ok { s with handled := s.handled ++ [msg], main := .check f }
  | .check f => .ok { s with main := if s.queue = [] then .voice f else .rearm f }
  | .rearm f => .ok { s with flags := s.flags.set .msg, main := .voice f }
  | .voice f => .ok { s with main := .ota f }
  | .ota _ => .ok { s with main := .wait }

/-- One action. A full queue refuses the message, and the sender does not set the event. -/
def State.step (s : State n) : Action n → Except Refused (State n)
  | .send i msg =>
    if s.queued i then .error .busy
    else if s.queue.length < ioMsgQueueLen then
      .ok { s with
        queue := s.queue ++ [msg]
        queued := Function.update s.queued i true
        sent := s.sent ++ [msg] }
    else .ok s
  | .set i =>
    if s.queued i then
      .ok { s with flags := s.flags.set .msg, queued := Function.update s.queued i false }
    else .error .idle
  | .raise e => .ok { s with flags := s.flags.set e }
  | .loop => s.loop

/-- The loop has obtained the event for messages and has not yet looked whether the queue is
empty. -/
def Main.beforeCheck : Main → Bool
  | .message f => f.msg
  | .recv _ | .handle _ _ | .check _ => true
  | _ => false

def Main.rearms : Main → Bool
  | .rearm _ => true
  | _ => false

def State.Awake (s : State n) : Prop :=
  s.queue ≠ [] → s.flags.msg = true ∨ (∃ i, s.queued i = true) ∨
    s.main.beforeCheck = true ∨ s.main.rearms = true

def Main.inHand : Main → List AppMsg
  | .handle _ msg => [msg]
  | _ => []

/-- The messages that were accepted are those handled, the one in hand and those in the queue. -/
def State.InOrder (s : State n) : Prop := s.sent = s.handled ++ s.main.inHand ++ s.queue

variable {s s' : State n}

theorem step_send {i : Fin n} {msg : AppMsg} (ok : s.step (.send i msg) = .ok s') :
    s' = { s with
      queue := s.queue ++ [msg]
      queued := Function.update s.queued i true
      sent := s.sent ++ [msg] } ∨ s' = s := by
  simp only [State.step] at ok
  split at ok
  · cases ok
  · split at ok
    · exact .inl (Except.ok.inj ok).symm
    · exact .inr (Except.ok.inj ok).symm

theorem step_set {i : Fin n} (ok : s.step (.set i) = .ok s') :
    s' = { s with flags := s.flags.set .msg, queued := Function.update s.queued i false } := by
  simp only [State.step] at ok
  split at ok
  · exact (Except.ok.inj ok).symm
  · cases ok

theorem set_msg {f : Flags} (e : AppEvent) (msg : f.msg = true) : (f.set e).msg = true := by
  cases e <;> first | rfl | exact msg

theorem State.Awake.outside (awake : s.Awake) (messages : s.queue ≠ [])
    (before : s.main.beforeCheck = false) (rearms : s.main.rearms = false) :
    s.flags.msg = true ∨ ∃ i, s.queued i = true := by
  rcases awake messages with set | sender | still | soon
  · exact .inl set
  · exact .inr sender
  · rw [before] at still
    cases still
  · rw [rearms] at soon
    cases soon

theorem State.Awake.loop (awake : s.Awake) (ok : s.loop = .ok s') : s'.Awake := by
  intro messages
  cases place : s.main with
  | wait =>
    simp only [State.loop, place] at ok
    split at ok
    · cases ok
    cases ok
    rcases awake.outside messages (by rw [place]; rfl) (by rw [place]; rfl) with set | sender
    · exact .inr (.inr (.inl set))
    · exact .inr (.inl sender)
  | message f =>
    simp only [State.loop, place] at ok
    cases ok
    cases obtained : f.msg with
    | true => exact .inr (.inr (.inl (by simp [Main.beforeCheck])))
    | false =>
      rcases awake.outside messages (by rw [place]; exact obtained) (by rw [place]; rfl)
        with set | sender
      · exact .inl set
      · exact .inr (.inl sender)
  | recv f =>
    simp only [State.loop, place] at ok
    split at ok
    · next empty =>
      cases ok
      exact absurd empty messages
    · cases ok
      exact .inr (.inr (.inl rfl))
  | handle f msg =>
    simp only [State.loop, place] at ok
    cases ok
    exact .inr (.inr (.inl rfl))
  | check f =>
    simp only [State.loop, place] at ok
    cases ok
    exact .inr (.inr (.inr (by simp [if_neg messages, Main.rearms])))
  | rearm f =>
    simp only [State.loop, place] at ok
    cases ok
    exact .inl rfl
  | voice f =>
    simp only [State.loop, place] at ok
    cases ok
    rcases awake.outside messages (by rw [place]; rfl) (by rw [place]; rfl) with set | sender
    · exact .inl set
    · exact .inr (.inl sender)
  | ota f =>
    simp only [State.loop, place] at ok
    cases ok
    rcases awake.outside messages (by rw [place]; rfl) (by rw [place]; rfl) with set | sender
    · exact .inl set
    · exact .inr (.inl sender)

theorem State.Awake.step {a : Action n} (awake : s.Awake) (ok : s.step a = .ok s') : s'.Awake := by
  cases a with
  | loop => exact awake.loop ok
  | send i msg =>
    rcases step_send ok with rfl | rfl
    · exact fun _ => .inr (.inl ⟨i, by simp⟩)
    · exact awake
  | set i =>
    cases step_set ok
    exact fun _ => .inl rfl
  | raise e =>
    cases ok
    intro messages
    exact (awake messages).imp_left (set_msg e)

theorem loop_messages (ok : s.loop = .ok s') : s'.sent = s.sent ∧ s'.queued = s.queued ∧
    ((∃ msg, s.queue = msg :: s'.queue ∧ s.main.inHand = [] ∧ s'.main.inHand = [msg] ∧
        s'.handled = s.handled) ∨
      (∃ msg, s'.queue = s.queue ∧ s.main.inHand = [msg] ∧ s'.main.inHand = [] ∧
        s'.handled = s.handled ++ [msg]) ∨
      (s'.queue = s.queue ∧ s.main.inHand = [] ∧ s'.main.inHand = [] ∧ s'.handled = s.handled)) := by
  unfold State.loop at ok
  cases place : s.main with
  | wait =>
    simp only [place] at ok
    split at ok
    · cases ok
    · cases ok
      exact ⟨rfl, rfl, .inr (.inr ⟨rfl, rfl, rfl, rfl⟩)⟩
  | recv f =>
    simp only [place] at ok
    split at ok
    · cases ok
      exact ⟨rfl, rfl, .inr (.inr ⟨rfl, rfl, rfl, rfl⟩)⟩
    · next msg queue taken =>
      cases ok
      exact ⟨rfl, rfl, .inl ⟨msg, taken, rfl, rfl, rfl⟩⟩
  | handle f msg =>
    simp only [place] at ok
    cases ok
    exact ⟨rfl, rfl, .inr (.inl ⟨msg, rfl, rfl, rfl, rfl⟩)⟩
  | message f =>
    simp only [place] at ok
    cases ok
    refine ⟨rfl, rfl, .inr (.inr ⟨rfl, rfl, ?_, rfl⟩)⟩
    cases f.msg <;> rfl
  | check f =>
    simp only [place] at ok
    cases ok
    refine ⟨rfl, rfl, .inr (.inr ⟨rfl, rfl, ?_, rfl⟩)⟩
    by_cases empty : s.queue = [] <;> simp [empty, Main.inHand]
  | rearm f | voice f | ota f =>
    simp only [place] at ok
    cases ok
    exact ⟨rfl, rfl, .inr (.inr ⟨rfl, rfl, rfl, rfl⟩)⟩

theorem State.InOrder.step {a : Action n} (inOrder : s.InOrder) (ok : s.step a = .ok s') :
    s'.InOrder := by
  unfold State.InOrder at inOrder ⊢
  cases a with
  | loop =>
    obtain ⟨sent, -, ⟨msg, taken, none, some, same⟩ | ⟨msg, same, some, none, handled⟩ |
      ⟨same, none, none', same'⟩⟩ := loop_messages ok
    · rw [sent, inOrder, taken, none, some, same, append_nil, append_assoc]
      rfl
    · rw [sent, inOrder, same, none, some, handled, append_nil]
    · rw [sent, inOrder, same, none, none', same']
  | send i msg =>
    rcases step_send ok with rfl | rfl
    · simp [inOrder]
    · exact inOrder
  | set i =>
    cases step_set ok
    exact inOrder
  | raise e =>
    cases ok
    exact inOrder

def State.Sound (s : State n) : Prop := s.Awake ∧ s.InOrder

theorem sound_of_reaches (run : Runs.Reaches State.step (fun _ _ => True) (State.init n) s) :
    s.Sound :=
  run.invariant ⟨fun messages => absurd rfl messages, rfl⟩
    fun _ _ _ sound _ ok => ⟨sound.1.step ok, sound.2.step ok⟩

def Main.rank : Main → Nat
  | .handle _ _ => 9
  | .check _ => 8
  | .rearm _ => 7
  | .voice _ => 6
  | .ota _ => 5
  | .wait => 3
  | .message f => if f.msg then 2 else 7
  | .recv _ => 1

def State.measure (s : State n) : Nat := 10 * s.queue.length + s.main.rank

def State.Settled (s : State n) : Prop := ∀ i, s.queued i = false

theorem loop_progress (awake : s.Awake) (settled : s.Settled)
    (unhandled : s.main.inHand ++ s.queue ≠ []) :
    ∃ s', s.loop = .ok s' ∧ s'.measure < s.measure := by
  unfold State.loop State.measure
  cases place : s.main with
  | wait =>
    have messages : s.queue ≠ [] := by simpa [place, Main.inHand] using unhandled
    have set : s.flags.msg = true := by
      rcases awake.outside messages (by rw [place]; rfl) (by rw [place]; rfl) with set | ⟨i, sender⟩
      · exact set
      · rw [settled i] at sender
        cases sender
    have some_set : s.flags ≠ {} := by
      intro none
      rw [none] at set
      cases set
    exact ⟨_, if_neg some_set, by simp [Main.rank, set]⟩
  | message f =>
    refine ⟨_, rfl, ?_⟩
    cases obtained : f.msg <;> simp [Main.rank, obtained]
  | recv f =>
    have messages : s.queue ≠ [] := by simpa [place, Main.inHand] using unhandled
    obtain ⟨msg, queue, taken⟩ := exists_cons_of_ne_nil messages
    simp only [taken]
    refine ⟨_, rfl, ?_⟩
    simp only [Main.rank, length_cons]
    omega
  | check f =>
    have messages : s.queue ≠ [] := by simpa [place, Main.inHand] using unhandled
    exact ⟨_, rfl, by simp [messages, Main.rank]⟩
  | handle f msg => exact ⟨_, rfl, by simp [Main.rank]⟩
  | rearm f => exact ⟨_, rfl, by simp [Main.rank]⟩
  | voice f => exact ⟨_, rfl, by simp [Main.rank]⟩
  | ota f => exact ⟨_, rfl, by simp [Main.rank]⟩

theorem loop_handles_all (sound : s.Sound) (settled : s.Settled) :
    ∃ k t, (replicate k Action.loop).foldlM State.step s = .ok t ∧ t.handled = s.sent := by
  induction size : s.measure using Nat.strongRecOn generalizing s with
  | ind size ih =>
    by_cases done : s.main.inHand ++ s.queue = []
    · have all := sound.2
      rw [State.InOrder, append_assoc, done, append_nil] at all
      exact ⟨0, s, rfl, all.symm⟩
    obtain ⟨s', ok, closer⟩ := loop_progress sound.1 settled done
    obtain ⟨sent, queued, -⟩ := loop_messages ok
    have settled' : s'.Settled := by
      intro i
      rw [queued]
      exact settled i
    have sound' : s'.Sound := ⟨sound.1.loop ok, State.InOrder.step (a := .loop) sound.2 ok⟩
    obtain ⟨k, t, steps, handled⟩ := ih _ (size ▸ closer) sound' settled' rfl
    refine ⟨k + 1, t, ?_, handled.trans sent⟩
    exact (congrArg (· >>= _) ok).trans steps

/-- **No wake-up is lost, and every message is handled once, in order.** -/
theorem messages_handled (s : State n)
    (run : Runs.Reaches State.step (fun _ _ => True) (State.init n) s) :
    s.Awake ∧ s.InOrder ∧ (s.Settled →
      ∃ k t, (replicate k Action.loop).foldlM State.step s = .ok t ∧ t.handled = s.sent) := by
  obtain ⟨awake, inOrder⟩ := sound_of_reaches run
  exact ⟨awake, inOrder, loop_handles_all ⟨awake, inOrder⟩⟩

def firstKey : AppMsg := ⟨0, 0, 1⟩

def secondKey : AppMsg := ⟨0, 3, 1⟩

theorem settled_two {s : State 2} (first : s.queued 0 = false) (second : s.queued 1 = false) :
    s.Settled := by
  intro i
  match i with
  | 0 => exact first
  | 1 => exact second

def twoMessages : List (Action 2) := [.send 0 firstKey, .set 0, .send 1 secondKey, .set 1]

theorem messages_handled_two : ∃ s,
    Runs.Reaches State.step (fun _ _ => True) (State.init 2) s ∧ s.Settled ∧
      s.sent = [firstKey, secondKey] ∧ s.Awake ∧
      ∃ k t, (replicate k Action.loop).foldlM State.step s = .ok t ∧
        t.handled = [firstKey, secondKey] := by
  have run : Runs.Reaches State.step _ (State.init 2) _ :=
    Runs.reaches_foldlM (fun _ _ _ => trivial)
      (show twoMessages.foldlM State.step _ = Except.ok _ from rfl)
  obtain ⟨awake, -, all⟩ := messages_handled _ run
  exact ⟨_, run, settled_two rfl rfl, rfl, awake, all (settled_two rfl rfl)⟩

/-- **Between the look at the queue and the event**: a message is in the queue, the event is not
set, no sender is in its call, and the loop has made its check. -/
theorem window_behind_check : ∃ s,
    Runs.Reaches State.step (fun _ _ => True) (State.init 2) s ∧ s.queue = [secondKey] ∧
      s.flags.msg = false ∧ s.Settled ∧ s.main.beforeCheck = false := by
  have run : Runs.Reaches State.step _ (State.init 2) _ :=
    Runs.reaches_foldlM (fun _ _ _ => trivial)
      (show (twoMessages ++ replicate 5 Action.loop).foldlM State.step _ = Except.ok _ from rfl)
  exact ⟨_, run, rfl, rfl, settled_two rfl rfl, rfl⟩

end Phy6212.App
