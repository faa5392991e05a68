import Phy6212.Keyscan.Task
import Phy6212.Runs.Reach

/-!
# What the key task sends

Every press that was delivered is followed by the message of the release before the task leaves the
loop (`answered_reached`).
-/

namespace Phy6212.Keyscan

open Runs

/-- What makes the task go on: the semaphore, or the next scan with what becomes of its
message. -/
inductive Input where
  | wake
  | scan (matrix : Matrix) (outcome : Outcome)

inductive NotExpected where
  | busy
  | waiting
  deriving DecidableEq, Repr

/-- The task and what it has done so far, the last first. -/
structure Watched where
  task : Task
  trace : List Note

def Watched.step (s : Watched) : Input → Except NotExpected Watched
  | .wake =>
    if s.task.scanning then .error .busy
    else .ok ⟨{ s.task with isVkPressed := false, scanning := true }, .woken :: s.trace⟩
  | .scan matrix outcome =>
    if s.task.scanning then
      let (notes, task) := s.task.round matrix outcome
      .ok ⟨task, notes.reverse ++ s.trace⟩
    else .error .waiting

def Watched.initial : Watched := ⟨Task.initial, []⟩

variable {s s' : Watched} {input : Input}

theorem step_cases (ok : s.step input = .ok s') :
    (input = .wake ∧ s.task.scanning = false ∧
        s' = ⟨{ s.task with isVkPressed := false, scanning := true }, .woken :: s.trace⟩) ∨
      ∃ matrix outcome, input = .scan matrix outcome ∧ s.task.scanning = true ∧
        s' = ⟨(s.task.round matrix outcome).2,
          (s.task.round matrix outcome).1.reverse ++ s.trace⟩ := by
  by_cases scanning : s.task.scanning = true
  · cases input with
    | wake =>
      rw [Watched.step, if_pos scanning] at ok
      cases ok
    | scan matrix outcome =>
      rw [Watched.step, if_pos scanning] at ok
      cases ok
      exact .inr ⟨matrix, outcome, rfl, scanning, rfl⟩
  cases input with
  | wake =>
    rw [Watched.step, if_neg scanning] at ok
    cases ok
    exact .inl ⟨rfl, by simpa using scanning, rfl⟩
  | scan matrix outcome =>
    rw [Watched.step, if_neg scanning] at ok
    cases ok

def lastScan : List Note → Option Matrix
  | [] => none
  | .scanned matrix :: _ => some matrix
  | _ :: earlier => lastScan earlier

/-- The message of the release is sent only after a scan that finds no key. -/
def ReleasedClear : List Note → Prop
  | [] => True
  | .sent msg _ :: earlier =>
    (msg.subtype = .releaseAll → ∃ matrix, lastScan earlier = some matrix ∧ NoKey matrix) ∧
      ReleasedClear earlier
  | _ :: earlier => ReleasedClear earlier

/-- A press or a hold has been delivered, and no release since then. -/
def Pending : List Note → Prop
  | [] => False
  | .sent msg true :: earlier =>
    msg.subtype ≠ .releaseAll ∧
      (msg.subtype = .pressed ∨ msg.subtype = .hold ∨ Pending earlier)
  | _ :: earlier => Pending earlier

/-- Whenever the task has left the loop, every press and hold before has been followed by a
release. -/
def Answered : List Note → Prop
  | [] => True
  | .left :: earlier => ¬ Pending earlier ∧ Answered earlier
  | _ :: earlier => Answered earlier

def Right (trace : List Note) : Prop := ReleasedClear trace ∧ Answered trace

/-- A press that waits for its release is known to the task. -/
structure Kept (s : Watched) : Prop where
  answered : Answered s.trace
  known : Pending s.trace → s.task.isVkPressed = true ∧ s.task.scanning = true

theorem Kept.step (kept : Kept s) (ok : s.step input = .ok s') : Kept s' := by
  obtain ⟨answered, known⟩ := kept
  rcases step_cases ok with ⟨rfl, waiting, rfl⟩ | ⟨matrix, outcome, rfl, scanning, rfl⟩
  · refine ⟨answered, fun pending => ?_⟩
    have impossible := (known pending).2
    rw [waiting] at impossible
    cases impossible
  generalize notesEq : (s.task.round matrix outcome).1 = notes
  generalize taskEq : (s.task.round matrix outcome).2 = task
  have round := round_cases matrix outcome s.task
  rw [notesEq, taskEq] at round
  cases round with
  | released none_ pressed accepted off out =>
    have queued : outcome.queued = true := (Bool.and_eq_true_iff.mp accepted).1
    rw [queued]
    exact ⟨⟨fun pending => pending.1 rfl, answered⟩, fun pending => absurd rfl pending.1⟩
  | failed none_ pressed refused on goes =>
    cases queued : outcome.queued with
    | true => exact ⟨answered, fun pending => absurd rfl pending.1⟩
    | false => exact ⟨answered, fun pending => ⟨on, goes.trans (known pending).2⟩⟩
  | ended none_ pressed off out =>
    have nothing : ¬ Pending s.trace := fun pending => by
      have on := (known pending).1
      rw [pressed] at on
      cases on
    exact ⟨⟨nothing, answered⟩, fun pending => absurd pending nothing⟩
  | silent keys waits same goes =>
    rcases waits with rfl | rfl
    · exact ⟨answered, fun pending => ⟨same.trans (known pending).1, goes.trans scanning⟩⟩
    · exact ⟨answered, fun pending => ⟨same.trans (known pending).1, goes.trans scanning⟩⟩
  | told keys waits filled some_ on goes =>
    rcases waits with rfl | rfl
    · exact ⟨answered, fun _ => ⟨on, goes.trans scanning⟩⟩
    · exact ⟨answered, fun _ => ⟨on, goes.trans scanning⟩⟩

theorem answered_reached {guard : Watched → Input → Prop}
    (run : Reaches Watched.step guard Watched.initial s) : Answered s.trace := by
  have kept : Kept s := run.invariant ⟨trivial, fun pending => pending.elim⟩
    fun _ _ _ kept _ ok => kept.step ok
  exact kept.answered

/-- After a press, a scan that counts no keys finds none. -/
def CountsRight (s : Watched) : Input → Prop
  | .wake => True
  | .scan matrix _ => s.task.isVkPressed = true → CountsAsNone matrix → NoKey matrix

theorem releasedClear_step (ok : s.step input = .ok s') :
    ReleasedClear s'.trace ↔ ReleasedClear s.trace ∧ CountsRight s input := by
  rcases step_cases ok with ⟨rfl, waiting, rfl⟩ | ⟨matrix, outcome, rfl, scanning, rfl⟩
  · exact (and_iff_left trivial).symm
  generalize notesEq : (s.task.round matrix outcome).1 = notes
  generalize taskEq : (s.task.round matrix outcome).2 = task
  have round := round_cases matrix outcome s.task
  rw [notesEq, taskEq] at round
  have release : ∀ delivered, ReleasedClear (.sent ⟨.releaseAll, s.task.param⟩ delivered ::
      .scanned matrix :: s.trace) ↔ NoKey matrix ∧ ReleasedClear s.trace := by
    intro delivered
    simp [ReleasedClear, lastScan]
  cases round with
  | released none_ pressed accepted off out =>
    refine (release outcome.queued).trans ?_
    simp [CountsRight, pressed, none_, and_comm]
  | failed none_ pressed refused on goes =>
    refine (release outcome.queued).trans ?_
    simp [CountsRight, pressed, none_, and_comm]
  | ended none_ pressed off out =>
    refine (and_iff_left ?_).symm
    intro impossible
    rw [pressed] at impossible
    cases impossible
  | silent keys waits same goes =>
    rcases waits with rfl | rfl
    · exact (and_iff_left fun _ counts => absurd counts keys).symm
    · exact (and_iff_left fun _ counts => absurd counts keys).symm
  | @told _ msg _ keys waits filled some_ on goes =>
    have other : msg.subtype ≠ .releaseAll := by
      rcases keyMsg_cases filled with pressed | ⟨hold, -⟩
      · simp [pressed]
      · simp [hold]
    have sent : ReleasedClear (.sent msg outcome.queued :: .scanned matrix :: s.trace) ↔
        ReleasedClear s.trace := by
      simp [ReleasedClear, other]
    have counts : CountsRight s (.scan matrix outcome) := fun _ counts => absurd counts keys
    rcases waits with rfl | rfl
    · exact sent.trans (and_iff_left counts).symm
    · exact sent.trans (and_iff_left counts).symm

theorem releasedClear_reached (run : Reaches Watched.step CountsRight Watched.initial s) :
    ReleasedClear s.trace := by
  induction run with
  | refl => trivial
  | tail run counts ok clear => exact (releasedClear_step ok).mpr ⟨clear, counts⟩

/-- **What the task sends is right** exactly in the runs in which no scan after a press
finds six or twelve keys. -/
theorem trace_right_iff {s : Watched}
    (run : Reaches Watched.step (fun _ _ => True) Watched.initial s) :
    Right s.trace ↔ Reaches Watched.step CountsRight Watched.initial s := by
  constructor
  · rintro ⟨clear, -⟩
    induction run with
    | refl => exact .refl
    | tail run _ ok ih =>
      obtain ⟨before, counts⟩ := (releasedClear_step ok).mp clear
      exact (ih before).tail counts ok
  · intro counted
    exact ⟨releasedClear_reached counted, answered_reached run⟩

def pressAndRelease : List Input :=
  [.wake, .scan (reading [(0, 0)]) delivered, .scan (reading []) delivered]

theorem trace_right_iff_released :
    ∃ s, pressAndRelease.foldlM Watched.step Watched.initial = .ok s ∧
    s.task.scanning = false ∧ (Right s.trace ↔ Reaches Watched.step CountsRight Watched.initial s) := by
  have result : ((pressAndRelease.foldlM Watched.step Watched.initial).toOption.map fun s =>
      s.task.scanning) = some false := by
    decide +kernel
  obtain ⟨s, found, waiting⟩ := Option.map_eq_some_iff.mp result
  have ok := ok_of_toOption found
  exact ⟨s, ok, waiting, trace_right_iff (reaches_foldlM (fun _ _ _ => trivial) ok)⟩

def sixDown : Matrix := reading [(0, 0), (0, 1), (0, 2), (0, 3), (1, 0), (1, 1)]

def sixKeys : List Input :=
  [.wake, .scan (reading [(0, 0)]) delivered, .scan sixDown delivered]

/-- With six keys down the task tells that all keys are released. -/
theorem six_keys_released : ∃ s, Reaches Watched.step (fun _ _ => True) Watched.initial s ∧
    ¬ Right s.trace := by
  have result : ((sixKeys.foldlM Watched.step Watched.initial).toOption.map fun s =>
      decide (s.trace.head? = some .left ∧
        s.trace.tail.head? = some (.sent ⟨.releaseAll, .key01⟩ true) ∧
        lastScan s.trace.tail.tail = some sixDown)) = some true := by
    decide +kernel
  obtain ⟨s, found, checked⟩ := Option.map_eq_some_iff.mp result
  obtain ⟨head, next, scan⟩ := of_decide_eq_true checked
  refine ⟨s, reaches_foldlM (fun _ _ _ => trivial) (ok_of_toOption found), fun right => ?_⟩
  obtain ⟨rest, trace⟩ := List.head?_eq_some_iff.mp head
  rw [trace, List.tail_cons] at next scan
  obtain ⟨earlier, sent⟩ := List.head?_eq_some_iff.mp next
  rw [sent, List.tail_cons] at scan
  have clear := right.1
  rw [trace, sent] at clear
  obtain ⟨matrix, last, none_⟩ := clear.1 rfl
  rw [scan, Option.some.injEq] at last
  subst last
  exact absurd (none_ (0, 0)) (by decide)

end Phy6212.Keyscan
