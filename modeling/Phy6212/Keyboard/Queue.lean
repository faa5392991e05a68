import Phy6212.Queues.Cyclic

/-!
# The queue of key codes

Key codes are put into a cyclic array of 20 bytes, and `keyboard_get_ranks_data` copies the oldest
ones out with a single `memcpy`, which goes on behind the array when the codes go around its end.
-/

namespace Phy6212.Keyboard

open List Queues Runs

/-- `KEY_SCAN_BUFFER_SZIE`, which is the `queue_size` of the queue. -/
def bufferSize : Nat := 20

structure KeyDataQueue where
  front : Nat
  rear : Nat
  dataSize : Nat
  keyVal : Nat → UInt8

def keyboardQueueInit : KeyDataQueue := ⟨0, 0, 0, fun _ => 0⟩

def isKeyboardQueueFull (queue : KeyDataQueue) : Bool := bufferSize = queue.dataSize

def putKeyboardQueueData (queue : KeyDataQueue) (data : UInt8) : Int × KeyDataQueue :=
  if isKeyboardQueueFull queue then (-1, queue)
  else (0, { queue with
    keyVal := Function.update queue.keyVal queue.rear data
    rear := (queue.rear + 1) % bufferSize
    dataSize := queue.dataSize + 1 })

/-- A copy behind the array. -/
inductive Overrun where
  | overrun
  deriving DecidableEq, Repr

/-- `keyboard_get_ranks_data`, with the bytes it copies. -/
def keyboardGetRanksData (queue : KeyDataQueue) (len : UInt8) :
    Except Overrun ((Int × List UInt8) × KeyDataQueue) :=
  let minLen := if len.toNat < queue.dataSize then len.toNat else queue.dataSize
  if minLen = 0 then .ok ((0, []), queue)
  else if bufferSize < queue.front + minLen then .error .overrun
  else .ok ((minLen, (range minLen).map fun k => queue.keyVal (queue.front + k)),
    { queue with
      front := (queue.front + minLen) % bufferSize
      dataSize := queue.dataSize - minLen })

inductive Call where
  | put (data : UInt8)
  | get (len : UInt8)
  deriving DecidableEq, Repr

def step (queue : KeyDataQueue) : Call → Except Overrun ((Int × List UInt8) × KeyDataQueue)
  | .put data =>
    let (ret, queue') := putKeyboardQueueData queue data
    .ok ((ret, []), queue')
  | .get len => keyboardGetRanksData queue len

def Call.op : Call → Op UInt8
  | .put data => .put [data]
  | .get len => .get len.toNat

/-- What a bounded queue answers: a code is refused exactly when 20 are pending, and the
oldest codes are returned, as many as asked for and pending. -/
def answer (pending : List UInt8) : Call → Int × List UInt8
  | .put _ => (if pending.length = bufferSize then -1 else 0, [])
  | .get len => Fifo.reply bufferSize pending (.get len.toNat)

def next (pending : List UInt8) (call : Call) : List UInt8 := Fifo.next bufferSize pending call.op

/-- The codes that a call returns do not go around the end of the array. -/
def InOnePiece (queue : KeyDataQueue) : Call → Prop
  | .put _ => True
  | .get len => queue.front + min len.toNat queue.dataSize ≤ bufferSize

structure Pending (queue : KeyDataQueue) (pending : List UInt8) : Prop where
  lies : Lies bufferSize queue.keyVal queue.front pending
  inside : queue.front < bufferSize
  rear : queue.rear = (queue.front + pending.length) % bufferSize
  size : queue.dataSize = pending.length

variable {queue : KeyDataQueue} {pending : List UInt8}

section

variable (holds : Pending queue pending)

include holds

theorem Pending.put (data : UInt8) :
    ∃ queue', step queue (.put data) = .ok (answer pending (.put data), queue') ∧
      Pending queue' (next pending (.put data)) := by
  have room := holds.lies.room
  have full : isKeyboardQueueFull queue = decide (pending.length = bufferSize) := by
    rw [isKeyboardQueueFull, holds.size]
    exact decide_eq_decide.mpr eq_comm
  by_cases many : pending.length = bufferSize
  · refine ⟨queue, ?_, ?_⟩
    · simp [step, putKeyboardQueueData, full, answer, many]
    · simpa [next, Fifo.next, Call.op, many] using holds
  have space : pending.length < bufferSize := by omega
  have one : [data].take (bufferSize - pending.length) = [data] := by
    rw [take_of_length_le]
    exact Nat.sub_pos_of_lt space
  refine ⟨_, by simp [step, putKeyboardQueueData, full, answer, many]; rfl, ?_⟩
  simp only [next, Fifo.next, Call.op, one]
  refine ⟨?_, holds.inside, ?_, ?_⟩
  · simpa only [holds.rear] using holds.lies.push space data
  · simp [holds.rear, Nat.add_assoc]
  · simp [holds.size]

theorem Pending.get {len : UInt8} (onePiece : InOnePiece queue (.get len)) :
    ∃ queue', step queue (.get len) = .ok (answer pending (.get len), queue') ∧
      Pending queue' (next pending (.get len)) := by
  have least : (if len.toNat < queue.dataSize then len.toNat else queue.dataSize) =
      min len.toNat pending.length := by
    rw [holds.size]
    split <;> omega
  have inside : queue.front + min len.toNat pending.length ≤ bufferSize := by
    have inside : queue.front + min len.toNat queue.dataSize ≤ bufferSize := onePiece
    rwa [holds.size] at inside
  simp only [step, keyboardGetRanksData, least, answer, next, Fifo.reply, Fifo.next, Call.op]
  by_cases nothing : min len.toNat pending.length = 0
  · refine ⟨queue, ?_, ?_⟩
    · rcases Nat.min_eq_zero_iff.mp nothing with none_ | empty
      · simp [none_]
      · simp [eq_nil_of_length_eq_zero empty]
    rcases Nat.min_eq_zero_iff.mp nothing with none_ | empty
    · rwa [none_]
    · rw [eq_nil_of_length_eq_zero empty] at holds ⊢
      rwa [drop_nil]
  have taken := holds.lies.take (Nat.min_le_right len.toNat pending.length) inside
  have all : pending.take (min len.toNat pending.length) = pending.take len.toNat := by simp
  have left : pending.drop (min len.toNat pending.length) = pending.drop len.toNat := by
    rcases Nat.le_total len.toNat pending.length with less | more
    · rw [Nat.min_eq_left less]
    · rw [Nat.min_eq_right more, drop_length, drop_eq_nil_of_le more]
  rw [if_neg nothing, if_neg (Nat.not_lt.mpr inside), taken, all]
  refine ⟨_, rfl, ?_, ?_, ?_, ?_⟩
  · rw [← left]
    exact holds.lies.drop _
  · exact Nat.mod_lt _ (by decide)
  · rw [holds.rear, Nat.mod_add_mod, length_drop]
    congr 1
    omega
  · rw [length_drop, holds.size]
    show pending.length - min len.toNat pending.length = _
    omega

theorem Pending.answers (call : Call) (onePiece : InOnePiece queue call) :
    ∃ queue', step queue call = .ok (answer pending call, queue') ∧
      Pending queue' (next pending call) := by
  cases call with
  | put data => exact holds.put data
  | get len => exact holds.get onePiece

theorem Pending.onePiece {call : Call} {queue' : KeyDataQueue}
    (ok : step queue call = .ok (answer pending call, queue')) : InOnePiece queue call := by
  cases call with
  | put data => trivial
  | get len =>
    have inside := holds.inside
    have least : (if len.toNat < queue.dataSize then len.toNat else queue.dataSize) =
        min len.toNat queue.dataSize := by
      split <;> omega
    show queue.front + min len.toNat queue.dataSize ≤ bufferSize
    by_contra around
    have some_ : min len.toNat queue.dataSize ≠ 0 := by omega
    simp only [step, keyboardGetRanksData, least, if_neg some_,
      if_pos (Nat.lt_of_not_le around)] at ok
    cases ok

end

theorem pending_init : Pending keyboardQueueInit [] := ⟨.nil _ _ _, by decide, rfl, rfl⟩

theorem answers_given : ∀ (calls : List Call) (pending : List UInt8),
    (answers answer next pending calls).flatMap Prod.snd =
      Fifo.given bufferSize pending (calls.map Call.op)
  | [], _ => rfl
  | call :: calls, pending => by
    rw [map_cons, Fifo.given_cons, answers, flatMap_cons, answers_given]
    cases call <;> rfl

/-- **When the queue of key codes is a bounded queue of 20 bytes.** -/
theorem queue_iff (calls : List Call) :
    ((∃ queue, run step keyboardQueueInit calls = .ok (answers answer next [] calls, queue)) ↔
      Guarded step InOnePiece keyboardQueueInit calls) ∧
    (answers answer next [] calls).flatMap Prod.snd <+:
      Fifo.taken bufferSize [] (calls.map Call.op) := by
  constructor
  · exact run_answers_iff Pending (fun _ _ call holds => holds.answers call)
      (fun _ _ _ _ holds => holds.onePiece) calls keyboardQueueInit [] pending_init
  rw [answers_given]
  apply Fifo.given_prefix
  intro cleared
  obtain ⟨call, -, clear⟩ := mem_map.mp cleared
  cases call <;> cases clear

/-- **Codes around the end of the array are not returned**: twelve codes are put in and taken
out, twelve more put in; taking these out copies four bytes from behind the array. -/
theorem around_the_end :
    run step keyboardQueueInit (replicate 12 (.put 1) ++ .get 12 ::
      replicate 12 (.put 2) ++ [.get 12]) = .error .overrun := by
  rfl

end Phy6212.Keyboard
