import Phy6212.Queues.Cyclic

/-!
# The ring buffer

`ringbuffer.c`, with the number of pending bytes computed from `head` and `tail`: one byte of the
buffer stays free.
-/

namespace Phy6212.Misc

open List Queues Runs

/-- A `ringbuffer_t`; `length` is one less than the length of the buffer. -/
structure Ringbuffer where
  buffer : Nat → UInt8
  length : Nat
  head : Nat
  tail : Nat

namespace Ringbuffer

def create (length : Nat) : Ringbuffer := ⟨fun _ => 0, length - 1, 0, 0⟩

variable (r : Ringbuffer)

/-- The number of pending bytes; `length` is the most there can be. -/
def availableReadSpace : Nat :=
  if r.head = r.tail then 0
  else if r.head < r.tail then r.tail - r.head
  else r.length - (r.head - r.tail - 1)

def availableWriteSpace : Nat := r.length - r.availableReadSpace

/-- An index moved on by one. -/
def next (i : Nat) : Nat := if r.length + 1 ≤ i + 1 then 0 else i + 1

def writeLoop : Ringbuffer → List UInt8 → Ringbuffer
  | r, [] => r
  | r, byte :: data =>
    writeLoop { r with buffer := Function.update r.buffer r.tail byte, tail := r.next r.tail } data

/-- The number of bytes that were accepted, which are the first ones. -/
def write (data : List UInt8) : Nat × Ringbuffer :=
  let length := if r.availableWriteSpace < data.length then r.availableWriteSpace else data.length
  (length, writeLoop r (data.take length))

def readLoop : Nat → Ringbuffer → List UInt8 × Ringbuffer
  | 0, r => ([], r)
  | count + 1, r =>
    let copied := readLoop count { r with head := r.next r.head }
    (r.buffer r.head :: copied.1, copied.2)

/-- The result, the bytes that were copied and the buffer behind it. -/
def read (amount : Nat) : (Int × List UInt8) × Ringbuffer :=
  if amount = 0 then ((-1, []), r)
  else if r.availableReadSpace = 0 then ((0, []), r)
  else
    let copySz := if amount < r.availableReadSpace then amount else r.availableReadSpace
    let copied := readLoop copySz r
    ((copySz, copied.1), copied.2)

end Ringbuffer

inductive RingCall where
  | write (data : List UInt8)
  | read (amount : Nat)
  | availableReadSpace
  | availableWriteSpace

def Ringbuffer.step (r : Ringbuffer) : RingCall → Except Empty ((Int × List UInt8) × Ringbuffer)
  | .write data => let (ret, r') := r.write data; .ok ((ret, []), r')
  | .read amount => .ok (r.read amount)
  | .availableReadSpace => .ok ((r.availableReadSpace, []), r)
  | .availableWriteSpace => .ok ((r.availableWriteSpace, []), r)

def RingCall.op : RingCall → Op UInt8
  | .write data => .put data
  | .read amount => .get amount
  | .availableReadSpace => .size
  | .availableWriteSpace => .size

/-- What a queue of `n` bytes answers; to read nothing is an error. -/
def ringAnswer (n : Nat) (pending : List UInt8) : RingCall → Int × List UInt8
  | .read 0 => (-1, [])
  | .availableWriteSpace => (↑(n - pending.length), [])
  | call => Fifo.reply n pending call.op

def ringNext (n : Nat) (pending : List UInt8) (call : RingCall) : List UInt8 :=
  Fifo.next n pending call.op

namespace Ringbuffer

/-- The pending bytes of a ring buffer in an array of `n + 1` bytes. -/
structure Pending (n : Nat) (r : Ringbuffer) (pending : List UInt8) : Prop where
  lies : Lies (n + 1) r.buffer r.head pending
  free : pending.length ≤ n
  length : r.length = n
  head : r.head < n + 1
  tail : r.tail = (r.head + pending.length) % (n + 1)

variable {n : Nat} {r : Ringbuffer} {pending : List UInt8}

theorem next_eq {i : Nat} (length : r.length = n) (inside : i < n + 1) :
    r.next i = (i + 1) % (n + 1) := by
  unfold next
  rw [length]
  split
  · rw [show i + 1 = n + 1 by omega, Nat.mod_self]
  · rw [Nat.mod_eq_of_lt (by omega)]

section

variable (holds : Pending n r pending)

include holds

/-- The two indices tell the pending bytes apart from the free ones, since they are equal only when
nothing is pending. -/
theorem Pending.readSpace : r.availableReadSpace = pending.length := by
  obtain ⟨-, free, length, head, tail⟩ := holds
  unfold availableReadSpace
  rw [tail, length]
  rcases Nat.lt_or_ge (r.head + pending.length) (n + 1) with inside | around
  · rw [Nat.mod_eq_of_lt inside]
    split
    · omega
    · split <;> omega
  rw [Nat.mod_eq_sub_mod around, Nat.mod_eq_of_lt (by omega)]
  split
  · omega
  · split <;> omega

theorem Pending.writeLoop {data : List UInt8} (room : pending.length + data.length ≤ n) :
    Pending n (r.writeLoop data) (pending ++ data) := by
  induction data generalizing r pending with
  | nil => rwa [append_nil]
  | cons byte data ih =>
    rw [length_cons] at room
    have next : Pending n { r with
        buffer := Function.update r.buffer r.tail byte, tail := r.next r.tail }
        (pending ++ [byte]) := by
      refine ⟨?_, ?_, holds.length, holds.head, ?_⟩
      · simp only [holds.tail]
        exact holds.lies.push (by omega) byte
      · rw [length_append, length_singleton]
        omega
      · have inside : r.tail < n + 1 := holds.tail ▸ Nat.mod_lt _ (Nat.succ_pos n)
        rw [next_eq holds.length inside, holds.tail, Nat.mod_add_mod, length_append, Nat.add_assoc]
        rfl
    have rest := ih next (by rw [length_append, length_singleton]; omega)
    rwa [append_assoc] at rest

theorem Pending.readLoop {count : Nat} (few : count ≤ pending.length) :
    (readLoop count r).1 = pending.take count ∧
      Pending n (readLoop count r).2 (pending.drop count) := by
  induction count generalizing r pending with
  | zero => exact ⟨rfl, holds⟩
  | succ count ih =>
    cases pending with
    | nil => cases few
    | cons byte pending =>
      have first := holds.lies.head
      rw [Nat.mod_eq_of_lt holds.head] at first
      have moved := next_eq holds.length holds.head
      have rest : Pending n { r with head := r.next r.head } pending := by
        refine ⟨?_, (Nat.le_succ _).trans holds.free, holds.length, ?_, ?_⟩
        · simp only [moved]
          exact holds.lies.drop 1
        · simp only [moved]
          exact Nat.mod_lt _ (Nat.succ_pos n)
        · simp only [moved, holds.tail, length_cons]
          rw [Nat.mod_add_mod, Nat.add_right_comm, Nat.add_assoc]
      obtain ⟨bytes, left⟩ := ih rest (Nat.le_of_succ_le_succ few)
      refine ⟨?_, left⟩
      simp only [Ringbuffer.readLoop, bytes, first, take_succ_cons]

theorem Pending.write (data : List UInt8) :
    (r.write data).1 = min data.length (n - pending.length) ∧
      Pending n (r.write data).2 (pending ++ data.take (n - pending.length)) := by
  have free := holds.free
  have space : r.availableWriteSpace = n - pending.length := by
    rw [availableWriteSpace, holds.length, holds.readSpace]
  have least : (if r.availableWriteSpace < data.length then r.availableWriteSpace
      else data.length) = min (n - pending.length) data.length := by
    rw [space]
    split <;> omega
  unfold Ringbuffer.write
  simp only [least]
  refine ⟨Nat.min_comm _ _, ?_⟩
  rw [← take_take, take_length]
  refine holds.writeLoop ?_
  rw [length_take]
  omega

theorem Pending.read {amount : Nat} (some : amount ≠ 0) :
    ∃ r', r.read amount = (Fifo.reply n pending (.get amount), r') ∧
      Pending n r' (pending.drop amount) := by
  have least : (if amount < pending.length then amount else pending.length) =
      min amount pending.length := by
    split <;> omega
  obtain ⟨bytes, left⟩ := holds.readLoop (Nat.min_le_right amount pending.length)
  rw [← take_eq_take_min] at bytes
  rw [← drop_eq_drop_min] at left
  unfold Ringbuffer.read Fifo.reply
  rw [if_neg some, holds.readSpace, least]
  split
  · rename_i empty
    obtain rfl := eq_nil_of_length_eq_zero empty
    exact ⟨r, by simp, by rwa [drop_nil]⟩
  · exact ⟨_, by simp only [bytes], left⟩

theorem Pending.answers (call : RingCall) :
    ∃ r', r.step call = .ok (ringAnswer n pending call, r') ∧
      Pending n r' (ringNext n pending call) := by
  cases call with
  | write data =>
    obtain ⟨ret, left⟩ := holds.write data
    refine ⟨_, ?_, left⟩
    simp only [step, ret]
    rfl
  | read amount =>
    cases amount with
    | zero => exact ⟨r, rfl, holds⟩
    | succ amount =>
      obtain ⟨r', ok, left⟩ := holds.read (Nat.succ_ne_zero amount)
      exact ⟨r', congrArg Except.ok ok, left⟩
  | availableReadSpace =>
    refine ⟨r, ?_, holds⟩
    simp only [step, holds.readSpace]
    rfl
  | availableWriteSpace =>
    refine ⟨r, ?_, holds⟩
    simp only [step, availableWriteSpace, holds.length, holds.readSpace]
    rfl

theorem Pending.run (calls : List RingCall) :
    ∃ r' pending', run step r calls =
      .ok (Runs.answers (ringAnswer n) (ringNext n) pending calls, r') ∧ Pending n r' pending' := by
  induction calls generalizing r pending with
  | nil => exact ⟨r, pending, rfl, holds⟩
  | cons call calls ih =>
    obtain ⟨r', first, next⟩ := holds.answers call
    obtain ⟨r'', pending'', rest, finish⟩ := ih next
    exact ⟨r'', pending'', run_cons first rest, finish⟩

end

/-- **The ring buffer is a queue**: with a buffer of `length` bytes it answers every sequence of
calls as a queue of `length - 1` bytes does, and its indices stay in the buffer. -/
theorem ringbuffer_fifo (length : Nat) (some : 1 ≤ length) (calls : List RingCall) :
    ∃ r, Runs.run step (create length) calls =
        .ok (Runs.answers (ringAnswer (length - 1)) (ringNext (length - 1)) [] calls, r) ∧
      r.head < length ∧ r.tail < length := by
  have start : Pending (length - 1) (create length) [] :=
    ⟨.nil _ _ _, Nat.zero_le _, rfl, Nat.succ_pos _, rfl⟩
  obtain ⟨r, pending, ok, holds⟩ := start.run calls
  have whole := Nat.sub_add_cancel some
  refine ⟨r, ok, whole ▸ holds.head, ?_⟩
  rw [holds.tail, whole]
  exact Nat.mod_lt _ some

theorem ringbuffer_fifo_three : ∃ r,
    Runs.run step (create 3) [.write [1, 2, 3], .read 1, .availableWriteSpace] =
      .ok ([(2, []), (1, [1]), (1, [])], r) :=
  let ⟨r, ok, _⟩ := ringbuffer_fifo 3 (by decide) [.write [1, 2, 3], .read 1, .availableWriteSpace]
  ⟨r, ok⟩

end Ringbuffer

end Phy6212.Misc
