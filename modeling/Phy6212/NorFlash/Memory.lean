import Mathlib.Data.List.GetD
import Mathlib.Logic.Function.Basic

/-!
# NOR flash as a byte memory

Programming a byte of a NOR flash can only clear bits, and erasing sets a range to `0xFF`.
-/

namespace NorFlash

open List

abbrev Mem := Nat → UInt8

abbrev blank : UInt8 := 0xFF

/-- Program `data` from `addr` on: every byte covered keeps the bits that both
its old value and the data have set. -/
def program (mem : Mem) (addr : Nat) (data : List UInt8) : Mem := fun a =>
  if addr ≤ a ∧ a < addr + data.length then mem a &&& data.getD (a - addr) blank else mem a

def erase (mem : Mem) (addr len : Nat) : Mem := fun a =>
  if addr ≤ a ∧ a < addr + len then blank else mem a

variable {mem : Mem} {addr a : Nat} {data : List UInt8}

theorem program_outside (outside : a < addr ∨ addr + data.length ≤ a) :
    program mem addr data a = mem a := by
  unfold program
  rw [if_neg (by omega)]

theorem program_inside (low : addr ≤ a) (high : a < addr + data.length) :
    program mem addr data a = mem a &&& data.getD (a - addr) blank := by
  unfold program
  rw [if_pos ⟨low, high⟩]

theorem blank_and (byte : UInt8) : blank &&& byte = byte := by
  apply UInt8.toBitVec_inj.mp
  exact BitVec.allOnes_and

theorem program_erased (low : addr ≤ a) (high : a < addr + data.length)
    (erased : mem a = blank) : program mem addr data a = data.getD (a - addr) blank := by
  rw [program_inside low high, erased, blank_and]

theorem program_zeros {n : Nat} (low : addr ≤ a) (high : a < addr + n) :
    program mem addr (replicate n 0) a = 0 := by
  rw [program_inside low (by simpa using high), getD_replicate _ (by omega)]
  exact UInt8.and_zero

theorem erase_outside {len : Nat} (outside : a < addr ∨ addr + len ≤ a) :
    erase mem addr len a = mem a := by
  unfold erase
  rw [if_neg (by omega)]

theorem erase_inside {len : Nat} (low : addr ≤ a) (high : a < addr + len) :
    erase mem addr len a = blank := by
  unfold erase
  rw [if_pos ⟨low, high⟩]

def HoldsAt (mem : Mem) (addr : Nat) (bytes : List UInt8) : Prop :=
  ∀ i < bytes.length, mem (addr + i) = bytes.getD i blank

theorem holdsAt_append {first second : List UInt8} :
    HoldsAt mem addr (first ++ second) ↔
      HoldsAt mem addr first ∧ HoldsAt mem (addr + first.length) second := by
  constructor
  · intro both
    refine ⟨fun i inside => ?_, fun i inside => ?_⟩
    · rw [both i (by rw [length_append]; omega), getD_append _ _ _ _ inside]
    · rw [Nat.add_assoc, both _ (by rw [length_append]; omega),
        getD_append_right _ _ _ _ (Nat.le_add_right _ _), Nat.add_sub_cancel_left]
  rintro ⟨holdsFirst, holdsSecond⟩ i inside
  rw [length_append] at inside
  rcases Nat.lt_or_ge i first.length with here | there
  · rw [holdsFirst i here, getD_append _ _ _ _ here]
  · have place : addr + i = addr + first.length + (i - first.length) := by omega
    rw [place, holdsSecond _ (by omega), getD_append_right _ _ _ _ there]

inductive Op where
  | program (addr : Nat) (data : List UInt8)
  | erase (addr len : Nat)
  deriving DecidableEq, Repr

def Op.apply (mem : Mem) : Op → Mem
  | .program addr data => NorFlash.program mem addr data
  | .erase addr len => NorFlash.erase mem addr len

def replay (mem : Mem) (ops : List Op) : Mem := ops.foldl Op.apply mem

variable (mem : Mem)

@[simp] theorem replay_nil : replay mem [] = mem := rfl

@[simp] theorem replay_cons (op : Op) (ops : List Op) :
    replay mem (op :: ops) = replay (op.apply mem) ops := rfl

theorem replay_append (first second : List Op) :
    replay mem (first ++ second) = replay (replay mem first) second :=
  foldl_append

/-- The property holds after every prefix of the sequence: whenever the power
is cut between two operations, the memory left behind has it. -/
def Survives (P : Mem → Prop) (mem : Mem) (ops : List Op) : Prop :=
  ∀ cut, P (replay mem (ops.take cut))

namespace Survives

variable {P Q : Mem → Prop} {mem : Mem}

theorem nil (start : P mem) : Survives P mem [] := by
  intro cut
  simpa using start

theorem single {op : Op} (start : P mem) (after : P (op.apply mem)) : Survives P mem [op] := by
  intro cut
  cases cut with
  | zero => simpa using start
  | succ cut => simpa using after

theorem append {first second : List Op} (begins : Survives P mem first)
    (continues : Survives P (replay mem first) second) : Survives P mem (first ++ second) := by
  intro cut
  rw [take_append]
  rcases Nat.le_total cut first.length with short | long
  · rw [Nat.sub_eq_zero_of_le short, take_zero, append_nil]
    exact begins cut
  · rw [take_of_length_le long, replay_append]
    exact continues _

theorem mono {ops : List Op} (survives : Survives P mem ops) (weaker : ∀ m, P m → Q m) :
    Survives Q mem ops :=
  fun cut => weaker _ (survives cut)

end Survives

end NorFlash
