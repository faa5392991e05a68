import Mathlib.Data.List.Infix
import Mathlib.Data.Nat.ModEq
import Phy6212.Runs.Simulation

/-!
# Queues in a cyclic array

`Lies n slots front pending`: the elements stand in `n` slots from `front` on, around the end.
-/

namespace Queues

open List

universe u

variable {α : Type u}

/-- The elements in the slots from `front` on. -/
structure Lies (n : Nat) (slots : Nat → α) (front : Nat) (pending : List α) : Prop where
  room : pending.length ≤ n
  at_ : ∀ k < pending.length, pending[k]? = some (slots ((front + k) % n))

namespace Lies

variable {n front : Nat} {slots : Nat → α} {pending : List α}

theorem nil (n : Nat) (slots : Nat → α) (front : Nat) : Lies n slots front [] :=
  ⟨Nat.zero_le n, fun _ inside => absurd inside (Nat.not_lt_zero _)⟩

theorem push (lies : Lies n slots front pending) (space : pending.length < n) (a : α) :
    Lies n (Function.update slots ((front + pending.length) % n) a) front (pending ++ [a]) where
  room := by
    rw [length_append]
    exact space
  at_ := by
    intro k inside
    rw [length_append, length_singleton] at inside
    by_cases last : k = pending.length
    · rw [last, Function.update_self, getElem?_concat_length]
    have old : k < pending.length := by omega
    have other : (front + k) % n ≠ (front + pending.length) % n := by
      intro same
      have mods : k ≡ pending.length [MOD n] := Nat.ModEq.add_left_cancel' front same
      exact last (mods.eq_of_lt_of_lt (old.trans space) space)
    rw [Function.update_of_ne other, getElem?_append_left old]
    exact lies.at_ k old

theorem drop (lies : Lies n slots front pending) (count : Nat) :
    Lies n slots ((front + count) % n) (pending.drop count) where
  room := by
    rw [length_drop]
    exact (Nat.sub_le _ _).trans lies.room
  at_ := by
    intro k inside
    rw [length_drop] at inside
    rw [getElem?_drop, lies.at_ _ (by omega), Nat.mod_add_mod, Nat.add_assoc]

theorem head {a : α} (lies : Lies n slots front (a :: pending)) : slots (front % n) = a := by
  have first := lies.at_ 0 (Nat.succ_pos _)
  simpa using first.symm

theorem take (lies : Lies n slots front pending) {count : Nat} (few : count ≤ pending.length)
    (inside : front + count ≤ n) :
    (range count).map (fun k => slots (front + k)) = pending.take count := by
  apply ext_getElem?
  intro k
  by_cases here : k < count
  · rw [getElem?_take_of_lt here, lies.at_ k (by omega), Nat.mod_eq_of_lt (by omega)]
    simp [here]
  · have behind : count ≤ k := Nat.le_of_not_lt here
    rw [getElem?_eq_none (by simpa using behind),
      getElem?_eq_none ((length_take_le _ _).trans behind)]

end Lies

inductive Op (α : Type u) where
  | put (elements : List α)
  | get (count : Nat)
  | clear
  | size
  deriving DecidableEq, Repr

namespace Fifo

/-- How many elements were taken or given, or are there, and those given. -/
def reply (n : Nat) (pending : List α) : Op α → Int × List α
  | .put elements => (↑(min elements.length (n - pending.length)), [])
  | .get count => (↑(min count pending.length), pending.take count)
  | .clear => (0, [])
  | .size => (pending.length, [])

def next (n : Nat) (pending : List α) : Op α → List α
  | .put elements => pending ++ elements.take (n - pending.length)
  | .get count => pending.drop count
  | .clear => []
  | .size => pending

def taken (n : Nat) : List α → List (Op α) → List α
  | _, [] => []
  | pending, .put elements :: ops =>
    elements.take (n - pending.length) ++ taken n (next n pending (.put elements)) ops
  | pending, op :: ops => taken n (next n pending op) ops

def given (n : Nat) (pending : List α) (ops : List (Op α)) : List α :=
  (Runs.answers (reply n) (next n) pending ops).flatMap Prod.snd

theorem given_cons (n : Nat) (pending : List α) (op : Op α) (ops : List (Op α)) :
    given n pending (op :: ops) = (reply n pending op).2 ++ given n (next n pending op) ops := rfl

/-- **What a queue gave is what it took first**, as long as it is not cleared. -/
theorem given_prefix (n : Nat) : ∀ (ops : List (Op α)) (pending : List α), .clear ∉ ops →
    given n pending ops <+: pending ++ taken n pending ops
  | [], _, _ => nil_prefix
  | op :: ops, pending, kept => by
    have rest := given_prefix n ops (next n pending op)
      fun later => kept (mem_cons_of_mem op later)
    rw [given_cons]
    cases op with
    | put elements => simpa [taken, reply, next] using rest
    | get count =>
      have split : pending ++ taken n pending (.get count :: ops) =
          pending.take count ++ (pending.drop count ++ taken n (pending.drop count) ops) := by
        rw [← append_assoc, take_append_drop]
        rfl
      rw [split]
      exact (prefix_append_right_inj _).mpr rest
    | clear => exact absurd mem_cons_self kept
    | size => simpa [taken, reply, next] using rest

end Fifo

end Queues
