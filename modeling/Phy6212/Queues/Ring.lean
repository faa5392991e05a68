import Mathlib.Logic.Function.Basic

/-!
# Circular queues

A queue in a ring of slots: the oldest element is behind `head`, the newest in `tail`, and one slot
stays free.
-/

namespace Queues

open Function

universe u v

structure Ring (ι : Type u) (α : Type v) where
  head : ι
  tail : ι
  slots : ι → α

namespace Ring

variable {ι : Type u} {α : Type v} (next : ι → ι)

def isEmpty [DecidableEq ι] (r : Ring ι α) : Bool := decide (r.head = r.tail)

def isFull [DecidableEq ι] (r : Ring ι α) : Bool := decide (next r.tail = r.head)

def top (r : Ring ι α) : α := r.slots (next r.head)

def pop (r : Ring ι α) : Ring ι α := { r with head := next r.head }

def put [DecidableEq ι] (r : Ring ι α) (a : α) : Ring ι α :=
  { r with tail := next r.tail, slots := update r.slots (next r.tail) a }

def Holds : Ring ι α → List α → Prop
  | r, [] => r.head = r.tail
  | r, a :: rest => r.head ≠ r.tail ∧ r.top next = a ∧ Holds (r.pop next) rest

variable {next} {r : Ring ι α} {elements : List α} {a : α}

theorem Holds.eq_nil_iff (holds : Holds next r elements) : r.head = r.tail ↔ elements = [] := by
  cases elements with
  | nil => exact iff_of_true holds rfl
  | cons a rest => exact iff_of_false holds.1 (List.cons_ne_nil a rest)

theorem Holds.isEmpty_iff [DecidableEq ι] (holds : Holds next r elements) :
    r.isEmpty = true ↔ elements = [] := by
  rw [isEmpty, decide_eq_true_iff]
  exact holds.eq_nil_iff

theorem Holds.top (holds : Holds next r (a :: elements)) : r.top next = a := holds.2.1

theorem Holds.pop (holds : Holds next r (a :: elements)) : Holds next (r.pop next) elements :=
  holds.2.2

theorem Holds.put [DecidableEq ι] (injective : Function.Injective next) (moves : ∀ i, next i ≠ i)
    (a : α) (elements : List α) (holds : Holds next r elements) (room : r.isFull next = false) :
    Holds next (r.put next a) (elements ++ [a]) := by
  induction elements generalizing r with
  | nil =>
    have empty : r.head = r.tail := holds
    refine ⟨?_, ?_, ?_⟩
    · intro same
      exact moves r.tail (same.symm.trans empty)
    · show update r.slots _ a (next r.head) = a
      rw [empty, update_self]
    · show next r.head = next r.tail
      rw [empty]
  | cons first rest ih =>
    have other : next r.head ≠ next r.tail := fun same => holds.1 (injective same)
    refine ⟨?_, ?_, ?_⟩
    · intro same
      have full : r.isFull next = true := decide_eq_true same.symm
      rw [full] at room
      cases room
    · show update r.slots _ a (next r.head) = first
      rw [update_of_ne other]
      exact holds.top
    · apply ih holds.pop
      exact decide_eq_false other.symm

end Ring

end Queues
