import Mathlib.Logic.Function.Basic

/-!
# A heap whose addresses are used again

An allocator may hand out a freed address again, so a pointer carries the number of its allocation,
too.
-/

namespace Pointers

open Function

universe u

variable {α : Type u}

/-- An address together with the allocation that returned it. -/
structure Ptr where
  addr : Nat
  gen : Nat
  deriving DecidableEq, Repr

structure Cell (α : Type u) where
  gen : Nat
  content : α

/-- The allocated cells. -/
structure Heap (α : Type u) where
  cells : Nat → Option (Cell α)
  nextGen : Nat
  issued : ∀ addr cell, cells addr = some cell → cell.gen < nextGen

namespace Heap

def empty : Heap α where
  cells := fun _ => none
  nextGen := 0
  issued := by
    intro addr cell found
    cases found

def read (heap : Heap α) (p : Ptr) : Option α :=
  match heap.cells p.addr with
  | some cell => if cell.gen = p.gen then some cell.content else none
  | none => none

def write (heap : Heap α) (p : Ptr) (x : α) : Heap α where
  cells := fun addr => (heap.cells addr).map fun cell =>
    if addr = p.addr ∧ cell.gen = p.gen then { cell with content := x } else cell
  nextGen := heap.nextGen
  issued := by
    intro addr cell found
    obtain ⟨old, at_addr, rfl⟩ := Option.map_eq_some_iff.mp found
    have gen := heap.issued _ _ at_addr
    split
    · exact gen
    · exact gen

/-- Allocate a cell at an address that the allocator picks among the free ones. An
address in use stands for an allocator that has no memory left. -/
def alloc (heap : Heap α) (addr : Nat) (x : α) : Option (Ptr × Heap α) :=
  match heap.cells addr with
  | some _ => none
  | none => some (⟨addr, heap.nextGen⟩,
      { cells := update heap.cells addr (some ⟨heap.nextGen, x⟩)
        nextGen := heap.nextGen + 1
        issued := by
          intro other cell found
          by_cases here : other = addr
          · subst here
            rw [update_self, Option.some.injEq] at found
            subst found
            exact Nat.lt_succ_self _
          · rw [update_of_ne here] at found
            exact Nat.lt_succ_of_lt (heap.issued _ _ found) })

def free (heap : Heap α) (p : Ptr) : Heap α where
  cells := update heap.cells p.addr none
  nextGen := heap.nextGen
  issued := by
    intro addr cell found
    by_cases here : addr = p.addr
    · subst here
      rw [update_self] at found
      cases found
    · rw [update_of_ne here] at found
      exact heap.issued _ _ found

def Live (heap : Heap α) (p : Ptr) : Prop := ∃ x, heap.read p = some x

/-- The pointer has been returned by an allocation and is not live any more. -/
def Spent (heap : Heap α) (p : Ptr) : Prop := p.gen < heap.nextGen ∧ ¬ heap.Live p

variable {heap next : Heap α} {p q : Ptr} {x : α}

theorem live_iff : heap.Live p ↔ ∃ cell, heap.cells p.addr = some cell ∧ cell.gen = p.gen := by
  unfold Live read
  constructor
  · rintro ⟨x, found⟩
    split at found
    · next cell at_addr =>
      split at found
      · next same => exact ⟨cell, at_addr, same⟩
      · cases found
    · cases found
  · rintro ⟨cell, at_addr, same⟩
    exact ⟨cell.content, by rw [at_addr]; exact if_pos same⟩

theorem Live.gen_lt (live : heap.Live p) : p.gen < heap.nextGen := by
  obtain ⟨cell, at_addr, same⟩ := live_iff.mp live
  exact same ▸ heap.issued _ _ at_addr

theorem Live.eq_of_addr (first : heap.Live p) (second : heap.Live q) (same : p.addr = q.addr) :
    p = q := by
  obtain ⟨cell, at_p, gen_p⟩ := live_iff.mp first
  obtain ⟨cell', at_q, gen_q⟩ := live_iff.mp second
  cases p
  cases q
  simp_all

theorem live_write : (heap.write p x).Live q ↔ heap.Live q := by
  rw [live_iff, live_iff]
  show (∃ cell, (heap.cells q.addr).map _ = some cell ∧ _) ↔ _
  cases heap.cells q.addr with
  | none => simp
  | some old =>
    simp only [Option.map_some, Option.some.injEq, exists_eq_left']
    split
    · rfl
    · rfl

theorem read_write_self (live : heap.Live p) : (heap.write p x).read p = some x := by
  obtain ⟨cell, at_addr, gen⟩ := live_iff.mp live
  simp [read, write, at_addr, gen]

variable {addr : Nat}

section

variable (got : heap.alloc addr x = some (p, next))

include got

theorem live_alloc : next.Live q ↔ q = p ∨ heap.Live q := by
  unfold alloc at got
  split at got
  · cases got
  rename_i unused
  obtain ⟨rfl, rfl⟩ := got
  rw [live_iff, live_iff]
  show (∃ c, update heap.cells addr _ q.addr = some c ∧ _) ↔ _
  by_cases here : q.addr = addr
  · rw [here, update_self, unused]
    constructor
    · rintro ⟨cell, found, gen⟩
      cases found
      cases q
      cases here
      cases gen
      exact .inl rfl
    · rintro (rfl | ⟨cell, found, _⟩)
      · exact ⟨_, rfl, rfl⟩
      · cases found
  rw [update_of_ne here]
  constructor
  · exact Or.inr
  · rintro (rfl | live)
    · exact absurd rfl here
    · exact live

theorem alloc_gen : p.gen = heap.nextGen ∧ next.nextGen = heap.nextGen + 1 := by
  unfold alloc at got
  split at got
  · cases got
  · obtain ⟨rfl, rfl⟩ := got
    exact ⟨rfl, rfl⟩

theorem read_alloc : next.read p = some x := by
  unfold alloc at got
  split at got
  · cases got
  · obtain ⟨rfl, rfl⟩ := got
    simp [read]

theorem not_live_of_alloc : ¬ heap.Live p := by
  intro live
  exact absurd live.gen_lt (by rw [(alloc_gen got).1]; exact Nat.lt_irrefl _)

end

theorem cells_free_of_ne (other : addr ≠ p.addr) : (heap.free p).cells addr = heap.cells addr :=
  update_of_ne other _ _

theorem live_free (live : heap.Live p) : (heap.free p).Live q ↔ heap.Live q ∧ q ≠ p := by
  constructor
  · intro stays
    have other : q.addr ≠ p.addr := by
      intro here
      obtain ⟨cell, at_addr, _⟩ := live_iff.mp stays
      rw [here] at at_addr
      simp [free] at at_addr
    obtain ⟨cell, at_addr, gen⟩ := live_iff.mp stays
    rw [cells_free_of_ne other] at at_addr
    exact ⟨live_iff.mpr ⟨cell, at_addr, gen⟩, fun same => other (by rw [same])⟩
  rintro ⟨stays, different⟩
  have other : q.addr ≠ p.addr := fun here => different (stays.eq_of_addr live here)
  obtain ⟨cell, at_addr, gen⟩ := live_iff.mp stays
  exact live_iff.mpr ⟨cell, by rw [cells_free_of_ne other]; exact at_addr, gen⟩

theorem spent_of_free (live : heap.Live p) : (heap.free p).Spent p :=
  ⟨live.gen_lt, fun again => ((live_free live).mp again).2 rfl⟩

theorem Spent.free (spent : heap.Spent q) (live : heap.Live p) : (heap.free p).Spent q :=
  ⟨spent.1, fun again => spent.2 ((live_free live).mp again).1⟩

theorem Spent.write (spent : heap.Spent q) : (heap.write p x).Spent q :=
  ⟨spent.1, fun again => spent.2 (live_write.mp again)⟩

theorem Spent.alloc (spent : heap.Spent q) (got : heap.alloc addr x = some (p, next)) :
    next.Spent q := by
  obtain ⟨gen, advanced⟩ := alloc_gen got
  refine ⟨by rw [advanced]; exact Nat.lt_succ_of_lt spent.1, ?_⟩
  rw [live_alloc got]
  rintro (rfl | live)
  · exact absurd spent.1 (by rw [gen]; exact Nat.lt_irrefl _)
  · exact spent.2 live

end Heap

end Pointers
