import Mathlib.Data.List.GetD
import Mathlib.Data.List.Range

/-!
# Bytes in memory

A memory has one byte at each address. `store` writes some bytes one behind the other, and `load`
reads them.
-/

namespace CLib

open List

abbrev Memory := Nat → UInt8

def load (mem : Memory) (addr count : Nat) : List UInt8 :=
  (range count).map fun i => mem (addr + i)

def store (mem : Memory) (addr : Nat) (bytes : List UInt8) : Memory := fun a =>
  if addr ≤ a then bytes.getD (a - addr) (mem a) else mem a

variable (mem : Memory) (addr : Nat)

@[simp] theorem load_zero : load mem addr 0 = [] := rfl

variable (count : Nat) (bytes : List UInt8)

@[simp] theorem length_load : (load mem addr count).length = count := by
  rw [load, length_map, length_range]

theorem load_add (more : Nat) :
    load mem addr (count + more) = load mem addr count ++ load mem (addr + count) more := by
  simp [load, range_add, Nat.add_assoc]

theorem load_succ : load mem addr (count + 1) = mem addr :: load mem (addr + 1) count := by
  rw [Nat.add_comm, load_add]
  rfl

theorem take_drop_load {place part count : Nat} (inside : place + part ≤ count) :
    ((load mem addr count).drop place).take part = load mem (addr + place) part := by
  obtain ⟨rest, rfl⟩ := Nat.exists_eq_add_of_le inside
  rw [Nat.add_assoc, load_add, drop_left' (length_load mem addr place), load_add,
    take_left' (length_load mem _ part)]

@[simp] theorem store_nil : store mem addr [] = mem := by
  funext a
  simp [store]

theorem load_store_self : load (store mem addr bytes) addr bytes.length = bytes := by
  apply ext_getElem
  · exact length_load _ _ _
  · intro i _ inside
    simp [load, store, getElem?_eq_getElem inside]

theorem load_store_before :
    load (store mem (addr + count) bytes) addr count = load mem addr count := by
  apply map_congr_left
  intro i inside
  have before : ¬ addr + count ≤ addr + i := by
    have := mem_range.mp inside
    omega
  exact if_neg before

theorem load_store_behind {place : Nat} {bytes : List UInt8}
    (behind : addr + bytes.length ≤ place) :
    load (store mem addr bytes) place count = load mem place count := by
  apply map_congr_left
  intro i _
  have outside : bytes.length ≤ place + i - addr := by omega
  rw [store, if_pos (by omega), getD_eq_default _ _ outside]

theorem load_store :
    load (store mem (addr + count) bytes) addr (count + bytes.length) =
      load mem addr count ++ bytes := by
  rw [load_add, load_store_before, load_store_self]

end CLib
