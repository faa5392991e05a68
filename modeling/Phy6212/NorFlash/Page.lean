import Phy6212.NorFlash.Memory

/-!
# Page programming

A serial flash programs within one page: behind the last address of the page the bytes go on at its
first one.
-/

namespace NorFlash

/-- The number of the byte that a program command at `addr` writes to address `a` of
the same page. -/
def pageSlot (page addr a : Nat) : Nat := (a % page + (page - addr % page)) % page

def programPage (page : Nat) (mem : Mem) (addr : Nat) (data : List UInt8) : Mem := fun a =>
  if a / page = addr / page ∧ pageSlot page addr a < data.length then
    mem a &&& data.getD (pageSlot page addr a) 0
  else mem a

/-- The address gets one of the bytes from number `size` on, of `full` ones. -/
def Padded (page addr size full a : Nat) : Prop :=
  a / page = addr / page ∧ size ≤ pageSlot page addr a ∧ pageSlot page addr a < full

instance (page addr size full a : Nat) : Decidable (Padded page addr size full a) :=
  inferInstanceAs (Decidable (_ ∧ _ ∧ _))

theorem samePage {page addr a size : Nat} (within : addr % page + size ≤ page) (low : addr ≤ a)
    (high : a < addr + size) : a / page = addr / page := by
  have split_addr := Nat.div_add_mod addr page
  apply Nat.div_eq_of_lt_le
  · rw [Nat.mul_comm]
    omega
  · rw [Nat.add_mul, Nat.one_mul, Nat.mul_comm]
    omega

section Slots

variable {page addr a : Nat} (positive : 0 < page)

include positive

theorem pageSlot_of_le (same : a / page = addr / page) (low : addr ≤ a) :
    pageSlot page addr a = a - addr := by
  have split_a := Nat.div_add_mod a page
  have split_addr := Nat.div_add_mod addr page
  have less_a := Nat.mod_lt a positive
  rw [same] at split_a
  unfold pageSlot
  rw [Nat.mod_eq_sub_mod (by omega), Nat.mod_eq_of_lt (by omega)]
  omega

theorem pageSlot_of_lt (same : a / page = addr / page) (high : a < addr) :
    pageSlot page addr a = a + page - addr := by
  have split_a := Nat.div_add_mod a page
  have split_addr := Nat.div_add_mod addr page
  have less_addr := Nat.mod_lt addr positive
  rw [same] at split_a
  unfold pageSlot
  rw [Nat.mod_eq_of_lt (by omega)]
  omega

theorem pageSlot_lt_iff {size : Nat} (within : addr % page + size ≤ page)
    (same : a / page = addr / page) :
    pageSlot page addr a < size ↔ addr ≤ a ∧ a < addr + size := by
  have split_a := Nat.div_add_mod a page
  have split_addr := Nat.div_add_mod addr page
  rw [same] at split_a
  rcases Nat.lt_or_ge a addr with before | behind
  · rw [pageSlot_of_lt positive same before]
    omega
  · rw [pageSlot_of_le positive same behind]
    omega

end Slots

def programFrom (mem : Mem) (addr : Nat) (bytes : Nat → UInt8) (size : Nat) : Mem := fun a =>
  if addr ≤ a ∧ a < addr + size then mem a &&& bytes (a - addr) else mem a

def clearAt (cleared : Nat → Prop) [DecidablePred cleared] (mem : Mem) : Mem := fun a =>
  if cleared a then 0 else mem a

@[simp] theorem programFrom_zero (mem : Mem) (addr : Nat) (bytes : Nat → UInt8) :
    programFrom mem addr bytes 0 = mem := by
  funext a
  exact if_neg (by omega)

theorem programFrom_append (mem : Mem) (addr : Nat) (bytes : Nat → UInt8) (size more : Nat) :
    programFrom (programFrom mem addr bytes size) (addr + size) (fun i => bytes (size + i)) more =
      programFrom mem addr bytes (size + more) := by
  funext a
  unfold programFrom
  by_cases first : addr ≤ a ∧ a < addr + size
  · rw [if_pos first, if_neg (by omega), if_pos (by omega)]
  rw [if_neg first]
  by_cases second : addr + size ≤ a ∧ a < addr + size + more
  · rw [if_pos second, if_pos (by omega)]
    show mem a &&& bytes _ = _
    rw [show size + (a - (addr + size)) = a - addr by omega]
  · rw [if_neg second, if_neg (by omega)]

section Clear

variable {cleared other : Nat → Prop} [DecidablePred cleared] [DecidablePred other] (mem : Mem)

theorem programFrom_clearAt (addr : Nat) (bytes : Nat → UInt8) (size : Nat) :
    programFrom (clearAt cleared mem) addr bytes size =
      clearAt cleared (programFrom mem addr bytes size) := by
  funext a
  unfold programFrom clearAt
  by_cases gone : cleared a
  · rw [if_pos gone, if_pos gone, UInt8.zero_and, ite_self]
  · rw [if_neg gone, if_neg gone]

theorem clearAt_clearAt :
    clearAt other (clearAt cleared mem) = clearAt (fun a => cleared a ∨ other a) mem := by
  funext a
  show (if other a then 0 else if cleared a then 0 else mem a) =
    if cleared a ∨ other a then 0 else mem a
  by_cases gone : cleared a
  · rw [if_pos gone, ite_self, if_pos (Or.inl gone)]
  · rw [if_neg gone]
    exact if_congr (by simp [gone]) rfl rfl

theorem clearAt_none (none_ : ∀ a, ¬ cleared a) (mem : Mem) : clearAt cleared mem = mem := by
  funext a
  exact if_neg (none_ a)

theorem clearAt_eq_self_iff : clearAt cleared mem = mem ↔ ∀ a, cleared a → mem a = 0 := by
  constructor
  · intro same a gone
    rw [← same]
    exact if_pos gone
  intro zero
  funext a
  by_cases gone : cleared a
  · rw [zero a gone]
    exact if_pos gone
  · exact if_neg gone

end Clear

theorem programPage_chunk {page addr size : Nat} {data : List UInt8} {bytes : Nat → UInt8}
    (positive : 0 < page) (within : addr % page + size ≤ page) (longer : size ≤ data.length)
    (chunk : ∀ k < size, data.getD k 0 = bytes k) (fill : ∀ k, size ≤ k → data.getD k 0 = 0)
    (mem : Mem) :
    programPage page mem addr data =
      clearAt (Padded page addr size data.length) (programFrom mem addr bytes size) := by
  funext a
  unfold programPage clearAt programFrom
  by_cases same : a / page = addr / page
  · have inside := pageSlot_lt_iff positive within same
    rcases Nat.lt_or_ge _ size with first | later
    · have range := inside.mp first
      rw [if_pos ⟨same, by omega⟩, if_neg fun padded => absurd padded.2.1 (by omega), if_pos range,
        chunk _ first, pageSlot_of_le positive same range.1]
    have outside : ¬ (addr ≤ a ∧ a < addr + size) := fun range => by
      omega
    rw [if_neg outside]
    by_cases short : pageSlot page addr a < data.length
    · rw [if_pos ⟨same, short⟩, if_pos ⟨same, later, short⟩, fill _ later]
      exact UInt8.and_zero
    · rw [if_neg fun both => short both.2, if_neg fun padded => short padded.2.2]
  · have outside : ¬ (addr ≤ a ∧ a < addr + size) := fun range =>
      same (samePage within range.1 range.2)
    rw [if_neg fun both => same both.1, if_neg fun padded => same padded.1, if_neg outside]

end NorFlash
