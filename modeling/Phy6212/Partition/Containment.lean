import Phy6212.Partition.Eflash

/-!
# The bytes that a partition call touches

A call touches a byte when it can change it, or its result can depend on it (`Touches`).
-/

namespace Phy6212.Eflash

open List NorFlash Spif

/-- The byte can be changed by a program, or what the program returns can depend on it. -/
def Touches (run : Mem → Mem × List UInt8) (a : Nat) : Prop :=
  (∃ mem, (run mem).1 a ≠ mem a) ∨
    ∃ mem byte, (run (Function.update mem a byte)).2 ≠ (run mem).2

variable {run : Mem → Mem × List UInt8} {a : Nat}

theorem not_touches (idle : ∀ mem, run mem = (mem, [])) : ¬ Touches run a := by
  rintro (⟨mem, changed⟩ | ⟨mem, byte, differ⟩)
  · rw [idle] at changed
    exact changed rfl
  · rw [idle, idle] at differ
    exact differ rfl

theorem touches_read {count : Nat} {addr : Nat → Nat}
    (reads : ∀ mem, run mem = (mem, (range count).map fun i => mem (addr i))) :
    Touches run a ↔ ∃ i < count, addr i = a := by
  constructor
  · rintro (⟨mem, changed⟩ | ⟨mem, byte, differ⟩)
    · rw [reads] at changed
      exact absurd rfl changed
    rw [reads, reads] at differ
    by_contra none_
    apply differ
    apply map_congr_left
    intro i less
    exact Function.update_of_ne (fun here => none_ ⟨i, mem_range.mp less, here⟩) byte mem
  rintro ⟨i, less, rfl⟩
  refine .inr ⟨fun _ => 0, 1, fun same => ?_⟩
  rw [reads, reads] at same
  have value := (map_inj_left.mp same) i (mem_range.mpr less)
  rw [Function.update_self] at value
  exact absurd value (by decide)

theorem touches_erase {erased : Nat → Prop} [DecidablePred erased]
    (erases : ∀ mem, run mem = (eraseAt erased mem, [])) : Touches run a ↔ erased a := by
  constructor
  · rintro (⟨mem, changed⟩ | ⟨mem, byte, differ⟩)
    · rw [erases] at changed
      by_contra kept
      exact changed (eraseAt_kept kept mem)
    · rw [erases, erases] at differ
      exact absurd rfl differ
  intro here
  refine .inl ⟨fun _ => 0, ?_⟩
  rw [erases]
  simp only [eraseAt_erased here]
  decide

variable {cleared : Nat → Prop}

theorem touches_write [DecidablePred cleared] {addr size : Nat} {data : Nat → UInt8}
    (writes : ∀ mem, run mem = (clearAt cleared (programFrom mem addr data size), []))
    (touched : Touches run a) : (addr ≤ a ∧ a < addr + size) ∨ cleared a := by
  rcases touched with ⟨mem, changed⟩ | ⟨mem, byte, differ⟩
  · rw [writes] at changed
    by_contra outside
    rw [not_or] at outside
    apply changed
    show clearAt cleared _ a = mem a
    unfold clearAt programFrom
    rw [if_neg outside.2, if_neg outside.1]
  · rw [writes, writes] at differ
    exact absurd rfl differ

theorem touches_zeros [DecidablePred cleared] {addr size : Nat}
    (writes : ∀ mem, run mem = (clearAt cleared (programFrom mem addr (fun _ => 0) size), []))
    (here : (addr ≤ a ∧ a < addr + size) ∨ cleared a) : Touches run a := by
  refine .inl ⟨fun _ => blank, ?_⟩
  rw [writes]
  have zero : clearAt cleared (programFrom (fun _ => blank) addr (fun _ => 0) size) a = 0 := by
    unfold clearAt programFrom
    rcases here with inside | gone
    · rw [if_pos inside, UInt8.and_zero, ite_self]
    · rw [if_pos gone]
  simp only [zero]
  decide

theorem sendCommand_zero {mem : Mem} (zero : mem a = 0) (command : Nat) (words : List UInt32) :
    sendCommand mem command words a = 0 := by
  unfold sendCommand
  split
  · unfold programPage
    simp only [zero, UInt8.zero_and, ite_self]
  · exact zero

theorem phyProgramPage64_zero {mem : Mem} (zero : mem a = 0) (offset : Nat) (buf : Nat → UInt8)
    (size : Nat) : (phyProgramPage64 mem offset buf size).2 a = 0 := by
  unfold phyProgramPage64
  split
  · exact zero
  · split
    · exact zero
    · exact sendCommand_zero zero _ _

theorem windowLoop_zero (rounds : Nat) : ∀ (mem : Mem) (addr : Nat) (wr : Nat → UInt8)
    (cnt : Nat), mem a = 0 → (windowLoop rounds mem addr wr cnt).1 a = 0 := by
  induction rounds with
  | zero => exact fun mem addr wr cnt zero => zero
  | succ rounds ih =>
    intro mem addr wr cnt zero
    unfold windowLoop
    split
    · exact ih _ _ _ _ (phyProgramPage64_zero zero _ _ _)
    · exact zero

theorem windowLoop_clears (small : a < 2 ^ 24) (rounds : Nat) (mem : Mem) (addr cnt : Nat)
    (aligned : addr % 64 = 0) (low : addr ≤ a) (far : a + 64 ≤ addr + cnt)
    (reach : a < addr + 64 * rounds) : (windowLoop rounds mem addr (fun _ => 0) cnt).1 a = 0 := by
  induction rounds generalizing mem addr cnt with
  | zero => omega
  | succ rounds ih =>
    unfold windowLoop
    rw [if_pos (by omega)]
    rcases Nat.lt_or_ge a _ with here | later
    · apply windowLoop_zero
      rw [phyProgramPage64_eq (by omega) (Nat.le_refl _) (by omega),
        clearAt_none (not_filled (by decide))]
      unfold programFrom
      rw [if_pos ⟨low, here⟩, UInt8.and_zero]
    · exact ih _ _ _ (by omega) later (by omega) (by omega)

theorem programChunks_far {addr cnt : Nat} (small : addr ≤ flashSize) (large : 2 ^ 32 < addr + cnt)
    (mem : Mem) : programChunks mem addr (fun _ => 0) cnt 0x90000 = 0 := by
  unfold flashSize at small
  unfold programChunks
  rw [if_neg (by omega)]
  simp only
  rw [if_neg (by omega)]
  have cleared := windowLoop_clears (show 0x90000 < 2 ^ 24 by decide) (cnt - (64 - addr % 64))
    (phyProgramPage64 mem addr (fun _ => 0) (64 - addr % 64)).2 (addr + (64 - addr % 64))
    (cnt - (64 - addr % 64)) (by omega) (by omega) (by omega) (by omega)
  split
  · exact phyProgramPage64_zero cleared _ _ _
  · exact cleared

inductive Call where
  | read (offSet : Int32) (size : UInt32)
  | write (offSet : Int32) (size : UInt32)
  | erase (offSet : Int32) (blockCount : UInt32)
  deriving DecidableEq

/-- The flash after a call, and the bytes that the call returns. -/
def Call.perform (node : Node) (data : Nat → UInt8) (stack : Except DrvError Unit) (call : Call)
    (flash : Mem) : Mem × List UInt8 :=
  match call with
  | .read offSet size => (flash, (partitionRead node (csiSpiflashInitialize flash) offSet size).2)
  | .write offSet size =>
    ((partitionWrite node (csiSpiflashInitialize flash) offSet data size).2.flash, [])
  | .erase offSet blockCount =>
    ((partitionErase node stack (csiSpiflashInitialize flash) offSet blockCount).2.flash, [])

def Node.Holds (node : Node) (a : Nat) : Prop :=
  node.startAddr ≤ a ∧ a < node.startAddr + node.length

def Contained (node : Node) (call : Call) : Prop :=
  ∀ data stack a, Touches (call.perform node data stack) a → node.Holds a

/-- A read that is admitted begins in the partition and its whole words end there; a write lies in
it, and so do the addresses that the serial flash fills with zeros; the sectors of an erase lie in
it, apart from the two that are protected. -/
def Call.Fits (node : Node) : Call → Prop
  | .read offSet size =>
    Admitted node offSet size →
      0 ≤ offSet.toInt ∧ offSet.toInt + wordSize size.toNat ≤ node.length
  | .write offSet size =>
    Admitted node offSet size →
      0 ≤ offSet.toInt ∧ offSet.toInt + size.toNat ≤ node.length ∧
        ∀ a, Cleared (node.startAddr + offSet.toInt).toNat size.toNat a → node.Holds a
  | .erase offSet blockCount =>
    EraseAdmitted node offSet blockCount → 2 < firstSector node offSet + blockCount.toNat →
      node.startAddr ≤ max 2 (firstSector node offSet) * sectorSize ∧
        (firstSector node offSet + blockCount.toNat) * sectorSize ≤ node.startAddr + node.length

variable (node : Node) (offSet : Int32)

theorem contained_of_idle {call : Call}
    (idle : ∀ data stack flash, call.perform node data stack flash = (flash, [])) :
    Contained node call :=
  fun data stack _ touched => absurd touched (not_touches (idle data stack))

theorem read_contained_iff (size : UInt32) :
    Contained node (.read offSet size) ↔ (Call.read offSet size).Fits node := by
  by_cases admitted : Admitted node offSet size
  · obtain ⟨o, start, small, at_, ends⟩ := admitted.cases
    have positive := admitted.some_
    have fits := node.fits
    have words : size.toNat ≤ wordSize size.toNat := by
      unfold wordSize
      omega
    have touched : ∀ data stack a, Touches ((Call.read offSet size).perform node data stack) a ↔
        ∃ i < wordSize size.toNat, (o + i / 4 * 4) % 2 ^ 24 + i % 4 = a := by
      intro data stack a
      apply touches_read
      intro flash
      exact congrArg _ (partitionRead_admitted admitted flash at_ small)
    unfold flashSize at small fits
    constructor
    · intro contained _
      have inside : ∀ i < wordSize size.toNat, node.Holds _ :=
        fun i less => contained (fun _ => 0) (.ok ()) _ ((touched _ _ _).mpr ⟨i, less, rfl⟩)
      rcases ends with within | wraps
      · have first := (inside 0 (by omega)).1
        have last := (inside (wordSize size.toNat - 1) (by omega)).2
        unfold wordSize at last words ⊢
        omega
      · have far := (inside ((0x90000 - o) / 4 * 4) (by omega)).2
        omega
    intro fitting data stack a touch
    obtain ⟨low, high⟩ := fitting admitted
    obtain ⟨i, less, rfl⟩ := (touched data stack a).mp touch
    unfold Node.Holds
    omega
  · refine iff_of_true (contained_of_idle node ?_) (fun now => absurd now admitted)
    intro data stack flash
    exact congrArg _ (partitionRead_refused admitted flash)

theorem write_contained_iff (size : UInt32) :
    Contained node (.write offSet size) ↔ (Call.write offSet size).Fits node := by
  by_cases admitted : Admitted node offSet size
  · obtain ⟨o, start, small, at_, ends⟩ := admitted.cases
    have positive := admitted.some_
    have fits := node.fits
    have performed : ∀ data stack flash, (Call.write offSet size).perform node data stack flash =
        (programChunks flash o data size.toNat, []) := fun data stack flash =>
      congrArg (·, []) (partitionWrite_admitted admitted flash data at_ small)
    have offset_eq : (node.startAddr + offSet.toInt).toNat = o := by omega
    rcases ends with within | wraps
    · have range : o + size.toNat < 2 ^ 24 := by
        unfold flashSize at fits
        omega
      have writes : ∀ data stack flash, (Call.write offSet size).perform node data stack flash =
          (clearAt (Cleared o size.toNat) (programFrom flash o data size.toNat), []) := by
        intro data stack flash
        rw [performed, programChunks_eq range]
      constructor
      · intro contained _
        have inside : ∀ a, (o ≤ a ∧ a < o + size.toNat) ∨ Cleared o size.toNat a → node.Holds a :=
          fun a here => contained _ (.ok ()) a (touches_zeros (writes _ _) here)
        have first := (inside o (.inl (by omega))).1
        refine ⟨by omega, by omega, fun a cleared => ?_⟩
        rw [offset_eq] at cleared
        exact inside a (.inr cleared)
      intro fitting data stack a touch
      obtain ⟨low, high, cleared⟩ := fitting admitted
      rw [offset_eq] at cleared
      rcases touches_write (writes data stack) touch with own | filled
      · unfold Node.Holds
        omega
      · exact cleared a filled
    · refine iff_of_false (fun contained => ?_) (fun fitting => ?_)
      · have far := contained (fun _ => 0) (.ok ()) 0x90000 (.inl ⟨fun _ => blank, by
          rw [performed]
          simp only [programChunks_far small wraps]
          decide⟩)
        have behind := far.2
        unfold flashSize at fits
        omega
      · obtain ⟨-, high, -⟩ := fitting admitted
        unfold flashSize at fits
        omega
  · refine iff_of_true (contained_of_idle node ?_) (fun now => absurd now admitted)
    intro data stack flash
    exact congrArg (·, []) (partitionWrite_refused admitted flash data)

theorem erase_contained_iff (blockCount : UInt32) :
    Contained node (.erase offSet blockCount) ↔ (Call.erase offSet blockCount).Fits node := by
  by_cases admitted : EraseAdmitted node offSet blockCount
  · have touched : ∀ data stack a,
        Touches ((Call.erase offSet blockCount).perform node data stack) a ↔
          ErasedSectors (firstSector node offSet) blockCount.toNat a := by
      intro data stack a
      apply touches_erase
      intro flash
      exact congrArg (·, []) (partitionErase_admitted admitted stack flash)
    constructor
    · intro contained _ some_
      have inside : ∀ a, ErasedSectors _ blockCount.toNat a → node.Holds a :=
        fun a here => contained (fun _ => 0) (.ok ()) a ((touched _ _ _).mpr here)
      have positive : 0 < blockCount.toNat := by
        have signed := admitted.some_
        unfold i32 at signed
        split at signed <;> omega
      have first := inside (max 2 (firstSector node offSet) * sectorSize) (by
        unfold ErasedSectors
        rw [Nat.mul_div_cancel _ (by decide)]
        omega)
      have last := inside
        ((firstSector node offSet + blockCount.toNat) * sectorSize - 1) (by
        unfold ErasedSectors sectorSize
        omega)
      refine ⟨first.1, ?_⟩
      have end_ := last.2
      omega
    · intro fitting data stack a touch
      have erased := (touched data stack a).mp touch
      unfold ErasedSectors at erased
      obtain ⟨low, high⟩ := fitting admitted (by omega)
      unfold Node.Holds
      unfold sectorSize at *
      omega
  · refine iff_of_true (contained_of_idle node ?_) (fun now => absurd now admitted)
    intro data stack flash
    exact congrArg (·, []) (partitionErase_refused admitted stack flash)

/-- **A call stays in its partition** exactly when it fits. -/
theorem contained_iff (node : Node) (call : Call) : Contained node call ↔ call.Fits node := by
  cases call with
  | read offSet size => exact read_contained_iff node offSet size
  | write offSet size => exact write_contained_iff node offSet size
  | erase offSet blockCount => exact erase_contained_iff node offSet blockCount

def oneSector : Node := ⟨0x10000, 0x1000, by decide, by decide⟩

/-- A block in front of the partition is erased: the offset is a sector before the start,
and the sum of its sector number and the block count is zero. -/
theorem erase_in_front : ¬ Contained oneSector (.erase (-0x1000) 1) := by
  intro contained
  have held := contained (fun _ => 0) (.ok ()) 0xf000 (.inl ⟨fun _ => 0, by decide +kernel⟩)
  exact absurd held.1 (by decide)

end Phy6212.Eflash
