import Phy6212.Spif.Program

/-!
# Partition calls down to the flash

A call goes from `partition.c` over `flash.c` and `spiflash_drv.c` to the serial flash (`spif.c`),
with the integer types of the source.
-/

namespace Phy6212.Eflash

open NorFlash Spif

def u32 (x : Int) : Nat := (x % 2 ^ 32).toNat

def i32 (n : Nat) : Int := if n < 2 ^ 31 then n else (n : Int) - 2 ^ 32

def einval : Int := -22

def eio : Int := -5

def sectorSize : Nat := 0x1000

def flashSize : Nat := 0x80000

def checkRange (priv : Spiflash) (addr last : Nat) : Except DrvError Unit :=
  if priv.start > addr ∨ priv.end_ < addr ∨ priv.start > last ∨ priv.end_ < last then
    .error .parameter
  else if priv.busy then .error .busy
  else if ¬ priv.initFlag then .error .error
  else .ok ()

/-- `csi_spiflash_read`: the bytes it puts into the buffer, word by word. -/
def csiSpiflashRead (priv : Spiflash) (addr cnt : Nat) : Except DrvError (List UInt8) := do
  if cnt = 0 then .error .parameter
  else
    checkRange priv addr (u32 (addr + cnt - 1))
    let addr := addr &&& 0xffffff
    let lenRd := if cnt % 4 ≠ 0 then cnt / 4 + 1 else cnt / 4
    .ok ((List.range (4 * lenRd)).map fun i => priv.flash ((addr + i / 4 * 4) % 2 ^ 24 + i % 4))

/-- `phy_flash_sector_erase`: the first two sectors are protected. -/
def phyFlashSectorErase (mem : Mem) (addr : Nat) : Mem :=
  if addr &&& 0xffffff < 0x2000 then mem
  else erase mem ((addr &&& 0xffffff) / sectorSize * sectorSize) sectorSize

def csiSpiflashEraseSector (priv : Spiflash) (addr : Nat) : Except DrvError Unit × Spiflash :=
  match checkRange priv addr addr with
  | .error e => (.error e, priv)
  | .ok () =>
    (.ok (), { priv with
      busy := false, error := false, flash := phyFlashSectorErase priv.flash addr })

def flashRead (priv : Spiflash) (addroff : Int) (bytesize : Int) : Int × List UInt8 :=
  match csiSpiflashRead priv (u32 (priv.start + addroff)) (u32 bytesize) with
  | .ok data => (if i32 (u32 data.length) < 0 then eio else 0, data)
  | .error _ => (eio, [])

def flashProgram (priv : Spiflash) (dstaddr : Int) (srcbuf : Nat → UInt8) (bytesize : Int) :
    Int × Spiflash :=
  match csiSpiflashProgram priv (u32 (priv.start + dstaddr)) srcbuf (u32 bytesize) with
  | (.ok cnt, priv) => (if i32 cnt < 0 then eio else 0, priv)
  | (.error _, priv) => (eio, priv)

/-- The loop of `yoc_spiflash_erase`, with the blocks left and the result of the last
erase. -/
def eraseLoop (addroff : Int) : Nat → Nat → Except DrvError Unit → Spiflash →
    Except DrvError Unit × Spiflash
  | 0, _, ret, priv => (ret, priv)
  | left + 1, i, _, priv =>
    match csiSpiflashEraseSector priv (u32 (priv.start + addroff + i * sectorSize)) with
    | (.ok (), priv) => eraseLoop addroff left (i + 1) (.ok ()) priv
    | (.error e, priv) => (.error e, priv)

/-- `flash_erase` through `yoc_spiflash_erase`. -/
def flashErase (stack : Except DrvError Unit) (priv : Spiflash) (addroff : Int) (blkcnt : Int) :
    Int × Spiflash :=
  match eraseLoop addroff blkcnt.toNat 0 stack priv with
  | (.ok (), priv) => (0, priv)
  | (.error _, priv) => (eio, priv)

/-- `hal_logic_partition_t` as `partition_init` fills it in: the partition lies in the flash
and is not empty. The sector size is that of the flash. An entry of the table whose end does
not fit into 32 bits is no partition of the flash. -/
structure Node where
  startAddr : Nat
  length : Nat
  nonempty : 0 < length
  fits : startAddr + length ≤ flashSize

def partitionRead (node : Node) (priv : Spiflash) (offSet : Int32) (size : UInt32) :
    Int × List UInt8 :=
  if u32 (offSet.toInt + size.toNat) ≤ node.length then
    flashRead priv (i32 (u32 (node.startAddr + offSet.toInt))) (i32 size.toNat)
  else (einval, [])

def partitionWrite (node : Node) (priv : Spiflash) (offSet : Int32) (data : Nat → UInt8)
    (size : UInt32) : Int × Spiflash :=
  if u32 (offSet.toInt + size.toNat) ≤ node.length then
    flashProgram priv (i32 (u32 (node.startAddr + offSet.toInt))) data (i32 size.toNat)
  else (einval, priv)

/-- `partition_erase` of an open partition. The sector size has 16 bits, so the offset is
divided as a signed integer; the block count is unsigned. -/
def partitionErase (node : Node) (stack : Except DrvError Unit) (priv : Spiflash) (offSet : Int32)
    (blockCount : UInt32) : Int × Spiflash :=
  if u32 (offSet.toInt.tdiv sectorSize + blockCount.toNat) ≤ node.length / sectorSize then
    flashErase stack priv (i32 (u32 (node.startAddr + offSet.toInt))) (i32 blockCount.toNat)
  else (einval, priv)

def target (node : Node) (offSet : Int32) : Nat :=
  u32 (spifAddrStart + (node.startAddr + offSet.toInt))

/-- The partition and the serial flash accept a request to read or program. -/
structure Admitted (node : Node) (offSet : Int32) (size : UInt32) : Prop where
  some_ : 0 < size.toNat
  checked : u32 (offSet.toInt + size.toNat) ≤ node.length
  low : spifAddrStart ≤ target node offSet
  high : target node offSet ≤ spifAddrEnd
  lastLow : spifAddrStart ≤ u32 (target node offSet + size.toNat - 1)
  lastHigh : u32 (target node offSet + size.toNat - 1) ≤ spifAddrEnd

variable {node : Node} {offSet : Int32} {size : UInt32}

theorem u32_i32 (n : Nat) (small : n < 2 ^ 32) : u32 (i32 n) = n := by
  unfold u32 i32
  split <;> omega

theorem u32_add_i32 (x y : Int) : u32 (x + i32 (u32 y)) = u32 (x + y) := by
  unfold u32 i32
  split <;> omega

theorem Admitted.cases (admitted : Admitted node offSet size) :
    ∃ o : Nat, (o : Int) = node.startAddr + offSet.toInt ∧ o ≤ flashSize ∧
      target node offSet = spifAddrStart + o ∧
      (o + size.toNat ≤ node.startAddr + node.length ∨ 2 ^ 32 < o + size.toNat) := by
  obtain ⟨positive, checked, low, high, lastLow, lastHigh⟩ := admitted
  have lower := Int32.le_toInt offSet
  have upper := Int32.toInt_lt offSet
  have fits := node.fits
  unfold target at low high lastLow lastHigh ⊢
  unfold u32 spifAddrStart spifAddrEnd flashSize at *
  refine ⟨(node.startAddr + offSet.toInt).toNat, ?_, ?_, ?_, ?_⟩ <;> omega

theorem checkRange_eq (flash : Mem) (addr last : Nat) :
    checkRange (csiSpiflashInitialize flash) addr last =
      if spifAddrStart ≤ addr ∧ addr ≤ spifAddrEnd ∧ spifAddrStart ≤ last ∧ last ≤ spifAddrEnd then
        .ok ()
      else .error .parameter := by
  by_cases inside : spifAddrStart ≤ addr ∧ addr ≤ spifAddrEnd ∧ spifAddrStart ≤ last ∧
      last ≤ spifAddrEnd
  · rw [if_pos inside]
    unfold checkRange csiSpiflashInitialize
    rw [if_neg (by simp only; omega)]
    rfl
  · rw [if_neg inside]
    unfold checkRange csiSpiflashInitialize
    rw [if_pos (by simp only; omega)]

variable {o : Nat}

theorem mask_target (small : o ≤ flashSize) : (spifAddrStart + o) &&& 0xffffff = o := by
  have masked : (spifAddrStart + o) &&& 0xffffff = (spifAddrStart + o) % 2 ^ 24 :=
    Nat.and_two_pow_sub_one_eq_mod _ 24
  unfold spifAddrStart flashSize at *
  omega

theorem wordSize_eq (cnt : Nat) :
    4 * (if cnt % 4 ≠ 0 then cnt / 4 + 1 else cnt / 4) = wordSize cnt := by
  unfold wordSize
  split <;> omega

theorem start_eq (flash : Mem) : u32 ((csiSpiflashInitialize flash).start +
    i32 (u32 (node.startAddr + offSet.toInt))) = target node offSet :=
  u32_add_i32 _ _

theorem partitionRead_admitted (admitted : Admitted node offSet size) (flash : Mem)
    (at_ : target node offSet = spifAddrStart + o) (small : o ≤ flashSize) :
    (partitionRead node (csiSpiflashInitialize flash) offSet size).2 =
      (List.range (wordSize size.toNat)).map fun i => flash ((o + i / 4 * 4) % 2 ^ 24 + i % 4) := by
  obtain ⟨positive, checked, low, high, lastLow, lastHigh⟩ := admitted
  have bound := size.toNat_lt
  unfold partitionRead flashRead csiSpiflashRead
  rw [if_pos checked, start_eq, u32_i32 _ bound, if_neg (by omega), checkRange_eq,
    if_pos ⟨low, high, lastLow, lastHigh⟩]
  simp only [bind, Except.bind, at_, mask_target small, wordSize_eq]
  rfl

theorem partitionRead_refused (refused : ¬ Admitted node offSet size) (flash : Mem) :
    (partitionRead node (csiSpiflashInitialize flash) offSet size).2 = [] := by
  have bound := size.toNat_lt
  unfold partitionRead flashRead csiSpiflashRead
  split
  · next checked =>
    rw [start_eq, u32_i32 _ bound]
    by_cases empty : size.toNat = 0
    · rw [if_pos empty]
    rw [if_neg empty, checkRange_eq, if_neg]
    · rfl
    · rintro ⟨low, high, lastLow, lastHigh⟩
      exact refused ⟨Nat.pos_of_ne_zero empty, checked, low, high, lastLow, lastHigh⟩
  · rfl

theorem csiSpiflashProgram_flash (flash : Mem) (addr cnt : Nat) (data : Nat → UInt8) :
    (csiSpiflashProgram (csiSpiflashInitialize flash) addr data cnt).2.flash =
      if cnt ≠ 0 ∧ spifAddrStart ≤ addr ∧ addr ≤ spifAddrEnd ∧
          spifAddrStart ≤ u32 (addr + cnt - 1) ∧ u32 (addr + cnt - 1) ≤ spifAddrEnd then
        programChunks flash (addr &&& 0xffffff) data cnt
      else flash := by
  have last : (addr + cnt + (2 ^ 32 - 1)) % 2 ^ 32 = u32 (addr + cnt - 1) := by
    unfold u32
    omega
  unfold csiSpiflashProgram csiSpiflashInitialize
  simp only [last]
  by_cases inside : cnt ≠ 0 ∧ spifAddrStart ≤ addr ∧ addr ≤ spifAddrEnd ∧
      spifAddrStart ≤ u32 (addr + cnt - 1) ∧ u32 (addr + cnt - 1) ≤ spifAddrEnd
  · rw [if_pos inside, if_neg inside.1, if_neg (by omega)]
    rfl
  rw [if_neg inside]
  by_cases empty : cnt = 0
  · rw [if_pos empty]
  · rw [if_neg empty, if_pos (by omega)]

theorem flashProgram_flash (priv : Spiflash) (dstaddr : Int) (srcbuf : Nat → UInt8)
    (bytesize : Int) :
    (flashProgram priv dstaddr srcbuf bytesize).2 =
      (csiSpiflashProgram priv (u32 (priv.start + dstaddr)) srcbuf (u32 bytesize)).2 := by
  unfold flashProgram
  split <;> simp_all

theorem partitionWrite_admitted (admitted : Admitted node offSet size) (flash : Mem)
    (data : Nat → UInt8) (at_ : target node offSet = spifAddrStart + o) (small : o ≤ flashSize) :
    (partitionWrite node (csiSpiflashInitialize flash) offSet data size).2.flash =
      programChunks flash o data size.toNat := by
  obtain ⟨positive, checked, low, high, lastLow, lastHigh⟩ := admitted
  unfold partitionWrite
  rw [if_pos checked, flashProgram_flash, start_eq, u32_i32 _ size.toNat_lt, csiSpiflashProgram_flash,
    if_pos ⟨by omega, low, high, lastLow, lastHigh⟩, at_, mask_target small]

theorem partitionWrite_refused (refused : ¬ Admitted node offSet size) (flash : Mem)
    (data : Nat → UInt8) :
    (partitionWrite node (csiSpiflashInitialize flash) offSet data size).2.flash = flash := by
  unfold partitionWrite
  split
  · next checked =>
    rw [flashProgram_flash, start_eq, u32_i32 _ size.toNat_lt, csiSpiflashProgram_flash, if_neg]
    rintro ⟨some_, low, high, lastLow, lastHigh⟩
    exact refused ⟨Nat.pos_of_ne_zero some_, checked, low, high, lastLow, lastHigh⟩
  · rfl

def ErasedSectors (first left a : Nat) : Prop :=
  2 ≤ a / sectorSize ∧ first ≤ a / sectorSize ∧ a / sectorSize < first + left

instance (first left a : Nat) : Decidable (ErasedSectors first left a) :=
  inferInstanceAs (Decidable (_ ∧ _ ∧ _))

def eraseAt (erased : Nat → Prop) [DecidablePred erased] (mem : Mem) : Mem := fun a =>
  if erased a then blank else mem a

variable {erased : Nat → Prop}

theorem eraseAt_erased [DecidablePred erased] {a : Nat} (here : erased a) (mem : Mem) :
    eraseAt erased mem a = blank := if_pos here

theorem eraseAt_kept [DecidablePred erased] {a : Nat} (here : ¬ erased a) (mem : Mem) :
    eraseAt erased mem a = mem a := if_neg here

theorem phyFlashSectorErase_eq (mem : Mem) (small : o ≤ flashSize) :
    phyFlashSectorErase mem (spifAddrStart + o) = eraseAt (ErasedSectors (o / sectorSize) 1) mem := by
  funext a
  have sector : ErasedSectors (o / sectorSize) 1 a ↔ ¬ o < 0x2000 ∧
      o / sectorSize * sectorSize ≤ a ∧ a < o / sectorSize * sectorSize + sectorSize := by
    unfold ErasedSectors sectorSize
    omega
  unfold phyFlashSectorErase
  rw [mask_target small]
  split
  · next guarded => rw [eraseAt_kept (fun here => (sector.mp here).1 guarded)]
  rename_i allowed
  by_cases here : ErasedSectors (o / sectorSize) 1 a
  · rw [eraseAt_erased here]
    exact if_pos (sector.mp here).2
  · rw [eraseAt_kept here]
    exact if_neg (fun inside => here (sector.mpr ⟨allowed, inside⟩))

theorem eraseLoop_eq (x : Int) :
    ∀ (left i : Nat) (ret : Except DrvError Unit) (mem : Mem) (o : Nat),
    (o : Int) = x + i * sectorSize → o + left * sectorSize ≤ flashSize + sectorSize →
    (eraseLoop x left i ret (csiSpiflashInitialize mem)).2.flash =
      eraseAt (ErasedSectors (o / sectorSize) left) mem
  | 0, i, ret, mem, o, at_, room => by
    funext a
    rw [eraseAt_kept (by unfold ErasedSectors; omega)]
    rfl
  | left + 1, i, ret, mem, o, at_, room => by
    have small : o ≤ flashSize := by
      unfold sectorSize at room
      omega
    have addr : u32 ((csiSpiflashInitialize mem).start + x + i * sectorSize) =
        spifAddrStart + o := by
      show u32 (spifAddrStart + x + i * sectorSize) = _
      unfold u32 spifAddrStart
      unfold flashSize at small
      omega
    have erased : csiSpiflashEraseSector (csiSpiflashInitialize mem) (spifAddrStart + o) =
        (.ok (), csiSpiflashInitialize (eraseAt (ErasedSectors (o / sectorSize) 1) mem)) := by
      unfold csiSpiflashEraseSector
      have inside : spifAddrStart ≤ spifAddrStart + o ∧ spifAddrStart + o ≤ spifAddrEnd := by
        unfold spifAddrStart spifAddrEnd
        unfold flashSize at small
        omega
      rw [checkRange_eq, if_pos ⟨inside.1, inside.2, inside.1, inside.2⟩,
        ← phyFlashSectorErase_eq mem small]
      rfl
    unfold eraseLoop
    rw [addr, erased]
    rw [eraseLoop_eq x left _ _ _ (o + sectorSize)
      (by unfold sectorSize at at_ ⊢; omega) (by unfold sectorSize at room ⊢; omega)]
    funext a
    have split_ : ErasedSectors (o / sectorSize) (left + 1) a ↔
        ErasedSectors (o / sectorSize) 1 a ∨
          ErasedSectors ((o + sectorSize) / sectorSize) left a := by
      unfold ErasedSectors sectorSize
      omega
    by_cases later : ErasedSectors ((o + sectorSize) / sectorSize) left a
    · rw [eraseAt_erased later, eraseAt_erased (split_.mpr (.inr later))]
    rw [eraseAt_kept later]
    by_cases here : ErasedSectors (o / sectorSize) 1 a
    · rw [eraseAt_erased here, eraseAt_erased (split_.mpr (.inl here))]
    · rw [eraseAt_kept here, eraseAt_kept (fun both => (split_.mp both).elim here later)]

theorem eraseLoop_before (x : Int) (left : Nat) (ret : Except DrvError Unit) (mem : Mem)
    (before : x < 0) (near : -2 ^ 31 ≤ x) :
    (eraseLoop x left 0 ret (csiSpiflashInitialize mem)).2.flash = mem := by
  cases left with
  | zero => rfl
  | succ left =>
    have outside : ¬ (spifAddrStart ≤ u32 (spifAddrStart + x + (0 : Nat) * sectorSize) ∧
        u32 (spifAddrStart + x + (0 : Nat) * sectorSize) ≤ spifAddrEnd) := by
      unfold u32 spifAddrStart spifAddrEnd
      omega
    have refused : csiSpiflashEraseSector (csiSpiflashInitialize mem)
        (u32 ((csiSpiflashInitialize mem).start + x + (0 : Nat) * sectorSize)) =
        (.error .parameter, csiSpiflashInitialize mem) := by
      unfold csiSpiflashEraseSector
      rw [checkRange_eq, if_neg (fun inside => outside ⟨inside.1, inside.2.1⟩)]
    unfold eraseLoop
    rw [refused]
    rfl

/-- The partition accepts a request to erase, the block count is positive as a signed
integer, and the first address lies in the flash. -/
structure EraseAdmitted (node : Node) (offSet : Int32) (blockCount : UInt32) : Prop where
  checked : u32 (offSet.toInt.tdiv sectorSize + blockCount.toNat) ≤ node.length / sectorSize
  some_ : 0 < i32 blockCount.toNat
  low : 0 ≤ node.startAddr + offSet.toInt

def firstSector (node : Node) (offSet : Int32) : Nat :=
  (node.startAddr + offSet.toInt).toNat / sectorSize

variable {blockCount : UInt32}

theorem erase_bounds
    (checked : u32 (offSet.toInt.tdiv sectorSize + blockCount.toNat) ≤ node.length / sectorSize)
    (some_ : 0 < i32 blockCount.toNat) :
    i32 blockCount.toNat = blockCount.toNat ∧
      i32 (u32 (node.startAddr + offSet.toInt)) = node.startAddr + offSet.toInt ∧
      node.startAddr + offSet.toInt + blockCount.toNat * sectorSize ≤ flashSize + sectorSize := by
  have lower := Int32.le_toInt offSet
  have upper := Int32.toInt_lt offSet
  have bound := blockCount.toNat_lt
  have fits := node.fits
  have count : i32 blockCount.toNat = blockCount.toNat := by
    unfold i32 at some_ ⊢
    split
    · rfl
    · next large =>
      omega
  refine ⟨count, ?_⟩
  have short : blockCount.toNat < 2 ^ 31 := by
    unfold i32 at count
    split at count <;> omega
  unfold sectorSize flashSize u32 at *
  unfold i32
  rcases Int.le_total 0 offSet.toInt with forward | backward
  · rw [Int.tdiv_eq_ediv_of_nonneg forward] at checked
    refine ⟨?_, by omega⟩
    omega
  · rw [← Int.neg_neg offSet.toInt, Int.neg_tdiv, Int.tdiv_eq_ediv_of_nonneg (by omega)] at checked
    refine ⟨?_, by omega⟩
    split <;> omega

theorem partitionErase_flash (stack : Except DrvError Unit) (flash : Mem)
    (checked : u32 (offSet.toInt.tdiv sectorSize + blockCount.toNat) ≤ node.length / sectorSize) :
    (partitionErase node stack (csiSpiflashInitialize flash) offSet blockCount).2.flash =
      (eraseLoop (i32 (u32 (node.startAddr + offSet.toInt))) (i32 blockCount.toNat).toNat 0 stack
        (csiSpiflashInitialize flash)).2.flash := by
  unfold partitionErase flashErase
  rw [if_pos checked]
  split <;> simp_all

theorem partitionErase_admitted (admitted : EraseAdmitted node offSet blockCount)
    (stack : Except DrvError Unit) (flash : Mem) :
    (partitionErase node stack (csiSpiflashInitialize flash) offSet blockCount).2.flash =
      eraseAt (ErasedSectors (firstSector node offSet) blockCount.toNat) flash := by
  obtain ⟨checked, some_, low⟩ := admitted
  obtain ⟨count, addr, room⟩ := erase_bounds checked some_
  rw [partitionErase_flash stack flash checked, count, addr, Int.toNat_natCast]
  exact eraseLoop_eq _ _ 0 stack flash _ (by rw [Int.toNat_of_nonneg low]; simp) (by omega)

theorem partitionErase_refused (refused : ¬ EraseAdmitted node offSet blockCount)
    (stack : Except DrvError Unit) (flash : Mem) :
    (partitionErase node stack (csiSpiflashInitialize flash) offSet blockCount).2.flash = flash := by
  by_cases checked : u32 (offSet.toInt.tdiv sectorSize + blockCount.toNat) ≤
      node.length / sectorSize
  · rw [partitionErase_flash stack flash checked]
    by_cases some_ : 0 < i32 blockCount.toNat
    · obtain ⟨-, addr, -⟩ := erase_bounds checked some_
      have before : ¬ 0 ≤ node.startAddr + offSet.toInt := fun low => refused ⟨checked, some_, low⟩
      have lower := Int32.le_toInt offSet
      exact eraseLoop_before _ _ stack flash (by omega) (by omega)
    · rw [Int.toNat_of_nonpos (by omega)]
      rfl
  · unfold partitionErase
    rw [if_neg checked]
    rfl

end Phy6212.Eflash
