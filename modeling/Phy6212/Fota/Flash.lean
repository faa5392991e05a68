import Mathlib.Algebra.Group.Nat.Defs
import Phy6212.Partition.Access

/-!
# The flash end of an update

`netio/flash.c` writes a stream into a partition, behind two free sectors. The first write after a
boot erases and remembers what erased bytes read like; a later one reads 512 bytes where the chunk
begins and erases only when they do not look erased.
-/

namespace Phy6212.Fota

open List NorFlash Phy6212.Partition

/-- How the flash device answers during one write. -/
structure Device where
  reads : Bool := true
  erases : Bool := true
  programs : Bool := true
  deriving DecidableEq, Repr

/-- The partition, and the variables `g_fota_first_write` and `g_scramble`. -/
structure Flash where
  mem : Mem
  firstWrite : Bool := true
  scramble : List UInt8 := [0, 0, 0, 0]

def flashRead (p : LogicPartition) (dev : Device) (mem : Mem) (offset size : Nat) :
    Option (List UInt8) :=
  if dev.reads then partitionRead p mem offset size else none

/-- All words of the 512 bytes read are like the one remembered. -/
def looksErased (scramble bytes : List UInt8) : Bool :=
  (range (512 / 4)).all fun i => (bytes.drop (i * 4)).take 4 = scramble

def fotaFlashErase (p : LogicPartition) (dev : Device) (flash : Flash)
    (offset blockCount : Nat) : Bool × Flash :=
  if flash.firstWrite = false then
    match flashRead p dev flash.mem offset 512 with
    | none => (false, flash)
    | some bytes =>
      if looksErased flash.scramble bytes then (true, flash)
      else match partitionErase p dev.erases flash.mem offset blockCount with
        | none => (false, flash)
        | some mem => (true, { flash with mem := mem })
  else match partitionErase p dev.erases flash.mem offset blockCount with
    | none => (false, flash)
    | some mem =>
      match flashRead p dev mem offset 512 with
      | none => (false, { flash with mem := mem })
      | some bytes => (true, { mem := mem, firstWrite := false, scramble := bytes.take 4 })

/-- What is left of the partition, as `size_t`. -/
def roomLeft (p : LogicPartition) (offset : Nat) : Nat := (p.length + 2 ^ 32 - offset) % 2 ^ 32

/-- The length of a write that ends with the partition at the latest. -/
def writeLength (p : LogicPartition) (offset length : Nat) : Nat :=
  if roomLeft p offset < length then roomLeft p offset else length

def flashProgram (p : LogicPartition) (dev : Device) (flash : Flash) (addr length : Nat)
    (data : List UInt8) : Option Nat × Flash :=
  match partitionWrite p dev.programs flash.mem addr (data.take length) with
  | none => (none, flash)
  | some mem => (some length, { flash with mem := mem })

/-- `flash_write`: the number of bytes written, or `none` for -1. -/
def flashWrite (p : LogicPartition) (dev : Device) (flash : Flash) (offset : Nat)
    (data : List UInt8) : Option Nat × Flash :=
  match fotaFlashErase p dev flash (offset + p.sectorSize * 2)
      ((writeLength p offset data.length + p.sectorSize - 1) / p.sectorSize) with
  | (false, flash) => (none, flash)
  | (true, flash) => flashProgram p dev flash (offset + p.sectorSize * 2)
      (writeLength p offset data.length) data

def probe (mem : Mem) (addr : Nat) : List UInt8 := (range 512).map fun i => mem (addr + i)

def ErasesAt (flash : Flash) (addr : Nat) : Prop :=
  flash.firstWrite = true ∨ looksErased flash.scramble (probe flash.mem addr) = false

instance (flash : Flash) (addr : Nat) : Decidable (ErasesAt flash addr) :=
  inferInstanceAs (Decidable (_ ∨ _))

def sectorBase (p : LogicPartition) (addr : Nat) : Nat := addr / p.sectorSize * p.sectorSize

/-- The first address after the sectors that a write of so many bytes erases. -/
def eraseEnd (p : LogicPartition) (addr length : Nat) : Nat :=
  sectorBase p addr + (length + p.sectorSize - 1) / p.sectorSize * p.sectorSize

/-- Writing the chunk at the address harms nothing: what an erase would destroy of the
bytes before it is erased already, and every byte of the chunk is either erased first or
has all its bits set in what is there. -/
def Harmless (p : LogicPartition) (flash : Flash) (addr : Nat) (chunk : List UInt8) : Prop :=
  (ErasesAt flash addr →
    ∀ i < addr - sectorBase p addr, flash.mem (sectorBase p addr + i) = blank) ∧
  ∀ i < chunk.length,
    (ErasesAt flash addr ∧ addr + i < eraseEnd p addr chunk.length) ∨
      flash.mem (addr + i) &&& chunk.getD i blank = chunk.getD i blank

instance (p : LogicPartition) (flash : Flash) (addr : Nat) (chunk : List UInt8) :
    Decidable (Harmless p flash addr chunk) :=
  inferInstanceAs (Decidable (_ ∧ _))

variable {p : LogicPartition} {dev : Device} {flash next : Flash} {addr count offset k : Nat}
  {data : List UInt8}

theorem flashRead_eq (p : LogicPartition) (dev : Device) (mem : Mem) (addr : Nat) :
    flashRead p dev mem addr 512 =
      if dev.reads = true ∧ addr + 512 ≤ p.length then some (probe mem addr) else none := by
  unfold flashRead partitionRead probe
  cases dev.reads with
  | true => simp
  | false => simp

inductive EraseOutcome (p : LogicPartition) (dev : Device) (flash : Flash) (addr count : Nat) :
    Bool → Flash → Prop where
  | unread (later : flash.firstWrite = false)
      (unreadable : ¬ (dev.reads = true ∧ addr + 512 ≤ p.length)) :
      EraseOutcome p dev flash addr count false flash
  | clean (later : flash.firstWrite = false)
      (looks : looksErased flash.scramble (probe flash.mem addr) = true) :
      EraseOutcome p dev flash addr count true flash
  | refused (erases : ErasesAt flash addr)
      (readable : flash.firstWrite = false → dev.reads = true ∧ addr + 512 ≤ p.length)
      (failed : partitionErase p dev.erases flash.mem addr count = none) :
      EraseOutcome p dev flash addr count false flash
  | erased (mem : Mem) (later : flash.firstWrite = false)
      (dirty : looksErased flash.scramble (probe flash.mem addr) = false)
      (readable : dev.reads = true ∧ addr + 512 ≤ p.length)
      (done : partitionErase p dev.erases flash.mem addr count = some mem) :
      EraseOutcome p dev flash addr count true { flash with mem := mem }
  | unlearned (mem : Mem) (first : flash.firstWrite = true)
      (done : partitionErase p dev.erases flash.mem addr count = some mem) :
      EraseOutcome p dev flash addr count false { flash with mem := mem }
  | learned (mem : Mem) (first : flash.firstWrite = true)
      (done : partitionErase p dev.erases flash.mem addr count = some mem) :
      EraseOutcome p dev flash addr count true
        { mem := mem, firstWrite := false, scramble := (probe mem addr).take 4 }

theorem fotaFlashErase_outcome (p : LogicPartition) (dev : Device) (flash : Flash)
    (addr count : Nat) :
    EraseOutcome p dev flash addr count (fotaFlashErase p dev flash addr count).1
      (fotaFlashErase p dev flash addr count).2 := by
  unfold fotaFlashErase
  simp only [flashRead_eq]
  by_cases later : flash.firstWrite = false
  · rw [if_pos later]
    by_cases readable : dev.reads = true ∧ addr + 512 ≤ p.length
    · simp only [if_pos readable]
      cases looks : looksErased flash.scramble _ with
      | true => exact .clean later looks
      | false =>
        cases done : partitionErase p dev.erases flash.mem addr count with
        | none => exact .refused (.inr looks) (fun _ => readable) done
        | some mem => exact .erased mem later looks readable done
    · rw [if_neg readable]
      exact .unread later readable
  have first : flash.firstWrite = true := by simpa using later
  rw [if_neg later]
  cases done : partitionErase p dev.erases flash.mem addr count with
  | none => exact .refused (.inl first) (fun now => absurd now later) done
  | some mem =>
    by_cases readable : dev.reads = true ∧ addr + 512 ≤ p.length
    · simp only [if_pos readable]
      exact .learned mem first done
    · simp only [if_neg readable]
      exact .unlearned mem first done

theorem not_erasesAt (later : flash.firstWrite = false)
    (looks : looksErased flash.scramble (probe flash.mem addr) = true) : ¬ ErasesAt flash addr := by
  rintro (first | dirty)
  · rw [later] at first
    cases first
  · rw [looks] at dirty
    cases dirty

theorem partitionErase_mem {works : Bool} {mem mem' : Mem}
    (done : partitionErase p works mem addr count = some mem') :
    mem' = erase mem (sectorBase p addr) (count * p.sectorSize) := by
  unfold partitionErase at done
  split at done
  · exact (Option.some.inj done).symm
  · cases done

theorem fotaFlashErase_mem (ok : fotaFlashErase p dev flash addr count = (true, next)) :
    next.mem = if ErasesAt flash addr then erase flash.mem (sectorBase p addr)
      (count * p.sectorSize) else flash.mem := by
  have outcome := fotaFlashErase_outcome p dev flash addr count
  rw [ok] at outcome
  cases outcome with
  | clean later looks =>
    rw [if_neg (not_erasesAt later looks)]
  | erased mem later dirty readable done =>
    have erases : ErasesAt flash addr := .inr dirty
    rw [if_pos erases]
    exact partitionErase_mem done
  | learned mem first done =>
    have erases : ErasesAt flash addr := .inl first
    rw [if_pos erases]
    exact partitionErase_mem done

theorem flashProgram_some {length : Nat}
    (ok : flashProgram p dev flash addr length data = (some k, next)) :
    k = length ∧ addr + min length data.length ≤ p.length ∧
      next.mem = program flash.mem addr (data.take length) := by
  unfold flashProgram partitionWrite at ok
  split at ok
  · cases ok
  rename_i mem programmed
  cases ok
  split at programmed
  · next inside =>
    rw [length_take] at inside
    exact ⟨rfl, inside.1, (Option.some.inj programmed).symm⟩
  · cases programmed

theorem writeLength_eq (positive : 0 < p.sectorSize) (small : p.length < 2 ^ 32)
    (fits : offset + p.sectorSize * 2 + min (writeLength p offset k) k ≤ p.length) :
    writeLength p offset k = k := by
  have room : roomLeft p offset = p.length - offset := by
    unfold roomLeft
    have split : p.length + 2 ^ 32 - offset = p.length - offset + 2 ^ 32 := by omega
    rw [split, Nat.add_mod_right]
    exact Nat.mod_eq_of_lt (by omega)
  unfold writeLength at fits ⊢
  split
  · next cut =>
    rw [if_pos cut] at fits
    omega
  · rfl

theorem flashWrite_some (positive : 0 < p.sectorSize) (small : p.length < 2 ^ 32)
    (ok : flashWrite p dev flash offset data = (some k, next)) :
    k = data.length ∧ next.mem = program
      (if ErasesAt flash (offset + p.sectorSize * 2) then
        erase flash.mem (sectorBase p (offset + p.sectorSize * 2))
          ((data.length + p.sectorSize - 1) / p.sectorSize * p.sectorSize)
      else flash.mem) (offset + p.sectorSize * 2) data := by
  unfold flashWrite at ok
  rcases erasing : fotaFlashErase p dev flash (offset + p.sectorSize * 2)
    ((writeLength p offset data.length + p.sectorSize - 1) / p.sectorSize) with ⟨done, erased⟩
  simp only [erasing] at ok
  cases done with
  | false => cases ok
  | true =>
    obtain ⟨rfl, inside, programmed⟩ := flashProgram_some ok
    have whole := writeLength_eq positive small inside
    rw [whole] at erasing programmed ⊢
    rw [take_length, fotaFlashErase_mem erasing] at programmed
    exact ⟨rfl, programmed⟩

theorem partitionErase_zero {works : Bool} {mem mem' : Mem}
    (ok : partitionErase p works mem addr 0 = some mem') : mem' = mem := by
  rw [partitionErase_mem ok, Nat.zero_mul]
  funext a
  exact erase_outside (by omega)

theorem fotaFlashErase_zero (p : LogicPartition) (dev : Device) (flash : Flash) (addr : Nat) :
    (fotaFlashErase p dev flash addr 0).2.mem = flash.mem := by
  have outcome := fotaFlashErase_outcome p dev flash addr 0
  generalize fotaFlashErase p dev flash addr 0 = result at outcome ⊢
  obtain ⟨answer, next⟩ := result
  cases outcome with
  | unread _ _ => rfl
  | clean _ _ => rfl
  | refused _ _ _ => rfl
  | erased mem _ _ _ done => exact partitionErase_zero done
  | unlearned mem _ done => exact partitionErase_zero done
  | learned mem _ done => exact partitionErase_zero done

theorem flashWrite_nil (positive : 0 < p.sectorSize) :
    (flashWrite p dev flash offset []).2.mem = flash.mem := by
  have none : writeLength p offset ([] : List UInt8).length = 0 := by
    unfold writeLength
    rw [length_nil, if_neg (Nat.not_lt_zero _)]
  have blocks : (0 + p.sectorSize - 1) / p.sectorSize = 0 := Nat.div_eq_of_lt (by omega)
  have erasing := fotaFlashErase_zero p dev flash (offset + p.sectorSize * 2)
  unfold flashWrite
  rw [none, blocks]
  rcases after : fotaFlashErase p dev flash _ 0 with ⟨done, erased⟩
  rw [after] at erasing
  cases done with
  | false => exact erasing
  | true =>
    show (flashProgram p dev erased _ 0 []).2.mem = flash.mem
    unfold flashProgram partitionWrite
    split
    · exact erasing
    rename_i mem programmed
    split at programmed
    · rw [Option.some.injEq] at programmed
      rw [← programmed, ← erasing]
      funext a
      exact program_outside (by simp; omega)
    · cases programmed

def Accepted (p : LogicPartition) (dev : Device) (flash : Flash) (addr length : Nat) : Prop :=
  dev.reads = true ∧ dev.programs = true ∧ addr + 512 ≤ p.length ∧ addr + length ≤ p.length ∧
    (ErasesAt flash addr → dev.erases = true ∧
      addr / p.sectorSize + (length + p.sectorSize - 1) / p.sectorSize
        ≤ p.length / p.sectorSize)

instance (p : LogicPartition) (dev : Device) (flash : Flash) (addr length : Nat) :
    Decidable (Accepted p dev flash addr length) :=
  inferInstanceAs (Decidable (_ ∧ _ ∧ _ ∧ _ ∧ _))

theorem flashWrite_accepted (small : p.length < 2 ^ 32)
    (accepted : Accepted p dev flash (offset + p.sectorSize * 2) data.length) :
    (flashWrite p dev flash offset data).1 = some data.length := by
  obtain ⟨reads, programs, probes, fits, erases⟩ := accepted
  have whole : writeLength p offset data.length = data.length := by
    unfold writeLength roomLeft
    have split : p.length + 2 ^ 32 - offset = p.length - offset + 2 ^ 32 := by omega
    rw [split, Nat.add_mod_right, Nat.mod_eq_of_lt (by omega), if_neg (by omega)]
  generalize addr_eq : offset + p.sectorSize * 2 = addr at *
  have reading : ∀ mem, flashRead p dev mem addr 512 = some (probe mem addr) := by
    intro mem
    unfold flashRead partitionRead probe
    rw [if_pos reads, if_pos probes]
  have erasing : ErasesAt flash addr → ∃ mem, partitionErase p dev.erases flash.mem addr
      ((data.length + p.sectorSize - 1) / p.sectorSize) = some mem := by
    intro erasesNow
    obtain ⟨works, inside⟩ := erases erasesNow
    unfold partitionErase
    rw [if_pos ⟨inside, works⟩]
    exact ⟨_, rfl⟩
  have erased : ∃ next, fotaFlashErase p dev flash addr
      ((data.length + p.sectorSize - 1) / p.sectorSize) = (true, next) := by
    unfold fotaFlashErase
    cases first : flash.firstWrite with
    | false =>
      rw [if_pos rfl, reading]
      cases clean : looksErased flash.scramble (probe flash.mem addr) with
      | true =>
        simp only [clean, if_true]
        exact ⟨_, rfl⟩
      | false =>
        obtain ⟨mem, ok⟩ := erasing (.inr clean)
        simp only [clean, ok]
        exact ⟨_, rfl⟩
    | true =>
      obtain ⟨mem, ok⟩ := erasing (.inl first)
      simp only [ok, reading]
      exact ⟨_, rfl⟩
  obtain ⟨next, ok⟩ := erased
  unfold flashWrite
  rw [whole, addr_eq, ok]
  show (flashProgram p dev next addr data.length data).1 = some data.length
  unfold flashProgram partitionWrite
  rw [take_length, if_pos ⟨fits, programs⟩]

theorem flashWrite_chunk_iff (positive : 0 < p.sectorSize) (small : p.length < 2 ^ 32)
    (ok : flashWrite p dev flash offset data = (some k, next)) :
    HoldsAt next.mem (offset + p.sectorSize * 2) data ↔
      ∀ i < data.length,
        (ErasesAt flash (offset + p.sectorSize * 2) ∧ offset + p.sectorSize * 2 + i <
          eraseEnd p (offset + p.sectorSize * 2) data.length) ∨
        flash.mem (offset + p.sectorSize * 2 + i) &&& data.getD i blank = data.getD i blank := by
  obtain ⟨-, mem_eq⟩ := flashWrite_some positive small ok
  generalize offset + p.sectorSize * 2 = addr at mem_eq ⊢
  have base : sectorBase p addr ≤ addr := Nat.div_mul_le_self _ _
  refine forall₂_congr fun i bound => ?_
  rw [mem_eq, program_inside (Nat.le_add_right _ _) (by omega), Nat.add_sub_cancel_left]
  by_cases erased : ErasesAt flash addr ∧ addr + i < eraseEnd p addr data.length
  · rw [if_pos erased.1, erase_inside (by omega) erased.2, blank_and]
    exact iff_of_true rfl (Or.inl erased)
  have kept : (if ErasesAt flash addr then erase flash.mem (sectorBase p addr)
      ((data.length + p.sectorSize - 1) / p.sectorSize * p.sectorSize) else flash.mem) (addr + i)
      = flash.mem (addr + i) := by
    split
    · next erases =>
      exact erase_outside (Or.inr (Nat.le_of_not_lt fun inside => erased ⟨erases, inside⟩))
    · rfl
  rw [kept]
  exact ⟨Or.inr, fun either => either.resolve_left erased⟩

theorem flashWrite_harmless (positive : 0 < p.sectorSize) (small : p.length < 2 ^ 32)
    (harmless : Harmless p flash (offset + p.sectorSize * 2) data)
    (ok : flashWrite p dev flash offset data = (some k, next)) :
    k = data.length ∧
    (∀ a < offset + p.sectorSize * 2, p.sectorSize * 2 ≤ a → next.mem a = flash.mem a) ∧
    ∀ i < data.length, next.mem (offset + p.sectorSize * 2 + i) = data.getD i blank := by
  obtain ⟨whole, mem_eq⟩ := flashWrite_some positive small ok
  obtain ⟨spares, takes⟩ := harmless
  refine ⟨whole, ?_, (flashWrite_chunk_iff positive small ok).mpr takes⟩
  generalize offset + p.sectorSize * 2 = addr at mem_eq spares
  intro a before _
  rw [mem_eq, program_outside (.inl before)]
  split
  · next erases =>
    by_cases inside : sectorBase p addr ≤ a ∧ a < sectorBase p addr +
        (data.length + p.sectorSize - 1) / p.sectorSize * p.sectorSize
    · have was := spares erases (a - sectorBase p addr) (by omega)
      rw [show sectorBase p addr + (a - sectorBase p addr) = a by omega] at was
      rw [erase_inside inside.1 inside.2, was]
    · exact erase_outside (by omega)
  · rfl

end Phy6212.Fota
