import Phy6212.Fota.Flash

/-!
# Writing a stream of chunks

Chunks are written one after the other within one boot. The partition holds what was written exactly
when no write erases a byte written before, and each finds the bytes of its chunk erased or
programmable (`stream_stored_iff`).
-/

namespace Phy6212.Fota

open List NorFlash Phy6212.Partition

structure Destination where
  partition : LogicPartition
  sectorPositive : 0 < partition.sectorSize
  partitionSmall : partition.length < 2 ^ 32

abbrev Destination.reserved (d : Destination) : Nat := d.partition.sectorSize * 2

/-- A write of a positive number of bytes, and how the flash device answers during it. -/
structure Chunk where
  device : Device := {}
  data : List UInt8
  nonempty : data ≠ []

/-- The flash and the offset of the stream. What the successful writes have written is kept for
the statements. -/
structure Stream where
  flash : Flash
  offset : Nat := 0
  written : List UInt8 := []

def Stream.start (mem : Mem) : Stream where
  flash := { mem := mem }

def Stream.write (d : Destination) (s : Stream) (c : Chunk) : Option Nat × Stream :=
  match flashWrite d.partition c.device s.flash s.offset c.data with
  | (none, flash) => (none, { s with flash := flash })
  | (some k, flash) =>
    (some k, { flash := flash, offset := s.offset + k, written := s.written ++ c.data.take k })

structure Stored (d : Destination) (s : Stream) : Prop where
  length : s.offset = s.written.length
  bytes : HoldsAt s.flash.mem d.reserved s.written

def StoredAfterEach (d : Destination) : Stream → List Chunk → Prop
  | _, [] => True
  | s, c :: cs =>
    ((s.write d c).1 ≠ none → Stored d (s.write d c).2) ∧ StoredAfterEach d (s.write d c).2 cs

def Progresses (d : Destination) : Stream → List Chunk → Prop
  | _, [] => False
  | s, c :: cs => (s.write d c).1 ≠ none ∨ Progresses d (s.write d c).2 cs

/-! ## Where a write does harm -/

/-- `fota_flash_erase` gets as far as to erase: it has to, it can read the bytes to look at,
and the sectors lie inside the partition. -/
def ErasesNow (p : LogicPartition) (dev : Device) (flash : Flash) (addr count : Nat) : Prop :=
  ErasesAt flash addr ∧ 0 < count ∧ dev.erases = true ∧
    addr / p.sectorSize + count ≤ p.length / p.sectorSize ∧
    (flash.firstWrite = false → dev.reads = true ∧ addr + 512 ≤ p.length)

instance (p : LogicPartition) (dev : Device) (flash : Flash) (addr count : Nat) :
    Decidable (ErasesNow p dev flash addr count) :=
  inferInstanceAs (Decidable (_ ∧ _ ∧ _ ∧ _ ∧ _))

/-- The number of sectors that a chunk is taken to need. -/
def blocksOf (p : LogicPartition) (offset length : Nat) : Nat :=
  (writeLength p offset length + p.sectorSize - 1) / p.sectorSize

/-- If the write erases, what lies before it in its sector is blank. -/
def Spares (d : Destination) (s : Stream) (c : Chunk) : Prop :=
  ErasesNow d.partition c.device s.flash (s.offset + d.reserved)
      (blocksOf d.partition s.offset c.data.length) →
    ∀ a < s.offset + d.reserved, sectorBase d.partition (s.offset + d.reserved) ≤ a →
      s.flash.mem a = blank

/-- Every byte of the chunk is erased first, or can be programmed over what is there. -/
def Takes (d : Destination) (s : Stream) (c : Chunk) : Prop :=
  ∀ i < c.data.length,
    (ErasesAt s.flash (s.offset + d.reserved) ∧ s.offset + d.reserved + i <
      eraseEnd d.partition (s.offset + d.reserved) c.data.length) ∨
    s.flash.mem (s.offset + d.reserved + i) &&& c.data.getD i blank = c.data.getD i blank

/-- Up to the last successful write no write erases what was written before, and every successful
write finds its bytes erased or programmable. -/
def Placed (d : Destination) : Stream → List Chunk → Prop
  | _, [] => True
  | s, c :: cs =>
    (Progresses d s (c :: cs) → Spares d s c) ∧ ((s.write d c).1 ≠ none → Takes d s c) ∧
      Placed d (s.write d c).2 cs

/-! ## One write -/

variable {p : LogicPartition} {dev : Device} {flash next : Flash} {addr count offset k a : Nat}
  {data : List UInt8}

theorem partitionErase_getD (p : LogicPartition) (works : Bool) (mem : Mem) (addr count : Nat) :
    (partitionErase p works mem addr count).getD mem =
      if 0 < count ∧ works = true ∧ addr / p.sectorSize + count ≤ p.length / p.sectorSize then
        erase mem (sectorBase p addr) (count * p.sectorSize)
      else mem := by
  unfold partitionErase
  by_cases inside : addr / p.sectorSize + count ≤ p.length / p.sectorSize ∧ works = true
  · rw [if_pos inside, Option.getD_some]
    rcases Nat.eq_zero_or_pos count with rfl | positive
    · exact partitionErase_zero (if_pos inside)
    · rw [if_pos ⟨positive, inside.2, inside.1⟩]
      rfl
  · rw [if_neg inside, Option.getD_none, if_neg fun all => inside ⟨all.2.2, all.2.1⟩]

theorem fotaFlashErase_snd_mem (p : LogicPartition) (dev : Device) (flash : Flash)
    (addr count : Nat) :
    (fotaFlashErase p dev flash addr count).2.mem =
      if ErasesNow p dev flash addr count then
        erase flash.mem (sectorBase p addr) (count * p.sectorSize)
      else flash.mem := by
  have attempt : ∀ (_ : ErasesAt flash addr)
      (_ : flash.firstWrite = false → dev.reads = true ∧ addr + 512 ≤ p.length),
      (partitionErase p dev.erases flash.mem addr count).getD flash.mem =
        if ErasesNow p dev flash addr count then
          erase flash.mem (sectorBase p addr) (count * p.sectorSize)
        else flash.mem := by
    intro erases readable
    rw [partitionErase_getD]
    refine if_congr ⟨fun all => ?_, fun all => ?_⟩ rfl rfl
    · exact ⟨erases, all.1, all.2.1, all.2.2, readable⟩
    · exact ⟨all.2.1, all.2.2.1, all.2.2.2.1⟩
  have outcome := fotaFlashErase_outcome p dev flash addr count
  generalize fotaFlashErase p dev flash addr count = result at outcome ⊢
  obtain ⟨answer, next⟩ := result
  cases outcome with
  | unread later unreadable =>
    rw [if_neg fun all => unreadable (all.2.2.2.2 later)]
  | clean later looks =>
    rw [if_neg fun all => not_erasesAt later looks all.1]
  | refused erases readable failed =>
    rw [← attempt erases readable, failed]
    rfl
  | erased mem later dirty readable done =>
    rw [← attempt (.inr dirty) fun _ => readable, done]
    rfl
  | unlearned mem first done =>
    rw [← attempt (.inl first) fun later => absurd (later.symm.trans first) Bool.false_ne_true,
      done]
    rfl
  | learned mem first done =>
    rw [← attempt (.inl first) fun later => absurd (later.symm.trans first) Bool.false_ne_true,
      done]
    rfl

variable {result : Option Nat}

theorem flashProgram_outside {length : Nat}
    (ran : flashProgram p dev flash addr length data = (result, next)) :
    next.firstWrite = flash.firstWrite ∧ next.scramble = flash.scramble ∧
      ∀ a, a < addr ∨ addr + result.getD 0 ≤ a → next.mem a = flash.mem a := by
  unfold flashProgram partitionWrite at ran
  split at ran
  · cases ran
    exact ⟨rfl, rfl, fun _ _ => rfl⟩
  rename_i mem programmed
  cases ran
  split at programmed
  · cases programmed
    refine ⟨rfl, rfl, fun a outside => program_outside (outside.imp_right fun behind => ?_)⟩
    rw [length_take]
    rw [Option.getD_some] at behind
    omega
  · cases programmed

theorem flashWrite_erase (ran : flashWrite p dev flash offset data = (result, next)) :
    ∃ done erased, fotaFlashErase p dev flash (offset + p.sectorSize * 2)
        (blocksOf p offset data.length) = (done, erased) ∧
      (result ≠ none → done = true) ∧ next.firstWrite = erased.firstWrite ∧
      next.scramble = erased.scramble ∧
      ∀ a, a < offset + p.sectorSize * 2 ∨ offset + p.sectorSize * 2 + result.getD 0 ≤ a →
        next.mem a = erased.mem a := by
  unfold flashWrite at ran
  rcases attempt : fotaFlashErase p dev flash _
    _ with ⟨done, erased⟩
  refine ⟨done, erased, rfl, ?_⟩
  unfold blocksOf at attempt
  simp only [attempt] at ran
  cases done with
  | false =>
    cases ran
    exact ⟨fun differs => absurd rfl differs, rfl, rfl, fun _ _ => rfl⟩
  | true => exact ⟨fun _ => rfl, flashProgram_outside ran⟩

theorem flashWrite_before (positive : 0 < p.sectorSize)
    (ran : flashWrite p dev flash offset data = (result, next))
    (before : a < offset + p.sectorSize * 2) :
    next.mem a =
      if ErasesNow p dev flash (offset + p.sectorSize * 2) (blocksOf p offset data.length) ∧
          sectorBase p (offset + p.sectorSize * 2) ≤ a then blank
      else flash.mem a := by
  obtain ⟨done, erased, attempt, -, -, -, outside⟩ := flashWrite_erase ran
  have erasing := congrFun (fotaFlashErase_snd_mem p dev flash (offset + p.sectorSize * 2)
    (blocksOf p offset data.length)) a
  rw [attempt] at erasing
  rw [outside a (Or.inl before), erasing]
  generalize offset + p.sectorSize * 2 = addr at *
  by_cases now : ErasesNow p dev flash addr (blocksOf p offset data.length)
  · rw [if_pos now]
    have firstSector : addr < sectorBase p addr + p.sectorSize := Nat.lt_div_mul_add positive
    have blocks : p.sectorSize ≤ blocksOf p offset data.length * p.sectorSize :=
      Nat.le_mul_of_pos_left _ now.2.1
    by_cases inside : sectorBase p addr ≤ a
    · rw [if_pos ⟨now, inside⟩, erase_inside inside (by omega)]
    · rw [if_neg fun both => inside both.2, erase_outside (by omega)]
  · rw [if_neg now, if_neg fun both => now both.1]

variable {d : Destination} {s : Stream} {c : Chunk} {cs : List Chunk}

theorem write_cases (d : Destination) (s : Stream) (c : Chunk) :
    (∃ flash, flashWrite d.partition c.device s.flash s.offset c.data = (none, flash) ∧
      s.write d c = (none, { s with flash := flash })) ∨
    ∃ flash, flashWrite d.partition c.device s.flash s.offset c.data =
        (some c.data.length, flash) ∧
      s.write d c = (some c.data.length,
        { flash := flash, offset := s.offset + c.data.length, written := s.written ++ c.data }) := by
  unfold Stream.write
  rcases ran : flashWrite d.partition c.device s.flash s.offset c.data with ⟨result, flash⟩
  cases result with
  | none => exact Or.inl ⟨flash, rfl, rfl⟩
  | some k =>
    obtain ⟨rfl, -⟩ := flashWrite_some d.sectorPositive d.partitionSmall ran
    refine Or.inr ⟨flash, rfl, ?_⟩
    simp only [take_length]

theorem write_accepted (accepted : Accepted d.partition c.device s.flash (s.offset + d.reserved)
    c.data.length) :
    ∃ flash, flashWrite d.partition c.device s.flash s.offset c.data =
        (some c.data.length, flash) ∧
      s.write d c = (some c.data.length,
        { flash := flash, offset := s.offset + c.data.length, written := s.written ++ c.data }) := by
  have succeeds := flashWrite_accepted d.partitionSmall accepted
  rcases write_cases d s c with ⟨flash, ran, -⟩ | written
  · rw [ran] at succeeds
    cases succeeds
  · exact written

theorem write_before (d : Destination) (s : Stream) (c : Chunk)
    (before : a < s.offset + d.reserved) :
    (s.write d c).2.flash.mem a =
      if ErasesNow d.partition c.device s.flash (s.offset + d.reserved)
          (blocksOf d.partition s.offset c.data.length) ∧
          sectorBase d.partition (s.offset + d.reserved) ≤ a then blank
      else s.flash.mem a := by
  rcases write_cases d s c with ⟨flash, ran, result⟩ | ⟨flash, ran, result⟩
  · rw [result]
    exact flashWrite_before d.sectorPositive ran before
  · rw [result]
    exact flashWrite_before d.sectorPositive ran before

theorem Spares.keeps (spares : Spares d s c) (before : a < s.offset + d.reserved) :
    (s.write d c).2.flash.mem a = s.flash.mem a := by
  rw [write_before d s c before]
  split
  · next erased => exact (spares erased.1 a before erased.2).symm
  · rfl

theorem reserved_le_sectorBase (d : Destination) (offset : Nat) :
    d.reserved ≤ sectorBase d.partition (offset + d.reserved) := by
  unfold sectorBase
  rw [Nat.add_mul_div_left _ _ d.sectorPositive, Nat.add_mul]
  have two : 2 * d.partition.sectorSize = d.reserved := Nat.mul_comm _ _
  omega

theorem Stored.write (stored : Stored d s) (spares : Spares d s c)
    (takes : (s.write d c).1 ≠ none → Takes d s c) : Stored d (s.write d c).2 := by
  have keeps : HoldsAt (s.write d c).2.flash.mem d.reserved s.written := by
    intro i old
    rw [spares.keeps (by rw [stored.length]; omega)]
    exact stored.bytes i old
  rcases write_cases d s c with ⟨flash, ran, result⟩ | ⟨flash, ran, result⟩
  · rw [result] at keeps ⊢
    exact ⟨stored.length, keeps⟩
  rw [result] at keeps takes ⊢
  have chunk : HoldsAt flash.mem _ c.data :=
    (flashWrite_chunk_iff d.sectorPositive d.partitionSmall ran).mpr
      (takes (Option.some_ne_none _))
  rw [stored.length, Nat.add_comm] at chunk
  refine ⟨?_, holdsAt_append.mpr ⟨keeps, chunk⟩⟩
  simp only [length_append, stored.length]

def Damaged (d : Destination) (s : Stream) : Prop :=
  ∃ i < s.written.length, s.flash.mem (d.reserved + i) = blank ∧ s.written.getD i blank ≠ blank

theorem Damaged.not_stored (damaged : Damaged d s) : ¬ Stored d s := by
  rintro ⟨-, bytes⟩
  obtain ⟨i, inside, erased, was⟩ := damaged
  exact was ((bytes i inside).symm.trans erased)

theorem write_offset (sized : s.offset = s.written.length) :
    (s.write d c).2.offset = (s.write d c).2.written.length := by
  rcases write_cases d s c with ⟨flash, -, result⟩ | ⟨flash, -, result⟩
  · rw [result]
    exact sized
  · rw [result]
    simp only [length_append, sized]

theorem write_written_getD {i : Nat} (inside : i < s.written.length) :
    i < (s.write d c).2.written.length ∧
      (s.write d c).2.written.getD i blank = s.written.getD i blank := by
  rcases write_cases d s c with ⟨flash, -, result⟩ | ⟨flash, -, result⟩
  · rw [result]
    exact ⟨inside, rfl⟩
  · rw [result]
    refine ⟨?_, getD_append _ _ _ _ inside⟩
    exact Nat.lt_of_lt_of_le inside (by simp)

theorem Damaged.write (damaged : Damaged d s) (sized : s.offset = s.written.length) :
    Damaged d (s.write d c).2 := by
  obtain ⟨i, inside, erased, was⟩ := damaged
  obtain ⟨inside', same⟩ := write_written_getD (d := d) (c := c) inside
  refine ⟨i, inside', ?_, by rwa [same]⟩
  rw [write_before d s c (by omega), erased, ite_self]

theorem damaged_of_not_spares (stored : Stored d s) (harms : ¬ Spares d s c) :
    Damaged d (s.write d c).2 := by
  simp only [Spares, Classical.not_imp, Classical.not_forall] at harms
  obtain ⟨erases, a, before, inside, held⟩ := harms
  have low := reserved_le_sectorBase d s.offset
  have place : d.reserved + (a - d.reserved) = a := by omega
  have old : a - d.reserved < s.written.length := by
    rw [← stored.length]
    omega
  have byte := stored.bytes _ old
  rw [place] at byte
  obtain ⟨inside', same⟩ := write_written_getD (d := d) (c := c) old
  refine ⟨a - d.reserved, inside', ?_, ?_⟩
  · rw [place, write_before d s c before, if_pos ⟨erases, inside⟩]
  · rw [same, ← byte]
    exact held

theorem takes_of_stored (sized : s.offset = s.written.length) (ok : (s.write d c).1 ≠ none)
    (stored : Stored d (s.write d c).2) : Takes d s c := by
  rcases write_cases d s c with ⟨flash, -, result⟩ | ⟨flash, ran, result⟩
  · rw [result] at ok
    exact absurd rfl ok
  rw [result] at stored
  have chunk := (holdsAt_append.mp stored.bytes).2
  rw [← sized, Nat.add_comm d.reserved] at chunk
  exact (flashWrite_chunk_iff d.sectorPositive d.partitionSmall ran).mp chunk

/-! ## All writes -/

theorem storedAfterEach_of_stuck (stuck : ¬ Progresses d s cs) : StoredAfterEach d s cs := by
  induction cs generalizing s with
  | nil => trivial
  | cons c cs ih =>
    obtain ⟨fails, later⟩ := not_or.mp stuck
    exact ⟨fun ok => absurd ok fails, ih later⟩

theorem placed_of_stuck (stuck : ¬ Progresses d s cs) : Placed d s cs := by
  induction cs generalizing s with
  | nil => trivial
  | cons c cs ih =>
    obtain ⟨fails, later⟩ := not_or.mp stuck
    exact ⟨fun progresses => absurd progresses stuck, fun ok => absurd ok fails, ih later⟩

theorem Damaged.stuck (damaged : Damaged d s) (sized : s.offset = s.written.length)
    (right : StoredAfterEach d s cs) : ¬ Progresses d s cs := by
  induction cs generalizing s with
  | nil => exact id
  | cons c cs ih =>
    rintro (ok | later)
    · exact damaged.write sized |>.not_stored (right.1 ok)
    · exact ih (damaged.write sized) (write_offset sized) right.2 later

theorem Stored.placed_iff (stored : Stored d s) : StoredAfterEach d s cs ↔ Placed d s cs := by
  induction cs generalizing s with
  | nil => exact Iff.rfl
  | cons c cs ih =>
    by_cases progresses : Progresses d s (c :: cs)
    · constructor
      · rintro ⟨first, rest⟩
        have takes := fun ok => takes_of_stored stored.length ok (first ok)
        have spares : Spares d s c := by
          by_contra harms
          have damaged := damaged_of_not_spares stored harms
          rcases progresses with ok | later
          · exact damaged.not_stored (first ok)
          · exact damaged.stuck (write_offset stored.length) rest later
        exact ⟨fun _ => spares, takes, (ih (stored.write spares takes)).mp rest⟩
      · rintro ⟨spares, takes, rest⟩
        have next := stored.write (spares progresses) takes
        exact ⟨fun _ => next, (ih next).mpr rest⟩
    · exact iff_of_true (storedAfterEach_of_stuck progresses) (placed_of_stuck progresses)

theorem stored_start {mem : Mem} : Stored d (Stream.start mem) where
  length := rfl
  bytes i inside := by cases inside

variable {mem : Mem}

/-! ## Old content in the next sector -/

variable {scramble : List UInt8}

theorem looksErased_first (clean : looksErased scramble (probe mem addr) = true) {i : Nat}
    (inside : i < 128) : scramble[0]? = some (mem (addr + i * 4)) := by
  have words := all_eq_true.mp clean i (mem_range.mpr inside)
  have word : ((probe mem addr).drop _).take 4 = scramble := of_decide_eq_true words
  have inside' : i * 4 < 512 := by omega
  rw [← word, getElem?_take_of_lt (by decide), getElem?_drop, Nat.add_zero, probe,
    getElem?_map, getElem?_range inside']
  rfl

def miscPartition : Destination := ⟨⟨0x39000, 0x1000⟩, by decide, by decide⟩

def longChunk : Chunk := ⟨{}, replicate 3600 0xA5, cons_ne_nil _ _⟩

def shortChunk : Chunk := ⟨{}, [0xA5], cons_ne_nil _ _⟩

theorem longChunk_length : longChunk.data.length = 3600 := length_replicate

theorem longChunk_written :
    ∃ flash, (Stream.start fun _ => 0).write miscPartition longChunk =
        (some 3600, { flash := flash, offset := 3600, written := longChunk.data }) ∧
      flash.mem = program (erase (fun _ => 0) 8192 4096) 8192 longChunk.data := by
  have accepted : Accepted miscPartition.partition {} (Stream.start fun _ => 0).flash
      (0 + miscPartition.reserved) longChunk.data.length := by
    rw [longChunk_length]
    exact ⟨rfl, rfl, by decide, by decide, fun _ => ⟨rfl, by decide⟩⟩
  obtain ⟨flash, ran, written⟩ :=
    write_accepted (d := miscPartition) (s := Stream.start fun _ => 0) (c := longChunk) accepted
  obtain ⟨-, mem⟩ := flashWrite_some miscPartition.sectorPositive miscPartition.partitionSmall ran
  rw [longChunk_length] at written mem
  exact ⟨flash, written, mem⟩

theorem shortChunk_erases (offset : s.offset = 3600) (erases : ErasesAt s.flash 11792) :
    (s.write miscPartition shortChunk).1 ≠ none ∧
      (s.write miscPartition shortChunk).2.written = s.written ++ [0xA5] ∧
      (s.write miscPartition shortChunk).2.flash.mem 8192 = blank := by
  have addr : s.offset + miscPartition.reserved = 11792 := congrArg (· + 8192) offset
  have one : shortChunk.data.length = 1 := rfl
  have erased := write_before miscPartition s shortChunk (a := 8192) (by rw [addr]; decide)
  have now : ErasesNow miscPartition.partition shortChunk.device s.flash 11792
      (blocksOf miscPartition.partition 3600 1) :=
    ⟨erases, by decide, rfl, by decide, fun _ => ⟨rfl, by decide⟩⟩
  rw [addr, offset, one, if_pos ⟨now, by decide⟩] at erased
  have accepted : Accepted miscPartition.partition shortChunk.device s.flash
      (s.offset + miscPartition.reserved) shortChunk.data.length := by
    rw [addr, one]
    exact ⟨rfl, rfl, by decide, by decide, fun _ => ⟨rfl, by decide⟩⟩
  obtain ⟨flash, -, result⟩ := write_accepted accepted
  rw [result] at erased ⊢
  exact ⟨Option.some_ne_none _, rfl, erased⟩

end Phy6212.Fota
