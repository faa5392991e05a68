import Phy6212.Partition.Eflash

/-!
# What a read stores

`csi_spiflash_read` stores whole words, so a read stores exactly the bytes that were asked for if
and only if their number is a multiple of 4 (`reads_exactly_iff`).
-/

namespace Phy6212.Eflash

open List NorFlash Spif

def flashBytes (flash : Mem) (addr cnt : Nat) : List UInt8 :=
  (range cnt).map fun i => flash (addr - spifAddrStart + i)

/-- A read that is not refused is of bytes of the flash, and stores exactly them. -/
def ReadsExactly (flash : Mem) (addr cnt : UInt32) : Prop :=
  ∀ data, csiSpiflashRead (csiSpiflashInitialize flash) addr.toNat cnt.toNat = .ok data →
    InRange addr.toNat cnt.toNat ∧ data = flashBytes flash addr.toNat cnt.toNat

/-- The same of a read from a partition. -/
def PartitionReadsExactly (node : Node) (flash : Mem) (offSet : Int32) (size : UInt32) : Prop :=
  (partitionRead node (csiSpiflashInitialize flash) offSet size).2 = [] ∨
    InRange (target node offSet) size.toNat ∧
      (partitionRead node (csiSpiflashInitialize flash) offSet size).2 =
        flashBytes flash (target node offSet) size.toNat

structure Accepted (addr cnt : Nat) : Prop where
  some_ : cnt ≠ 0
  low : spifAddrStart ≤ addr
  high : addr ≤ spifAddrEnd
  lastLow : spifAddrStart ≤ u32 (addr + cnt - 1)
  lastHigh : u32 (addr + cnt - 1) ≤ spifAddrEnd

def wordsRead (flash : Mem) (o cnt : Nat) : List UInt8 :=
  (range (wordSize cnt)).map fun i => flash ((o + i / 4 * 4) % 2 ^ 24 + i % 4)

variable {flash : Mem} {addr cnt o : Nat}

theorem csiSpiflashRead_accepted (accepted : Accepted addr cnt) (flash : Mem) :
    csiSpiflashRead (csiSpiflashInitialize flash) addr cnt =
      .ok (wordsRead flash (addr - spifAddrStart) cnt) := by
  obtain ⟨some_, low, high, lastLow, lastHigh⟩ := accepted
  obtain ⟨o, rfl⟩ : ∃ o, addr = spifAddrStart + o := ⟨_, (Nat.add_sub_cancel' low).symm⟩
  have small : o ≤ flashSize := by
    unfold spifAddrStart spifAddrEnd at high
    unfold flashSize
    omega
  unfold csiSpiflashRead
  rw [if_neg some_, checkRange_eq, if_pos ⟨low, high, lastLow, lastHigh⟩, Nat.add_sub_cancel_left]
  simp only [bind, Except.bind, mask_target small, wordSize_eq]
  rfl

theorem csiSpiflashRead_refused (refused : ¬ Accepted addr cnt) (flash : Mem) :
    csiSpiflashRead (csiSpiflashInitialize flash) addr cnt = .error .parameter := by
  unfold csiSpiflashRead
  by_cases empty : cnt = 0
  · rw [if_pos empty]
  rw [if_neg empty, checkRange_eq, if_neg]
  · rfl
  · rintro ⟨low, high, lastLow, lastHigh⟩
    exact refused ⟨empty, low, high, lastLow, lastHigh⟩

theorem wordsRead_length (flash : Mem) (o cnt : Nat) :
    (wordsRead flash o cnt).length = wordSize cnt := by
  simp [wordsRead]

theorem flashBytes_length (flash : Mem) (addr cnt : Nat) :
    (flashBytes flash addr cnt).length = cnt := by
  simp [flashBytes]

theorem wordsRead_eq_iff (inRange : InRange addr cnt) :
    wordsRead flash (addr - spifAddrStart) cnt = flashBytes flash addr cnt ↔ cnt % 4 = 0 := by
  constructor
  · intro same
    have lengths := congrArg length same
    rw [wordsRead_length, flashBytes_length] at lengths
    unfold wordSize at lengths
    omega
  intro words
  have whole : wordSize cnt = cnt := by
    unfold wordSize
    omega
  obtain ⟨low, high⟩ := inRange
  unfold spifAddrStart at low
  unfold spifAddrEnd at high
  unfold wordsRead flashBytes spifAddrStart
  rw [whole]
  apply map_congr_left
  intro i less
  have small := mem_range.mp less
  have place : (addr - 0x11000000 + i / 4 * 4) % 2 ^ 24 + i % 4 = addr - 0x11000000 + i := by
    omega
  rw [place]

theorem readsExactly_iff (flash : Mem) (addr cnt : UInt32) :
    ReadsExactly flash addr cnt ↔ (Accepted addr.toNat cnt.toNat →
      InRange addr.toNat cnt.toNat ∧ cnt.toNat % 4 = 0) := by
  by_cases accepted : Accepted addr.toNat cnt.toNat
  · unfold ReadsExactly
    rw [csiSpiflashRead_accepted accepted]
    constructor
    · intro exact_ _
      obtain ⟨inRange, same⟩ := exact_ _ rfl
      exact ⟨inRange, (wordsRead_eq_iff inRange).mp same⟩
    intro condition data ok
    obtain ⟨inRange, words⟩ := condition accepted
    cases ok
    exact ⟨inRange, (wordsRead_eq_iff inRange).mpr words⟩
  · unfold ReadsExactly
    rw [csiSpiflashRead_refused accepted]
    exact ⟨fun _ impossible => absurd impossible accepted, fun _ data impossible => by cases impossible⟩

theorem partitionReadsExactly_iff (flash : Mem) (node : Node) (offSet : Int32) (size : UInt32) :
    PartitionReadsExactly node flash offSet size ↔ (Admitted node offSet size →
      InRange (target node offSet) size.toNat ∧ size.toNat % 4 = 0) := by
  by_cases admitted : Admitted node offSet size
  · obtain ⟨o, -, small, at_, -⟩ := admitted.cases
    have stored : (partitionRead node (csiSpiflashInitialize flash) offSet size).2 =
        wordsRead flash (target node offSet - spifAddrStart) size.toNat := by
      rw [partitionRead_admitted admitted flash at_ small, at_, Nat.add_sub_cancel_left]
      rfl
    have nonempty : wordsRead flash (target node offSet - spifAddrStart) size.toNat ≠ [] := by
      intro empty
      have none_ := congrArg length empty
      rw [wordsRead_length] at none_
      have positive := admitted.some_
      unfold wordSize at none_
      simp only [length_nil] at none_
      omega
    unfold PartitionReadsExactly
    rw [stored]
    constructor
    · intro exact_ _
      obtain ⟨inRange, same⟩ := exact_.resolve_left nonempty
      exact ⟨inRange, (wordsRead_eq_iff inRange).mp same⟩
    · intro condition
      obtain ⟨inRange, words⟩ := condition admitted
      exact .inr ⟨inRange, (wordsRead_eq_iff inRange).mpr words⟩
  · constructor
    · exact fun _ impossible => absurd impossible admitted
    · exact fun _ => .inl (partitionRead_refused admitted flash)

/-- **A read stores exactly the bytes that were asked for** if and only if it is refused, or these
are bytes of the flash and whole words. -/
theorem reads_exactly_iff (flash : Mem) :
    (∀ addr cnt, ReadsExactly flash addr cnt ↔ (Accepted addr.toNat cnt.toNat →
      InRange addr.toNat cnt.toNat ∧ cnt.toNat % 4 = 0)) ∧
    ∀ node offSet size, PartitionReadsExactly node flash offSet size ↔
      (Admitted node offSet size → InRange (target node offSet) size.toNat ∧ size.toNat % 4 = 0) :=
  ⟨readsExactly_iff flash, partitionReadsExactly_iff flash⟩

def smallNode : Node := ⟨0x2000, 0x2000, by decide, by decide⟩

theorem byte_read_stores_word :
    csiSpiflashRead (csiSpiflashInitialize fun _ => blank) 0x11002000 1 =
        .ok [blank, blank, blank, blank] ∧
      ¬ ReadsExactly (fun _ => blank) 0x11002000 1 ∧
      (partitionRead smallNode (csiSpiflashInitialize fun _ => blank) 0 1).2 =
        [blank, blank, blank, blank] ∧
      ¬ PartitionReadsExactly smallNode (fun _ => blank) 0 1 := by
  have word : csiSpiflashRead (csiSpiflashInitialize fun _ => blank) 0x11002000 1 =
      .ok [blank, blank, blank, blank] := rfl
  have stored : (partitionRead smallNode (csiSpiflashInitialize fun _ => blank) 0 1).2 =
      [blank, blank, blank, blank] := rfl
  refine ⟨word, fun exact_ => ?_, stored, ?_⟩
  · have same := (exact_ _ word).2
    exact absurd (congrArg length same) (by decide)
  · rintro (empty | ⟨-, same⟩)
    · cases empty
    · exact absurd (congrArg length same) (by decide)

end Phy6212.Eflash
