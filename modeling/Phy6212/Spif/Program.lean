import Phy6212.NorFlash.Page
import Mathlib.Tactic.IntervalCases

/-!
# Programming the serial flash

`csi_spiflash_program` cuts a request at the 64-byte windows of the flash, and `phy_ProgramPage64`
sends each chunk as whole words filled up with zeros.
-/

namespace Phy6212.Spif

open List NorFlash

def pageProgramCmd : Nat := 0x2

def pageSize : Nat := 0x100

def wordByte (word : UInt32) (k : Nat) : UInt8 := (word >>> UInt32.ofNat (8 * k)).toUInt8

def wordBytes (word : UInt32) : List UInt8 :=
  [wordByte word 0, wordByte word 1, wordByte word 2, wordByte word 3]

/-- The address behind a command byte: the flash reads its high byte first. -/
def commandAddr (command : Nat) : Nat :=
  (command >>> 8 &&& 0xff) <<< 16 ||| (command >>> 16 &&& 0xff) <<< 8 ||| command >>> 24 &&& 0xff

def sendCommand (mem : Mem) (command : Nat) (words : List UInt32) : Mem :=
  if command &&& 0xff = pageProgramCmd then
    programPage pageSize mem (commandAddr command) (words.flatMap wordBytes)
  else mem

def littleAddr (offset : Nat) : Nat :=
  (offset &&& 0xff) <<< 16 ||| (offset &&& 0xff0000) >>> 16 ||| offset &&& 0xff00

theorem and_ff (x : Nat) : x &&& 0xff = x % 256 := Nat.and_two_pow_sub_one_eq_mod x 8

theorem and_ff00 (x : Nat) : x &&& 0xff00 = x / 256 % 256 * 256 := by
  have mask : x &&& 0xff00 = (x >>> 8 &&& 0xff) <<< 8 := by
    apply Nat.eq_of_testBit_eq
    intro i
    rw [show 0xff00 = 0xff <<< 8 from rfl]
    simp only [Nat.testBit_and, Nat.testBit_shiftLeft, Nat.testBit_shiftRight]
    rcases Nat.lt_or_ge i 8 with low | high
    · simp [show ¬ 8 ≤ i by omega]
    · simp [high]
  rw [mask, and_ff, Nat.shiftRight_eq_div_pow, Nat.shiftLeft_eq]

theorem or_bytes {high mid low : Nat} (midByte : mid < 256) (lowByte : low < 256) :
    high <<< 16 ||| mid <<< 8 ||| low = high * 65536 + mid * 256 + low := by
  rw [Nat.or_assoc, ← Nat.shiftLeft_add_eq_or_of_lt (b := low) (i := 8) lowByte,
    ← Nat.shiftLeft_add_eq_or_of_lt, Nat.shiftLeft_eq, Nat.shiftLeft_eq]
  · omega
  · omega

theorem littleAddr_bytes {high mid low : Nat} (highByte : high < 256) (midByte : mid < 256)
    (lowByte : low < 256) :
    littleAddr (high * 65536 + mid * 256 + low) = low * 65536 + mid * 256 + high := by
  have first : (high * 65536 + mid * 256 + low) % 256 = low := by omega
  have second : (high * 65536 + mid * 256 + low) / 256 % 256 = mid := by omega
  have third : (high * 65536 + mid * 256 + low) / 2 ^ 16 % 256 = high := by omega
  unfold littleAddr
  rw [Nat.shiftRight_and_distrib, show 0xff0000 >>> 16 = 0xff from rfl, and_ff, and_ff,
    and_ff00, Nat.shiftRight_eq_div_pow, first, second, third, Nat.or_assoc, Nat.or_comm high,
    ← Nat.or_assoc, ← or_bytes midByte highByte, Nat.shiftLeft_eq mid]

variable {cnt addr size offset : Nat}

theorem commandAddr_littleAddr (small : offset < 2 ^ 24) :
    commandAddr (pageProgramCmd ||| littleAddr offset <<< 8) = offset ∧
      (pageProgramCmd ||| littleAddr offset <<< 8) &&& 0xff = pageProgramCmd := by
  obtain ⟨high, mid, low, highByte, midByte, lowByte, rfl⟩ : ∃ high mid low, high < 256 ∧ mid < 256 ∧
      low < 256 ∧ offset = high * 65536 + mid * 256 + low :=
    ⟨offset / 65536, offset / 256 % 256, offset % 256, by omega, by omega, by omega, by omega⟩
  rw [littleAddr_bytes highByte midByte lowByte, Nat.or_comm,
    ← Nat.shiftLeft_add_eq_or_of_lt (by decide), Nat.shiftLeft_eq, show pageProgramCmd = 2 from rfl]
  constructor
  · have first : ((low * 65536 + mid * 256 + high) * 256 + 2) / 256 % 256 = high := by omega
    have second : ((low * 65536 + mid * 256 + high) * 256 + 2) / 65536 % 256 = mid := by omega
    have shifted : ((low * 65536 + mid * 256 + high) * 256 + 2) / 16777216 = low := by
      omega
    have third : ((low * 65536 + mid * 256 + high) * 256 + 2) / 16777216 % 256 = low := by
      rw [shifted, Nat.mod_eq_of_lt lowByte]
    unfold commandAddr
    simp only [and_ff, Nat.shiftRight_eq_div_pow, Nat.reducePow, first, second, third]
    exact or_bytes midByte lowByte
  · rw [and_ff]
    omega

def packWords (buf : Nat → UInt8) (size : Nat) : Nat → UInt32 :=
  (range size).foldl
    (fun data i => Function.update data (i >>> 2)
      (data (i >>> 2) ||| (buf i).toUInt32 <<< UInt32.ofNat ((i &&& 0x03) <<< 3)))
    (fun _ => 0)

def phyProgramPage64 (mem : Mem) (offset : Nat) (buf : Nat → UInt8) (size : Nat) : Nat × Mem :=
  if size > 64 then (0, mem)
  else if size = 0 then (0, mem)
  else
    let data := packWords buf size
    let j := if size &&& 0x03 ≠ 0 then (size >>> 2) + 1 else size >>> 2
    let command := pageProgramCmd ||| littleAddr offset <<< 8
    let words :=
      if size ≤ 4 then [data 0]
      else if size < 64 then (range j).map data
      else (range 16).map data
    (size, sendCommand mem command words)

def wordSize (size : Nat) : Nat := (size + 3) / 4 * 4

theorem wordByte_bit (w : UInt32) {k i : Nat} (byte : k < 4) (bit : i < 8) :
    (wordByte w k).toBitVec.getLsbD i = w.toBitVec.getLsbD (8 * k + i) := by
  interval_cases k <;> simp [wordByte, bit]

theorem shifted_bit (b : UInt8) {j m : Nat} (byte : j < 4) (bit : m < 32) :
    (b.toUInt32 <<< UInt32.ofNat (j <<< 3)).toBitVec.getLsbD m =
      (!decide (m < 8 * j) && b.toBitVec.getLsbD (m - 8 * j)) := by
  interval_cases j <;> simp [bit]

theorem wordByte_or (w : UInt32) (b : UInt8) {j k : Nat} (jByte : j < 4) (kByte : k < 4) :
    wordByte (w ||| b.toUInt32 <<< UInt32.ofNat (j <<< 3)) k =
      if k = j then wordByte w k ||| b else wordByte w k := by
  apply UInt8.toBitVec_inj.mp
  apply BitVec.eq_of_getLsbD_eq
  intro i bit
  rw [wordByte_bit _ kByte bit, UInt32.toBitVec_or, BitVec.getLsbD_or,
    shifted_bit b jByte (by omega)]
  split
  · next same =>
    subst same
    rw [UInt8.toBitVec_or, BitVec.getLsbD_or, wordByte_bit w kByte bit]
    simp
  rename_i differ
  rw [wordByte_bit w kByte bit]
  rcases Nat.lt_or_ge (8 * k + i) (8 * j) with below | above
  · simp [below]
  · rw [BitVec.getLsbD_of_ge b.toBitVec _ (by omega)]
    simp

theorem packWords_byte (buf : Nat → UInt8) (size k : Nat) :
    wordByte (packWords buf size (k / 4)) (k % 4) = if k < size then buf k else 0 := by
  induction size with
  | zero =>
    have byte : k % 4 < 4 := Nat.mod_lt _ (by decide)
    show wordByte 0 _ = 0
    interval_cases k % 4 <;> rfl
  | succ size ih =>
    have word : size >>> 2 = size / 4 := Nat.shiftRight_eq_div_pow size 2
    have byte : size &&& 0x03 = size % 4 := Nat.and_two_pow_sub_one_eq_mod size 2
    have unfold_last : packWords buf (size + 1) = Function.update (packWords buf size) (size / 4)
        (packWords buf size (size / 4) |||
          (buf size).toUInt32 <<< UInt32.ofNat ((size % 4) <<< 3)) := by
      simp only [packWords, range_succ, foldl_append, foldl_cons, foldl_nil,
        word, byte]
    rw [unfold_last]
    rcases eq_or_ne (k / 4) _ with same | other
    · rw [same, Function.update_self, wordByte_or _ _ (Nat.mod_lt _ (by decide))
        (Nat.mod_lt _ (by decide)), ← same, ih]
      rcases eq_or_ne k size with rfl | differ
      · rw [if_pos rfl, if_neg (Nat.lt_irrefl k), if_pos (Nat.lt_succ_self k)]
        exact UInt8.zero_or
      · rw [if_neg (by omega)]
        exact if_congr (by omega) rfl rfl
    · rw [Function.update_of_ne other, ih]
      exact if_congr (by omega) rfl rfl

theorem flatMap_wordBytes (data : Nat → UInt32) (j : Nat) :
    (((range j).map data).flatMap wordBytes).length = 4 * j ∧
      ∀ k < 4 * j, (((range j).map data).flatMap wordBytes).getD k 0 =
        wordByte (data (k / 4)) (k % 4) := by
  induction j with
  | zero => exact ⟨rfl, fun k impossible => absurd impossible (by omega)⟩
  | succ j ih =>
    obtain ⟨length, bytes⟩ := ih
    rw [range_succ, map_append, flatMap_append]
    refine ⟨by simp [length, wordBytes]; omega, fun k less => ?_⟩
    rcases Nat.lt_or_ge k (4 * j) with before | last
    · rw [getD_append _ _ _ _ (by omega), bytes k before]
    rw [getD_append_right _ _ _ _ (by omega), length, show k / 4 = j by omega]
    obtain ⟨i, rfl⟩ : ∃ i, k = 4 * j + i := ⟨k - 4 * j, by omega⟩
    have small : i < 4 := by omega
    rw [Nat.add_sub_cancel_left, Nat.mul_add_mod]
    interval_cases i <;> rfl

/-- The address gets one of the zeros that fill the last word of a chunk. -/
abbrev Filled (offset size a : Nat) : Prop := Padded pageSize offset size (wordSize size) a

theorem chunkWords_eq {data : Nat → UInt32} (some_ : size ≠ 0) (short : size ≤ 64) :
    (if size ≤ 4 then [data 0]
      else if size < 64 then
        (range (if size &&& 0x03 ≠ 0 then (size >>> 2) + 1 else size >>> 2)).map data
      else (range 16).map data) = (range ((size + 3) / 4)).map data := by
  split
  · rw [show (size + 3) / 4 = 1 by omega]
    rfl
  split
  · rw [show size &&& 0x03 = size % 4 from Nat.and_two_pow_sub_one_eq_mod size 2,
      show size >>> 2 = size / 4 from Nat.shiftRight_eq_div_pow size 2]
    congr 2
    split <;> omega
  · rw [show (size + 3) / 4 = 16 by omega]

theorem phyProgramPage64_eq (small : offset < 2 ^ 24) (short : size ≤ 64)
    (within : offset % 256 + size ≤ 256) (mem : Mem) (buf : Nat → UInt8) :
    (phyProgramPage64 mem offset buf size).2 =
      clearAt (Filled offset size) (programFrom mem offset buf size) := by
  unfold phyProgramPage64
  rw [if_neg (show ¬ size > 64 by omega)]
  rcases eq_or_ne size 0 with rfl | some_
  · rw [if_pos rfl, programFrom_zero]
    exact (clearAt_none (fun a filled => absurd filled.2.2 (Nat.not_lt_zero _)) mem).symm
  rw [if_neg some_]
  simp only [chunkWords_eq some_ short]
  obtain ⟨address, command⟩ := commandAddr_littleAddr small
  obtain ⟨length, bytes⟩ := flatMap_wordBytes (packWords buf size) ((size + 3) / 4)
  rw [sendCommand, if_pos command, address]
  have chunk := @programPage_chunk pageSize offset size
    (((range ((size + 3) / 4)).map (packWords buf size)).flatMap wordBytes) buf (by decide)
    within (by omega) (fun k less => by
      rw [bytes k (by omega), packWords_byte, if_pos less]) (fun k behind => by
      rcases Nat.lt_or_ge k _ with inside | outside
      · rw [bytes k inside, packWords_byte, if_neg (by omega)]
      · rw [getD_eq_default _ _ (by omega)]) mem
  rw [chunk]
  congr 1
  funext a
  rw [length, Nat.mul_comm]
  rfl

inductive DrvError where
  | error
  | busy
  | parameter
  deriving DecidableEq, Repr

def spifAddrStart : Nat := 0x11000000

def spifAddrEnd : Nat := 0x11080000

structure Spiflash where
  initFlag : Bool
  start : Nat
  end_ : Nat
  busy : Bool
  error : Bool
  flash : Mem

def csiSpiflashInitialize (flash : Mem) : Spiflash where
  initFlag := true
  start := spifAddrStart
  end_ := spifAddrEnd
  busy := false
  error := false
  flash := flash

def windowLoop : Nat → Mem → Nat → (Nat → UInt8) → Nat → Mem × Nat × (Nat → UInt8) × Nat
  | 0, mem, addr, wr, cnt => (mem, addr, wr, cnt)
  | rounds + 1, mem, addr, wr, cnt =>
    if cnt ≥ 64 then
      windowLoop rounds (phyProgramPage64 mem addr wr 64).2 (addr + 64) (fun i => wr (64 + i))
        (cnt - 64)
    else (mem, addr, wr, cnt)

/-- The chunks of `csi_spiflash_program`. Every round of the loop over windows takes 64
bytes, so there are fewer rounds than bytes. -/
def programChunks (mem : Mem) (addr : Nat) (wr : Nat → UInt8) (cnt : Nat) : Mem :=
  let len := 64 - addr % 64
  if len ≥ cnt then (phyProgramPage64 mem addr wr cnt).2
  else
    let mem := (phyProgramPage64 mem addr wr len).2
    let addr := addr + len
    let wr := fun i => wr (len + i)
    let cnt := cnt - len
    if cnt ≤ 64 then (phyProgramPage64 mem addr wr cnt).2
    else
      let (mem, addr, wr, cnt) := windowLoop cnt mem addr wr cnt
      if cnt > 0 then (phyProgramPage64 mem addr wr cnt).2 else mem

def csiSpiflashProgram (priv : Spiflash) (addr : Nat) (data : Nat → UInt8) (cnt : Nat) :
    Except DrvError Nat × Spiflash :=
  let last := (addr + cnt + (2 ^ 32 - 1)) % 2 ^ 32
  if cnt = 0 then (.error .parameter, priv)
  else if priv.start > addr ∨ priv.end_ < addr ∨ priv.start > last ∨ priv.end_ < last then
    (.error .parameter, priv)
  else if priv.busy then (.error .busy, priv)
  else if ¬ priv.initFlag then (.error .error, priv)
  else
    let flash := programChunks priv.flash (addr &&& 0xffffff) data cnt
    (.ok cnt, { priv with busy := false, error := false, flash := flash })

def firstChunk (offset cnt : Nat) : Nat := min cnt (64 - offset % 64)

def lastChunk (offset cnt : Nat) : Nat := (cnt - firstChunk offset cnt) % 64

/-- The addresses that a request clears: those behind the first chunk, and those behind the
last one. -/
def Cleared (offset cnt a : Nat) : Prop :=
  Filled offset (firstChunk offset cnt) a ∨
    Filled (offset + cnt - lastChunk offset cnt) (lastChunk offset cnt) a

instance (offset cnt a : Nat) : Decidable (Cleared offset cnt a) :=
  inferInstanceAs (Decidable (_ ∨ _))

theorem not_filled (words : size % 4 = 0) (a : Nat) : ¬ Filled offset size a := by
  intro filled
  obtain ⟨-, behind, short⟩ := filled
  unfold wordSize at short
  omega

theorem windowLoop_eq (rounds : Nat) (mem : Mem) (addr : Nat) (wr : Nat → UInt8) (cnt : Nat)
    (aligned : addr % 64 = 0) (small : addr + cnt < 2 ^ 24) (few : cnt < 64 * (rounds + 1)) :
    windowLoop rounds mem addr wr cnt =
      (programFrom mem addr wr (cnt - cnt % 64), addr + (cnt - cnt % 64),
        fun i => wr (cnt - cnt % 64 + i), cnt % 64) := by
  induction rounds generalizing mem addr wr cnt with
  | zero =>
    rw [windowLoop, Nat.mod_eq_of_lt (by omega), Nat.sub_self, programFrom_zero]
    simp
  | succ rounds ih =>
    rw [windowLoop]
    split
    · next more =>
      rw [phyProgramPage64_eq (by omega) (Nat.le_refl _) (by omega),
        clearAt_none (not_filled (by decide)), ih _ _ _ _ (by omega) (by omega) (by omega),
        programFrom_append, show (cnt - 64) % 64 = cnt % 64 by omega,
        show 64 + (cnt - 64 - cnt % 64) = cnt - cnt % 64 by omega,
        show addr + 64 + (cnt - 64 - cnt % 64) = addr + (cnt - cnt % 64) by omega]
      congr 3
      funext i
      rw [← Nat.add_assoc, show 64 + (cnt - 64 - cnt % 64) = cnt - cnt % 64 by omega]
    · next fewer =>
      rw [Nat.mod_eq_of_lt (by omega), Nat.sub_self, programFrom_zero]
      simp

theorem windows_eq (aligned : addr % 64 = 0) (small : addr + cnt < 2 ^ 24) (mem : Mem)
    (wr : Nat → UInt8) :
    (if cnt ≤ 64 then (phyProgramPage64 mem addr wr cnt).2
      else
        let (mem, addr, wr, cnt) := windowLoop cnt mem addr wr cnt
        if cnt > 0 then (phyProgramPage64 mem addr wr cnt).2 else mem) =
      clearAt (Filled (addr + cnt - cnt % 64) (cnt % 64)) (programFrom mem addr wr cnt) := by
  by_cases few : cnt ≤ 64
  · rw [if_pos few, phyProgramPage64_eq (by omega) few (by omega)]
    rcases Nat.lt_or_eq_of_le few with less | rfl
    · rw [Nat.mod_eq_of_lt less, Nat.add_sub_cancel]
    · rw [clearAt_none (not_filled (by decide)), clearAt_none (not_filled (by decide))]
  rw [if_neg few, windowLoop_eq cnt mem addr wr cnt aligned small (by omega)]
  simp only
  have whole := programFrom_append mem addr wr (cnt - cnt % 64) (cnt % 64)
  rw [show cnt - cnt % 64 + cnt % 64 = cnt by omega] at whole
  by_cases rest : cnt % 64 > 0
  · rw [if_pos rest, phyProgramPage64_eq (by omega) (by omega) (by omega), whole,
      show addr + (cnt - cnt % 64) = addr + cnt - cnt % 64 by omega]
  · rw [if_neg rest, clearAt_none (not_filled (by omega)), show cnt - cnt % 64 = cnt by omega]

theorem programChunks_eq (small : addr + cnt < 2 ^ 24) (mem : Mem) (wr : Nat → UInt8) :
    programChunks mem addr wr cnt = clearAt (Cleared addr cnt) (programFrom mem addr wr cnt) := by
  unfold programChunks
  by_cases single : 64 - addr % 64 ≥ cnt
  · have first : firstChunk addr cnt = cnt := Nat.min_eq_left single
    have last : lastChunk addr cnt = 0 := by rw [lastChunk, first, Nat.sub_self]
    rw [if_pos single, phyProgramPage64_eq (by omega) (by omega) (by omega)]
    congr 1
    funext a
    rw [Cleared, first, last]
    simp [not_filled]
  have first : firstChunk addr cnt = 64 - addr % 64 := Nat.min_eq_right (by omega)
  have last : lastChunk addr cnt = (cnt - (64 - addr % 64)) % 64 := by rw [lastChunk, first]
  rw [if_neg single, phyProgramPage64_eq (by omega) (by omega) (by omega)]
  rw [windows_eq (by omega) (by omega), programFrom_clearAt, clearAt_clearAt, programFrom_append,
    show 64 - addr % 64 + (cnt - (64 - addr % 64)) = cnt by omega,
    show addr + (64 - addr % 64) + (cnt - (64 - addr % 64)) = addr + cnt by omega, ← last, ← first]
  rfl

def InRange (addr cnt : Nat) : Prop := spifAddrStart ≤ addr ∧ addr + cnt ≤ spifAddrEnd + 1

instance (addr cnt : Nat) : Decidable (InRange addr cnt) := inferInstanceAs (Decidable (_ ∧ _))

/-- The request changes exactly its own bytes, each to its old value AND the byte of the
data. -/
def ProgramsExactly (flash : Mem) (addr : Nat) (data : Nat → UInt8) (cnt : Nat) : Prop :=
  (csiSpiflashProgram (csiSpiflashInitialize flash) addr data cnt).2.flash =
    programFrom flash (addr - spifAddrStart) data cnt

theorem csiSpiflashProgram_eq (inRange : InRange addr cnt) (flash : Mem) (data : Nat → UInt8) :
    (csiSpiflashProgram (csiSpiflashInitialize flash) addr data cnt).2.flash =
      clearAt (Cleared (addr - spifAddrStart) cnt)
        (programFrom flash (addr - spifAddrStart) data cnt) := by
  have start_eq : spifAddrStart = 0x11000000 := rfl
  have end_eq : spifAddrEnd = 0x11080000 := rfl
  obtain ⟨low, high⟩ := inRange
  obtain ⟨offset, rfl⟩ : ∃ offset, addr = spifAddrStart + offset := ⟨_, (Nat.add_sub_cancel' low).symm⟩
  rw [Nat.add_sub_cancel_left]
  have masked : (spifAddrStart + offset) &&& 0xffffff = offset := by
    rw [show 0xffffff = 2 ^ 24 - 1 from rfl, Nat.and_two_pow_sub_one_eq_mod]
    omega
  unfold csiSpiflashProgram
  simp only [masked, csiSpiflashInitialize]
  rcases Nat.eq_zero_or_pos cnt with rfl | some_
  · -- nothing to program, and the request is refused
    have unchanged : clearAt (Cleared offset 0) (programFrom flash offset data 0) = flash := by
      rw [programFrom_zero]
      apply clearAt_none
      intro a cleared
      rcases cleared with first | last
      · exact not_filled (by simp [firstChunk]) a first
      · exact not_filled (by simp [lastChunk, firstChunk]) a last
    rw [unchanged, if_pos rfl]
  have last : (spifAddrStart + offset + cnt + (2 ^ 32 - 1)) % 2 ^ 32 =
      spifAddrStart + offset + cnt - 1 := by omega
  rw [last, if_neg (by omega), if_neg (by omega)]
  exact programChunks_eq (show offset + cnt < 2 ^ 24 by omega) flash data

/-- **A request programs exactly its own bytes** if and only if every byte that it clears has
to be zero anyway. -/
theorem csiSpiflashProgram_exact {addr cnt : Nat} (inRange : InRange addr cnt) (flash : Mem)
    (data : Nat → UInt8) :
    ProgramsExactly flash addr data cnt ↔ ∀ a, Cleared (addr - spifAddrStart) cnt a →
      programFrom flash (addr - spifAddrStart) data cnt a = 0 := by
  unfold ProgramsExactly
  rw [csiSpiflashProgram_eq inRange, clearAt_eq_self_iff]

theorem csiSpiflashProgram_exact_word :
    InRange 0x11000004 4 ∧ ProgramsExactly (fun _ => blank) 0x11000004 (fun _ => 0x55) 4 := by
  have inRange : InRange 0x11000004 4 := by decide
  refine ⟨inRange, (csiSpiflashProgram_exact inRange _ _).mpr ?_⟩
  intro a cleared
  rcases cleared with first | last
  · exact absurd first (not_filled (by decide) a)
  · exact absurd last (not_filled (by decide) a)

/-- Programming one byte clears the three bytes behind it. -/
theorem single_byte_clears_word :
    InRange 0x11000000 1 ∧
      ¬ ProgramsExactly (fun _ => blank) 0x11000000 (fun _ => 0x55) 1 := by
  refine ⟨by decide, fun exact_ => ?_⟩
  have byte := congrFun exact_ 1
  revert byte
  decide

end Phy6212.Spif
