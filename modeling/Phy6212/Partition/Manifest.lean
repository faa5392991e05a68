import Mathlib.Algebra.Group.Nat.Defs
import Mathlib.Tactic.Basic

/-!
# The manifest table

`mtb_find_addr` looks for the manifest table, and `get_sys_partition` copies its list of partitions
into a buffer: from a section in versions 1 and 2, entry by entry in version 4.
-/

namespace Phy6212.Manifest

open List

def read16 (rd : Nat → UInt8) (addr : Nat) : Nat := (rd addr).toNat + 256 * (rd (addr + 1)).toNat

def read32 (rd : Nat → UInt8) (addr : Nat) : Nat :=
  read16 rd addr + 65536 * read16 rd (addr + 2)

def bytes64 (n : Nat) : List UInt8 := (range 8).map fun k => .ofNat (n / 256 ^ k)

def copyBytes (rd : Nat → UInt8) (addr count : Nat) : List UInt8 :=
  (range count).map fun i => rd ((addr + i) % 2 ^ 32)

def bmtbMagic : Nat := 0x74427254

def mtbMagic : Nat := 0x74427251

def mtbImageNameSize : Nat := 8

def mtbOsVersion1 : Nat := 32

def mtbOsVersion2 : Nat := 64

def mtbAppVersionMaxSize : Nat := 64

structure MheadTb where
  magic : Nat
  version : Nat
  scnCount : Nat
  size : Nat
  deriving DecidableEq, Repr

def mheadTbSize : Nat := 16

def mheadTb (rd : Nat → UInt8) (addr : Nat) : MheadTb where
  magic := read32 rd addr
  version := read16 rd (addr + 4)
  scnCount := read16 rd (addr + 8)
  size := read16 rd (addr + 14)

structure ScnInfo where
  firstType : Nat
  extendType : Nat
  sonType : Nat
  deriving DecidableEq, Repr

structure ScnHead where
  type : ScnInfo
  size : Nat
  deriving DecidableEq, Repr

def scnHeadSize : Nat := 8

/-- The two parts of the father type are four bits each, the low ones first. -/
def scnHead (rd : Nat → UInt8) (addr : Nat) : ScnHead where
  type := ⟨(rd addr).toNat / 16, (rd addr).toNat % 16, (rd (addr + 1)).toNat⟩
  size := read32 rd (addr + 4)

def scnPartType : ScnInfo := ⟨5, 0, 0⟩

inductive SearchMode where
  | firstType | sonType | extendType
  deriving DecidableEq, Repr

structure FlashDevInfo where
  startAddr : Nat
  blockSize : Nat
  blockCount : Nat
  deriving DecidableEq, Repr

structure Mtb where
  usingAddr : Nat
  validAddr : Nat
  flashStart : Nat
  version : Nat
  deriving DecidableEq, Repr

def mtbFindLoop (rd : Nat → UInt8) (flash : FlashDevInfo) : Nat → Nat → Option Mtb
  | 0, _ => none
  | left + 1, addr =>
    let head := mheadTb rd addr
    let flashEnd := flash.startAddr + flash.blockSize * flash.blockCount
    if flashEnd ≤ addr then none
    else if head.magic = bmtbMagic ∧ head.version = 1 ∧ addr + head.size < flashEnd ∧
        (mheadTb rd (addr + head.size)).magic = mtbMagic then
      some ⟨addr + head.size, addr, flash.startAddr, 1⟩
    else if head.magic = mtbMagic then some ⟨addr, addr, flash.startAddr, head.version⟩
    else mtbFindLoop rd flash left (addr + flash.blockSize)

/-- `mtb_find_addr`, in the build that reads the flash at its addresses. -/
def mtbFindAddr (rd : Nat → UInt8) (flash : Option FlashDevInfo) : Option Mtb :=
  match flash with
  | none => none
  | some flash => mtbFindLoop rd flash flash.blockCount flash.startAddr

def getScnOffset (mtb : Mtb) : Option Nat :=
  if mtb.version = 1 then some ((mtb.usingAddr + mheadTbSize + mtbOsVersion1) % 2 ^ 32)
  else if mtb.version = 2 then some ((mtb.usingAddr + mheadTbSize + mtbOsVersion2) % 2 ^ 32)
  else none

/-- `strncmp` finds no difference: the bytes are the same up to a NUL, or up to the limit. -/
def sameName (a b : Nat → UInt8) : Nat → Nat → Bool
  | 0, _ => true
  | left + 1, i => a i == b i && (a i == 0 || sameName a b left (i + 1))

def searchedName (name : List UInt8) : Nat → UInt8 :=
  let nameLen := if mtbImageNameSize < name.length then mtbImageNameSize - 1 else name.length
  fun i => (name.take nameLen).getD i 0

def sectionMatches (rd : Nat → UInt8) (searchType : ScnInfo) (searchName : Option (List UInt8))
    (mode : SearchMode) (scn : Nat) : Bool :=
  let type := (scnHead rd scn).type
  type.firstType == searchType.firstType &&
    (match mode with
      | .firstType => true
      | .sonType => type.sonType == searchType.sonType
      | .extendType =>
        type.sonType == searchType.sonType && type.extendType == searchType.extendType) &&
    match searchName with
      | none => true
      | some name =>
        sameName (fun i => rd (scn + scnHeadSize + i)) (searchedName name) mtbImageNameSize 0

def sectionLoop (rd : Nat → UInt8) (hit : Nat → Bool) : Nat → Nat → Option Nat
  | 0, _ => none
  | left + 1, scn =>
    if hit scn then some scn
    else sectionLoop rd hit left ((scn + (scnHead rd scn).size) % 2 ^ 32)

def getSectionAddr (rd : Nat → UInt8) (mtb : Mtb) (searchType : ScnInfo)
    (searchName : Option (List UInt8)) (mode : SearchMode) : Option Nat :=
  match getScnOffset mtb with
  | none => none
  | some scn =>
    sectionLoop rd (sectionMatches rd searchType searchName mode)
      (mheadTb rd mtb.usingAddr).scnCount scn

def getPartionScnAddr (rd : Nat → UInt8) (mtb : Mtb) : Option Nat :=
  getSectionAddr rd mtb scnPartType none .extendType

/-- What a call returns, the size that it leaves in `*out_len`, and what it has written to the
buffer from its start on. -/
structure Copied where
  ret : Int
  outLen : Nat
  written : List UInt8
  deriving DecidableEq, Repr

def imtbHeadV4Size : Nat := 24

def imtbPartitionInfoV4Size : Nat := 32

def partionInfoSize : Nat := 24

def partitionCount (rd : Nat → UInt8) (mtb : Mtb) : Nat := read16 rd (mtb.usingAddr + 20)

/-- One entry of the list, from the entry of the table at an address. -/
def partionInfo (rd : Nat → UInt8) (mtb : Mtb) (addr : Nat) : List UInt8 :=
  copyBytes rd addr mtbImageNameSize ++
    bytes64 (mtb.flashStart + read32 rd (addr + 20) * 512 % 2 ^ 32) ++
    bytes64 (read16 rd (addr + 18) * 512)

def partitionInfoInit (rd : Nat → UInt8) (mtb : Mtb) (bufSize : Nat) : Copied :=
  let partitions := mtb.usingAddr + imtbHeadV4Size + mtbAppVersionMaxSize
  let written := (range (partitionCount rd mtb)).flatMap fun i =>
    partionInfo rd mtb (partitions + imtbPartitionInfoV4Size * i)
  let size := partitionCount rd mtb * partionInfoSize
  if size > bufSize then ⟨-1, bufSize, written⟩ else ⟨0, size, written⟩

/-- The size of the contents of a section, an unsigned difference of 32 bits. -/
def sectionLength (rd : Nat → UInt8) (scn : Nat) : Nat :=
  ((scnHead rd scn).size + 2 ^ 32 - scnHeadSize) % 2 ^ 32

def getSysPartition (rd : Nat → UInt8) (flash : Option FlashDevInfo) (outLen : Nat) : Copied :=
  match mtbFindAddr rd flash with
  | none => ⟨-1, outLen, []⟩
  | some mtb =>
    if mtb.version < 4 then
      match getPartionScnAddr rd mtb with
      | none => ⟨-1, outLen, []⟩
      | some scn =>
        ⟨0, sectionLength rd scn, copyBytes rd (scn + scnHeadSize) (sectionLength rd scn)⟩
    else partitionInfoInit rd mtb outLen

def partitionBufferSize : Nat := 240

def partitionsNum : Nat := 9

/-- The number of partitions that `partition_init` takes from the list, or -1. -/
def partitionInitNum (rd : Nat → UInt8) (flash : Option FlashDevInfo) : Int :=
  let copied := getSysPartition rd flash partitionBufferSize
  if copied.ret < 0 then -1
  else if copied.outLen / partionInfoSize > partitionsNum then -1
  else (copied.outLen / partionInfoSize : Nat)

variable {rd : Nat → UInt8} {flash : Option FlashDevInfo}

theorem copyBytes_length (rd : Nat → UInt8) (addr count : Nat) :
    (copyBytes rd addr count).length = count := by
  simp [copyBytes]

theorem partionInfo_length (rd : Nat → UInt8) (mtb : Mtb) (addr : Nat) :
    (partionInfo rd mtb addr).length = partionInfoSize := by
  simp [partionInfo, copyBytes_length, bytes64, mtbImageNameSize, partionInfoSize]

theorem entries_length {count size : Nat} {entry : Nat → List UInt8}
    (each : ∀ i, (entry i).length = size) :
    ((range count).flatMap entry).length = count * size := by
  induction count with
  | zero => simp
  | succ count ih =>
    rw [range_succ, flatMap_append, length_append, ih, flatMap_singleton,
      each, Nat.succ_mul]

theorem partitionInfoInit_written (rd : Nat → UInt8) (mtb : Mtb) (bufSize : Nat) :
    (partitionInfoInit rd mtb bufSize).written.length = partitionCount rd mtb * partionInfoSize := by
  unfold partitionInfoInit
  dsimp only
  split
  · exact entries_length fun i => partionInfo_length rd mtb _
  · exact entries_length fun i => partionInfo_length rd mtb _

theorem partitionInfoInit_fails_iff (rd : Nat → UInt8) (mtb : Mtb) (bufSize : Nat) :
    (partitionInfoInit rd mtb bufSize).ret < 0 ↔
      bufSize < partitionCount rd mtb * partionInfoSize := by
  unfold partitionInfoInit
  dsimp only
  split
  · next long => exact ⟨fun _ => long, fun _ => (by decide : (-1) < 0)⟩
  · next short =>
    exact ⟨fun impossible => absurd impossible (Int.lt_irrefl 0), fun long => absurd long short⟩

def SectionFits (rd : Nat → UInt8) (flash : Option FlashDevInfo) (outLen : Nat) : Prop :=
  ∀ mtb scn, mtbFindAddr rd flash = some mtb → mtb.version < 4 →
    getPartionScnAddr rd mtb = some scn → sectionLength rd scn ≤ outLen

def EntriesFit (rd : Nat → UInt8) (flash : Option FlashDevInfo) (outLen : Nat) : Prop :=
  ∀ mtb, mtbFindAddr rd flash = some mtb → 4 ≤ mtb.version →
    partitionCount rd mtb * partionInfoSize ≤ outLen

theorem getSysPartition_missing (missing : mtbFindAddr rd flash = none) (outLen : Nat) :
    getSysPartition rd flash outLen = ⟨-1, outLen, []⟩ := by
  simp only [getSysPartition, missing]

variable {mtb : Mtb}

section

variable (found : mtbFindAddr rd flash = some mtb)

include found

theorem getSysPartition_sections (old : mtb.version < 4) (outLen : Nat) :
    getSysPartition rd flash outLen =
      match getPartionScnAddr rd mtb with
      | none => ⟨-1, outLen, []⟩
      | some scn =>
        ⟨0, sectionLength rd scn, copyBytes rd (scn + scnHeadSize) (sectionLength rd scn)⟩ := by
  simp only [getSysPartition, found, if_pos old]

theorem getSysPartition_entries (new : 4 ≤ mtb.version)
    (outLen : Nat) : getSysPartition rd flash outLen = partitionInfoInit rd mtb outLen := by
  simp only [getSysPartition, found, if_neg (Nat.not_lt.mpr new)]

theorem fits_sections (old : mtb.version < 4) (outLen : Nat) : (SectionFits rd flash outLen ↔
      ∀ scn, getPartionScnAddr rd mtb = some scn → sectionLength rd scn ≤ outLen) ∧
    EntriesFit rd flash outLen := by
  unfold SectionFits EntriesFit
  rw [found]
  refine ⟨⟨fun fits scn => fits mtb scn rfl old, ?_⟩, ?_⟩
  · rintro fits _ scn ⟨⟩ -
    exact fits scn
  · rintro _ ⟨⟩ new
    omega

theorem fits_entries (new : 4 ≤ mtb.version) (outLen : Nat) :
    SectionFits rd flash outLen ∧
    (EntriesFit rd flash outLen ↔ partitionCount rd mtb * partionInfoSize ≤ outLen) := by
  unfold SectionFits EntriesFit
  rw [found]
  refine ⟨?_, ⟨fun fits => fits mtb rfl new, ?_⟩⟩
  · rintro _ scn ⟨⟩ old
    omega
  · rintro fits _ ⟨⟩ -
    exact fits

end

/-- **The call fails or stays in the buffer** if and only if the section of a table of version 1 or
2 fits; and it never writes behind the buffer, failing or not, if and only if the entries of a
table of version 4 fit as well. -/
theorem getSysPartition_fits_iff (rd : Nat → UInt8) (flash : Option FlashDevInfo) (outLen : Nat) :
    ((getSysPartition rd flash outLen).ret < 0 ∨
        (getSysPartition rd flash outLen).written.length ≤ outLen ↔ SectionFits rd flash outLen) ∧
    ((getSysPartition rd flash outLen).written.length ≤ outLen ↔
      SectionFits rd flash outLen ∧ EntriesFit rd flash outLen) := by
  cases found : mtbFindAddr rd flash with
  | none =>
    rw [getSysPartition_missing found]
    simp [SectionFits, EntriesFit, found]
  | some mtb =>
    rcases Nat.lt_or_ge mtb.version 4 with old | new
    · obtain ⟨sections, entries⟩ := fits_sections found old outLen
      rw [getSysPartition_sections found old, sections, and_iff_left entries]
      cases scn : getPartionScnAddr rd mtb with
      | none => simp
      | some scn => simp [copyBytes_length]
    obtain ⟨sections, entries⟩ := fits_entries found new outLen
    rw [getSysPartition_entries found new, partitionInfoInit_written,
      partitionInfoInit_fails_iff, and_iff_right sections, entries]
    exact ⟨iff_of_true (Nat.lt_or_ge _ _) sections, Iff.rfl⟩

def boardFlash : FlashDevInfo := ⟨0x11000000, 0x1000, 128⟩

def elevenPartitions (addr : Nat) : UInt8 :=
  if addr = 0x11000000 then 0x51 else if addr = 0x11000001 then 0x72
  else if addr = 0x11000002 then 0x42 else if addr = 0x11000003 then 0x74
  else if addr = 0x11000004 then 2 else if addr = 0x11000008 then 1
  else if addr = 0x11000050 then 0x50
  else if addr = 0x11000054 then 0x10 else if addr = 0x11000055 then 1 else 0

/-- **The list of eleven partitions is written behind the buffer** of `partition_init`, and the call
succeeds. -/
theorem eleven_partitions_overflow :
    0 ≤ (getSysPartition elevenPartitions (some boardFlash) partitionBufferSize).ret ∧
      (getSysPartition elevenPartitions (some boardFlash) partitionBufferSize).written.length = 264 ∧
      partitionInitNum elevenPartitions (some boardFlash) = -1 := by
  refine ⟨by decide +kernel, by decide +kernel, by decide +kernel⟩

end Phy6212.Manifest
