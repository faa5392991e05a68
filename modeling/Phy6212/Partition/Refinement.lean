import Phy6212.Partition.Access
import Phy6212.Partition.Containment

/-!
# Partitions that share a flash

On its part of the flash (`Node.view`) a partition behind the two protected sectors gets what
`Phy6212.Partition` promises, and nothing happens elsewhere (`Alters`), if the requests are for
whole words and do not wrap.
-/

namespace Phy6212.Eflash

open NorFlash Spif Phy6212.Partition

/-- The partition begins at a sector, behind the two sectors that are protected. -/
structure Node.Aligned (node : Node) : Prop where
  start : node.startAddr % sectorSize = 0
  unprotected : 2 * sectorSize ≤ node.startAddr

def Node.entry (node : Node) : LogicPartition := ⟨node.length, sectorSize⟩

def Node.view (node : Node) (flash : Mem) : Mem := fun a =>
  if a < node.length then flash (node.startAddr + a) else blank

/-- The offset is not negative; the request is not empty, does not wrap and is for whole words. -/
def Call.Regular : Call → Prop
  | .read offSet size | .write offSet size =>
    ∃ offset : Nat, offSet.toInt = offset ∧ offset + size.toNat < 2 ^ 32 ∧ 0 < size.toNat ∧
      offset % 4 = 0 ∧ size.toNat % 4 = 0
  | .erase offSet blockCount =>
    ∃ offset : Nat, offSet.toInt = offset ∧ offset / 0x1000 + blockCount.toNat < 2 ^ 31 ∧
      0 < blockCount.toNat

/-- The call on a partition with a flash of its own. -/
def Call.promise (p : LogicPartition) (data : Nat → UInt8) (call : Call) (mem : Mem) :
    Mem × List UInt8 :=
  match call with
  | .read offSet size =>
    (mem, (Partition.partitionRead p mem offSet.toInt.toNat size.toNat).getD [])
  | .write offSet size =>
    ((Partition.partitionWrite p true mem offSet.toInt.toNat
      ((List.range size.toNat).map data)).getD mem, [])
  | .erase offSet blockCount =>
    ((Partition.partitionErase p true mem offSet.toInt.toNat blockCount.toNat).getD mem, [])

def alter (mem : Mem) (base low high : Nat) (change : Nat → UInt8 → UInt8) : Mem := fun a =>
  if base + low ≤ a ∧ a < base + high then change (a - base) (mem a) else mem a

/-- The call alters a range of the partition, and promises this. -/
def Alters (node : Node) (call : Call) (data : Nat → UInt8) (stack : Except DrvError Unit) : Prop :=
  ∃ low high change, high ≤ node.length ∧
    (∀ flash, (call.perform node data stack flash).1 = alter flash node.startAddr low high change) ∧
    ∀ mem, (call.promise node.entry data mem).1 = alter mem 0 low high change

variable {node : Node} {offSet : Int32} {size blockCount : UInt32} {data : Nat → UInt8}
  {stack : Except DrvError Unit} {low high : Nat} {change : Nat → UInt8 → UInt8}

theorem view_alter (inside : high ≤ node.length) (flash : Mem) :
    node.view (alter flash node.startAddr low high change) =
      alter (node.view flash) 0 low high change := by
  funext a
  simp only [Node.view, alter, Nat.zero_add, Nat.sub_zero, Nat.add_le_add_iff_left,
    Nat.add_lt_add_iff_left, Nat.add_sub_cancel_left]
  split
  next => rfl
  next => rw [if_neg (by omega)]

theorem view_alter_other {other : Node} (inside : high ≤ other.length)
    (apart : ∀ a, node.Holds a → ¬ other.Holds a) (flash : Mem) :
    node.view (alter flash other.startAddr low high change) = node.view flash := by
  funext a
  have outside := apart (node.startAddr + a)
  unfold Node.Holds at outside
  unfold Node.view alter
  split
  next => rw [if_neg (by omega)]
  next => rfl

theorem alter_none (mem : Mem) (base : Nat) : alter mem base 0 0 change = mem :=
  funext fun _ => if_neg (by omega)

theorem alters_nothing {call : Call}
    (idle : ∀ flash, (call.perform node data stack flash).1 = flash)
    (promised : ∀ mem, (call.promise node.entry data mem).1 = mem) : Alters node call data stack :=
  ⟨0, 0, fun _ b => b, Nat.zero_le _, fun flash => (idle flash).trans (alter_none ..).symm,
    fun mem => (promised mem).trans (alter_none ..).symm⟩

theorem not_cleared_of_words {addr cnt : Nat} (words : addr % 4 = 0) (whole : cnt % 4 = 0)
    (a : Nat) : ¬ Cleared addr cnt a := by
  have first : firstChunk addr cnt % 4 = 0 := by
    unfold firstChunk
    omega
  have last : lastChunk addr cnt % 4 = 0 := by
    unfold lastChunk
    omega
  rintro (filled | filled)
  · exact not_filled first a filled
  · exact not_filled last a filled

section Calls

variable {offset : Nat} (at_ : offSet.toInt = offset)

include at_

theorem target_eq (within : offset ≤ node.length) :
    target node offSet = spifAddrStart + (node.startAddr + offset) := by
  have fits : node.startAddr + node.length ≤ 0x80000 := node.fits
  unfold target u32 spifAddrStart
  omega

theorem admitted_iff (small : offset + size.toNat < 2 ^ 32) (some_ : 0 < size.toNat) :
    Admitted node offSet size ↔ offset + size.toNat ≤ node.length := by
  have fits : node.startAddr + node.length ≤ 0x80000 := node.fits
  have start_eq : spifAddrStart = 0x11000000 := rfl
  have end_eq : spifAddrEnd = 0x11080000 := rfl
  constructor
  · rintro ⟨-, checked, -⟩
    unfold u32 at checked
    omega
  · intro within
    have address := target_eq at_ (Nat.le_of_add_right_le within)
    refine ⟨some_, ?_, by omega, by omega, ?_, ?_⟩ <;> unfold u32 <;> omega

variable (small : offset + size.toNat < 2 ^ 32) (some_ : 0 < size.toNat)
  (words : size.toNat % 4 = 0)

include small some_ words

theorem read_promised (flash : Mem) :
    (partitionRead node (csiSpiflashInitialize flash) offSet size).2 =
      (Partition.partitionRead node.entry (node.view flash) offset size.toNat).getD [] := by
  have fits : node.startAddr + node.length ≤ 0x80000 := node.fits
  have size_eq : wordSize size.toNat = size.toNat := by
    unfold wordSize
    omega
  by_cases within : offset + size.toNat ≤ node.length
  · rw [partitionRead_admitted ((admitted_iff at_ small some_).mpr within) flash
      (target_eq at_ (by omega)) (by unfold flashSize; omega), size_eq]
    simp only [Partition.partitionRead, Node.entry, within, if_true, Option.getD_some]
    apply List.map_congr_left
    intro i less
    have bound := List.mem_range.mp less
    unfold Node.view
    rw [if_pos (by omega)]
    congr 1
    omega
  · rw [partitionRead_refused (mt (admitted_iff at_ small some_).mp within)]
    simp [Partition.partitionRead, Node.entry, within]

theorem write_alters (aligned : node.Aligned) (word : offset % 4 = 0) :
    Alters node (.write offSet size) data stack := by
  have start : node.startAddr % 0x1000 = 0 := aligned.start
  have fits : node.startAddr + node.length ≤ 0x80000 := node.fits
  by_cases within : offset + size.toNat ≤ node.length
  · refine ⟨offset, offset + size.toNat, fun a b => b &&& data (a - offset), within,
      fun flash => ?_, fun mem => ?_⟩
    · refine (partitionWrite_admitted ((admitted_iff at_ small some_).mpr within) flash data
        (target_eq at_ (by omega)) (by unfold flashSize; omega)).trans ?_
      rw [programChunks_eq (by omega), clearAt_none (not_cleared_of_words (by omega) words)]
      funext a
      unfold programFrom alter
      rw [Nat.sub_add_eq, Nat.add_assoc]
    · simp only [Call.promise, Partition.partitionWrite, Node.entry, at_, Int.toNat_natCast,
        List.length_map, List.length_range, within, and_self, if_true, Option.getD_some]
      funext a
      unfold program alter
      rw [List.length_map, List.length_range, Nat.zero_add, Nat.zero_add]
      split
      next here => simp [Nat.sub_lt_left_of_lt_add here.1 here.2]
      next => rfl
  · refine alters_nothing (fun flash => ?_) fun mem => ?_
    · exact partitionWrite_refused (mt (admitted_iff at_ small some_).mp within) flash data
    · simp [Call.promise, Partition.partitionWrite, Node.entry, at_, within]

end Calls

theorem erase_alters {offset : Nat} (at_ : offSet.toInt = offset)
    (small : offset / 0x1000 + blockCount.toNat < 2 ^ 31) (some_ : 0 < blockCount.toNat)
    (aligned : node.Aligned) : Alters node (.erase offSet blockCount) data stack := by
  have sum : u32 (offSet.toInt.tdiv sectorSize + blockCount.toNat) =
      offset / 0x1000 + blockCount.toNat := by
    have quotient : offSet.toInt.tdiv sectorSize = (offset / 0x1000 : Nat) := at_ ▸ rfl
    rw [quotient]
    unfold u32
    omega
  have start : node.startAddr % 0x1000 = 0 := aligned.start
  have unprotected : 2 * 0x1000 ≤ node.startAddr := aligned.unprotected
  by_cases within : offset / 0x1000 + blockCount.toNat ≤ node.length / 0x1000
  · have signed : 0 < i32 blockCount.toNat := by
      unfold i32
      split <;> omega
    refine ⟨offset / 0x1000 * 0x1000, offset / 0x1000 * 0x1000 + blockCount.toNat * 0x1000,
      fun _ _ => blank, by omega, fun flash => ?_, fun mem => ?_⟩
    · refine (partitionErase_admitted ⟨sum ▸ within, signed, by omega⟩ stack flash).trans ?_
      funext a
      unfold eraseAt alter
      refine if_congr ?_ rfl rfl
      unfold ErasedSectors firstSector sectorSize
      omega
    · simp only [Call.promise, Partition.partitionErase, Node.entry, at_, Int.toNat_natCast,
        sectorSize, within, and_self, if_true, Option.getD_some]
      funext a
      unfold alter
      rw [Nat.zero_add, Nat.zero_add]
      rfl
  · refine alters_nothing (fun flash => ?_) fun mem => ?_
    · exact partitionErase_refused (fun admitted => within (sum ▸ admitted.checked)) stack flash
    · simp [Call.promise, Partition.partitionErase, Node.entry, sectorSize, at_, within]

theorem alters_of_regular (data : Nat → UInt8) (stack : Except DrvError Unit)
    (aligned : node.Aligned) {call : Call} (regular : call.Regular) :
    Alters node call data stack := by
  cases call with
  | read offSet size => exact alters_nothing (fun _ => rfl) fun _ => rfl
  | write offSet size =>
    obtain ⟨offset, at_, small, some_, word, words⟩ := regular
    exact write_alters at_ small some_ words aligned word
  | erase offSet blockCount =>
    obtain ⟨offset, at_, small, some_⟩ := regular
    exact erase_alters at_ small some_ aligned

theorem answer_promised {call : Call} (regular : call.Regular) (flash : Mem) :
    (call.perform node data stack flash).2 =
      (call.promise node.entry data (node.view flash)).2 := by
  cases call with
  | read offSet size =>
    obtain ⟨offset, at_, small, some_, -, words⟩ := regular
    unfold Call.perform Call.promise
    simp only [read_promised at_ small some_ words, at_, Int.toNat_natCast]
  | write offSet size => rfl
  | erase offSet blockCount => rfl

structure Request (ι : Type) where
  owner : ι
  call : Call
  data : Nat → UInt8
  stack : Except DrvError Unit

variable {ι : Type} [DecidableEq ι]

/-- The flash after the requests, and the answers to their owners. -/
def serve (perform : Request ι → Mem → Mem × List UInt8) :
    List (Request ι) → Mem → Mem × List (ι × List UInt8)
  | [], mem => (mem, [])
  | r :: rs, mem =>
    let (mem, answer) := perform r mem
    let (mem, answers) := serve perform rs mem
    (mem, (r.owner, answer) :: answers)

/-- The owner of a partition finds in it, and is told, what its own requests alone would leave
in a flash of its own. -/
def Isolated (node : ι → Node) (rs : List (Request ι)) (flash : Mem) (i : ι) : Prop :=
  let all := serve (fun r => r.call.perform (node r.owner) r.data r.stack) rs flash
  let own := serve (fun r => r.call.promise (node i).entry r.data) (rs.filter (·.owner = i))
    ((node i).view flash)
  (node i).view all.1 = own.1 ∧ all.2.filter (·.1 = i) = own.2

/-- **Partitions do not notice one another**, in whatever order they are used. -/
theorem partitions_apart (node : ι → Node) (aligned : ∀ i, (node i).Aligned)
    (apart : ∀ i j, i ≠ j → ∀ a, (node i).Holds a → ¬ (node j).Holds a) (rs : List (Request ι))
    (regular : ∀ r ∈ rs, r.call.Regular) (flash : Mem) (i : ι) : Isolated node rs flash i := by
  induction rs generalizing flash with
  | nil => exact ⟨rfl, rfl⟩
  | cons r rs ih =>
    obtain ⟨here, later⟩ := List.forall_mem_cons.mp regular
    obtain ⟨view, answers⟩ := ih later (r.call.perform (node r.owner) r.data r.stack flash).1
    obtain ⟨low, high, change, inside, performed, promised⟩ :=
      alters_of_regular r.data r.stack (aligned r.owner) here
    by_cases own : r.owner = i
    · subst own
      have same := congrArg (node r.owner).view (performed flash)
      rw [view_alter inside, ← promised] at same
      rw [same] at view answers
      unfold Isolated
      rw [List.filter_cons_of_pos (by simp)]
      refine ⟨view, (List.filter_cons_of_pos (by simp)).trans ?_⟩
      exact congrArg₂ _ (congrArg _ (answer_promised here flash)) answers
    · have same := congrArg (node i).view (performed flash)
      rw [view_alter_other inside (apart i r.owner (Ne.symm own))] at same
      rw [same] at view answers
      unfold Isolated
      rw [List.filter_cons_of_neg (by simpa using own)]
      exact ⟨view, (List.filter_cons_of_neg (by simpa using own)).trans answers⟩

def twoSectors (first : Bool) : Node :=
  if first then oneSector else ⟨0x11000, 0x1000, oneSector.nonempty, by decide⟩

theorem partitions_apart_two : Isolated twoSectors
    [⟨true, .write 8 4, fun _ => 7, .ok ()⟩, ⟨false, .erase 0 1, fun _ => 0, .ok ()⟩,
      ⟨true, .read 8 4, fun _ => 0, .ok ()⟩] (fun _ => blank) true := by
  refine partitions_apart twoSectors (by rintro (_ | _) <;> exact ⟨by decide, by decide⟩) ?_ _ ?_ _ _
  · unfold Node.Holds
    rintro (_ | _) (_ | _) differ a <;> simp [twoSectors, oneSector] at differ ⊢ <;> omega
  · simp only [List.forall_mem_cons]
    exact ⟨⟨8, by decide⟩, ⟨0, by decide⟩, ⟨8, by decide⟩, by simp⟩

end Phy6212.Eflash
