import Phy6212.NorFlash.Memory

/-!
# Partitions

A partition is a range of whole sectors; addresses are counted from its start.
-/

namespace Phy6212.Partition

open NorFlash

structure LogicPartition where
  length : Nat
  sectorSize : Nat
  deriving DecidableEq, Repr

def partitionRead (p : LogicPartition) (mem : Mem) (offset size : Nat) : Option (List UInt8) :=
  if offset + size ≤ p.length then some ((List.range size).map fun i => mem (offset + i)) else none

def partitionWrite (p : LogicPartition) (works : Bool) (mem : Mem) (offset : Nat)
    (data : List UInt8) : Option Mem :=
  if offset + data.length ≤ p.length ∧ works then some (program mem offset data) else none

def partitionErase (p : LogicPartition) (works : Bool) (mem : Mem) (offset blockCount : Nat) :
    Option Mem :=
  if offset / p.sectorSize + blockCount ≤ p.length / p.sectorSize ∧ works then
    some (erase mem (offset / p.sectorSize * p.sectorSize) (blockCount * p.sectorSize))
  else none

end Phy6212.Partition
