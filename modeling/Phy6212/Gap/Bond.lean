import Phy6212.Kv.Value

/-!
# The bond record of the remote control

`gap.c` keeps the peer in `bond_info` and in the store under the key `BOND`.
-/

namespace Phy6212.Gap

open Kv

structure DevAddr where
  type : UInt8
  val : Vector UInt8 6
  deriving DecidableEq, Repr

structure BondInfo where
  isBonded : Bool
  remoteAddr : DevAddr
  deriving DecidableEq, Repr

def DevAddr.zero : DevAddr := ⟨0, Vector.replicate 6 0⟩

def BondInfo.bytes (info : BondInfo) : List UInt8 :=
  (if info.isBonded then 1 else 0) :: info.remoteAddr.type :: info.remoteAddr.val.toList

def BondInfo.ofBytes (bytes : List UInt8) : BondInfo where
  isBonded := bytes.getD 0 0 ≠ 0
  remoteAddr := ⟨bytes.getD 1 0, Vector.ofFn fun i => bytes.getD (i + 2) 0⟩

def sizeofBondInfo : Nat := 8

@[simp] theorem BondInfo.bytes_length (info : BondInfo) : info.bytes.length = sizeofBondInfo := by
  simp [BondInfo.bytes, sizeofBondInfo]

def BondInfo.overwrite (info : BondInfo) (bytes : List UInt8) : BondInfo :=
  .ofBytes (bytes ++ info.bytes.drop bytes.length)

/-- What `aos_kv_get` returns, copies and leaves in `*buffer_len` when the store holds the
value, or none, under the key. -/
def storeGet (stored : Option (List UInt8)) (bufferLen : Int) : Int × List UInt8 × Int :=
  match stored with
  | none => (-1, [], bufferLen)
  | some value =>
    if bufferLen ≤ 0 then (-1, [], bufferLen)
    else (0, value.take bufferLen.toNat, value.length)

/-- The store finds the value under a key, or nothing. -/
def Finds (kv : Kvset) (key : List UInt8) : Option (List UInt8) → Prop
  | none => ∃ node, kvFind kv key {} = .ok (false, node)
  | some value => value ≠ [] ∧
      ∃ node, kvFind kv key {} = .ok (true, node) ∧ storedValue kv node = some value

theorem aosKvGet_storeGet {handle : Int} {kv : Kvset} {key : List UInt8}
    {stored : Option (List UInt8)} (opened : 0 ≤ handle) (finds : Finds kv key stored)
    (bufferLen : Int) : aosKvGet handle kv key bufferLen = .ok (storeGet stored bufferLen) := by
  unfold aosKvGet kvGetdata
  rw [if_neg (Int.not_lt.mpr opened)]
  by_cases small : bufferLen ≤ 0
  · cases stored <;> simp [storeGet, small, bind, Except.bind]
  rw [if_neg small]
  cases stored with
  | none =>
    obtain ⟨node, missing⟩ := finds
    rw [kvGet, missing]
    rfl
  | some value =>
    obtain ⟨nonempty, node, found, holds⟩ := finds
    rw [kvGet_value found holds nonempty]
    simp [storeGet, small, nonempty, bind, Except.bind]

inductive GapState where
  | idle
  | advertising
  | stopAdvertising
  | connected
  | paired
  | disconneted
  deriving DecidableEq, Repr

inductive AdvType where
  | advInd
  | advDirectInd
  | advScanInd
  | advNonconnInd
  | advDirectIndLowDuty
  deriving DecidableEq, Repr

inductive FilterPolicy where
  | anyReq
  | scanReq
  | connReq
  | allReq
  deriving DecidableEq, Repr

inductive AdvData where
  | appAdvData
  | appAdvDataPower
  deriving DecidableEq, Repr

structure AdvParam where
  type : AdvType
  filterPolicy : FilterPolicy
  directPeerAddr : DevAddr
  ad : AdvData
  deriving DecidableEq, Repr

/-- The variables of `gap.c`, with the record in the key-value store, the time left on the
advertising timer when it runs, and what the stack advertises. -/
structure Ble where
  state : GapState
  adType : AdvType
  connHandle : Int
  pairedAddr : DevAddr
  bondInfo : BondInfo
  stored : Option (List UInt8)
  advTimer : Option Nat
  onAir : Option AdvParam

structure Answers where
  kvSet : Int
  whiteListAdd : Int
  whiteListRemove : Int
  devUnpair : Int
  advStart : Int
  advStop : Int
  disconnect : Int

def Answers.success : Answers := ⟨0, 0, 0, 0, 0, 0, 0⟩

/-- `aos_kv_set` of the bond record: a call that fails leaves the stored record. -/
def Ble.storeBond (s : Ble) (answers : Answers) : Ble :=
  if answers.kvSet = 0 then { s with stored := some s.bondInfo.bytes } else s

def Ble.setBonded (s : Ble) (flag : Bool) : Ble :=
  { s with bondInfo := { s.bondInfo with isBonded := flag } }

def bondInfoSave (answers : Answers) (remoteAddr : DevAddr) (s : Ble) : Bool × Ble :=
  let s := { s with bondInfo := ⟨true, remoteAddr⟩ }.storeBond answers
  if answers.kvSet ≠ 0 then (false, s.setBonded false)
  else if answers.whiteListAdd ≠ 0 then (false, s.setBonded false)
  else (true, s.setBonded true)

/-- `bond_info_load`, with what the stack holds where its length is kept. -/
def bondInfoLoad (len : Int) (s : Ble) : Bool × Ble :=
  let s := s.setBonded false
  let (ret, copied, len) := storeGet s.stored len
  let s := { s with bondInfo := s.bondInfo.overwrite copied }
  if ret ≠ 0 ∨ len = sizeofBondInfo then (false, s) else (true, s)

def bondInfoRemove (answers : Answers) (s : Ble) : Bool × Ble :=
  if answers.devUnpair ≠ 0 then (false, s)
  else if answers.whiteListRemove ≠ 0 then (false, s)
  else
    let s := (s.setBonded false).storeBond answers
    if answers.kvSet ≠ 0 then (false, s) else (true, s)

def StoresRecord (s : Ble) : Prop := s.stored = none ∨ ∃ info : BondInfo, s.stored = some info.bytes

theorem bondInfoLoad_fails {s : Ble} (records : StoresRecord s) (len : Int) :
    (bondInfoLoad len s).1 = false := by
  unfold bondInfoLoad
  rcases records with missing | ⟨info, stored⟩
  · have same : (s.setBonded false).stored = none := missing
    simp only [same, storeGet]
    rfl
  have same : (s.setBonded false).stored = some info.bytes := stored
  simp only [same, storeGet]
  by_cases small : len ≤ 0
  · rw [if_pos small]
    rfl
  · rw [if_neg small]
    simp

end Phy6212.Gap
