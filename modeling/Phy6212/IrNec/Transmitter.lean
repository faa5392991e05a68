import Mathlib.Data.List.Basic

/-!
# The infrared transmitter

`ir_nec_start_send` writes 36 codes: a lead code, 32 bits, a stop code and the two of a repetition.
-/

namespace Phy6212.IrNec

open List

inductive Code where
  | d0
  | d1
  | lead
  | stop
  | c1
  | c2
  deriving DecidableEq, Repr

/-- `ir_nec_code_params_t`, in microseconds. -/
structure CodeParams where
  h : Nat
  l : Nat
  deriving DecidableEq, Repr

def necCodeParam : Code → CodeParams
  | .d0 => ⟨560, 1690⟩
  | .d1 => ⟨560, 560⟩
  | .lead => ⟨9000, 4500⟩
  | .stop => ⟨560, 40000⟩
  | .c1 => ⟨9000, 2250⟩
  | .c2 => ⟨560, 96190⟩

/-- What the callback does to the carrier, with the duration for `ir_timer_reload`. -/
inductive Pulse where
  | mark (code : Code) (us : Nat)
  | space (us : Nat)
  deriving DecidableEq, Repr

/-- The structure `ir_nec`, the static `code` of the callback, whether `ir_timer` is there, the
carrier, and the pulses of the transmission so far. -/
structure Transmitter where
  isHighPeriod : Bool
  isPendingToStop : Bool
  isBusy : Bool
  codes : List Code
  index : Nat
  cycleTimes : Nat
  code : Code
  timer : Bool
  carrier : Bool
  pulses : List Pulse
  deriving DecidableEq, Repr

def Transmitter.init : Transmitter where
  isHighPeriod := false
  isPendingToStop := false
  isBusy := false
  codes := replicate 36 .d0
  index := 0
  cycleTimes := 0
  code := .d0
  timer := false
  carrier := false
  pulses := []

def dataWord (custom key : UInt8) : BitVec 32 :=
  let data := ~~~(key.toBitVec.setWidth 32) &&& 0xFF
  let data := data <<< 8 ||| key.toBitVec.setWidth 32 &&& 0xFF
  let data := data <<< 8 ||| ~~~(custom.toBitVec.setWidth 32) &&& 0xFF
  data <<< 8 ||| custom.toBitVec.setWidth 32 &&& 0xFF

def dataCodes : Nat → BitVec 32 → List Code
  | 0, _ => []
  | n + 1, data => (if data &&& 1 ≠ 0 then .d1 else .d0) :: dataCodes n (data >>> 1)

def buildCodes (custom key : UInt8) : List Code :=
  .lead :: dataCodes 32 (dataWord custom key) ++ [.stop, .c1, .c2]

def byteCodes (byte : UInt8) : List Code :=
  (range 8).map fun i => if byte.toBitVec.getLsbD i then .d1 else .d0

def frame (custom key : UInt8) : List Code :=
  .lead :: (byteCodes custom ++ byteCodes (~~~custom) ++ byteCodes key ++ byteCodes (~~~key)) ++
    [.stop]

theorem and_one_ne_zero (data : BitVec 32) : data &&& 1 ≠ 0 ↔ data.getLsbD 0 = true := by
  have low : data &&& 1 = (BitVec.ofBool _).setWidth 32 :=
    BitVec.and_one_eq_setWidth_ofBool_getLsbD
  rw [low]
  cases data.getLsbD 0 <;> decide

theorem dataCodes_eq (n : Nat) (data : BitVec 32) :
    dataCodes n data = (range n).map fun i => if data.getLsbD i then .d1 else .d0 := by
  induction n generalizing data with
  | zero => rfl
  | succ n ih =>
    rw [dataCodes, ih, range_succ_eq_map, map_cons, map_map]
    congr 1
    · simp only [and_one_ne_zero]
    · apply map_congr_left
      intro i _
      simp [Nat.add_comm]

theorem buildCodes_eq (custom key : UInt8) :
    buildCodes custom key = frame custom key ++ [.c1, .c2] := by
  rw [buildCodes, dataCodes_eq]
  -- position by position: the shifts leave one byte of the word at each bit
  simp [frame, byteCodes, dataWord, range_succ_eq_map]

def Transmitter.finish (s : Transmitter) : Transmitter :=
  { s with timer := false, carrier := false, isPendingToStop := false, isBusy := false }

def irTimerCallback (s : Transmitter) : Transmitter :=
  if s.isHighPeriod = false then
    let code := s.codes.getD s.index .d0
    { s with
      code := code
      pulses := s.pulses ++ [.mark code (necCodeParam code).h]
      carrier := true
      isHighPeriod := true }
  else
    let s := { s with
      pulses := s.pulses ++ [.space (necCodeParam s.code).l]
      carrier := false
      isHighPeriod := false
      index := s.index + 1 }
    let s := if 34 ≤ s.index ∧ s.isPendingToStop = true then s.finish else s
    if 36 ≤ s.index then
      let s := { s with index := 34, cycleTimes := s.cycleTimes + 1 }
      if 100 < s.cycleTimes then s.finish else s
    else s

def irNecStartSend (s : Transmitter) (custom key : UInt8) (timerOk : Bool) : Int × Transmitter :=
  if s.isBusy then (-1, s)
  else
    let s := { s with
      codes := buildCodes custom key
      index := 0
      isHighPeriod := false
      isPendingToStop := false
      cycleTimes := 0
      isBusy := true
      timer := timerOk
      pulses := [] }
    if timerOk then (0, irTimerCallback s) else (-1, s)

def irNecStopSend (s : Transmitter) : Transmitter := { s with isPendingToStop := true }

inductive Action where
  | tick
  | stopSend
  deriving DecidableEq, Repr

/-- One action. A timer that is not there does not expire. -/
def Transmitter.step (s : Transmitter) : Action → Transmitter
  | .tick => if s.timer then irTimerCallback s else s
  | .stopSend => irNecStopSend s

def Pulse.started : Pulse → Option Code
  | .mark code _ => some code
  | .space _ => none

def Transmitter.emitted (s : Transmitter) : List Code := s.pulses.filterMap Pulse.started

end Phy6212.IrNec
