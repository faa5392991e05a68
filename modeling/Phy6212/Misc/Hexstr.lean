import Mathlib.Logic.Function.Basic

/-!
# Bytes as hexadecimal digits

`bytes2hexstr`, and `hexstr2bytes`, which works in place: byte `k` is written at offset `k` after the
digits at `2 * k` and `2 * k + 1` have been read.
-/

namespace Phy6212.Misc

open Function List

def encode : List UInt8 := [48, 49, 50, 51, 52, 53, 54, 55, 56, 57, 65, 66, 67, 68, 69, 70]

def highDigit (a : UInt8) : UInt8 := encode.getD (a.toNat / 16 % 16) 0

def lowDigit (a : UInt8) : UInt8 := encode.getD (a.toNat % 16) 0

/-- The loop over the bytes, with the end of the string behind the last digit. -/
def hexLoop (str : Nat → UInt8) (j : Nat) : List UInt8 → Nat → UInt8
  | [] => update str j 0
  | a :: hex =>
    hexLoop (update (update str j (highDigit a)) (j + 1) (lowDigit a)) (j + 2) hex

def bytes2hexstr (str : Nat → UInt8) (strSize : Nat) (hex : List UInt8) : Option (Nat → UInt8) :=
  if strSize < 2 * hex.length + 1 then none else some (hexLoop str 0 hex)

def isxdigit (ch : UInt8) : Bool :=
  (48 ≤ ch && ch ≤ 57) || (97 ≤ ch && ch ≤ 102) || (65 ≤ ch && ch ≤ 70)

def char2byte (ch : UInt8) : Int :=
  if 48 ≤ ch ∧ ch ≤ 57 then ch.toNat - 48
  else if 97 ≤ ch ∧ ch ≤ 102 then ch.toNat - 97 + 10
  else if 65 ≤ ch ∧ ch ≤ 70 then ch.toNat - 65 + 10
  else -1

/-- The loop from the pointer `str` on, `none` when it runs longer than `fuel`. -/
def hexstr2bytes : Nat → (Nat → UInt8) → Nat → Nat → Option (Nat × (Nat → UInt8))
  | 0, _, _, _ => none
  | fuel + 1, mem, str, len =>
    if isxdigit (mem (str + len)) && isxdigit (mem (str + len + 1)) then
      hexstr2bytes fuel (update mem str
        (.ofInt (char2byte (mem (str + len)) * 16 + char2byte (mem (str + len + 1)))))
        (str + 1) (len + 1)
    else some (len, mem)

theorem digit_value : ∀ d : Fin 16,
    isxdigit (encode.getD d 0) = true ∧ char2byte (encode.getD d 0) = d := by
  decide

theorem digits_value (a : UInt8) : isxdigit (highDigit a) = true ∧ isxdigit (lowDigit a) = true ∧
    UInt8.ofInt (char2byte (highDigit a) * 16 + char2byte (lowDigit a)) = a := by
  have small := a.toNat_lt
  obtain ⟨high, highValue⟩ := digit_value ⟨a.toNat / 16 % 16, by omega⟩
  obtain ⟨low, lowValue⟩ := digit_value ⟨a.toNat % 16, by omega⟩
  refine ⟨high, low, ?_⟩
  have value : char2byte (highDigit a) * 16 + char2byte (lowDigit a) = a.toNat := by
    rw [highDigit, lowDigit, highValue, lowValue]
    show ((a.toNat / 16 % 16 : Nat) : Int) * 16 + (a.toNat % 16 : Nat) = _
    omega
  have same : ((a.toNat : Int) % 2 ^ 8).toNat = a.toNat := by omega
  rw [value, UInt8.ofInt, same, UInt8.ofNat_toNat]

/-- The digits of the bytes stand from `j` on, and behind them the end of the string. -/
def Spelled (mem : Nat → UInt8) : Nat → List UInt8 → Prop
  | j, [] => mem j = 0
  | j, a :: hex => mem j = highDigit a ∧ mem (j + 1) = lowDigit a ∧ Spelled mem (j + 2) hex

variable {mem : Nat → UInt8} {hex : List UInt8} {i j : Nat}

theorem hexLoop_below (below : i < j) : hexLoop mem j hex i = mem i := by
  induction hex generalizing mem j with
  | nil => exact update_of_ne (Nat.ne_of_lt below) _ _
  | cons a hex ih =>
    rw [hexLoop, ih (by omega), update_of_ne (by omega), update_of_ne (by omega)]

theorem hexLoop_spelled : Spelled (hexLoop mem j hex) j hex := by
  induction hex generalizing mem j with
  | nil => exact update_self ..
  | cons a hex ih =>
    refine ⟨?_, ?_, ih⟩
    · rw [hexLoop, hexLoop_below (by omega), update_of_ne (by omega), update_self]
    · rw [hexLoop, hexLoop_below (by omega), update_self]

theorem Spelled.put (spelled : Spelled mem j hex) (below : i < j) (byte : UInt8) :
    Spelled (update mem i byte) j hex := by
  induction hex generalizing j with
  | nil => rwa [Spelled, update_of_ne (by omega)]
  | cons a hex ih =>
    obtain ⟨high, low, rest⟩ := spelled
    refine ⟨?_, ?_, ih rest (by omega)⟩
    · rwa [update_of_ne (by omega)]
    · rwa [update_of_ne (by omega)]

/-- After `k` rounds the pointer and the length are both `k`, and the digits of the bytes to come
stand from `2 * k` on. A byte is written in front of them. -/
theorem Spelled.read_back {fuel k : Nat} (spelled : Spelled mem (k + k) hex)
    (enough : hex.length < fuel) : ∃ mem', hexstr2bytes fuel mem k k = some (k + hex.length, mem') ∧
      (∀ i < k, mem' i = mem i) ∧ (range hex.length).map (fun i => mem' (k + i)) = hex := by
  induction hex generalizing fuel mem k with
  | nil =>
    obtain ⟨fuel, rfl⟩ := Nat.exists_eq_succ_of_ne_zero (Nat.ne_of_gt enough)
    refine ⟨mem, ?_, fun _ _ => rfl, rfl⟩
    rw [hexstr2bytes, show mem (k + k) = 0 from spelled]
    rfl
  | cons a hex ih =>
    obtain ⟨high, low, rest⟩ := spelled
    obtain ⟨fuel, rfl⟩ := Nat.exists_eq_succ_of_ne_zero (Nat.ne_of_gt (Nat.zero_lt_of_lt enough))
    obtain ⟨isHigh, isLow, byte⟩ := digits_value a
    have ahead : Spelled (update mem k a) (k + 1 + (k + 1)) hex := by
      rw [show k + 1 + (k + 1) = k + k + 2 by omega]
      exact rest.put (by omega) a
    obtain ⟨mem', ok, kept, bytes⟩ := ih ahead (Nat.lt_of_succ_lt_succ enough)
    refine ⟨mem', ?_, ?_, ?_⟩
    · rw [hexstr2bytes, high, low, isHigh, isLow, byte, length_cons, Nat.add_comm hex.length,
        ← Nat.add_assoc]
      exact ok
    · intro i below
      rw [kept i (by omega), update_of_ne (by omega)]
    have first : mem' (k + 0) = a := (kept k (Nat.lt_succ_self k)).trans (update_self ..)
    have later : (fun i => mem' (k + i)) ∘ Nat.succ = fun i => mem' (k + 1 + i) := by
      funext i
      exact congrArg mem' (by omega)
    rw [length_cons, range_succ_eq_map, map_cons, map_map, first, later, bytes]

/-- **What is written as digits is read back**, in place and for bytes of any number. -/
theorem hexstr_round_trip (hex : List UInt8) (str : Nat → UInt8) (strSize fuel : Nat)
    (room : 2 * hex.length + 1 ≤ strSize) (enough : hex.length < fuel) :
    ∃ mem mem', bytes2hexstr str strSize hex = some mem ∧
      hexstr2bytes fuel mem 0 0 = some (hex.length, mem') ∧ (range hex.length).map mem' = hex := by
  obtain ⟨mem', ok, -, bytes⟩ := Spelled.read_back (k := 0) hexLoop_spelled enough
  simp only [Nat.zero_add] at ok bytes
  exact ⟨_, mem', if_neg (Nat.not_lt.mpr room), ok, bytes⟩

theorem hexstr_round_trip_two : ∃ mem mem', bytes2hexstr (fun _ => 0) 5 [0x1f, 0xa0] = some mem ∧
    hexstr2bytes 3 mem 0 0 = some (2, mem') ∧ (range 2).map mem' = [0x1f, 0xa0] :=
  hexstr_round_trip [0x1f, 0xa0] (fun _ => 0) 5 3 (by decide) (by decide)

end Phy6212.Misc
