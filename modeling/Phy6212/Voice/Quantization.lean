import Phy6212.Voice.Lockstep

/-!
# How far a decoded sample is from the sample

A code has three bits for the distance to the predicted value, by shifts that lose bits.
-/

namespace Phy6212.Voice

theorem shifts (step : Int) :
    step >>> (1 : Nat) = step / 2 ∧ step >>> (2 : Nat) = step / 4 ∧ step >>> (3 : Nat) = step / 8 :=
  ⟨Int.shiftRight_eq_div_pow step 1, Int.shiftRight_eq_div_pow step 2,
    Int.shiftRight_eq_div_pow step 3⟩

theorem quarters_rest (step distance : Int) :
    distance - quarters step distance =
      if step / 4 ≤ distance then distance - step / 4 else distance := by
  obtain ⟨-, quarter, -⟩ := shifts step
  unfold quarters
  rw [quarter]
  split
  · rfl
  · exact Int.sub_zero distance

theorem halves_rest {step distance : Int} (nonneg : 0 ≤ distance) (below : distance < step) :
    0 ≤ distance - halves step distance ∧
      distance - halves step distance ≤ max (step / 4) (step - 1 - step / 2 - step / 4) := by
  obtain ⟨half, -, -⟩ := shifts step
  unfold halves
  rw [half]
  split
  · next upper =>
    have rest := quarters_rest step (distance - step / 2)
    rw [← Int.sub_sub, rest]
    split <;> omega
  · next lower =>
    rw [quarters_rest]
    split <;> omega

theorem quantized_error {step distance : Int} (nonneg : 0 ≤ distance)
    (below : distance < 2 * step) :
    quantized step distance - distance ≤ step >>> (3 : Nat) ∧
      distance - quantized step distance ≤ step >>> (3 : Nat) + 2 := by
  obtain ⟨-, -, eighth⟩ := shifts step
  unfold quantized
  split
  · next whole =>
    have rest : distance - step < step := by omega
    obtain ⟨low, high⟩ := halves_rest (Int.sub_nonneg_of_le whole) rest
    omega
  · next part =>
    obtain ⟨low, high⟩ := halves_rest nonneg (Int.not_le.mp part)
    omega

theorem predict_error {valpred val step : Int} (below : |val - valpred| < 2 * step) :
    |predict valpred step (codeOf step (val - valpred)) - val| ≤ step >>> (3 : Nat) + 2 := by
  obtain ⟨lower, upper⟩ := abs_lt.mp below
  rw [predict_codeOf]
  apply abs_le.mpr
  split
  · next up =>
    obtain ⟨more, less⟩ := quantized_error up upper
    omega
  · next down =>
    have distance : 0 ≤ -(val - valpred) := by omega
    obtain ⟨more, less⟩ := quantized_error distance (by omega : -(val - valpred) < 2 * step)
    omega

theorem clamp_closer (valpred : Int) {val : Int} (low : -32768 ≤ val) (high : val ≤ 32767) :
    |clamp valpred - val| ≤ |valpred - val| := by
  unfold clamp
  split
  · rw [abs_of_nonneg (by omega), abs_of_nonneg (by omega)]
    omega
  split
  · rw [abs_of_nonpos (by omega), abs_of_nonpos (by omega)]
    omega
  · exact le_refl _

theorem clamp_range (valpred : Int) : -32768 ≤ clamp valpred ∧ clamp valpred ≤ 32767 := by
  unfold clamp
  split
  · omega
  · split <;> omega

theorem decodeCode_error {state : AdpcmState} {val : Int16}
    (below : |val.toInt - state.valprev.toInt| < 2 * state.step) :
    |(decodeCode state.valprev.toInt state.index (encodeSample state val).1).1 - val.toInt| ≤
      state.step >>> (3 : Nat) + 2 := by
  rw [decodeCode_eq]
  calc |clamp (predict state.valprev.toInt state.step (encodeSample state val).1) - val.toInt|
      ≤ |predict state.valprev.toInt state.step (encodeSample state val).1 - val.toInt| :=
        clamp_closer _ val.le_toInt (Int.lt_add_one_iff.mp val.toInt_lt)
    _ ≤ state.step >>> (3 : Nat) + 2 := predict_error below

theorem imaAdpcmEncoder_single (state : AdpcmState) (val : Int16) :
    (imaAdpcmEncoder state [val]).1 =
      [UInt8.ofNat ((encodeSample state val).1 <<< 4 &&& 0xf0)] :=
  rfl

theorem adpcmDecoder_single (state : AdpcmState) (byte : UInt8) :
    (adpcmDecoder [byte] 1 state).1 =
      [.ofInt (decodeCode state.valprev.toInt state.index (byte.toNat >>> 4 &&& 0xf)).1] :=
  rfl

/-- **The error of the codec**: when encoder and decoder share a state, a sample less than two steps
away from the predicted value is decoded to within one eighth of the step and two, in a round of the
decoder and in a block. -/
theorem adpcmDecoder_error (state : AdpcmState) (val : Int16)
    (below : |val.toInt - state.valprev.toInt| < 2 * state.step) :
    |(decodeCode state.valprev.toInt state.index (encodeSample state val).1).1 - val.toInt| ≤
        state.step >>> (3 : Nat) + 2 ∧
      ∃ out : Int16, (adpcmDecoder (imaAdpcmEncoder state [val]).1 1 state).1 = [out] ∧
        |out.toInt - val.toInt| ≤ state.step >>> (3 : Nat) + 2 := by
  have error := decodeCode_error below
  refine ⟨error, .ofInt (decodeCode state.valprev.toInt state.index (encodeSample state val).1).1,
    ?_, ?_⟩
  · rw [imaAdpcmEncoder_single, adpcmDecoder_single,
      unpaired_nibble _ (encodeSample_code_lt state val)]
  obtain ⟨low, high⟩ := clamp_range
    _
  rw [decodeCode_eq] at error ⊢
  rw [Int16.toInt_ofInt_of_le low (Int.lt_add_one_of_le high)]
  exact error

/-- The first step size is 7; a distance of 13 sets all bits of the code. -/
theorem adpcmDecoder_error_thirteen :
    ∃ out : Int16, (adpcmDecoder (imaAdpcmEncoder ⟨0, 0⟩ [13]).1 1 ⟨0, 0⟩).1 = [out] ∧
      |out.toInt - (13 : Int16).toInt| ≤ (⟨0, 0⟩ : AdpcmState).step >>> (3 : Nat) + 2 :=
  (adpcmDecoder_error ⟨0, 0⟩ 13 (by decide)).2

end Phy6212.Voice
