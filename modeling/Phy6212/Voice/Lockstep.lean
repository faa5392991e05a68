import Phy6212.Voice.Adpcm
import Mathlib.Tactic.IntervalCases

/-!
# Encoder and decoder in lockstep

The decoder is in the state of the encoder after every frame when the predicted value always fits
into 16 bits (`StaysShort`, `decodeCode_encodeSample`, `stream_lockstep`).
-/

namespace Phy6212.Voice

open List

def quarters (step distance : Int) : Int :=
  if distance ≥ step >>> (2 : Nat) then step >>> (2 : Nat) else 0

def halves (step distance : Int) : Int :=
  if distance ≥ step >>> (1 : Nat) then
    step >>> (1 : Nat) + quarters step (distance - step >>> (1 : Nat))
  else quarters step distance

def quantized (step distance : Int) : Int :=
  step >>> (3 : Nat) +
    if distance ≥ step then step + halves step (distance - step) else halves step distance

def StaysShort (state : AdpcmState) (val : Int16) : Prop :=
  if val.toInt ≥ state.valprev.toInt then
    state.valprev.toInt + quantized state.step (val.toInt - state.valprev.toInt) ≤ 32767
  else -32768 ≤ state.valprev.toInt - quantized state.step (state.valprev.toInt - val.toInt)

variable {state : AdpcmState} {val : Int16} (step : Int)

theorem divide_spec {sign : Nat} (sign_eq : sign = 0 ∨ sign = 8) (distance : Int) :
    divide step sign distance < 16 ∧ divide step sign distance &&& 8 = sign ∧
      vpdiffOf step (divide step sign distance) = quantized step distance := by
  have quarter : step >>> (1 : Nat) >>> (1 : Nat) = step >>> (2 : Nat) :=
    (Int.shiftRight_add step 1 1).symm
  unfold divide quantized halves quarters
  rw [quarter]
  rcases sign_eq with rfl | rfl
  all_goals
    by_cases whole : step ≤ distance
    · by_cases half : step >>> (1 : Nat) ≤ distance - step
      · by_cases last : step >>> (2 : Nat) ≤ distance - step - step >>> (1 : Nat) <;>
          simp [whole, half, last, vpdiffOf, Int.add_assoc]
      · by_cases last : step >>> (2 : Nat) ≤ distance - step <;>
          simp [whole, half, last, vpdiffOf, Int.add_assoc]
    by_cases half : step >>> (1 : Nat) ≤ distance
    · by_cases last : step >>> (2 : Nat) ≤ distance - step >>> (1 : Nat) <;>
        simp [whole, half, last, vpdiffOf, Int.add_assoc]
    · by_cases last : step >>> (2 : Nat) ≤ distance <;> simp [whole, half, last, vpdiffOf]

instance (state : AdpcmState) (val : Int16) : Decidable (StaysShort state val) :=
  inferInstanceAs (Decidable (if val.toInt ≥ state.valprev.toInt then
    state.valprev.toInt + quantized state.step (val.toInt - state.valprev.toInt) ≤ 32767
  else -32768 ≤ state.valprev.toInt - quantized state.step (state.valprev.toInt - val.toInt)))

theorem codeOf_lt (diff : Int) : codeOf step diff < 16 := by
  unfold codeOf
  split
  · exact (divide_spec step (.inl rfl) diff).1
  · exact (divide_spec step (.inr rfl) _).1

theorem predict_codeOf (valpred step diff : Int) :
    predict valpred step (codeOf step diff) =
      if diff ≥ 0 then valpred + quantized step diff else valpred - quantized step (-diff) := by
  unfold codeOf predict
  split
  · obtain ⟨-, sign, value⟩ := divide_spec step (.inl rfl) diff
    rw [sign, value, if_neg (by decide)]
  · obtain ⟨-, sign, value⟩ := divide_spec step (.inr rfl) _
    rw [sign, value, if_pos (by decide)]

theorem quantized_nonneg {step : Int} (positive : 0 ≤ step) (distance : Int) :
    0 ≤ quantized step distance := by
  have half : 0 ≤ step >>> (1 : Nat) := Int.le_shiftRight_of_nonneg positive
  have quarter : 0 ≤ step >>> (2 : Nat) := Int.le_shiftRight_of_nonneg positive
  have eighth : 0 ≤ step >>> (3 : Nat) := Int.le_shiftRight_of_nonneg positive
  have quarters_nonneg : ∀ distance, 0 ≤ quarters step distance := by
    intro distance
    unfold quarters
    split <;> omega
  have halves_nonneg : ∀ distance, 0 ≤ halves step distance := by
    intro distance
    have first := quarters_nonneg distance
    have second := quarters_nonneg (distance - step >>> (1 : Nat))
    unfold halves
    split <;> omega
  have first := halves_nonneg distance
  have second := halves_nonneg (distance - step)
  unfold quantized
  split <;> omega

theorem AdpcmState.step_nonneg (state : AdpcmState) : 0 ≤ state.step := by
  have all : ∀ index : Fin 89, 0 ≤ stepsizeTable[index] := by decide
  exact all state.index

theorem StaysShort.predict_range (short : StaysShort state val) :
    -32768 ≤ predict state.valprev.toInt state.step
        (codeOf state.step (val.toInt - state.valprev.toInt)) ∧
      predict state.valprev.toInt state.step
        (codeOf state.step (val.toInt - state.valprev.toInt)) ≤ 32767 := by
  have low := state.valprev.le_toInt
  have high := state.valprev.toInt_lt
  rw [predict_codeOf]
  unfold StaysShort at short
  split
  · next up =>
    rw [if_pos (by omega)] at short
    have := quantized_nonneg state.step_nonneg (val.toInt - state.valprev.toInt)
    omega
  · next down =>
    rw [if_neg (by omega)] at short
    rw [Int.neg_sub]
    have := quantized_nonneg state.step_nonneg (state.valprev.toInt - val.toInt)
    omega

theorem clamp_of_range {valpred : Int} (low : -32768 ≤ valpred) (high : valpred ≤ 32767) :
    clamp valpred = valpred := by
  unfold clamp
  rw [if_neg (by omega), if_neg (by omega)]

theorem vpdiffOf_and (code : Nat) : vpdiffOf step (code &&& 7) = vpdiffOf step code := by
  unfold vpdiffOf
  simp only [Nat.and_assoc, show 7 &&& 4 = 4 from rfl, show 7 &&& 2 = 2 from rfl,
    show 7 &&& 1 = 1 from rfl]

theorem decodeCode_eq (state : AdpcmState) (code : Nat) :
    decodeCode state.valprev.toInt state.index code =
      (clamp (predict state.valprev.toInt state.step code), nextIndex state.index code) := by
  simp only [decodeCode, predict, vpdiffOf_and]
  rfl

theorem decodeCode_encodeSample (short : StaysShort state val) :
    decodeCode state.valprev.toInt state.index (encodeSample state val).1 =
      ((encodeSample state val).2.valprev.toInt, (encodeSample state val).2.index) := by
  obtain ⟨low, high⟩ := short.predict_range
  have assigned := Int16.toInt_ofInt_of_le low (Int.lt_add_one_of_le high)
  rw [decodeCode_eq]
  simp only [encodeSample, assigned, clamp_of_range low high]

theorem encodeSample_code_lt (state : AdpcmState) (val : Int16) : (encodeSample state val).1 < 16 :=
  codeOf_lt _ _

def AllShort : AdpcmState → List Int16 → Prop
  | _, [] => True
  | state, val :: pcm => StaysShort state val ∧ AllShort (encodeSample state val).2 pcm

def AllShort.decide : ∀ (state : AdpcmState) (pcm : List Int16), Decidable (AllShort state pcm)
  | _, [] => .isTrue trivial
  | state, val :: pcm =>
    haveI := AllShort.decide (encodeSample state val).2 pcm
    inferInstanceAs (Decidable (StaysShort state val ∧ AllShort (encodeSample state val).2 pcm))

instance (state : AdpcmState) (pcm : List Int16) : Decidable (AllShort state pcm) :=
  AllShort.decide state pcm

def stateAfter (state : AdpcmState) (pcm : List Int16) : AdpcmState :=
  pcm.foldl (fun state val => (encodeSample state val).2) state

def packed (high low : Nat) : UInt8 :=
  UInt8.ofNat (low &&& 0x0f) ||| UInt8.ofNat (high <<< 4 &&& 0xf0)

theorem packed_nibbles : ∀ high < 16, ∀ low < 16,
    (packed high low).toNat >>> 4 &&& 0xf = high ∧ (packed high low).toNat &&& 0xf = low := by
  decide +kernel

theorem unpaired_nibble : ∀ high < 16,
    (UInt8.ofNat (high <<< 4 &&& 0xf0)).toNat >>> 4 &&& 0xf = high := by
  decide

theorem encoderRound_pair (state : AdpcmState) (buffer : UInt8) (out : List UInt8) (a b : Int16) :
    encoderRound (encoderRound ⟨state, buffer, true, out⟩ a) b =
      ⟨(encodeSample (encodeSample state a).2 b).2,
        UInt8.ofNat ((encodeSample state a).1 <<< 4 &&& 0xf0), true,
        out ++ [packed (encodeSample state a).1 (encodeSample (encodeSample state a).2 b).1]⟩ :=
  rfl

def Decoder.start (state : AdpcmState) (buffer : UInt8) (inp : List UInt8) (out : List Int16) : Decoder :=
  { valpred := state.valprev.toInt, index := state.index, inputbuffer := buffer, bufferstep := false,
    inp := inp, out := out }

theorem decoderRound_high (short : StaysShort state val) {byte : UInt8}
    (high : byte.toNat >>> 4 &&& 0xf = (encodeSample state val).1) (buffer : UInt8)
    (inp : List UInt8) (out : List Int16) :
    decoderRound (Decoder.start state buffer (byte :: inp) out) =
      ⟨(encodeSample state val).2.valprev.toInt, (encodeSample state val).2.index, byte, true, inp,
        out ++ [.ofInt (encodeSample state val).2.valprev.toInt]⟩ := by
  have follows := decodeCode_encodeSample short
  simp only [decoderRound, Decoder.start, Bool.false_eq_true, if_false, headD_cons, tail_cons,
    high, follows, Bool.not_false]

theorem decoderRound_low (short : StaysShort state val) {byte : UInt8}
    (low : byte.toNat &&& 0xf = (encodeSample state val).1) (inp : List UInt8) (out : List Int16) :
    decoderRound ⟨state.valprev.toInt, state.index, byte, true, inp, out⟩ =
      Decoder.start (encodeSample state val).2 byte inp
        (out ++ [.ofInt (encodeSample state val).2.valprev.toInt]) := by
  have follows := decodeCode_encodeSample short
  simp only [decoderRound, Decoder.start, if_true, low, follows, Bool.not_true]

def Encoder.bytes (encoder : Encoder) : List UInt8 :=
  if encoder.bufferstep then encoder.out else encoder.out ++ [encoder.outputbuffer]

theorem rounds_lockstep : ∀ (pcm : List Int16) (state : AdpcmState) (buffer : UInt8)
    (out : List UInt8), AllShort state pcm →
    ∃ data, (pcm.foldl encoderRound ⟨state, buffer, true, out⟩).bytes = out ++ data ∧
      (pcm.foldl encoderRound ⟨state, buffer, true, out⟩).state = stateAfter state pcm ∧
      ∀ (input : UInt8) (rest : List UInt8) (samples : List Int16),
        (decoderRound^[pcm.length] (Decoder.start state input (data ++ rest) samples)).valpred =
            (stateAfter state pcm).valprev.toInt ∧
          (decoderRound^[pcm.length] (Decoder.start state input (data ++ rest) samples)).index =
            (stateAfter state pcm).index
  | [], state, buffer, out, _ => ⟨[], by simp [Encoder.bytes], rfl, fun _ _ _ => ⟨rfl, rfl⟩⟩
  | [a], state, buffer, out, short => by
    have high := unpaired_nibble _ (encodeSample_code_lt state a)
    refine ⟨[UInt8.ofNat ((encodeSample state a).1 <<< 4 &&& 0xf0)], rfl, rfl, ?_⟩
    intro input rest samples
    show (decoderRound (Decoder.start state input (_ :: rest) samples)).valpred = _ ∧
      (decoderRound (Decoder.start state input (_ :: rest) samples)).index = _
    rw [decoderRound_high short.1 high]
    exact ⟨rfl, rfl⟩
  | a :: b :: pcm, state, buffer, out, short => by
    obtain ⟨shortA, shortB, shortRest⟩ := short
    obtain ⟨high, low⟩ := packed_nibbles _ (encodeSample_code_lt state a) _
      (encodeSample_code_lt (encodeSample state a).2 b)
    obtain ⟨data, bytes, state_eq, decodes⟩ := rounds_lockstep pcm _
      _
      _ shortRest
    rw [foldl_cons, foldl_cons, encoderRound_pair]
    refine ⟨packed (encodeSample state a).1 (encodeSample (encodeSample state a).2 b).1 :: data, ?_,
      state_eq, ?_⟩
    · rw [bytes, append_assoc]
      rfl
    intro input rest samples
    rw [length_cons, length_cons, Function.iterate_succ_apply,
      Function.iterate_succ_apply, cons_append, decoderRound_high shortA high,
      decoderRound_low shortB low]
    exact decodes _ rest _

theorem block_lockstep {pcm : List Int16} (short : AllShort state pcm) :
    (imaAdpcmEncoder state pcm).2 = stateAfter state pcm ∧
      (adpcmDecoder (imaAdpcmEncoder state pcm).1 pcm.length state).2 = stateAfter state pcm := by
  obtain ⟨data, bytes, state_eq, decodes⟩ := rounds_lockstep pcm state 0 [] short
  have encoded : (imaAdpcmEncoder state pcm).1 = data := bytes
  obtain ⟨valpred, index⟩ := decodes 0 [] []
  rw [append_nil] at valpred index
  refine ⟨state_eq, ?_⟩
  rw [encoded]
  unfold adpcmDecoder
  simp only
  unfold Decoder.start at valpred index
  rw [valpred, index, Int16.ofInt_toInt]

def encodeStream : UInt16 → AdpcmState → List (List Int16) → List (VoiceFrame × AdpcmState)
  | _, _, [] => []
  | transSeqId, state, pcm :: blocks =>
    let (frame, state) := voicePcmTruckCb transSeqId state pcm
    (frame, state) :: encodeStream (transSeqId + 1) state blocks

def decodeStream : AdpcmState → List VoiceFrame → List Nat → List AdpcmState
  | state, frame :: frames, len :: lens =>
    let (_, state) := adpcmDecoder frame.encodeData len state
    state :: decodeStream state frames lens
  | _, _, _ => []

def carriedState (bytes : List UInt8) : Int16 × Nat :=
  (.ofInt ((bytes.getD 0 0).toNat + 256 * (bytes.getD 1 0).toNat), (bytes.getD 2 0).toNat)

/-- After every frame the decoder is in the state of the encoder, and the frame carries this
state. -/
def InLockstep (transSeqId : UInt16) (blocks : List (List Int16)) : Prop :=
  decodeStream initialState ((encodeStream transSeqId initialState blocks).map (·.1))
      (blocks.map length) =
    (encodeStream transSeqId initialState blocks).map (·.2) ∧
  ∀ frame ∈ encodeStream transSeqId initialState blocks,
    carriedState frame.1.adpcmState = (frame.2.valprev, frame.2.index.val)

theorem carriedState_stateBytes (state : AdpcmState) :
    carriedState (stateBytes state) = (state.valprev, state.index.val) := by
  have low := state.valprev.le_toInt
  have high := state.valprev.toInt_lt
  have byte0 : (UInt8.ofNat (state.valprev.toInt % 256).toNat).toNat =
      (state.valprev.toInt % 256).toNat :=
    UInt8.toNat_ofNat_of_lt' (show _ < 256 by omega)
  have byte1 : (UInt8.ofNat (state.valprev.toInt >>> (8 : Nat) % 256).toNat).toNat =
      (state.valprev.toInt >>> (8 : Nat) % 256).toNat :=
    UInt8.toNat_ofNat_of_lt' (show _ < 256 by omega)
  have byte2 : (UInt8.ofNat state.index).toNat = state.index.val :=
    UInt8.toNat_ofNat_of_lt' (show _ < 256 by omega)
  have sum : ((state.valprev.toInt % 256).toNat : Int) +
      (256 : Int) * ((state.valprev.toInt >>> (8 : Nat) % 256).toNat : Int) =
        state.valprev.toInt % 65536 := by
    rw [Int.shiftRight_eq_div_pow]
    omega
  unfold carriedState stateBytes
  simp only [getD_cons_zero, getD_cons_succ, byte0, byte1, byte2]
  rw [sum]
  refine Prod.ext ?_ rfl
  apply Int16.toInt_inj.mp
  rw [Int16.toInt_ofInt]
  show (state.valprev.toInt % (65536 : Nat)).bmod 65536 = state.valprev.toInt
  rw [Int.emod_bmod]
  exact Int.bmod_eq_of_le (by omega) (by omega)

theorem encodeStream_carried (blocks : List (List Int16)) : ∀ (transSeqId : UInt16)
    (state : AdpcmState), ∀ frame ∈ encodeStream transSeqId state blocks,
      carriedState frame.1.adpcmState = (frame.2.valprev, frame.2.index.val) := by
  induction blocks with
  | nil => exact fun _ _ _ member => absurd member not_mem_nil
  | cons pcm blocks ih =>
    intro transSeqId state frame member
    rcases mem_cons.mp member with rfl | later
    · exact carriedState_stateBytes _
    · exact ih _ _ frame later

theorem AllShort.append : ∀ {pcm more : List Int16} {state : AdpcmState},
    AllShort state (pcm ++ more) → AllShort state pcm ∧ AllShort (stateAfter state pcm) more
  | [], _, _, short => ⟨trivial, short⟩
  | _ :: _, _, _, short => by
    obtain ⟨first, rest⟩ := AllShort.append short.2
    exact ⟨⟨short.1, first⟩, rest⟩

theorem decodeStream_encodeStream (blocks : List (List Int16)) : ∀ (transSeqId : UInt16)
    (state : AdpcmState), AllShort state blocks.flatten →
      decodeStream state ((encodeStream transSeqId state blocks).map (·.1))
          (blocks.map length) = (encodeStream transSeqId state blocks).map (·.2) := by
  induction blocks with
  | nil => exact fun _ _ _ => rfl
  | cons pcm blocks ih =>
    intro transSeqId state short
    obtain ⟨here, later⟩ := AllShort.append short
    obtain ⟨encoded, decoded⟩ := block_lockstep here
    have frame : voicePcmTruckCb transSeqId state pcm =
        (⟨transSeqId, stateBytes (stateAfter state pcm), (imaAdpcmEncoder state pcm).1⟩,
          stateAfter state pcm) := by
      unfold voicePcmTruckCb
      simp only [encoded]
    simp only [encodeStream, frame, map_cons, decodeStream, decoded]
    rw [ih _ _ later]

/-- **Encoder and decoder stay in lockstep** over every stream whose predictions all fit into
16 bits. -/
theorem stream_lockstep (transSeqId : UInt16) (blocks : List (List Int16))
    (short : AllShort initialState blocks.flatten) : InLockstep transSeqId blocks :=
  ⟨decodeStream_encodeStream blocks transSeqId initialState short,
    encodeStream_carried blocks transSeqId initialState⟩

theorem stream_lockstep_quiet : InLockstep 0 [[3, -5, 12], [40]] :=
  stream_lockstep 0 _ (by decide +kernel)

/-- **A loud block gets out of step**: the encoder ends at -30942 and the decoder at
32767. -/
theorem loud_block_out_of_step : ¬ InLockstep 0 [replicate 11 32767] := by
  intro lockstep
  have states := lockstep.1
  revert states
  decide +kernel

end Phy6212.Voice
