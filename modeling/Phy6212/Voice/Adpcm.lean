import Mathlib.Logic.Function.Iterate

/-!
# The ADPCM coder of the voice driver

`ima_adpcm_encoder` turns samples into codes of 4 bits, and `adpcm_decoder` turns them back.
-/

namespace Phy6212.Voice

/-- `adpcm_state_t`. The index stays inside the table of step sizes. -/
structure AdpcmState where
  valprev : Int16
  index : Fin 89
  deriving DecidableEq, Repr

def indexTable : List Int :=
  [-1, -1, -1, -1, 2, 4, 6, 8,
   -1, -1, -1, -1, 2, 4, 6, 8]

def stepsizeTable : Vector Int 89 := #v[
  7, 8, 9, 10, 11, 12, 13, 14, 16, 17,
  19, 21, 23, 25, 28, 31, 34, 37, 41, 45,
  50, 55, 60, 66, 73, 80, 88, 97, 107, 118,
  130, 143, 157, 173, 190, 209, 230, 253, 279, 307,
  337, 371, 408, 449, 494, 544, 598, 658, 724, 796,
  876, 963, 1060, 1166, 1282, 1411, 1552, 1707, 1878, 2066,
  2272, 2499, 2749, 3024, 3327, 3660, 4026, 4428, 4871, 5358,
  5894, 6484, 7132, 7845, 8630, 9493, 10442, 11487, 12635, 13899,
  15289, 16818, 18500, 20350, 22385, 24623, 27086, 29794, 32767]

def AdpcmState.step (state : AdpcmState) : Int := stepsizeTable[state.index]

def nextIndex (index : Fin 89) (code : Nat) : Fin 89 :=
  let next := (index : Int) + indexTable.getD code 0
  if next < 0 then 0
  else if h : next > 88 then 88
  else ⟨next.toNat, by omega⟩

def vpdiffOf (step : Int) (code : Nat) : Int :=
  step >>> (3 : Nat) + (if code &&& 4 ≠ 0 then step else 0) +
    (if code &&& 2 ≠ 0 then step >>> (1 : Nat) else 0) +
    (if code &&& 1 ≠ 0 then step >>> (2 : Nat) else 0)

/-- The predicted value after a code, before it is clamped. -/
def predict (valpred : Int) (step : Int) (code : Nat) : Int :=
  if code &&& 8 ≠ 0 then valpred - vpdiffOf step code else valpred + vpdiffOf step code

def clamp (valpred : Int) : Int :=
  if valpred > 32767 then 32767 else if valpred < -32768 then -32768 else valpred

def divide (step : Int) (code : Nat) (diff : Int) : Nat :=
  let (code, diff) := if diff ≥ step then (code ||| 4, diff - step) else (code, diff)
  let (code, diff) :=
    if diff ≥ step >>> (1 : Nat) then (code ||| 2, diff - step >>> (1 : Nat)) else (code, diff)
  if diff ≥ step >>> (1 : Nat) >>> (1 : Nat) then code ||| 1 else code

def codeOf (step diff : Int) : Nat :=
  if diff ≥ 0 then divide step 0 diff else divide step 8 (-diff)

/-- One round of the encoder: the code of a sample, and the next state. The new predicted
value is assigned to a `short` before it is clamped. -/
def encodeSample (state : AdpcmState) (val : Int16) : Nat × AdpcmState :=
  let code := codeOf state.step (val.toInt - state.valprev.toInt)
  let valpred : Int16 := .ofInt (predict state.valprev.toInt state.step code)
  (code, { valprev := .ofInt (clamp valpred.toInt), index := nextIndex state.index code })

structure Encoder where
  state : AdpcmState
  outputbuffer : UInt8
  bufferstep : Bool
  out : List UInt8
  deriving DecidableEq, Repr

def encoderRound (encoder : Encoder) (val : Int16) : Encoder :=
  let (code, state) := encodeSample encoder.state val
  if encoder.bufferstep then
    { encoder with
      state := state
      outputbuffer := UInt8.ofNat (code <<< 4 &&& 0xf0)
      bufferstep := false }
  else
    { encoder with
      state := state
      bufferstep := true
      out := encoder.out ++ [UInt8.ofNat (code &&& 0x0f) ||| encoder.outputbuffer] }

def imaAdpcmEncoder (state : AdpcmState) (pcm : List Int16) : List UInt8 × AdpcmState :=
  let encoder := pcm.foldl encoderRound
    { state := state, outputbuffer := 0, bufferstep := true, out := [] }
  (if encoder.bufferstep then encoder.out else encoder.out ++ [encoder.outputbuffer],
    encoder.state)

/-- One round of the decoder on a code, from the predicted value and the index. -/
def decodeCode (valpred : Int) (index : Fin 89) (delta : Nat) : Int × Fin 89 :=
  let step := stepsizeTable[index]
  let sign := delta &&& 8
  let vpdiff := vpdiffOf step (delta &&& 7)
  (clamp (if sign ≠ 0 then valpred - vpdiff else valpred + vpdiff), nextIndex index delta)

/-- The local variables of the decoder between two rounds. -/
structure Decoder where
  valpred : Int
  index : Fin 89
  inputbuffer : UInt8
  bufferstep : Bool
  inp : List UInt8
  out : List Int16
  deriving DecidableEq, Repr

def decoderRound (decoder : Decoder) : Decoder :=
  let inputbuffer := if decoder.bufferstep then decoder.inputbuffer else decoder.inp.headD 0
  let inp := if decoder.bufferstep then decoder.inp else decoder.inp.tail
  let delta :=
    if decoder.bufferstep then inputbuffer.toNat &&& 0xf else inputbuffer.toNat >>> 4 &&& 0xf
  let (valpred, index) := decodeCode decoder.valpred decoder.index delta
  { valpred := valpred, index := index, inputbuffer := inputbuffer,
    bufferstep := !decoder.bufferstep, inp := inp, out := decoder.out ++ [.ofInt valpred] }

def adpcmDecoder (indata : List UInt8) (len : Nat) (state : AdpcmState) :
    List Int16 × AdpcmState :=
  let decoder := decoderRound^[len]
    { valpred := state.valprev.toInt, index := state.index, inputbuffer := 0, bufferstep := false,
      inp := indata, out := [] }
  (decoder.out, { valprev := .ofInt decoder.valpred, index := decoder.index })

structure VoiceFrame where
  seqId : UInt16
  adpcmState : List UInt8
  encodeData : List UInt8
  deriving DecidableEq, Repr

def stateBytes (state : AdpcmState) : List UInt8 :=
  [UInt8.ofNat (state.valprev.toInt % 256).toNat,
    UInt8.ofNat (state.valprev.toInt >>> (8 : Nat) % 256).toNat, UInt8.ofNat state.index]

def initialState : AdpcmState := ⟨0, 0⟩

def voicePcmTruckCb (transSeqId : UInt16) (state : AdpcmState) (pcm : List Int16) :
    VoiceFrame × AdpcmState :=
  let (data, state) := imaAdpcmEncoder state pcm
  ({ seqId := transSeqId, adpcmState := stateBytes state, encodeData := data }, state)

end Phy6212.Voice
