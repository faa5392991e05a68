import Phy6212.Queues.Ring
import Phy6212.Runs.Reach
import Phy6212.Voice.Adpcm
import Mathlib.Data.List.Infix

/-!
# Voice frames on their way to the host

The voice interrupt numbers a frame and puts it into `voice_fifo`; `event_handler_voice` copies the
first one, sends it and takes it out.
-/

namespace Phy6212.Voice

open List Queues Runs

/-- The place behind another one, of `VOICE_FIFO_MAX_SIZE` places. -/
def behind (place : Fin 50) : Fin 50 := ⟨(place + 1) % 50, Nat.mod_lt _ (by decide)⟩

abbrev VoiceFifo := Ring (Fin 50) VoiceFrame

def voiceFifoIsEmpty (fifo : VoiceFifo) : Bool := fifo.isEmpty

def voiceFifoIsFull (fifo : VoiceFifo) : Bool := fifo.isFull behind

def voiceFifoTop (fifo : VoiceFifo) : VoiceFrame := fifo.top behind

def voiceFifoPop (fifo : VoiceFifo) : VoiceFifo := fifo.pop behind

/-- `voice_fifo_in`; there is no result when the queue is full. -/
def voiceFifoIn (fifo : VoiceFifo) (inFrame : VoiceFrame) : Option VoiceFifo :=
  if voiceFifoIsFull fifo then none else some (fifo.put behind inFrame)

theorem behind_injective : Function.Injective behind := by
  intro place other same
  have values := congrArg Fin.val same
  simp only [behind] at values
  apply Fin.ext
  omega

theorem behind_ne (place : Fin 50) : behind place ≠ place := by
  intro same
  have values := congrArg Fin.val same
  simp only [behind] at values
  omega

variable {s : Driver} {frames waiting : List VoiceFrame} {frame : VoiceFrame}

theorem voiceFifoIn_holds {fifo fifo' : VoiceFifo} (holds : fifo.Holds behind waiting)
    (room : voiceFifoIn fifo frame = some fifo') : fifo'.Holds behind (waiting ++ [frame]) := by
  unfold voiceFifoIn at room
  split at room
  · cases room
  · next notFull =>
    cases room
    exact Ring.Holds.put behind_injective behind_ne frame waiting holds
      (eq_false_of_ne_true notFull)

theorem voiceFifoIn_empty {fifo : VoiceFifo} (empty : fifo.Holds behind []) (frame : VoiceFrame) :
    ∃ fifo', voiceFifoIn fifo frame = some fifo' := by
  have head : fifo.head = fifo.tail := empty
  have notFull : ¬ voiceFifoIsFull fifo = true := by
    intro full
    have same : behind fifo.tail = fifo.head := of_decide_eq_true full
    exact behind_ne fifo.tail (same.trans head)
  exact ⟨_, if_neg notFull⟩

/-- Where the application task is in `event_handler_voice`: outside it, at the loop condition,
between the test and the copy of `voice_fifo_top`, before the call of `atvv_voice_send`, or
before the call of `voice_fifo_pop`. -/
inductive Handler where
  | outside
  | looking (retry : Nat)
  | copying (retry : Nat)
  | sending (retry : Nat) (frame : VoiceFrame)
  | popping (retry : Nat)
  deriving DecidableEq, Repr

/-- The voice driver and the application task. The hardware captures samples between
`phy_voice_start` and `phy_voice_stop`. The last two fields record the frames that were queued
and those that were sent since the microphone was started. -/
structure Driver where
  isVoiceBusy : Bool
  capturing : Bool
  transSeqId : UInt16
  adpcmState : AdpcmState
  voiceFifo : VoiceFifo
  handler : Handler
  queued : List VoiceFrame
  sent : List VoiceFrame

def Driver.init : Driver where
  isVoiceBusy := false
  capturing := false
  transSeqId := 0
  adpcmState := initialState
  voiceFifo := { head := 0, tail := 0, slots := fun _ => ⟨0, [0, 0, 0], replicate 128 0⟩ }
  handler := .outside
  queued := []
  sent := []

def voiceHandleMicStart (s : Driver) : Bool × Driver :=
  if s.isVoiceBusy then
    (false, s)
  else
    (true, { s with
      adpcmState := initialState
      isVoiceBusy := true
      transSeqId := 0
      voiceFifo := { s.voiceFifo with head := 0, tail := 0 }
      capturing := true
      queued := []
      sent := [] })

def voiceHandleMicStop (s : Driver) : Bool × Driver :=
  if s.isVoiceBusy = false then
    (false, s)
  else
    (true, { s with capturing := false, isVoiceBusy := false })

inductive VoiceEvt where
  | fail
  | data (pcm : List Int16)
  | other
  deriving DecidableEq, Repr

def voiceInterrupt (s : Driver) : VoiceEvt → Driver
  | .data pcm =>
    let (frame, adpcmState) := voicePcmTruckCb s.transSeqId s.adpcmState pcm
    let s := { s with transSeqId := s.transSeqId + 1, adpcmState := adpcmState }
    match voiceFifoIn s.voiceFifo frame with
    | some voiceFifo => { s with voiceFifo := voiceFifo, queued := s.queued ++ [frame] }
    | none => (voiceHandleMicStop s).2
  | .fail => s
  | .other => s

def eventHandlerVoice (s : Driver) (failed : Bool) : Driver :=
  match s.handler with
  | .outside => { s with handler := .looking 0 }
  | .looking retry =>
    { s with handler := if voiceFifoIsEmpty s.voiceFifo then .outside else .copying retry }
  | .copying retry => { s with handler := .sending retry (voiceFifoTop s.voiceFifo) }
  | .sending retry frame =>
    if failed then
      { s with handler := .outside }
    else
      { s with handler := .popping retry, sent := s.sent ++ [frame] }
  | .popping retry =>
    { s with
      voiceFifo := voiceFifoPop s.voiceFifo
      handler := if retry + 1 > 20 then .outside else .looking (retry + 1) }

inductive Input where
  | interrupt (evt : VoiceEvt)
  | handler (failed : Bool)
  | micStart
  | micStop
  deriving DecidableEq, Repr

def Driver.step (s : Driver) : Input → Except Empty Driver
  | .interrupt evt => .ok (voiceInterrupt s evt)
  | .handler failed => .ok (eventHandlerVoice s failed)
  | .micStart => .ok (voiceHandleMicStart s).2
  | .micStop => .ok (voiceHandleMicStop s).2

def maxVoiceWordSize : Nat := 256

/-- Samples come only while the hardware captures them, one buffer at a time, and the messages of
the host are handled by the task that also runs `event_handler_voice`. -/
def Driver.Possible (s : Driver) : Input → Prop
  | .interrupt (.data pcm) => s.capturing = true ∧ pcm.length = maxVoiceWordSize
  | .interrupt _ => True
  | .handler _ => True
  | .micStart => s.handler = .outside
  | .micStop => s.handler = .outside

instance (s : Driver) (input : Input) : Decidable (s.Possible input) :=
  match input with
  | .interrupt (.data pcm) =>
    inferInstanceAs (Decidable (s.capturing = true ∧ pcm.length = maxVoiceWordSize))
  | .interrupt .fail => inferInstanceAs (Decidable True)
  | .interrupt .other => inferInstanceAs (Decidable True)
  | .handler _ => inferInstanceAs (Decidable True)
  | .micStart => inferInstanceAs (Decidable (s.handler = .outside))
  | .micStop => inferInstanceAs (Decidable (s.handler = .outside))

abbrev Driver.Reachable (s : Driver) : Prop := Reaches Driver.step Driver.Possible Driver.init s

/-- The frames of the queue that were not sent: the first one was sent when it is about to be
taken out. -/
def Handler.unsent : Handler → List VoiceFrame → List VoiceFrame
  | .popping _, waiting => waiting.tail
  | _, waiting => waiting

def Handler.Seen : Handler → List VoiceFrame → Prop
  | .outside, _ => True
  | .looking _, _ => True
  | .copying _, waiting => waiting ≠ []
  | .sending _ frame, waiting => ∃ rest, waiting = frame :: rest
  | .popping _, waiting => waiting ≠ []

theorem Handler.Seen.append {handler : Handler} (seen : handler.Seen waiting) (frame : VoiceFrame) :
    handler.Seen (waiting ++ [frame]) ∧
      handler.unsent (waiting ++ [frame]) = handler.unsent waiting ++ [frame] := by
  cases handler with
  | outside => exact ⟨trivial, rfl⟩
  | looking retry => exact ⟨trivial, rfl⟩
  | copying retry => exact ⟨append_ne_nil_of_left_ne_nil seen _, rfl⟩
  | sending retry first =>
    obtain ⟨rest, rfl⟩ := seen
    exact ⟨⟨rest ++ [frame], rfl⟩, rfl⟩
  | popping retry =>
    exact ⟨append_ne_nil_of_left_ne_nil seen _, tail_append_of_ne_nil seen⟩

def Numbered (frames : List VoiceFrame) : Prop :=
  frames.map (fun frame => frame.seqId.toNat) =
    (range frames.length).map (fun number => number % 65536)

theorem Numbered.append (numbered : Numbered frames)
    (next : frame.seqId.toNat = frames.length % 65536) : Numbered (frames ++ [frame]) := by
  unfold Numbered at numbered ⊢
  rw [length_append, length_singleton, range_succ, map_append, map_append,
    numbered, map_singleton, map_singleton, next]

theorem Numbered.left {rest : List VoiceFrame} (numbered : Numbered (frames ++ rest)) :
    Numbered frames := by
  unfold Numbered at numbered ⊢
  rw [map_append, length_append, range_add, map_append] at numbered
  apply (append_inj numbered ?_).1
  rw [length_map, length_map, length_range]

theorem Numbered.number (numbered : Numbered frames) {place : Nat}
    (inside : place < frames.length) :
    (frames[place]?).map (fun frame => frame.seqId.toNat) = some (place % 65536) := by
  rw [← getElem?_map, numbered, getElem?_map, getElem?_range inside]
  rfl

/-- The queue, the task and the record of the session fit together. -/
structure Driver.Consistent (s : Driver) (waiting : List VoiceFrame) : Prop where
  holds : s.voiceFifo.Holds behind waiting
  seen : s.handler.Seen waiting
  queued : s.queued = s.sent ++ s.handler.unsent waiting
  numbered : Numbered s.queued
  busy : s.isVoiceBusy = s.capturing
  counted : s.capturing = true → s.transSeqId.toNat = s.queued.length % 65536

section

variable (consistent : s.Consistent waiting)

include consistent

theorem Driver.Consistent.micStop : (voiceHandleMicStop s).2.Consistent waiting := by
  unfold voiceHandleMicStop
  split
  · exact consistent
  · exact { consistent with busy := rfl, counted := fun capturing => nomatch capturing }

theorem Driver.Consistent.micStart (outside : s.handler = .outside) :
    ∃ waiting, (voiceHandleMicStart s).2.Consistent waiting := by
  unfold voiceHandleMicStart
  split
  · exact ⟨waiting, consistent⟩
  refine ⟨[], ?_, ?_, ?_, rfl, rfl, fun _ => rfl⟩
  · rfl
  · rw [outside]
    trivial
  · rw [outside]
    rfl

theorem Driver.Consistent.interrupt {evt : VoiceEvt} (possible : s.Possible (.interrupt evt)) :
    ∃ waiting, (voiceInterrupt s evt).Consistent waiting := by
  cases evt with
  | fail => exact ⟨waiting, consistent⟩
  | other => exact ⟨waiting, consistent⟩
  | data pcm =>
    have capturing : s.capturing = true := possible.1
    have counted := consistent.counted capturing
    unfold voiceInterrupt
    dsimp only
    split
    · next fifo room =>
      obtain ⟨seen, unsent⟩ :=
        consistent.seen.append (voicePcmTruckCb s.transSeqId s.adpcmState pcm).1
      refine ⟨_, voiceFifoIn_holds consistent.holds room, seen, ?_, ?_, consistent.busy, ?_⟩
      · rw [unsent, ← append_assoc, ← consistent.queued]
      · exact consistent.numbered.append counted
      · intro _
        rw [UInt16.toNat_add, counted, length_append, length_singleton]
        exact Nat.mod_add_mod _ _ _
    refine ⟨waiting, ?_⟩
    unfold voiceHandleMicStop
    split
    · next idle =>
      have stopped : s.capturing = false := consistent.busy.symm.trans idle
      rw [stopped] at capturing
      cases capturing
    · exact { consistent with busy := rfl, counted := fun capturing => nomatch capturing }

theorem Driver.Consistent.handler (failed : Bool) :
    ∃ waiting, (eventHandlerVoice s failed).Consistent waiting := by
  obtain ⟨holds, seen, queued, numbered, busy, counted⟩ := consistent
  unfold eventHandlerVoice
  cases place : s.handler with
  | outside =>
    rw [place] at queued
    exact ⟨waiting, holds, trivial, queued, numbered, busy, counted⟩
  | looking retry =>
    rw [place] at queued
    refine ⟨waiting, holds, ?_, ?_, numbered, busy, counted⟩
    · dsimp only
      split
      · trivial
      · next found =>
        intro empty
        exact found (holds.isEmpty_iff.mpr empty)
    dsimp only
    split
    · exact queued
    · exact queued
  | copying retry =>
    rw [place] at seen queued
    cases waiting with
    | nil => exact absurd rfl seen
    | cons first rest =>
      have top : voiceFifoTop s.voiceFifo = first := holds.top
      exact ⟨first :: rest, holds, ⟨rest, by rw [top]⟩, queued, numbered, busy, counted⟩
  | sending retry frame =>
    rw [place] at seen queued
    obtain ⟨rest, rfl⟩ := seen
    dsimp only
    split
    · exact ⟨frame :: rest, holds, trivial, queued, numbered, busy, counted⟩
    · refine ⟨frame :: rest, holds, cons_ne_nil frame rest, ?_, numbered, busy, counted⟩
      rw [queued, append_assoc]
      rfl
  | popping retry =>
    rw [place] at seen queued
    cases waiting with
    | nil => exact absurd rfl seen
    | cons first rest =>
      refine ⟨rest, holds.pop, ?_, ?_, numbered, busy, counted⟩
      · dsimp only
        split
        · trivial
        · trivial
      dsimp only
      split
      · exact queued
      · exact queued

end

theorem Driver.Reachable.consistent (reachable : s.Reachable) :
    ∃ waiting, s.Consistent waiting := by
  apply Reaches.invariant reachable
  · exact ⟨[], rfl, trivial, rfl, rfl, rfl, fun capturing => nomatch capturing⟩
  intro s input s' held possible ok
  obtain ⟨waiting, consistent⟩ := held
  cases input with
  | interrupt evt =>
    cases ok
    exact consistent.interrupt possible
  | handler failed =>
    cases ok
    exact consistent.handler failed
  | micStart =>
    cases ok
    exact consistent.micStart possible
  | micStop =>
    cases ok
    exact ⟨waiting, consistent.micStop⟩

theorem Driver.Consistent.sent_numbered (consistent : s.Consistent waiting) : Numbered s.sent := by
  apply Numbered.left
  rw [← consistent.queued]
  exact consistent.numbered

/-- **Order**: the frames that were sent in the session are the first ones that were queued in it,
and the k-th of them has the number k, taken modulo 65536. -/
theorem sent_in_order {s : Driver} (reachable : s.Reachable) :
    s.sent <+: s.queued ∧
      s.sent.map (fun frame => frame.seqId.toNat) =
        (range s.sent.length).map (fun number => number % 65536) := by
  obtain ⟨waiting, consistent⟩ := reachable.consistent
  refine ⟨?_, consistent.sent_numbered⟩
  rw [consistent.queued]
  exact prefix_append _ _

def silence : List Int16 := replicate maxVoiceWordSize 0

theorem length_silence : silence.length = maxVoiceWordSize := length_replicate

theorem reaches_data {start : Driver} {pcm : List Int16}
    (run : Reaches Driver.step Driver.Possible start s) (capturing : s.capturing = true)
    (whole : pcm.length = maxVoiceWordSize) :
    Reaches Driver.step Driver.Possible start (voiceInterrupt s (.data pcm)) :=
  run.tail (a := .interrupt (.data pcm)) ⟨capturing, whole⟩ rfl

theorem reaches_handler {start s' : Driver} (run : Reaches Driver.step Driver.Possible start s)
    (next : eventHandlerVoice s false = s') : Reaches Driver.step Driver.Possible start s' :=
  run.tail (a := .handler false) trivial (congrArg Except.ok next)

/-- Two frames are queued, the second one while the first one is copied, and the first one is
sent. -/
theorem sent_in_order_two :
    ∃ s : Driver, s.Reachable ∧ s.queued.length = 2 ∧ s.sent.length = 1 ∧ s.sent <+: s.queued ∧
      s.sent.map (fun frame => frame.seqId.toNat) =
        (range s.sent.length).map (fun number => number % 65536) := by
  have started : Driver.Reachable (voiceHandleMicStart Driver.init).2 :=
    Reaches.refl.tail (a := .micStart) rfl rfl
  have first := reaches_data started rfl length_silence
  have looking := reaches_handler first rfl
  have copying := reaches_handler looking rfl
  have second := reaches_data copying rfl length_silence
  have sending := reaches_handler second rfl
  have sent := reaches_handler sending rfl
  exact ⟨_, sent, rfl, rfl, sent_in_order sent⟩

/-- The microphone is on, all that was queued is sent, and the task waits for the next event. -/
structure Driver.Drained (s : Driver) : Prop where
  capturing : s.capturing = true
  outside : s.handler = .outside
  empty : s.voiceFifo.Holds behind []

theorem reaches_sent (outside : s.handler = .outside) (holds : s.voiceFifo.Holds behind [frame]) :
    Reaches Driver.step Driver.Possible s
      { s with
        voiceFifo := voiceFifoPop s.voiceFifo
        handler := .outside
        sent := s.sent ++ [frame] } := by
  have found : voiceFifoIsEmpty s.voiceFifo = false := decide_eq_false holds.1
  have top : voiceFifoTop s.voiceFifo = frame := holds.top
  have taken : voiceFifoIsEmpty (voiceFifoPop s.voiceFifo) = true := holds.pop.isEmpty_iff.mpr rfl
  have looking : Reaches Driver.step Driver.Possible s { s with handler := .looking 0 } :=
    reaches_handler .refl (by rw [eventHandlerVoice, outside])
  have copying : Reaches Driver.step Driver.Possible s { s with handler := .copying 0 } :=
    reaches_handler looking (by simp [eventHandlerVoice, found])
  have sending : Reaches Driver.step Driver.Possible s { s with handler := .sending 0 frame } :=
    reaches_handler copying (by rw [eventHandlerVoice, top])
  have popping := reaches_handler sending rfl
  have again := reaches_handler popping rfl
  exact reaches_handler again (by simp [eventHandlerVoice, taken])

theorem Driver.Drained.round (drained : s.Drained) :
    ∃ s', Reaches Driver.step Driver.Possible s s' ∧ s'.Drained ∧
      s'.sent.length = s.sent.length + 1 := by
  obtain ⟨fifo, room⟩ :=
    voiceFifoIn_empty drained.empty (voicePcmTruckCb s.transSeqId s.adpcmState silence).1
  have holds := voiceFifoIn_holds drained.empty room
  have interrupt := reaches_data .refl drained.capturing length_silence
  simp only [voiceInterrupt, room] at interrupt
  refine ⟨_, interrupt.trans (reaches_sent drained.outside holds), ?_, ?_⟩
  · exact ⟨drained.capturing, rfl, holds.pop⟩
  · exact length_append

theorem exists_sent (count : Nat) :
    ∃ s : Driver, s.Reachable ∧ s.Drained ∧ s.sent.length = count := by
  induction count with
  | zero =>
    have start : (voiceHandleMicStart Driver.init).2.Reachable :=
      Reaches.refl.tail (a := .micStart) rfl rfl
    exact ⟨_, start, ⟨rfl, rfl, rfl⟩, rfl⟩
  | succ count ih =>
    obtain ⟨s, reachable, drained, length⟩ := ih
    obtain ⟨s', run, drained', more⟩ := drained.round
    exact ⟨s', reachable.trans run, drained', by rw [more, length]⟩

/-- **The numbers wrap**: there is a session in which 65537 frames are sent, and the last of them
has the number of the first one. -/
theorem numbers_wrap :
    ∃ s : Driver, s.Reachable ∧ s.sent.length = 65537 ∧
      (s.sent[0]?).map (fun frame => frame.seqId.toNat) = some 0 ∧
      (s.sent[65536]?).map (fun frame => frame.seqId.toNat) = some 0 ∧
      s.sent.map (fun frame => frame.seqId.toNat) ≠ range s.sent.length := by
  obtain ⟨s, reachable, -, length⟩ := exists_sent 65537
  obtain ⟨waiting, consistent⟩ := reachable.consistent
  have numbered := consistent.sent_numbered
  have first : (s.sent[0]?).map _ = some 0 :=
    numbered.number (length.symm ▸ by decide)
  have last : (s.sent[65536]?).map _ = some 0 :=
    numbered.number (length.symm ▸ by decide)
  refine ⟨s, reachable, length, first, last, ?_⟩
  intro unbounded
  rw [← getElem?_map, unbounded, length, getElem?_range (by decide)] at last
  cases last

end Phy6212.Voice
