import Phy6212.AtParser.Parser

/-!
# Out-of-band prefixes in idle mode

In idle mode the buffer is searched for the registered prefixes after each reading, and nothing is
dropped until one is found.
-/

namespace Phy6212.AtParser

open List CLib Runs

/-- The parser in idle mode, at rest; the bytes in its buffer are counted as the first ones to
arrive. -/
structure Parser.Idle (parser : Parser) : Prop extends Parser.Still parser where
  idle : parser.mode = .idle
  flag : parser.cmdModeFlag = false
  arrived : parser.history.arrived = parser.text

def Arriving (stream : List UInt8) (parser : Parser) : Action → Prop
  | .arrive bytes => parser.history.arrived ++ bytes <+: stream
  | .interrupt => True
  | .iterate _ => True
  | _ => False

/-- The prefix stands at the end of the stream, and no registered prefix anywhere else in it. -/
def OnlyAtEnd (oobs : List Oob) (mark : Oob) (stream : List UInt8) : Prop :=
  ∀ oob ∈ oobs, ∀ before after, stream = before ++ (oob.prefixText ++ after) →
    oob = mark ∧ after = []

/-! ## The invariant -/

/-- No prefix has been found: the buffer and the UART hold all that has arrived. -/
structure Listening (start : Parser) (stream : List UInt8) (parser : Parser) : Prop where
  mode : parser.mode = .idle
  flag : parser.cmdModeFlag = false
  change : parser.handling ≠ some true
  oobs : parser.oobHead = start.oobHead
  callbacks : parser.history.callbacks = start.history.callbacks
  arrived : parser.history.arrived = parser.text ++ parser.uart
  stream : parser.history.arrived <+: stream
  absent : ∀ oob ∈ start.oobHead, ¬ oob.prefixText <:+: parser.text
  noticed : parser.Noticed

structure Detected (start : Parser) (mark : Oob) (stream : List UInt8) (parser : Parser) :
    Prop where
  mode : parser.mode = .oob
  flag : parser.cmdModeFlag = false
  change : parser.handling = some true
  oob : parser.oob = some mark
  callbacks : parser.history.callbacks = start.history.callbacks
  recvSize : parser.recvSize = 0
  uart : parser.uart = []
  arrived : parser.history.arrived = stream

structure Called (start : Parser) (mark : Oob) (parser : Parser) : Prop where
  mode : parser.mode ≠ .cmd
  flag : parser.cmdModeFlag = false
  callbacks : start.history.callbacks ++ [(mark, [])] <+: parser.history.callbacks

structure Awaited (start : Parser) (mark : Oob) (stream : List UInt8) : Prop where
  whole : ∀ oob ∈ start.oobHead, oob.Whole
  registered : mark ∈ start.oobHead
  ends : mark.prefixText <:+: stream
  only : OnlyAtEnd start.oobHead mark stream
  fits : stream.length < bufferSize

variable {start parser parser' : Parser} {mark : Oob} {stream bytes : List UInt8}
  {result : CallbackResult}

section

variable (listening : Listening start stream parser)

include listening

theorem Listening.room (awaited : Awaited start mark stream) :
    parser.recvSize + 1 < bufferSize ∧ parser.recvSize + parser.uart.length < bufferSize := by
  have fits := awaited.fits
  have size := listening.stream.length_le
  rw [listening.arrived, length_append, length_text] at size
  refine ⟨?_, by omega⟩
  by_contra full
  -- a full buffer would hold the whole stream
  have empty : parser.uart = [] := eq_nil_of_length_eq_zero (by omega)
  have whole : parser.text = stream := by
    have same := listening.stream
    rw [listening.arrived, empty, append_nil] at same
    exact same.eq_of_length (by rw [length_text]; omega)
  exact listening.absent mark awaited.registered (whole ▸ awaited.ends)

theorem Listening.arrive (order : parser.history.arrived ++ bytes <+: stream) :
    Listening start stream (parser.uartEvent bytes) := by
  have noticed := listening.noticed.uartEvent bytes
  obtain ⟨haveUartEvent, queued, same⟩ := uartEvent_eq parser bytes
  rw [same] at noticed ⊢
  have arrived : parser.history.arrived ++ bytes = parser.text ++ (parser.uart ++ bytes) := by
    rw [listening.arrived, append_assoc]
  exact { listening with arrived, stream := order, noticed }

theorem Listening.interrupt (ended : parser.handling = none) (waiting : 0 < parser.queued) :
    Listening start stream { parser with queued := parser.queued - 1, handling := some false } :=
  { listening with
    change := nofun
    noticed := listening.noticed.interrupt ended waiting }

theorem Listening.finished (running : parser.handling = some false) (empty : parser.uart = []) :
    Listening start stream
      { parser with haveUartEvent := parser.haveUartEvent - 1, handling := none } :=
  { listening with
    change := nofun
    noticed := listening.noticed.finished running empty }

theorem Listening.filled
    (absent : ∀ oob ∈ start.oobHead, ¬ oob.prefixText <:+: parser.filled.terminate.text) :
    Listening start stream parser.filled.terminate :=
  { listening with
    arrived := by
      rw [text_terminate, text_filled]
      exact listening.arrived.trans (append_nil _).symm
    absent
    noticed := listening.noticed.filled }

end

variable (analysisLine : List UInt8 → List UInt8 → Int)

theorem Listening.process (listening : Listening start stream parser)
    (awaited : Awaited start mark stream) (running : parser.handling = some false)
    (result : CallbackResult) :
    ∃ parser', parser.filled.terminate.process analysisLine result = .ok parser' ∧
      ((Listening start stream parser' ∧ parser'.uart = [] ∧
        parser'.history.arrived = parser.history.arrived) ∨
        Detected start mark stream parser') := by
  let read := parser.filled.terminate
  have text : read.text = parser.history.arrived := by
    rw [text_terminate, text_filled, listening.arrived]
  have mode : read.mode = .idle := listening.mode
  have whole := awaited.whole
  have whole' : ∀ oob ∈ read.oobHead, oob.Whole := by
    rwa [show read.oobHead = start.oobHead from listening.oobs]
  cases found : read.findOob with
  | none =>
    refine ⟨_, process_quiet analysisLine result running ?_ found ?_,
      .inl ⟨listening.filled ?_, rfl, rfl⟩⟩
    · rw [mode]
      nofun
    · rw [mode]
      nofun
    rintro oob registered ⟨before, after, split⟩
    have registered' : oob ∈ read.oobHead := listening.oobs ▸ registered
    refine findOob_ne_none registered' (whole oob registered) ⟨before, after, ?_, rfl⟩ found
    rw [← append_assoc]
    exact split.symm
  | some place =>
    obtain ⟨i, oob⟩ := place
    obtain ⟨registered, before, after, split, rfl⟩ := occursAt_of_findOob whole' found
    obtain ⟨future, joined⟩ := listening.stream
    -- the prefix that is found is the one at the end of the stream
    have end_ : stream = before ++ (oob.prefixText ++ (after ++ future)) := by
      rw [← joined, ← text, split]
      simp only [append_assoc]
    rw [show read.oobHead = start.oobHead from listening.oobs] at registered
    obtain ⟨rfl, nothing⟩ := awaited.only oob registered before _ end_
    obtain ⟨rfl, rfl⟩ := append_eq_nil_iff.mp nothing
    have size := congrArg length split
    rw [length_text, append_nil, length_append, ← (whole oob registered).2] at size
    exact ⟨_, process_found analysisLine result mode found size.ge, .inr ⟨rfl, listening.flag,
      rfl, rfl, listening.callbacks, Nat.sub_eq_zero_of_le size.le, rfl,
      (append_nil _).symm.trans joined⟩⟩

theorem Listening.iterate (listening : Listening start stream parser)
    (awaited : Awaited start mark stream) (running : parser.handling = some false)
    (result : CallbackResult) :
    ∃ parser', parser.iterate analysisLine result = .ok parser' ∧
      ((Listening start stream parser' ∧ parser'.uart = [] ∧
        parser'.history.arrived = parser.history.arrived) ∨
        Detected start mark stream parser') := by
  obtain ⟨room, inside⟩ := listening.room awaited
  by_cases empty : parser.uart = []
  · have mode : parser.mode ≠ .oob := by
      rw [listening.mode]
      nofun
    exact ⟨_, iterate_empty analysisLine result running mode room empty,
      .inl ⟨listening.finished running empty, empty, rfl⟩⟩
  · obtain ⟨parser', done, next⟩ := listening.process analysisLine awaited running result
    exact ⟨parser', (iterate_reads analysisLine result running empty room inside).trans done, next⟩

theorem oob_callbacks (mode : parser.mode = .oob) (flag : parser.cmdModeFlag = false)
    (done : parser.process analysisLine result = .ok parser') :
    ∃ oob, parser.oob = some oob ∧ parser'.mode ≠ .cmd ∧ parser'.cmdModeFlag = false ∧
      parser'.history.callbacks = parser.history.callbacks ++ [(oob, parser.text)] := by
  rw [Parser.process, mode] at done
  cases outcome : parser.oobProcess result with
  | error stop => simp [outcome, bind, Except.bind] at done
  | ok outcome' =>
    obtain ⟨oob, found, -, -, rfl⟩ := (oobProcess_eq_ok_iff result).mp outcome
    simp only [outcome, bind, Except.bind] at done
    refine ⟨oob, found, ?_⟩
    split at done
    · cases done
      refine ⟨?_, flag, rfl⟩
      simp [Parser.moved, Parser.called, flag]
    · cases done
      refine ⟨?_, flag, rfl⟩
      simp [Parser.moved, Parser.called, mode]

theorem idle_callbacks (mode : parser.mode = .idle)
    (done : parser.process analysisLine result = .ok parser') :
    parser'.mode ≠ .cmd ∧ parser'.cmdModeFlag = parser.cmdModeFlag ∧
      parser'.history = parser.history := by
  cases found : parser.findOob with
  | none =>
    rw [Parser.process, mode] at done
    simp only [Parser.idleProcess, Parser.detchOob, found, bind, Except.bind] at done
    cases done
    exact ⟨by simp [mode], rfl, rfl⟩
  | some place =>
    obtain ⟨i, oob⟩ := place
    by_cases inside : i + oob.len.toNat ≤ parser.recvSize
    · rw [process_found analysisLine result mode found inside] at done
      cases done
      exact ⟨by simp, rfl, rfl⟩
    have outside : Parser.atparserMove { parser with oob := some oob } _ =
        .error .fault := if_pos (Nat.not_le.mp inside)
    rw [Parser.process, mode] at done
    simp only [Parser.idleProcess, Parser.detchOob, found, outside, bind, Except.bind] at done
    cases done

section

variable (detected : Detected start mark stream parser)

include detected

theorem Detected.iterate_eq (result : CallbackResult) :
    parser.iterate analysisLine result = parser.terminate.process analysisLine result := by
  have read : parser.fullBuffer.2 = parser := by
    rw [fullBuffer_of_room parser (by rw [detected.recvSize]; decide)
      (by rw [detected.recvSize, detected.uart]; decide)]
    exact filled_of_nil parser detected.uart
  rw [iterate_goes_on analysisLine result detected.change (.inl rfl), read]

theorem Detected.iterate (done : parser.iterate analysisLine result = .ok parser') :
    Called start mark parser' := by
  rw [detected.iterate_eq] at done
  obtain ⟨oob, found, mode, flag, callbacks⟩ :=
    @oob_callbacks parser.terminate parser' result analysisLine detected.mode detected.flag done
  obtain rfl : oob = mark := Option.some.inj (found.symm.trans detected.oob)
  have empty : parser.terminate.text = [] := by
    rw [text_terminate, Parser.text, detected.recvSize]
    rfl
  refine ⟨mode, flag, ?_⟩
  rw [callbacks, empty, show parser.terminate.history.callbacks = _ from detected.callbacks]

theorem Detected.calls (ret : Int) :
    ∃ parser', parser.iterate analysisLine ⟨0, ret, true⟩ = .ok parser' := by
  have outcome : parser.terminate.oobProcess ⟨0, ret, true⟩ = .ok _ :=
    (oobProcess_eq_ok_iff _).mpr ⟨mark, detected.oob, .inr rfl, Nat.zero_le _, rfl⟩
  rw [detected.iterate_eq, Parser.process, show parser.terminate.mode = .oob from detected.mode]
  simp only [outcome, bind, Except.bind]
  split
  · exact ⟨_, rfl⟩
  · exact ⟨_, rfl⟩

end

theorem Called.iterate (called : Called start mark parser)
    (done : parser.iterate analysisLine result = .ok parser') : Called start mark parser' := by
  cases running : parser.handling with
  | none => simp [Parser.iterate, running] at done
  | some change =>
    simp only [Parser.iterate, running] at done
    split at done
    · cases done
      exact { called with }
    cases mode : parser.mode with
    | cmd => exact absurd mode called.mode
    | oob =>
      obtain ⟨oob, -, mode', flag, callbacks⟩ := @oob_callbacks parser.fullBuffer.2.terminate
        parser' result analysisLine mode called.flag done
      exact ⟨mode', flag, callbacks ▸ called.callbacks.trans (prefix_append _ _)⟩
    | idle =>
      obtain ⟨mode', flag, history⟩ := @idle_callbacks parser.fullBuffer.2.terminate
        parser' result analysisLine mode done
      exact ⟨mode', flag.trans called.flag, history ▸ called.callbacks⟩

/-! ## Every run -/

def Progress (start : Parser) (mark : Oob) (stream : List UInt8) (parser : Parser) : Prop :=
  Listening start stream parser ∨ Detected start mark stream parser ∨ Called start mark parser

theorem Listening.unread (listening : Listening start stream parser)
    (awaited : Awaited start mark stream)
    (all : parser.history.arrived = stream) : parser.uart ≠ [] := by
  intro empty
  have whole : parser.text = stream := by
    rw [← all, listening.arrived, empty, append_nil]
  exact listening.absent mark awaited.registered (whole ▸ awaited.ends)

theorem Detected.arrive (detected : Detected start mark stream parser)
    (order : parser.history.arrived ++ bytes <+: stream) :
    Detected start mark stream (parser.uartEvent bytes) := by
  obtain ⟨haveUartEvent, queued, same⟩ := uartEvent_eq parser bytes
  rw [detected.arrived] at order
  obtain rfl : bytes = [] := by
    have size := order.length_le
    rw [length_append] at size
    exact eq_nil_of_length_eq_zero (by omega)
  rw [same]
  exact { detected with uart := by simp [detected.uart], arrived := by simp [detected.arrived] }

theorem Progress.step (progress : Progress start mark stream parser)
    (awaited : Awaited start mark stream) {action : Action}
    (arriving : Arriving stream parser action)
    (done : step analysisLine parser action = .ok parser') :
    Progress start mark stream parser' := by
  cases action with
  | arrive bytes =>
    cases done
    rcases progress with listening | detected | called
    · exact .inl (listening.arrive arriving)
    · exact .inr (.inl (detected.arrive arriving))
    · obtain ⟨haveUartEvent, queued, same⟩ := uartEvent_eq parser bytes
      rw [same]
      exact .inr (.inr { called with })
  | interrupt =>
    by_cases ready : parser.handling = none ∧ 0 < parser.queued
    · rw [interrupt_starts analysisLine ready.1 ready.2] at done
      cases done
      rcases progress with listening | detected | called
      · exact .inl (listening.interrupt ready.1 ready.2)
      · rw [detected.change] at ready
        cases ready.1
      · exact .inr (.inr { called with })
    · rw [show AtParser.step analysisLine parser .interrupt = _ from if_neg ready] at done
      cases done
  | iterate result =>
    rcases progress with listening | detected | called
    · rcases handling_cases listening.change with ended | running
      · simp [AtParser.step, Parser.iterate, ended] at done
      obtain ⟨next, done', stage⟩ :=
        listening.iterate analysisLine awaited running result
      rw [show AtParser.step analysisLine parser (.iterate result) = _ from done'] at done
      cases done
      rcases stage with ⟨listening', -⟩ | detected
      · exact .inl listening'
      · exact .inr (.inl detected)
    · exact .inr (.inr (detected.iterate analysisLine done))
    · exact .inr (.inr (called.iterate analysisLine done))
  | recv request => exact arriving.elim
  | send => exact arriving.elim
  | exit => exact arriving.elim
  | create prefixText cb alloc => exact arriving.elim
  | delete prefixText => exact arriving.elim

theorem listening_start {data : List UInt8} (idle : start.Idle) (before : start.text <+: data)
    (awaited : Awaited start mark (data ++ mark.prefixText)) :
    Listening start (data ++ mark.prefixText) start where
  mode := idle.idle
  flag := idle.flag
  change := by
    rw [idle.rest.2]
    nofun
  oobs := rfl
  callbacks := rfl
  arrived := by rw [idle.arrived, idle.uart, append_nil]
  stream := by
    rw [idle.arrived]
    exact before.trans (prefix_append _ _)
  absent := by
    rintro oob registered ⟨front, back, split⟩
    obtain ⟨later, rfl⟩ := before
    -- a prefix within the data would not be at the end of the stream
    obtain ⟨-, nothing⟩ :=
      awaited.only oob registered front (back ++ (later ++ mark.prefixText)) (by
        rw [← split]
        simp only [append_assoc])
    simp [(awaited.whole mark awaited.registered).1] at nothing
  noticed := ⟨fun some => absurd idle.uart some, by rw [idle.events, idle.rest.1, idle.rest.2]; rfl⟩

theorem Listening.leads (listening : Listening start stream parser)
    (awaited : Awaited start mark stream)
    (all : parser.history.arrived = stream) (ret : Int) (running : parser.handling = some false) :
    ∃ parser', Reaches (AtParser.step analysisLine) (Own ⟨0, ret, true⟩) parser parser' ∧
      Called start mark parser' := by
  obtain ⟨next, done, ⟨listening', empty, arrived⟩ | detected⟩ :=
    listening.iterate analysisLine awaited running ⟨0, ret, true⟩
  · exact absurd empty (listening'.unread awaited (arrived.trans all))
  obtain ⟨last, called⟩ := detected.calls analysisLine ret
  have first : Reaches (AtParser.step analysisLine) (Own ⟨0, ret, true⟩) parser next :=
    .tail .refl (.inr rfl) done
  exact ⟨last, first.tail (.inr rfl) called, detected.iterate analysisLine called⟩

/-- **A prefix is found behind any data that fits the buffer with it.** -/
theorem prefix_found (analysisLine : List UInt8 → List UInt8 → Int) {start parser : Parser}
    {data : List UInt8} {mark : Oob} (idle : start.Idle) (before : start.text <+: data)
    (registered : mark ∈ start.oobHead) (whole : ∀ oob ∈ start.oobHead, oob.Whole)
    (only : OnlyAtEnd start.oobHead mark (data ++ mark.prefixText))
    (fits : (data ++ mark.prefixText).length < bufferSize)
    (run : Reaches (step analysisLine) (Arriving (data ++ mark.prefixText)) start parser)
    (all : parser.history.arrived = data ++ mark.prefixText) :
    (parser.Rest → start.history.callbacks ++ [(mark, [])] <+: parser.history.callbacks) ∧
    ∀ ret, ∃ parser', Reaches (step analysisLine) (Own ⟨0, ret, true⟩) parser parser' ∧
      start.history.callbacks ++ [(mark, [])] <+: parser'.history.callbacks := by
  have awaited : Awaited start mark _ :=
    ⟨whole, registered, (suffix_append _ _).isInfix, only, fits⟩
  have progress : Progress start mark _ parser :=
    run.invariant (.inl (listening_start idle before awaited))
      fun s action s' progress arriving done => progress.step analysisLine awaited arriving done
  rcases progress with listening | detected | called
  · have unread := listening.unread awaited all
    refine ⟨fun rest => absurd (listening.noticed.empty rest) unread, fun ret => ?_⟩
    rcases handling_cases listening.change with ended | running
    · have waiting : 0 < parser.queued := (listening.noticed.unread unread).resolve_right
        fun some => some ended
      have starts := interrupt_starts analysisLine ended waiting
      obtain ⟨last, path, called⟩ :=
        (listening.interrupt ended waiting).leads analysisLine awaited all ret rfl
      exact ⟨last, (Reaches.tail .refl (.inl rfl) starts).trans path, called.callbacks⟩
    · obtain ⟨last, path, called⟩ :=
        listening.leads analysisLine awaited all ret running
      exact ⟨last, path, called.callbacks⟩
  · refine ⟨fun rest => ?_, fun ret => ?_⟩
    · rw [Parser.Rest, detected.change] at rest
      cases rest.2
    · obtain ⟨last, done⟩ := detected.calls analysisLine ret
      exact ⟨last, .tail .refl (.inr rfl) done, (detected.iterate analysisLine done).callbacks⟩
  · exact ⟨fun _ => called.callbacks, fun ret => ⟨parser, .refl, called.callbacks⟩⟩

def plusParser : Parser := ((Parser.init fun _ => 0).oobCreate [43, 65] 1 true).2

theorem plusParser_idle : plusParser.Idle :=
  ⟨⟨⟨rfl, rfl⟩, rfl, rfl, nofun, rfl⟩, rfl, rfl, rfl⟩

theorem plusParser_whole : ∀ oob ∈ plusParser.oobHead, oob.Whole := by
  intro oob registered
  obtain rfl : oob = ⟨2, [43, 65], 1⟩ := mem_singleton.mp registered
  exact ⟨by decide, rfl⟩

theorem prefix_found_plus :
    ∃ parser, Reaches (step fun _ _ => 0) (Arriving [120, 43, 65]) plusParser parser ∧
      parser.history.arrived = [120, 43, 65] ∧
      ∀ ret, ∃ parser', Reaches (step fun _ _ => 0) (Own ⟨0, ret, true⟩) parser parser' ∧
        [(⟨2, [43, 65], 1⟩, [])] <+: parser'.history.callbacks := by
  have only : OnlyAtEnd plusParser.oobHead ⟨2, [43, 65], 1⟩ [120, 43, 65] := by
    intro oob registered before after split
    obtain rfl : oob = ⟨2, [43, 65], 1⟩ := mem_singleton.mp registered
    rcases before with - | ⟨b, - | ⟨c, before⟩⟩
    · simp at split
    · simp at split
      exact ⟨rfl, split.2⟩
    · have size := congrArg length split
      simp at size
      omega
  have run : Reaches (step fun _ _ => 0) (Arriving [120, 43, 65]) plusParser
      _ :=
    .tail .refl (a := .arrive [120, 43, 65]) (prefix_refl _) rfl
  have before : plusParser.text <+: [120] := nil_prefix
  have registered : ⟨2, [43, 65], 1⟩ ∈ plusParser.oobHead := mem_cons_self
  have found := prefix_found _ plusParser_idle before registered plusParser_whole only
    (by decide) run rfl
  exact ⟨_, run, rfl, found.2⟩

theorem Parser.Still.loses (still : parser.Still) (analysisLine : List UInt8 → List UInt8 → Int)
    (stream bytes : List UInt8) (oobs : parser.oobHead = plusParser.oobHead) (nonempty : bytes ≠ [])
    (room : parser.recvSize + 1 < bufferSize)
    (full : parser.recvSize + bytes.length + 1 = bufferSize)
    (quiet : ¬ [43, 65] <:+: parser.text ++ bytes)
    (order : parser.history.arrived ++ bytes <+: stream) :
    ∃ parser', Reaches (step analysisLine) (Arriving stream) parser parser' ∧ parser'.Still ∧
      parser'.text = (parser.text ++ bytes).dropLast ∧ parser'.oobHead = plusParser.oobHead ∧
      parser'.history.arrived = parser.history.arrived ++ bytes ∧
      parser'.history.callbacks = parser.history.callbacks := by
  have absent : ∀ oob ∈ parser.oobHead, oob.Whole ∧ ¬ oob.prefixText <:+: parser.text ++ bytes := by
    rw [oobs]
    intro oob registered
    refine ⟨plusParser_whole oob registered, ?_⟩
    obtain rfl : oob = ⟨2, [43, 65], 1⟩ := mem_singleton.mp registered
    exact quiet
  obtain ⟨parser', run, still', text, -, oobs', history⟩ := still.arrive analysisLine ⟨0, 0, true⟩
    nonempty room (by omega) absent
    (show Arriving stream parser _ from order) fun _ => ⟨trivial, trivial⟩
  rw [if_pos full] at text
  exact ⟨parser', run, still', text, oobs'.trans oobs, by rw [history], by rw [history]⟩

theorem full_buffer_loses (analysisLine : List UInt8 → List UInt8 → Int) {front : List UInt8}
    (size : front.length + 2 = bufferSize) (each : ∀ b ∈ front, b = 120) :
    ∃ parser, Reaches (step analysisLine) (Arriving (front ++ [120] ++ [43] ++ [65]))
        plusParser parser ∧
      parser.history.arrived = front ++ [120] ++ [43] ++ [65] ∧ parser.Rest ∧ parser.uart = [] ∧
      parser.history.callbacks = [] := by
  -- both bytes of the prefix would have to be the last one
  have quiet : ∀ b, ¬ [43, 65] <:+: front ++ [b] := by
    intro b inside
    have last : ∀ x ∈ front ++ [b], x ≠ 120 → x = b := fun x member other =>
      (mem_append.mp member).elim (fun early => absurd (each x early) other)
        mem_singleton.mp
    have plus := last 43 (inside.subset (by simp)) (by decide)
    have letter := last 65 (inside.subset (by simp)) (by decide)
    exact absurd (plus.trans letter.symm) (by decide)
  obtain ⟨first, run₁, still₁, text₁, oobs₁, arrived₁, callbacks₁⟩ :=
    plusParser_idle.toStill.loses analysisLine _ (front ++ [120]) rfl
      (by simp) (by decide) ((Nat.zero_add _).symm ▸ by simp; omega) (quiet 120)
      ((prefix_append _ _).trans (prefix_append _ _))
  rw [show plusParser.text ++ (front ++ [120]) = front ++ [120] from rfl,
    dropLast_concat] at text₁
  rw [show plusParser.history.arrived ++ (front ++ [120]) = front ++ [120] from rfl] at arrived₁
  have size₁ : first.recvSize = front.length := by rw [← length_text, text₁]
  obtain ⟨second, run₂, still₂, text₂, oobs₂, arrived₂, callbacks₂⟩ :=
    still₁.loses analysisLine (front ++ [120] ++ [43] ++ [65]) [43] oobs₁ (by simp) (by omega)
      (by rw [size₁]; exact size) (by rw [text₁]; exact quiet 43)
      (by rw [arrived₁]; exact prefix_append _ _)
  rw [text₁, dropLast_concat] at text₂
  rw [arrived₁] at arrived₂
  have size₂ : second.recvSize = front.length := by rw [← length_text, text₂]
  obtain ⟨third, run₃, still₃, -, -, arrived₃, callbacks₃⟩ :=
    still₂.loses analysisLine _ [65] oobs₂ (by simp) (by omega)
      (by rw [size₂]; exact size) (by rw [text₂]; exact quiet 65) (by rw [arrived₂])
  exact ⟨third, (run₁.trans run₂).trans run₃, by rw [arrived₃, arrived₂], still₃.rest, still₃.uart,
    callbacks₃.trans (callbacks₂.trans callbacks₁)⟩

/-- **A prefix is not found behind data that fills the buffer**: the bytes of the prefix are lost
one after the other. -/
theorem prefix_not_found :
    ∃ parser, Reaches (step fun _ _ => 0) (Arriving (replicate 2047 120 ++ [43, 65]))
        plusParser parser ∧
      parser.history.arrived = replicate 2047 120 ++ [43, 65] ∧ parser.Rest ∧
      parser.uart = [] ∧ parser.history.callbacks = [] := by
  have split : replicate 2047 (120 : UInt8) ++ [43, 65] =
      replicate 2046 120 ++ [120] ++ [43] ++ [65] := by
    rw [← replicate_succ', append_assoc]
    rfl
  have size : (replicate 2046 (120 : UInt8)).length + 2 = bufferSize := by
    rw [length_replicate]
    rfl
  rw [split]
  exact full_buffer_loses _ size fun b => eq_of_mem_replicate

end Phy6212.AtParser
