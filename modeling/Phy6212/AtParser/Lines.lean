import Phy6212.AtParser.Parser

/-!
# The lines that requests are answered from

The lines of a stream are its maximal runs of bytes other than CR and LF that are followed by one of
them.
-/

namespace Phy6212.AtParser

open List CLib Runs

/-! ## Lines -/

/-- The lines of a stream, without the empty ones and without what follows the last CR or LF. -/
def lines (stream : List UInt8) : List (List UInt8) :=
  (stream.splitOnP isBreak).dropLast.filter (· ≠ [])

def FirstLine (text line rest : List UInt8) : Prop :=
  ∃ blanks c, text = blanks ++ (line ++ c :: rest) ∧ (∀ b ∈ blanks, isBreak b = true) ∧
    line ≠ [] ∧ (∀ b ∈ line, isBreak b = false) ∧ isBreak c = true

def NoLine (text : List UInt8) : Prop :=
  ∃ blanks line, text = blanks ++ line ∧ (∀ b ∈ blanks, isBreak b = true) ∧
    ∀ b ∈ line, isBreak b = false

theorem lines_cons_break {c : UInt8} (ends : isBreak c = true) (stream : List UInt8) :
    lines (c :: stream) = lines stream := by
  have split : (c :: stream).splitOnP isBreak = [] :: stream.splitOnP isBreak := by
    rw [splitOnP_cons_eq_if_modifyHead, if_pos ends]
  rw [lines, split, dropLast_cons_of_ne_nil (splitOnP_ne_nil isBreak stream)]
  simp [lines]

theorem lines_blanks (stream : List UInt8) :
    ∀ blanks : List UInt8, (∀ b ∈ blanks, isBreak b = true) →
      lines (blanks ++ stream) = lines stream
  | [], _ => rfl
  | c :: blanks, all => by
    obtain ⟨first, rest⟩ := forall_mem_cons.mp all
    rw [cons_append, lines_cons_break first, lines_blanks stream blanks rest]

variable {line rest text : List UInt8}

theorem FirstLine.lines_append (first : FirstLine text line rest) (more : List UInt8) :
    lines (text ++ more) = line :: lines (rest ++ more) := by
  obtain ⟨blanks, c, rfl, blank, some, inside, ends⟩ := first
  rw [append_assoc, lines_blanks _ blanks blank, append_assoc, cons_append, lines,
    splitOnP_append_cons_of_forall_mem inside c ends,
    dropLast_cons_of_ne_nil (splitOnP_ne_nil isBreak _)]
  simp [lines, some]

theorem FirstLine.unique (first : FirstLine text line rest) :
    line = (text.dropWhile isBreak).takeWhile (!isBreak ·) ∧
      rest = ((text.dropWhile isBreak).dropWhile (!isBreak ·)).tail := by
  obtain ⟨blanks, c, rfl, blank, some, inside, ends⟩ := first
  have skip : (blanks ++ (line ++ c :: rest)).dropWhile isBreak = line ++ c :: rest := by
    rw [dropWhile_append_of_pos blank]
    cases line with
    | nil => exact absurd rfl some
    | cons b line => exact dropWhile_cons_of_neg (by simp [inside])
  have inside' : ∀ b ∈ line, (!isBreak b) = true := fun b member => by simp [inside b member]
  rw [skip, takeWhile_append_of_pos inside', dropWhile_append_of_pos inside']
  simp [ends]

theorem NoLine.lines (none_ : NoLine text) : lines text = [] := by
  obtain ⟨blanks, line, rfl, blank, inside⟩ := none_
  rw [lines_blanks line blanks blank, AtParser.lines, splitOnP_eq_singleton inside]
  rfl

/-! ## Reading a line -/

theorem isEnd_of_nonzero {c : UInt8} (nonzero : c ≠ 0) : isEnd c = isBreak c := by
  simp [isEnd, isBreak, nonzero]

theorem readLineFrom_inside (buffer : Memory) (offset : Nat) :
    ∀ (len i : Nat), 0 ∉ load buffer i len →
      (∃ line c rest, load buffer i len = line ++ c :: rest ∧ (∀ b ∈ line, isBreak b = false) ∧
        isBreak c = true ∧
        readLineFrom buffer i len (some offset) = some (offset, i + line.length)) ∨
      ((∀ b ∈ load buffer i len, isBreak b = false) ∧
        readLineFrom buffer i len (some offset) = none)
  | 0, i, _ => .inr ⟨by simp, rfl⟩
  | len + 1, i, nonzero => by
    rw [load_succ, mem_cons, not_or] at nonzero
    have same := isEnd_of_nonzero (Ne.symm nonzero.1)
    rw [load_succ, readLineFrom, same]
    cases ends : isBreak _ with
    | true => exact .inl ⟨[], buffer i, load buffer _ len, rfl, by simp, ends, rfl⟩
    | false =>
      obtain ⟨line, c, rest, text, inside, end_, found⟩ | ⟨inside, none_⟩ :=
        readLineFrom_inside buffer offset len _ nonzero.2
      · refine .inl ⟨buffer i :: line, c, rest, by rw [text]; rfl, ?_, end_, ?_⟩
        · exact forall_mem_cons.mpr ⟨ends, inside⟩
        · rw [if_neg (by simp), found, length_cons]
          congr 2
          omega
      · exact .inr ⟨forall_mem_cons.mpr ⟨ends, inside⟩, none_⟩

theorem readLineFrom_outside (buffer : Memory) :
    ∀ (len i : Nat), 0 ∉ load buffer i len →
      (∃ blanks line c rest, load buffer i len = blanks ++ (line ++ c :: rest) ∧
        (∀ b ∈ blanks, isBreak b = true) ∧ line ≠ [] ∧ (∀ b ∈ line, isBreak b = false) ∧
        isBreak c = true ∧ readLineFrom buffer i len none =
          some (i + blanks.length, i + blanks.length + line.length)) ∨
      (NoLine (load buffer i len) ∧ readLineFrom buffer i len none = none)
  | 0, i, _ => .inr ⟨⟨[], [], rfl, by simp, by simp⟩, rfl⟩
  | len + 1, i, nonzero => by
    rw [load_succ, mem_cons, not_or] at nonzero
    have same := isEnd_of_nonzero (Ne.symm nonzero.1)
    rw [load_succ, readLineFrom, same]
    cases ends : isBreak _ with
    | true =>
      obtain ⟨blanks, line, c, rest, text, blank, some, inside, end_, found⟩ |
          ⟨⟨blanks, line, text, blank, inside⟩, none_⟩ :=
        readLineFrom_outside buffer len _ nonzero.2
      · refine .inl ⟨buffer i :: blanks, line, c, rest, by rw [text]; rfl, ?_, some,
          inside, end_, ?_⟩
        · exact forall_mem_cons.mpr ⟨ends, blank⟩
        · rw [if_pos rfl, found, length_cons]
          congr 2 <;> omega
      · refine .inr ⟨⟨buffer i :: blanks, line, by rw [text]; rfl, ?_, inside⟩, none_⟩
        exact forall_mem_cons.mpr ⟨ends, blank⟩
    | false =>
      obtain ⟨line, c, rest, text, inside, end_, found⟩ | ⟨inside, none_⟩ :=
        readLineFrom_inside buffer i len _ nonzero.2
      · refine .inl ⟨[], buffer i :: line, c, rest, by rw [text]; rfl, by simp, by simp,
          ?_, end_, ?_⟩
        · exact forall_mem_cons.mpr ⟨ends, inside⟩
        rw [if_neg (by simp), found, length_cons]
        congr 2
        simp
        omega
      · refine .inr ⟨⟨[], buffer i :: load buffer _ len, rfl, by simp, ?_⟩, none_⟩
        exact forall_mem_cons.mpr ⟨ends, inside⟩

/-! ## Answering a request -/

section Answering

variable {parser : Parser} {before : List UInt8} {c : UInt8}

theorem stringAt_line (text : parser.text = before ++ (line ++ c :: rest)) (nonzero : 0 ∉ line)
    (small : parser.recvSize < bufferSize) :
    Parser.stringAt { parser with buffer := store parser.buffer (before.length + line.length) [0] }
      before.length = .ok line := by
  have size := congrArg length text
  simp only [length_text, length_append, length_cons] at size
  obtain ⟨more, whole⟩ := Nat.exists_eq_add_of_lt
    (show before.length + line.length < bufferSize by omega)
  have part := take_drop_load parser.buffer 0
    (show before.length + line.length ≤ parser.recvSize by omega)
  rw [show load parser.buffer 0 parser.recvSize = _ from text, drop_left, take_left,
    Nat.zero_add] at part
  have found : textAt (load (store parser.buffer (before.length + line.length) [0]) 0 bufferSize)
      before.length = some line := by
    refine textAt_eq_some_iff.mpr ⟨nonzero,
      load (store parser.buffer (before.length + line.length) [0])
        (before.length + line.length + 1) more, ?_⟩
    rw [whole, Nat.add_assoc, Nat.add_assoc, load_add, drop_left' (length_load _ _ _),
      load_add, load_succ, Nat.zero_add, load_store_before, ← part]
    simp [store]
  rw [Parser.stringAt, found]

theorem load_rest (text : parser.text = before ++ (line ++ c :: rest)) :
    load (store parser.buffer (before.length + line.length) [0])
      (before.length + line.length + 1) rest.length = rest := by
  have size := congrArg length text
  simp only [length_text, length_append, length_cons] at size
  have part := take_drop_load parser.buffer 0
    (show before.length + line.length + 1 + rest.length ≤ parser.recvSize by omega)
  rw [load_store_behind _ _ _ (by simp), ← Nat.zero_add (before.length + line.length + 1), ← part,
    show load parser.buffer 0 parser.recvSize = _ from text, ← append_assoc,
    append_cons, drop_left' (by simp; omega), take_length]

variable (analysisLine : List UInt8 → List UInt8 → Int) (request : Request)

theorem cmdLineProcess_cases (nonzero : 0 ∉ parser.text) (small : parser.recvSize < bufferSize) :
    (∃ line rest buffer, FirstLine parser.text line rest ∧ load buffer 0 rest.length = rest ∧
      parser.cmdLineProcess analysisLine request none =
        .ok (-2, Parser.answer { parser with buffer, recvSize := rest.length }
          ⟨request, line, analysisLine request.response line⟩)) ∨
    (NoLine parser.text ∧ parser.cmdLineProcess analysisLine request none = .ok (-1, parser)) := by
  obtain ⟨blanks, line, c, rest, text, blank, some, inside, ends, found⟩ | ⟨none_, found⟩ :=
    readLineFrom_outside parser.buffer parser.recvSize 0 nonzero
  · have size := congrArg length text
    simp only [length_load, length_append, length_cons] at size
    have nonzero' : 0 ∉ line := fun zero => nonzero (by
      rw [Parser.text, text]
      simp [zero])
    have string := stringAt_line text nonzero' small
    have kept := load_rest text
    have left : parser.recvSize - (blanks.length + line.length + 1) = rest.length := by omega
    have offset : blanks.length + (line.length + 1) = blanks.length + line.length + 1 := by omega
    let ended := store parser.buffer (blanks.length + line.length) [0]
    refine .inl ⟨line, rest, store (store ended 0 rest) rest.length [0],
      ⟨blanks, c, text, blank, some, inside, ends⟩, ?_, ?_⟩
    · rw [load_terminated]
      exact load_store_self ended 0 rest
    simp only [Nat.zero_add] at found
    simp only [Parser.cmdLineProcess, Parser.readLine, found, Nat.add_sub_cancel_left,
      Parser.analyse, string, bind, Except.bind]
    rw [atparserMove_of_le _ (by simp only; omega)]
    simp only [Parser.moved, left, offset, kept, ended]
  · exact .inr ⟨none_, by simp [Parser.cmdLineProcess, Parser.readLine, found]⟩

theorem cmdProcess_line {request : Request} (quiet : parser.findOob = none)
    (pending : parser.resCmd = some request) (cmd : parser.mode = .cmd)
    (line : request.type = .line) :
    parser.cmdProcess analysisLine = parser.cmdLineProcess analysisLine request none := by
  have nothing : parser.detchOob = (none, parser) := by rw [Parser.detchOob, quiet]
  simp [Parser.cmdProcess, nothing, pending, cmd, line]

end Answering

/-! ## The invariant -/

/-- The conditions on what happens: bytes arrive in the order of the stream and what is not
consumed stays within a limit, prefixes are not in the stream and their length fits a byte, and
requests are made for lines, in command mode and one at a time. -/
def Kept (limit : Nat) (stream : List UInt8) (parser : Parser) : Action → Prop
  | .arrive bytes =>
    parser.history.arrived ++ bytes <+: stream ∧
      parser.recvSize + parser.uart.length + bytes.length ≤ limit
  | .recv request => parser.mode = .cmd ∧ parser.resCmd = none ∧ request.type = .line
  | .exit => parser.resCmd = none
  | .create prefixText _ _ => prefixText.length < 256 ∧ ¬ prefixText <:+: stream
  | _ => True

/-- How the parser stands to the stream, whether or not a request waits for a line that is in the
buffer. -/
structure Base (stream : List UInt8) (parser : Parser) : Prop where
  mode : parser.mode ≠ .oob
  change : parser.handling ≠ some true
  oobs : ∀ oob ∈ parser.oobHead, oob.Whole ∧ ¬ oob.prefixText <:+: stream
  fits : parser.recvSize + parser.uart.length + 2 ≤ bufferSize
  arrived : parser.history.arrived <+: stream
  consumed : ∃ consumed, parser.history.arrived = consumed ++ (parser.text ++ parser.uart) ∧
    ∀ more, lines (consumed ++ more) = parser.history.answers.map Answer.text ++ lines more
  order : parser.history.calls =
    parser.history.answers.map Answer.request ++ parser.resCmd.toList
  pending : ∀ request, parser.resCmd = some request → parser.mode = .cmd ∧ request.type = .line
  noticed : parser.Noticed

structure Settled (stream : List UInt8) (parser : Parser) : Prop extends Base stream parser where
  waits : parser.resCmd ≠ none → NoLine parser.text

variable {stream : List UInt8} {parser : Parser}

theorem Base.text_infix (base : Base stream parser) : parser.text <:+: stream := by
  obtain ⟨consumed, arrived, -⟩ := base.consumed
  obtain ⟨future, rfl⟩ := base.arrived
  exact ⟨consumed, parser.uart ++ future, by simp [arrived]⟩

theorem Base.findOob (base : Base stream parser) : parser.findOob = none :=
  findOob_eq_none (fun oob registered => (base.oobs oob registered).1) fun oob registered inside =>
    (base.oobs oob registered).2 (inside.trans base.text_infix)

theorem Base.detchOob (base : Base stream parser) : parser.detchOob = (none, parser) := by
  rw [Parser.detchOob, base.findOob]

theorem settled_init (stream : List UInt8) (buffer : Memory) :
    Settled stream (Parser.init buffer) where
  mode := nofun
  change := nofun
  oobs := nofun
  fits := by simp [Parser.init, bufferSize]
  arrived := nil_prefix
  consumed := ⟨[], rfl, fun _ => rfl⟩
  order := rfl
  pending := nofun
  noticed := ⟨fun some => absurd rfl some, rfl⟩
  waits := fun some => absurd rfl some

theorem Base.answered (base : Base stream parser) {request : Request} {buffer : Memory} {ret : Int}
    (first : FirstLine parser.text line rest) (kept : load buffer 0 rest.length = rest)
    (pending : parser.resCmd = some request) :
    Settled stream (Parser.answer { parser with buffer, recvSize := rest.length }
      ⟨request, line, ret⟩) :=
  { base with
    fits := by
      obtain ⟨blanks, c, text, -⟩ := first
      have size := congrArg length text
      simp only [length_text, length_append, length_cons] at size
      have := base.fits
      simp only [Parser.answer]
      omega
    consumed := by
      obtain ⟨consumed, arrived, before⟩ := base.consumed
      obtain ⟨blanks, c, text, facts⟩ := first
      refine ⟨consumed ++ (blanks ++ (line ++ [c])), ?_, fun more => ?_⟩
      · have left : (Parser.answer { parser with buffer, recvSize := rest.length }
            ⟨request, line, ret⟩).text = rest := kept
        rw [left]
        simp only [Parser.answer, arrived, text, append_assoc, cons_append,
          nil_append]
      · have next : FirstLine _ line [] := ⟨blanks, c, rfl, facts⟩
        rw [append_assoc, before, next.lines_append]
        simp [Parser.answer]
    order := by simp [Parser.answer, base.order, pending]
    pending := nofun
    noticed := { base.noticed with }
    waits := fun some => absurd rfl some }

theorem Base.cmdProcess (base : Base stream parser) (analysisLine : List UInt8 → List UInt8 → Int)
    (nonzero : 0 ∉ stream) :
    ∃ ret parser', parser.cmdProcess analysisLine = .ok (ret, parser') ∧ ret ≠ 0 ∧
      parser'.handling = parser.handling ∧ parser'.queued = parser.queued ∧
      parser'.uart = parser.uart ∧ parser'.history.arrived = parser.history.arrived ∧
      Settled stream parser' := by
  have nonzero' : 0 ∉ parser.text := fun zero => nonzero (base.text_infix.subset zero)
  have small : parser.recvSize < bufferSize := by have := base.fits; omega
  cases pending : parser.resCmd with
  | none =>
    refine ⟨-1, parser, ?_, by decide, rfl, rfl, rfl, rfl, base, fun some => absurd pending some⟩
    simp [Parser.cmdProcess, base.detchOob, pending]
  | some request =>
    obtain ⟨cmd, line⟩ := base.pending request pending
    have process := cmdProcess_line analysisLine base.findOob pending cmd line
    obtain ⟨line, rest, buffer, first, kept, answered⟩ | ⟨none_, waits⟩ :=
      cmdLineProcess_cases analysisLine request nonzero' small
    · refine ⟨_, _, process.trans answered, by decide, rfl, rfl, rfl, rfl, ?_⟩
      exact base.answered first kept pending
    · exact ⟨-1, parser, process.trans waits, by decide, rfl, rfl, rfl, rfl, base, fun _ => none_⟩

theorem Base.filled (base : Base stream parser) : Base stream parser.filled.terminate :=
  { base with
    consumed := by
      obtain ⟨consumed, arrived, before⟩ := base.consumed
      refine ⟨consumed, ?_, before⟩
      have none_ : parser.filled.terminate.uart = [] := rfl
      rw [text_terminate, text_filled, none_, append_nil]
      exact arrived
    noticed := base.noticed.filled }

theorem Settled.finished (settled : Settled stream parser) (running : parser.handling = some false)
    (empty : parser.uart = []) :
    Settled stream { parser with haveUartEvent := parser.haveUartEvent - 1, handling := none } :=
  { settled with
    change := nofun
    noticed := settled.noticed.finished running empty }

variable (analysisLine : List UInt8 → List UInt8 → Int)

theorem Base.process (base : Base stream parser) (nonzero : 0 ∉ stream)
    (running : parser.handling = some false) (result : CallbackResult) :
    ∃ parser', parser.process analysisLine result = .ok parser' ∧ Settled stream parser' ∧
      parser'.history.arrived = parser.history.arrived ∧ parser'.queued = parser.queued ∧
      parser'.uart = parser.uart ∧ parser'.handling = some false := by
  cases mode : parser.mode with
  | oob => exact absurd mode base.mode
  | idle =>
    refine ⟨parser, ?_, ⟨base, fun some => ?_⟩, rfl, rfl, rfl, running⟩
    · exact process_quiet analysisLine result running base.mode base.findOob fun cmd => by
        rw [mode] at cmd
        cases cmd
    obtain ⟨request, pending⟩ := Option.ne_none_iff_exists'.mp some
    have cmd := (base.pending request pending).1
    rw [mode] at cmd
    cases cmd
  | cmd =>
    obtain ⟨ret, parser', done, nonzero_, handling, queued, uart, arrived, settled⟩ :=
      base.cmdProcess analysisLine nonzero
    refine ⟨parser', ?_, settled, arrived, queued, uart, handling.trans running⟩
    simp [Parser.process, mode, done, bind, Except.bind, nonzero_,
      loop_eq (handling.trans running)]

theorem Settled.iterate (settled : Settled stream parser) (nonzero : 0 ∉ stream)
    (running : parser.handling = some false) (result : CallbackResult) :
    ∃ parser', parser.iterate analysisLine result = .ok parser' ∧ Settled stream parser' ∧
      parser'.history.arrived = parser.history.arrived ∧ parser'.queued = parser.queued ∧
      parser'.uart = [] ∧ (parser.uart = [] → parser'.handling = none) ∧
      (parser.uart ≠ [] → parser'.handling = some false) := by
  have fits := settled.fits
  by_cases empty : parser.uart = []
  · exact ⟨_, iterate_empty analysisLine result running settled.mode (by omega) empty,
      settled.finished running empty, rfl, rfl, empty, fun _ => rfl, fun some => absurd empty some⟩
  obtain ⟨parser', done, settled', arrived, queued, uart, handling⟩ :=
    settled.filled.process analysisLine nonzero running result
  have reads := iterate_reads analysisLine result running empty (by omega) (by omega)
  exact ⟨parser', reads.trans done, settled', arrived, queued, uart,
    fun none_ => absurd none_ empty, fun _ => handling⟩

/-! ## Every step -/

section

variable (settled : Settled stream parser)

include settled

theorem Settled.uartEvent {bytes : List UInt8} (order : parser.history.arrived ++ bytes <+: stream)
    (fits : parser.recvSize + parser.uart.length + bytes.length + 2 ≤ bufferSize) :
    Settled stream (parser.uartEvent bytes) := by
  obtain ⟨consumed, arrived, before⟩ := settled.consumed
  have noticed := settled.noticed.uartEvent bytes
  obtain ⟨haveUartEvent, queued, same⟩ := uartEvent_eq parser bytes
  rw [same] at noticed ⊢
  have consumed' : ∃ consumed, parser.history.arrived ++ bytes =
      consumed ++ (parser.text ++ (parser.uart ++ bytes)) ∧
      ∀ more, lines _ = parser.history.answers.map Answer.text ++ lines more :=
    ⟨consumed, by rw [arrived]; simp only [append_assoc], before⟩
  have fits' : parser.recvSize + (parser.uart ++ bytes).length + 2 ≤ bufferSize := by
    rw [length_append]
    omega
  exact { settled with fits := fits', arrived := order, consumed := consumed', noticed }

theorem Settled.interrupt (ended : parser.handling = none) (waiting : 0 < parser.queued) :
    Settled stream { parser with queued := parser.queued - 1, handling := some false } :=
  { settled with
    change := nofun
    noticed := settled.noticed.interrupt ended waiting }

theorem Settled.request {request : Request}
    (cmd : parser.mode = .cmd) (none_ : parser.resCmd = none) (line : request.type = .line) :
    Base stream (parser.asked request) :=
  { settled with
    order := by simp [Parser.asked, settled.order, none_]
    pending := fun request' same => by
      cases same
      exact ⟨cmd, line⟩
    noticed := { settled.noticed with } }

theorem Settled.sendCmdHandle : Settled stream parser.sendCmdHandle :=
  { settled with
    mode := nofun
    pending := fun request same => ⟨rfl, (settled.pending request same).2⟩
    noticed := { settled.noticed with } }

theorem Settled.exitCmdHandle (none_ : parser.resCmd = none) :
    Settled stream parser.exitCmdHandle :=
  { settled with
    mode := by
      have mode := settled.mode
      simp only [Parser.exitCmdHandle]
      split
      · nofun
      · exact mode
    pending := fun request same => by
      rw [show parser.exitCmdHandle.resCmd = none from none_] at same
      cases same
    noticed := { settled.noticed with } }

theorem Settled.register {oobHead : List Oob}
    (oobs : ∀ oob ∈ oobHead, oob.Whole ∧ ¬ oob.prefixText <:+: stream) :
    Settled stream { parser with oobHead } :=
  { settled with oobs, noticed := { settled.noticed with } }

theorem Settled.oobCreate {prefixText : List UInt8} (cb : Nat)
    (alloc : Bool) (short : prefixText.length < 256) (absent : ¬ prefixText <:+: stream) :
    Settled stream (parser.oobCreate prefixText cb alloc).2 := by
  unfold Parser.oobCreate
  split
  · exact settled
  rename_i some
  split
  · exact settled
  split
  · exact settled
  · exact settled.register (forall_mem_cons.mpr
      ⟨⟨⟨some, UInt8.toNat_ofNat_of_lt' short⟩, absent⟩, settled.oobs⟩)

theorem Settled.oobDelete (prefixText : List UInt8) :
    Settled stream (parser.oobDelete prefixText).2 := by
  unfold Parser.oobDelete
  split
  · exact settled.register fun oob member => settled.oobs oob (mem_of_mem_eraseP member)
  · exact settled

end

theorem handle_cases (parser : Parser) {next : Except Stop Parser} {holds : Parser → Prop}
    (done : ∃ parser', next = .ok parser' ∧ holds parser') :
    parser.handle next = .error .notReady ∨
      ∃ parser', parser.handle next = .ok parser' ∧ holds parser' := by
  unfold Parser.handle
  split
  · exact .inr done
  · exact .inl rfl

theorem Settled.perform (settled : Settled stream parser) (nonzero : 0 ∉ stream) {action : Action}
    (kept : Kept (bufferSize - 2) stream parser action) :
    step analysisLine parser action = .error .notReady ∨
      ∃ parser', step analysisLine parser action = .ok parser' ∧ Settled stream parser' := by
  cases action with
  | arrive bytes =>
    refine .inr ⟨_, rfl, settled.uartEvent kept.1 ?_⟩
    have := kept.2
    have : bufferSize = 2048 := rfl
    omega
  | interrupt =>
    by_cases ready : parser.handling = none ∧ 0 < parser.queued
    · exact .inr ⟨_, interrupt_starts analysisLine ready.1 ready.2,
        settled.interrupt ready.1 ready.2⟩
    · exact .inl (if_neg ready)
  | iterate result =>
    rcases handling_cases settled.change with ended | running
    · exact .inl (by simp [step, Parser.iterate, ended])
    · obtain ⟨parser', done, settled', -⟩ :=
        settled.iterate analysisLine nonzero running result
      exact .inr ⟨parser', done, settled'⟩
  | recv request =>
    obtain ⟨cmd, none_, line⟩ := kept
    obtain ⟨ret, parser', done, -, -, -, -, -, settled'⟩ :=
      (settled.request cmd none_ line).cmdProcess analysisLine nonzero
    refine handle_cases parser ⟨parser', ?_, settled'⟩
    simp [Parser.recvCmdHandle, done, bind, Except.bind]
  | send => exact handle_cases parser ⟨_, rfl, settled.sendCmdHandle⟩
  | exit => exact handle_cases parser ⟨_, rfl, settled.exitCmdHandle kept⟩
  | create prefixText cb alloc =>
    exact handle_cases parser ⟨_, rfl, settled.oobCreate cb alloc kept.1 kept.2⟩
  | delete prefixText => exact handle_cases parser ⟨_, rfl, settled.oobDelete prefixText⟩

/-! ## The loop comes to its end -/

theorem Settled.loop_ends (settled : Settled stream parser) (nonzero : 0 ∉ stream)
    (result : CallbackResult) :
    ∃ parser', Reaches (step analysisLine) (Own result) parser parser' ∧ Settled stream parser' ∧
      parser'.history.arrived = parser.history.arrived ∧ parser'.queued = parser.queued ∧
      parser'.handling = none := by
  rcases handling_cases settled.change with ended | running
  · exact ⟨parser, .refl, settled, rfl, rfl, ended⟩
  obtain ⟨next, first, settled₁, arrived₁, queued₁, empty, ended, goes⟩ :=
    settled.iterate analysisLine nonzero running result
  have start : Reaches (step analysisLine) (Own result) parser next :=
    .tail .refl (.inr rfl) first
  by_cases none_ : parser.uart = []
  · exact ⟨next, start, settled₁, arrived₁, queued₁, ended none_⟩
  -- the second iteration finds nothing to read
  obtain ⟨last, second, settled₂, arrived₂, queued₂, -, ended₂, -⟩ :=
    settled₁.iterate analysisLine nonzero (goes none_) result
  exact ⟨last, start.tail (.inr rfl) second, settled₂, arrived₂.trans arrived₁,
    queued₂.trans queued₁, ended₂ empty⟩

theorem Settled.comes_to_rest (nonzero : 0 ∉ stream) (result : CallbackResult) :
    ∀ (notices : Nat) (parser : Parser), Settled stream parser → parser.queued = notices →
      ∃ parser', Reaches (step analysisLine) (Own result) parser parser' ∧
        Settled stream parser' ∧ parser'.history.arrived = parser.history.arrived ∧ parser'.Rest
  | 0, parser, settled, queued => by
    obtain ⟨last, run, settled', arrived, queued', ended⟩ :=
      settled.loop_ends analysisLine nonzero result
    exact ⟨last, run, settled', arrived, queued'.trans queued, ended⟩
  | notices + 1, parser, settled, queued => by
    obtain ⟨next, run, settled₁, arrived₁, queued₁, ended⟩ :=
      settled.loop_ends analysisLine nonzero result
    have waiting : 0 < next.queued := by omega
    have start := interrupt_starts analysisLine ended waiting
    obtain ⟨last, rest, settled₂, arrived₂, end_⟩ :=
      comes_to_rest nonzero result notices _
        (settled₁.interrupt ended waiting) (by simp only; omega)
    exact ⟨last, (run.tail (.inl rfl) start).trans rest, settled₂, arrived₂.trans arrived₁, end_⟩

theorem Settled.answers_are_lines (settled : Settled stream parser) :
    parser.history.answers.map Answer.text <+: lines stream := by
  obtain ⟨consumed, arrived, before⟩ := settled.consumed
  obtain ⟨future, rfl⟩ := settled.arrived
  rw [arrived, append_assoc, before]
  exact prefix_append _ _

theorem Settled.answers_all (settled : Settled stream parser) (rest : parser.Rest)
    (waits : parser.resCmd ≠ none) :
    lines parser.history.arrived = parser.history.answers.map Answer.text := by
  obtain ⟨consumed, arrived, before⟩ := settled.consumed
  rw [arrived, before, settled.noticed.empty rest, append_nil, (settled.waits waits).lines,
    append_nil]

/-- **The requests are answered from the lines of the stream**, the k-th one from the k-th line. -/
theorem recv_answers_lines (analysisLine : List UInt8 → List UInt8 → Int) (buffer : Memory)
    {stream : List UInt8} (nonzero : 0 ∉ stream) {parser : Parser}
    (run : Reaches (step analysisLine) (Kept (bufferSize - 2) stream) (Parser.init buffer) parser) :
    parser.history.calls = parser.history.answers.map Answer.request ++ parser.resCmd.toList ∧
    parser.history.answers.map Answer.text <+: lines stream ∧
    (∀ action, Kept (bufferSize - 2) stream parser action →
      step analysisLine parser action ≠ .error .fault) ∧
    ∀ result, ∃ parser', Reaches (step analysisLine) (Own result) parser parser' ∧ parser'.Rest ∧
      (parser'.resCmd ≠ none →
        lines parser.history.arrived = parser'.history.answers.map Answer.text) := by
  have settled : Settled stream parser := by
    refine run.invariant (settled_init stream buffer) fun s action s' settled kept done => ?_
    obtain stopped | ⟨next, done', settled'⟩ := settled.perform analysisLine nonzero kept
    · rw [stopped] at done
      cases done
    · rw [done'] at done
      cases done
      exact settled'
  refine ⟨settled.order, settled.answers_are_lines, fun action kept fault => ?_, fun result => ?_⟩
  · obtain stopped | ⟨next, done, -⟩ := settled.perform analysisLine nonzero kept
    · rw [stopped] at fault
      cases fault
    · rw [done] at fault
      cases fault
  · obtain ⟨last, path, settled', arrived, rest⟩ :=
      Settled.comes_to_rest analysisLine nonzero result parser.queued parser settled rfl
    exact ⟨last, path, rest, fun waits => by rw [← arrived, settled'.answers_all rest waits]⟩

/-! ## Runs in command mode -/

theorem Parser.Still.recv (still : parser.Still) (cmd : parser.mode = .cmd)
    (oobs : parser.oobHead = []) (nonzero : 0 ∉ parser.text) (small : parser.recvSize < bufferSize)
    (first : FirstLine parser.text line rest) (analysisLine : List UInt8 → List UInt8 → Int)
    (response : List UInt8) :
    ∃ parser', step analysisLine parser (.recv ⟨response, .line⟩) = .ok parser' ∧ parser'.Still ∧
      parser'.text = rest ∧ parser'.mode = .cmd ∧ parser'.oobHead = [] ∧
      parser'.history.arrived = parser.history.arrived ∧
      parser'.history.answers.map Answer.text =
        parser.history.answers.map Answer.text ++ [line] := by
  let request : Request := ⟨response, .line⟩
  have nothing : (parser.asked request).findOob = none := by
    refine findOob_eq_none ?_ ?_
    · simp [Parser.asked, oobs]
    · simp [Parser.asked, oobs]
  have process := cmdProcess_line analysisLine nothing rfl cmd rfl
  obtain ⟨line', rest', buffer, first', kept, answered⟩ | ⟨none_, -⟩ :=
    @cmdLineProcess_cases (parser.asked request) analysisLine request nonzero small
  · obtain rfl : line' = line := first'.unique.1.trans first.unique.1.symm
    obtain rfl : rest' = rest := first'.unique.2.trans first.unique.2.symm
    have done : step analysisLine parser (.recv request) =
        .ok (Parser.answer { parser.asked request with buffer, recvSize := rest'.length }
          ⟨request, line', analysisLine response line'⟩) := by
      have handled := process.trans answered
      refine (if_pos still.rest.2).trans ?_
      simp only [Parser.recvCmdHandle, handled, bind, Except.bind]
      rfl
    exact ⟨_, done, ⟨still.rest, still.events, still.uart, still.mode, rfl⟩, kept, cmd, oobs, rfl,
      by simp [Parser.answer, Parser.asked]⟩
  have empty : lines parser.text = [] := none_.lines
  have some := first.lines_append []
  rw [append_nil, empty] at some
  cases some

variable (limit : Nat) (stream : List UInt8) (buffer : Memory)

/-- A parser in command mode can be at rest with the text in its buffer, after the bytes have
arrived and requests were answered from the lines. -/
def CanHold (text arrived : List UInt8) (answered : List (List UInt8)) : Prop :=
  ∃ parser, Reaches (step analysisLine) (Kept limit stream) (Parser.init buffer) parser ∧
    parser.Still ∧ parser.mode = .cmd ∧ parser.oobHead = [] ∧ parser.text = text ∧
    parser.history.arrived = arrived ∧ parser.history.answers.map Answer.text = answered

theorem canHold_nil : CanHold analysisLine limit stream buffer [] [] [] :=
  ⟨(Parser.init buffer).sendCmdHandle, .tail .refl (a := .send) trivial rfl,
    ⟨⟨rfl, rfl⟩, rfl, rfl, nofun, rfl⟩, rfl, rfl, rfl, rfl, rfl⟩

variable {analysisLine limit stream buffer} {arrived : List UInt8} {answered : List (List UInt8)}

theorem CanHold.arrive (holds : CanHold analysisLine limit stream buffer text arrived answered)
    (bytes : List UInt8) (nonempty : bytes ≠ []) (room : text.length + 1 < bufferSize)
    (fits : text.length + bytes.length < bufferSize) (within : text.length + bytes.length ≤ limit)
    (order : arrived ++ bytes <+: stream) :
    CanHold analysisLine limit stream buffer
      (if text.length + bytes.length + 1 = bufferSize then (text ++ bytes).dropLast
        else text ++ bytes)
      (arrived ++ bytes) answered := by
  obtain ⟨parser, run, still, cmd, oobs, rfl, rfl, rfl⟩ := holds
  rw [length_text] at room fits within ⊢
  have allowed : Kept limit stream parser (.arrive bytes) := by
    refine ⟨order, ?_⟩
    rw [still.uart]
    exact within
  have quiet : ∀ oob ∈ parser.oobHead, oob.Whole ∧ ¬ oob.prefixText <:+: parser.text ++ bytes := by
    rw [oobs]
    nofun
  obtain ⟨parser', more, still', text', cmd', oobs', history'⟩ := still.arrive analysisLine
    ⟨0, 0, true⟩ nonempty room fits quiet allowed fun _ => ⟨trivial, trivial⟩
  exact ⟨parser', run.trans more, still', cmd'.trans cmd, oobs'.trans oobs, text',
    by rw [history'], by rw [history']⟩

theorem CanHold.recv (holds : CanHold analysisLine limit stream buffer text arrived answered)
    (line rest : List UInt8) (first : FirstLine text line rest) (nonzero : 0 ∉ text)
    (small : text.length < bufferSize) :
    CanHold analysisLine limit stream buffer rest arrived (answered ++ [line]) := by
  obtain ⟨parser, run, still, cmd, oobs, rfl, rfl, rfl⟩ := holds
  rw [length_text] at small
  obtain ⟨parser', done, still', text', cmd', oobs', arrived', answers'⟩ :=
    still.recv cmd oobs nonzero small first analysisLine []
  have allowed : Kept limit stream parser (.recv ⟨[], .line⟩) := ⟨cmd, still.resCmd, rfl⟩
  exact ⟨parser', run.tail allowed done, still', cmd', oobs', text', arrived', answers'⟩

theorem recv_answers_lines_ok :
    0 ∉ [79, 75, (13 : UInt8)] ∧ ∃ parser,
      Reaches (step fun _ _ => 0) (Kept (bufferSize - 2) [79, 75, 13])
        (Parser.init fun _ => 0) parser ∧
      parser.history.answers.map Answer.text = [[79, 75]] ∧
      parser.history.answers.map Answer.text <+: lines [79, 75, 13] := by
  have nonzero : 0 ∉ [79, 75, (13 : UInt8)] := by decide
  have half := (canHold_nil (fun _ _ => 0) (bufferSize - 2) [79, 75, 13] fun _ => 0).arrive
    [79] (by decide) (by decide) (by decide) (by decide) (by decide)
  have whole := half.arrive [75, 13] (by decide) (by decide) (by decide) (by decide) (by decide)
  obtain ⟨parser, run, -, -, -, -, -, answers⟩ := whole.recv [79, 75] []
    ⟨[], 13, rfl, nofun, by decide, by simp [isBreak], rfl⟩ nonzero (by decide)
  exact ⟨nonzero, parser, run, answers, (recv_answers_lines _ _ nonzero run).2.1⟩

theorem CanHold.lost (analysisLine : List UInt8 → List UInt8 → Int) (buffer : Memory)
    (size : line.length + 4 = bufferSize) (nonzero : 0 ∉ line)
    (inside : ∀ b ∈ line, isBreak b = false) :
    CanHold analysisLine (bufferSize - 1) ([65, 13] ++ line ++ [13] ++ [67, 13]) buffer []
      ([65, 13] ++ line ++ [13] ++ [67, 13]) [[65], line ++ [67]] := by
  have first : FirstLine _ [65] line :=
    ⟨[], 13, rfl, nofun, by decide, by simp [isBreak], rfl⟩
  have joined : FirstLine (line ++ [67, 13]) (line ++ [67]) [] := by
    refine ⟨[], 13, by simp, nofun, by simp, fun b member => ?_, rfl⟩
    rcases mem_append.mp member with member | member
    · exact inside b member
    · rw [mem_singleton.mp member]
      rfl
  have filled := (canHold_nil analysisLine (bufferSize - 1)
    ([65, 13] ++ line ++ [13] ++ [67, 13]) buffer).arrive ([65, 13] ++ line ++ [13]) (by simp)
    (by simp; omega) (by simp; omega) (by simp; omega) (prefix_append _ _)
  rw [if_pos (by simp; omega), nil_append, dropLast_concat] at filled
  have asked := filled.recv [65] line first (by simp [nonzero]) (by simp; omega)
  have more := asked.arrive [67, 13] (by simp) (by omega) (by simp; omega) (by simp; omega)
    (by simp)
  rw [if_neg (by simp; omega)] at more
  exact more.recv _ [] joined (by simp [nonzero]) (by simp; omega)

/-- **The end of a line is lost** when it fills the buffer: the second request is answered from the
second line and the third one. -/
theorem line_end_lost :
    0 ∉ [65, 13] ++ replicate 2044 98 ++ [13] ++ [67, (13 : UInt8)] ∧
    lines ([65, 13] ++ replicate 2044 98 ++ [13] ++ [67, 13]) =
      [[65], replicate 2044 98, [67]] ∧
    ∃ parser, Reaches (step fun _ _ => 0)
        (Kept (bufferSize - 1) ([65, 13] ++ replicate 2044 98 ++ [13] ++ [67, 13]))
        (Parser.init fun _ => 0) parser ∧
      parser.history.answers.map Answer.text = [[65], replicate 2044 98 ++ [67]] := by
  have size : (replicate 2044 (98 : UInt8)).length + 4 = bufferSize := by
    rw [length_replicate]
    rfl
  have each : ∀ b ∈ replicate 2044 (98 : UInt8), b = 98 := fun b => eq_of_mem_replicate
  generalize replicate 2044 _ = line at size each
  have nonzero : 0 ∉ line := fun member => absurd (each 0 member) (by decide)
  have inside : ∀ b ∈ line, isBreak b = false := fun b member => by
    rw [each b member]
    rfl
  have nonempty : line ≠ [] := by
    rintro rfl
    cases size
  refine ⟨by simp [nonzero], ?_, ?_⟩
  · have one : FirstLine [65, 13] [65] [] := ⟨[], 13, rfl, nofun, by decide, by simp [isBreak], rfl⟩
    have two : FirstLine (line ++ [13]) line [] := ⟨[], 13, rfl, nofun, nonempty, inside, rfl⟩
    have three : lines [67, 13] = [[67]] := by decide
    rw [append_assoc, append_assoc, one.lines_append, nil_append,
      ← append_assoc, two.lines_append, nil_append, three]
  · obtain ⟨parser, run, -, -, -, -, -, answers⟩ :=
      CanHold.lost _ _ size nonzero inside
    exact ⟨parser, run, answers⟩

end Phy6212.AtParser
