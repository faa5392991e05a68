import Phy6212.CLib.Memory
import Phy6212.CLib.Strings
import Phy6212.Runs.Reach

/-!
# The AT parser

The AT parser reads the answers of a modem. Requests and notices of the UART are handled one after
the other; for a notice the loop of `interrupt_cmd_handle` reads what the UART has and looks at the
buffer as the mode says.
-/

namespace Phy6212.AtParser

open List CLib Runs

/-- `BUF_MIN_SIZE`; the buffer is never enlarged. -/
def bufferSize : Nat := 1024 * 2

def einval : Int := 22

def enomem : Int := 12

inductive Mode where
  | idle
  | oob
  | cmd
  deriving DecidableEq, Repr

inductive RecvType where
  | line
  | str
  deriving DecidableEq, Repr

structure Request where
  response : List UInt8
  type : RecvType
  deriving DecidableEq, Repr

structure Oob where
  len : UInt8
  prefixText : List UInt8
  cb : Nat
  deriving DecidableEq, Repr

structure Answer where
  request : Request
  text : List UInt8
  ret : Int
  deriving DecidableEq, Repr

/-- What has happened: the bytes of the modem, the requests and their answers, and the calls of
callbacks with the bytes that they were shown. -/
structure History where
  arrived : List UInt8
  calls : List Request
  answers : List Answer
  callbacks : List (Oob × List UInt8)

/-- `atparser_uservice_t`, with the bytes in the UART, the notices in the queue of the service and
the value of `change`, when the loop of `interrupt_cmd_handle` is running. -/
structure Parser where
  buffer : Memory
  recvSize : Nat
  haveUartEvent : Nat
  mode : Mode
  cmdModeFlag : Bool
  oob : Option Oob
  oobHead : List Oob
  resCmd : Option Request
  oobData : Bool
  uart : List UInt8
  queued : Nat
  handling : Option Bool
  history : History

def Parser.init (buffer : Memory) : Parser where
  buffer := buffer
  recvSize := 0
  haveUartEvent := 0
  mode := .idle
  cmdModeFlag := false
  oob := none
  oobHead := []
  resCmd := none
  oobData := false
  uart := []
  queued := 0
  handling := none
  history := ⟨[], [], [], []⟩

/-- An action is not possible yet, or the memory around the buffer is touched. -/
inductive Stop where
  | notReady
  | fault
  deriving DecidableEq, Repr

def Parser.text (parser : Parser) : List UInt8 := load parser.buffer 0 parser.recvSize

/-! ## The buffer -/

def isBreak (c : UInt8) : Bool := c = 13 ∨ c = 10

def isEnd (c : UInt8) : Bool := c = 13 ∨ c = 10 ∨ c = 0

def Parser.atparserMove (parser : Parser) (offset : Nat) : Except Stop Parser :=
  if parser.recvSize < offset then .error .fault
  else
    let recvSize := parser.recvSize - offset
    let buffer := store parser.buffer 0 (load parser.buffer offset recvSize)
    .ok { parser with buffer := store buffer recvSize [0], recvSize }

/-- The loop of `read_line` from a place on: the first byte of the line and its end. -/
def readLineFrom (buffer : Memory) : Nat → Nat → Option Nat → Option (Nat × Nat)
  | _, 0, _ => none
  | i, len + 1, none => readLineFrom buffer (i + 1) len (if isEnd (buffer i) then none else some i)
  | i, len + 1, some offset =>
    if isEnd (buffer i) then some (offset, i) else readLineFrom buffer (i + 1) len (some offset)

def Parser.readLine (parser : Parser) (len : Nat) : Option (Nat × Nat × Parser) :=
  match readLineFrom parser.buffer 0 len none with
  | none => none
  | some (offset, i) =>
    some (offset, i - offset + 1, { parser with buffer := store parser.buffer i [0] })

/-- `uart_recv` without waiting: the result, the bytes read and those left. -/
def uartRecv (uart : List UInt8) (size : Nat) : Int × List UInt8 × List UInt8 :=
  if size = 0 then (-1, [], uart) else ((uart.take size).length, uart.take size, uart.drop size)

def Parser.fullBuffer (parser : Parser) : Int × Parser :=
  let expectedSize := bufferSize - parser.recvSize - 1
  let (recvSize, data, uart) := uartRecv parser.uart expectedSize
  (recvSize, { parser with
    buffer := store parser.buffer parser.recvSize data
    recvSize := (parser.recvSize + recvSize).toNat
    uart })

def Parser.terminate (parser : Parser) : Parser :=
  { parser with buffer := store parser.buffer parser.recvSize [0] }

def Parser.stringAt (parser : Parser) (place : Nat) : Except Stop (List UInt8) :=
  match textAt (load parser.buffer 0 bufferSize) place with
  | none => .error .fault
  | some text => .ok text

/-! ## Out-of-band data -/

def Oob.isAt (oob : Oob) (parser : Parser) (i : Nat) : Bool :=
  oob.len.toNat ≤ parser.recvSize - i ∧
    oob.prefixText.take oob.len.toNat = load parser.buffer i oob.len.toNat

def Parser.findOob (parser : Parser) : Option (Nat × Oob) :=
  (range parser.recvSize).findSome? fun i =>
    (parser.oobHead.find? fun oob => oob.isAt parser i).map fun oob => (i, oob)

def Parser.detchOob (parser : Parser) : Option (Nat × Nat) × Parser :=
  match parser.findOob with
  | none => (none, parser)
  | some (i, oob) => (some (i, i + oob.len.toNat), { parser with oob := some oob })

def Parser.oobCreate (parser : Parser) (prefixText : List UInt8) (cb : Nat) (alloc : Bool) :
    Int × Parser :=
  if prefixText = [] then (-einval, parser)
  else if parser.oobHead.any fun oob => oob.prefixText = prefixText then (-einval, parser)
  else if alloc = false then (-enomem, parser)
  else
    let oob : Oob := ⟨UInt8.ofNat prefixText.length, prefixText, cb⟩
    (0, { parser with oobHead := oob :: parser.oobHead })

def Parser.oobDelete (parser : Parser) (prefixText : List UInt8) : Int × Parser :=
  if parser.oobHead.any fun oob => oob.prefixText = prefixText then
    (0, { parser with oobHead := parser.oobHead.eraseP fun oob => oob.prefixText = prefixText })
  else (-einval, parser)

/-- What a callback does: how much of the bytes it uses, and its result. -/
structure CallbackResult where
  usedLen : Nat
  ret : Int
  alloc : Bool
  deriving DecidableEq, Repr

def Parser.called (parser : Parser) (oob : Oob) : Parser :=
  let callbacks := parser.history.callbacks ++ [(oob, parser.text)]
  { parser with oobData := true, history := { parser.history with callbacks } }

def Parser.oobProcess (parser : Parser) (result : CallbackResult) : Except Stop (Int × Parser) :=
  match parser.oob with
  | none => .error .fault
  | some oob =>
    if parser.oobData = false ∧ result.alloc = false then .error .fault
    else do
      let moved ← (parser.called oob).atparserMove result.usedLen
      .ok (result.ret, moved)

def Parser.idleProcess (parser : Parser) : Except Stop (Int × Parser) :=
  match parser.detchOob with
  | (none, parser) => .ok (-1, parser)
  | (some (_, offset), parser) => do
      let moved ← parser.atparserMove offset
      .ok (0, moved)

/-! ## Requests -/

def Parser.answer (parser : Parser) (answer : Answer) : Parser :=
  { parser with
    resCmd := none
    history := { parser.history with answers := parser.history.answers ++ [answer] } }

variable (analysisLine : List UInt8 → List UInt8 → Int)

def Parser.analyse (parser : Parser) (request : Request) (offset size : Nat) :
    Except Stop (Int × Parser) := do
  let line ← parser.stringAt offset
  let moved ← parser.atparserMove (offset + size)
  .ok (-2, moved.answer ⟨request, line, analysisLine request.response line⟩)

def Parser.cmdLineProcess (parser : Parser) (request : Request) :
    Option Nat → Except Stop (Int × Parser)
  | none =>
    match parser.readLine parser.recvSize with
    | none => .ok (-1, parser)
    | some (offset, size, parser) => parser.analyse analysisLine request offset size
  | some 0 => .ok (0, parser)
  | some (place + 1) =>
    match parser.readLine (place + 1) with
    | none => .ok (0, parser)
    | some (offset, size, parser) => parser.analyse analysisLine request offset size

def Parser.analysisStr (parser : Parser) (str text : List UInt8) : Except Stop (Int × Parser) :=
  match strstr str text with
  | none => .ok (-1, parser)
  | some place =>
    if (load parser.buffer 0 place).all isBreak then do
      let moved ← parser.atparserMove (str.length + place)
      .ok (0, moved)
    else .ok (-1, parser)

def Parser.getStrLen (parser : Parser) (len : Nat) : Nat :=
  ((load parser.buffer 0 len).dropWhile isBreak).length

def Parser.compare (parser : Parser) (request : Request) : Except Stop (Int × Parser) := do
  let text ← parser.stringAt 0
  let (ret, moved) ← parser.analysisStr request.response text
  .ok (-2, moved.answer ⟨request, text, ret⟩)

def Parser.cmdStrProcess (parser : Parser) (request : Request) :
    Option Nat → Except Stop (Int × Parser)
  | none =>
    if parser.getStrLen parser.recvSize < request.response.length then .ok (-1, parser)
    else parser.compare request
  | some 0 => .ok (0, parser)
  | some (place + 1) =>
    if parser.getStrLen (place + 1) < request.response.length then .ok (0, parser)
    else parser.compare request

def Parser.cmdProcess (parser : Parser) : Except Stop (Int × Parser) :=
  let (found, parser) := parser.detchOob
  match parser.resCmd, found with
  | none, none => .ok (-1, parser)
  | none, some (offset, _) =>
    if (load parser.buffer 0 offset).all isBreak then .ok (0, parser) else .ok (-3, parser)
  | some request, found =>
    if parser.mode = .cmd then
      match request.type with
      | .line => parser.cmdLineProcess analysisLine request (found.map Prod.fst)
      | .str => parser.cmdStrProcess request (found.map Prod.fst)
    else .ok (-1, parser)

def Parser.asked (parser : Parser) (request : Request) : Parser :=
  let calls := parser.history.calls ++ [request]
  { parser with resCmd := some request, history := { parser.history with calls } }

def Parser.recvCmdHandle (parser : Parser) (request : Request) : Except Stop Parser := do
  let (_, parser) ← (parser.asked request).cmdProcess analysisLine
  .ok parser

def Parser.sendCmdHandle (parser : Parser) : Parser :=
  { parser with mode := .cmd, cmdModeFlag := true }

def Parser.exitCmdHandle (parser : Parser) : Parser :=
  { parser with mode := if parser.mode = .cmd then .idle else parser.mode, cmdModeFlag := false }

/-! ## The loop -/

def Parser.process (parser : Parser) (result : CallbackResult) : Except Stop Parser :=
  match parser.mode with
  | .oob => do
      let (ret, parser) ← parser.oobProcess result
      if ret = 0 then
        .ok { parser with
          mode := if parser.cmdModeFlag then .cmd else .idle
          oobData := false
          handling := some true }
      else .ok { parser with handling := some false }
  | .idle => do
      let (ret, parser) ← parser.idleProcess
      if ret = 0 then .ok { parser with mode := .oob, handling := some true }
      else .ok { parser with handling := some false }
  | .cmd => do
      let (ret, parser) ← parser.cmdProcess analysisLine
      if ret = 0 then .ok { parser with mode := .idle, handling := some true }
      else .ok { parser with handling := some false }

/-- An iteration of the loop of `interrupt_cmd_handle`. -/
def Parser.iterate (parser : Parser) (result : CallbackResult) : Except Stop Parser :=
  match parser.handling with
  | none => .error .notReady
  | some change =>
    let (len, parser) := parser.fullBuffer
    if len ≤ 0 ∧ change = false ∧ parser.mode ≠ .oob then
      .ok { parser with haveUartEvent := parser.haveUartEvent - 1, handling := none }
    else parser.terminate.process analysisLine result

def Parser.uartEvent (parser : Parser) (bytes : List UInt8) : Parser :=
  let arrived := parser.history.arrived ++ bytes
  let parser := { parser with
    uart := parser.uart ++ bytes, history := { parser.history with arrived } }
  if parser.haveUartEvent < 2 then
    { parser with haveUartEvent := parser.haveUartEvent + 1, queued := parser.queued + 1 }
  else parser

/-- What happens: bytes arrive, the loop starts for a notice or makes an iteration, or another
request is handled. -/
inductive Action where
  | arrive (bytes : List UInt8)
  | interrupt
  | iterate (result : CallbackResult)
  | recv (request : Request)
  | send
  | exit
  | create (prefixText : List UInt8) (cb : Nat) (alloc : Bool)
  | delete (prefixText : List UInt8)

def Parser.interrupt (parser : Parser) : Except Stop Parser :=
  if parser.handling = none ∧ 0 < parser.queued then
    .ok { parser with queued := parser.queued - 1, handling := some false }
  else .error .notReady

def Parser.handle (parser : Parser) (next : Except Stop Parser) : Except Stop Parser :=
  if parser.handling = none then next else .error .notReady

def step (parser : Parser) : Action → Except Stop Parser
  | .arrive bytes => .ok (parser.uartEvent bytes)
  | .interrupt => parser.interrupt
  | .iterate result => parser.iterate analysisLine result
  | .recv request => parser.handle (parser.recvCmdHandle analysisLine request)
  | .send => parser.handle (.ok parser.sendCmdHandle)
  | .exit => parser.handle (.ok parser.exitCmdHandle)
  | .create prefixText cb alloc => parser.handle (.ok (parser.oobCreate prefixText cb alloc).2)
  | .delete prefixText => parser.handle (.ok (parser.oobDelete prefixText).2)

/-! ## The bytes in the buffer -/

variable (parser : Parser)

@[simp] theorem length_text : parser.text.length = parser.recvSize := length_load _ _ _

def Parser.moved (offset : Nat) : Parser :=
  let recvSize := parser.recvSize - offset
  let buffer := store parser.buffer 0 (load parser.buffer offset recvSize)
  { parser with buffer := store buffer recvSize [0], recvSize }

theorem atparserMove_of_le {offset : Nat} (inside : offset ≤ parser.recvSize) :
    parser.atparserMove offset = .ok (parser.moved offset) :=
  if_neg (Nat.not_lt.mpr inside)

theorem load_terminated (mem : Memory) (size : Nat) :
    load (store mem size [0]) 0 size = load mem 0 size := by
  have before := load_store_before mem 0 size [0]
  rwa [Nat.zero_add] at before

@[simp] theorem text_terminate : parser.terminate.text = parser.text :=
  load_terminated parser.buffer parser.recvSize

def Parser.filled : Parser :=
  { parser with
    buffer := store parser.buffer parser.recvSize parser.uart
    recvSize := parser.recvSize + parser.uart.length
    uart := [] }

theorem text_filled : parser.filled.text = parser.text ++ parser.uart := by
  have both := load_store parser.buffer 0 parser.recvSize parser.uart
  rwa [Nat.zero_add] at both

theorem filled_of_nil (none_ : parser.uart = []) : parser.filled = parser := by
  cases parser
  cases none_
  simp [Parser.filled]

theorem fullBuffer_of_room (room : parser.recvSize + 1 < bufferSize)
    (fits : parser.recvSize + parser.uart.length < bufferSize) :
    parser.fullBuffer = ((parser.uart.length : Int), parser.filled) := by
  have positive : bufferSize - parser.recvSize - 1 ≠ 0 := by omega
  have all : parser.uart.length ≤ bufferSize - parser.recvSize - 1 := by omega
  simp only [Parser.fullBuffer, uartRecv, if_neg positive, take_of_length_le all,
    drop_eq_nil_of_le all, Parser.filled]
  rfl

theorem fullBuffer_of_full (full : parser.recvSize + 1 = bufferSize) :
    parser.fullBuffer = (-1, { parser with recvSize := parser.recvSize - 1 }) := by
  have zero : bufferSize - parser.recvSize - 1 = 0 := by omega
  have less : ((parser.recvSize : Int) + -1).toNat = parser.recvSize - 1 := by omega
  simp only [Parser.fullBuffer, uartRecv, if_pos zero, store_nil, less]

/-! ## Prefixes in the buffer -/

def Oob.Whole (oob : Oob) : Prop := oob.prefixText ≠ [] ∧ oob.len.toNat = oob.prefixText.length

variable {parser : Parser} {oob : Oob} {i : Nat}

theorem isAt_iff (whole : oob.Whole) :
    oob.isAt parser i = true ↔ OccursAt oob.prefixText i parser.text := by
  have positive := length_pos_iff.mpr whole.1
  have part : i + oob.prefixText.length ≤ parser.recvSize →
      (parser.text.drop i).take oob.prefixText.length =
        load parser.buffer i oob.prefixText.length := fun inside => by
    have part := take_drop_load parser.buffer 0 inside
    rwa [Nat.zero_add] at part
  rw [Oob.isAt, decide_eq_true_iff, whole.2, take_length]
  constructor
  · rintro ⟨inside, same⟩
    refine ⟨parser.text.take i, (parser.text.drop i).drop oob.prefixText.length, ?_, by simp; omega⟩
    have cut : (parser.text.drop i).take oob.prefixText.length = oob.prefixText :=
      (part (by omega)).trans same.symm
    calc parser.text = parser.text.take i ++ parser.text.drop i := by rw [take_append_drop]
      _ = _ := by
        conv_lhs => rw [← take_append_drop oob.prefixText.length (parser.text.drop i), cut]
  rintro ⟨before, after, text, rfl⟩
  have size := congrArg length text
  simp only [length_text, length_append] at size
  refine ⟨by omega, ?_⟩
  rw [← part (by omega), text, drop_left, take_left]

theorem findOob_eq_none (whole : ∀ oob ∈ parser.oobHead, oob.Whole)
    (none_ : ∀ oob ∈ parser.oobHead, ¬ oob.prefixText <:+: parser.text) :
    parser.findOob = none := by
  rw [Parser.findOob, findSome?_eq_none_iff]
  intro i _
  rw [Option.map_eq_none_iff, find?_eq_none]
  intro oob registered here
  obtain ⟨before, after, text, -⟩ := (isAt_iff (whole oob registered)).mp here
  exact none_ oob registered ⟨before, after, by rw [text, append_assoc]⟩

theorem occursAt_of_findOob (whole : ∀ oob ∈ parser.oobHead, oob.Whole)
    (found : parser.findOob = some (i, oob)) :
    oob ∈ parser.oobHead ∧ OccursAt oob.prefixText i parser.text := by
  obtain ⟨place, -, here⟩ := exists_of_findSome?_eq_some found
  obtain ⟨oob', first, same⟩ := Option.map_eq_some_iff.mp here
  obtain ⟨rfl, rfl⟩ := Prod.mk.inj same
  have registered := mem_of_find?_eq_some first
  have holds : oob'.isAt parser place = true := by simpa using find?_some first
  exact ⟨registered, (isAt_iff (whole _ registered)).mp holds⟩

theorem findOob_ne_none (registered : oob ∈ parser.oobHead) (whole : oob.Whole)
    (here : OccursAt oob.prefixText i parser.text) : parser.findOob ≠ none := by
  intro nothing
  rw [Parser.findOob, findSome?_eq_none_iff] at nothing
  have inside : i < parser.recvSize := by
    have positive := length_pos_iff.mpr whole.1
    obtain ⟨before, after, text, rfl⟩ := here
    have size := congrArg length text
    simp only [length_text, length_append] at size
    omega
  have absent := nothing i (mem_range.mpr inside)
  rw [Option.map_eq_none_iff, find?_eq_none] at absent
  exact absent oob registered ((isAt_iff whole).mpr here)

/-! ## Iterations -/

variable {parser : Parser} (analysisLine : List UInt8 → List UInt8 → Int) (result : CallbackResult)

theorem loop_eq (running : parser.handling = some false) :
    { parser with handling := some false } = parser := by
  rw [← running]

theorem process_quiet (running : parser.handling = some false) (mode : parser.mode ≠ .oob)
    (quiet : parser.findOob = none) (none_ : parser.mode = .cmd → parser.resCmd = none) :
    parser.process analysisLine result = .ok parser := by
  have nothing : parser.detchOob = (none, parser) := by rw [Parser.detchOob, quiet]
  cases now : parser.mode with
  | oob => exact absurd now mode
  | idle =>
    rw [Parser.process, now]
    simp only [Parser.idleProcess, nothing, bind, Except.bind]
    exact congrArg Except.ok (loop_eq running)
  | cmd =>
    have waits : parser.cmdProcess analysisLine = .ok (-1, parser) := by
      simp only [Parser.cmdProcess, nothing, none_ now]
    rw [Parser.process, now]
    simp only [waits, bind, Except.bind]
    exact congrArg Except.ok (loop_eq running)

theorem process_found (mode : parser.mode = .idle) (found : parser.findOob = some (i, oob))
    (inside : i + oob.len.toNat ≤ parser.recvSize) :
    parser.process analysisLine result =
      .ok { Parser.moved { parser with oob := some oob } (i + oob.len.toNat) with
        mode := .oob, handling := some true } := by
  have moves : Parser.atparserMove { parser with oob := some oob } _ = .ok _ :=
    atparserMove_of_le _ inside
  rw [Parser.process, mode]
  simp only [Parser.idleProcess, Parser.detchOob, found, moves, bind, Except.bind, if_true]
  rfl

theorem oobProcess_eq_ok_iff {outcome : Int × Parser} :
    parser.oobProcess result = .ok outcome ↔ ∃ oob, parser.oob = some oob ∧
      (parser.oobData = true ∨ result.alloc = true) ∧ result.usedLen ≤ parser.recvSize ∧
      outcome = (result.ret, (parser.called oob).moved result.usedLen) := by
  cases found : parser.oob with
  | none => simp [Parser.oobProcess, found]
  | some oob =>
    have data : ¬ (parser.oobData = false ∧ result.alloc = false) ↔
        (parser.oobData = true ∨ result.alloc = true) := by
      cases parser.oobData <;> simp
    simp only [Parser.oobProcess, found, ← data, Option.some.injEq, exists_eq_left']
    by_cases failed : parser.oobData = false ∧ result.alloc = false
    · simp [failed]
    by_cases inside : result.usedLen ≤ parser.recvSize
    · have moves := atparserMove_of_le (parser.called oob) inside
      simp only [failed, inside, moves, bind, Except.bind, if_false, not_false_eq_true,
        true_and, Except.ok.injEq]
      exact eq_comm
    · have outside : (parser.called oob).atparserMove result.usedLen = .error .fault :=
        if_pos (Nat.not_le.mp inside)
      simp [failed, inside, outside, bind, Except.bind]

section

variable (running : parser.handling = some false)

include running

theorem iterate_empty (mode : parser.mode ≠ .oob)
    (room : parser.recvSize + 1 < bufferSize) (empty : parser.uart = []) :
    parser.iterate analysisLine result =
      .ok { parser with haveUartEvent := parser.haveUartEvent - 1, handling := none } := by
  have read := fullBuffer_of_room parser room (by rw [empty]; simp only [length_nil]; omega)
  rw [filled_of_nil parser empty] at read
  simp [Parser.iterate, running, read, empty, mode]

theorem iterate_full (mode : parser.mode ≠ .oob) (full : parser.recvSize + 1 = bufferSize) :
    parser.iterate analysisLine result =
      .ok { parser with
        recvSize := parser.recvSize - 1
        haveUartEvent := parser.haveUartEvent - 1
        handling := none } := by
  simp [Parser.iterate, running, fullBuffer_of_full parser full, mode]

theorem iterate_reads (some : parser.uart ≠ []) (room : parser.recvSize + 1 < bufferSize)
    (fits : parser.recvSize + parser.uart.length < bufferSize) :
    parser.iterate analysisLine result = parser.filled.terminate.process analysisLine result := by
  simp [Parser.iterate, running, fullBuffer_of_room parser room fits, some]

end

theorem iterate_goes_on {change : Bool} (running : parser.handling = some change)
    (goes : change = true ∨ parser.mode = .oob) :
    parser.iterate analysisLine result =
      parser.fullBuffer.2.terminate.process analysisLine result := by
  have same : parser.fullBuffer.2.mode = parser.mode := rfl
  rcases goes with rfl | mode
  · simp [Parser.iterate, running]
  · simp [Parser.iterate, running, same, mode]

/-! ## Notices -/

def Parser.Rest (parser : Parser) : Prop := parser.queued = 0 ∧ parser.handling = none

def Own (result : CallbackResult) (_ : Parser) (action : Action) : Prop :=
  action = .interrupt ∨ action = .iterate result

/-- Bytes in the UART have a notice that waits or that the loop is running for, and `uart_event`
counts both. -/
structure Parser.Noticed (parser : Parser) : Prop where
  unread : parser.uart ≠ [] → 0 < parser.queued ∨ parser.handling ≠ none
  count : parser.haveUartEvent = parser.queued + parser.handling.toList.length

variable {parser : Parser}

theorem handling_cases (unchanged : parser.handling ≠ some true) :
    parser.handling = none ∨ parser.handling = some false := by
  cases running : parser.handling with
  | none => exact .inl rfl
  | some change =>
    cases change with
    | true => exact absurd running unchanged
    | false => exact .inr rfl

theorem interrupt_starts (analysisLine : List UInt8 → List UInt8 → Int)
    (ended : parser.handling = none) (waiting : 0 < parser.queued) :
    step analysisLine parser .interrupt =
      .ok { parser with queued := parser.queued - 1, handling := some false } :=
  if_pos ⟨ended, waiting⟩

theorem uartEvent_eq (parser : Parser) (bytes : List UInt8) :
    ∃ haveUartEvent queued, parser.uartEvent bytes = { parser with
      uart := parser.uart ++ bytes
      history := { parser.history with arrived := parser.history.arrived ++ bytes }
      haveUartEvent
      queued } := by
  unfold Parser.uartEvent
  dsimp only
  split
  · exact ⟨_, _, rfl⟩
  · exact ⟨_, _, rfl⟩

section

variable (noticed : parser.Noticed)

include noticed

theorem Parser.Noticed.uartEvent (bytes : List UInt8) : (parser.uartEvent bytes).Noticed := by
  have count := noticed.count
  have running : parser.handling.toList.length ≤ 1 := by cases parser.handling <;> simp
  unfold Parser.uartEvent
  dsimp only
  split
  · exact ⟨fun _ => .inl (Nat.succ_pos _), by simp only; omega⟩
  · exact ⟨fun _ => .inl (by simp only; omega), count⟩

theorem Parser.Noticed.interrupt (ended : parser.handling = none) (waiting : 0 < parser.queued) :
    Parser.Noticed { parser with queued := parser.queued - 1, handling := some false } := by
  have count := noticed.count
  rw [ended] at count
  simp only [Option.toList_none, length_nil] at count
  refine ⟨fun _ => .inr nofun, ?_⟩
  simp only [Option.toList_some, length_singleton]
  omega

theorem Parser.Noticed.finished (running : parser.handling = some false)
    (empty : parser.uart = []) :
    Parser.Noticed { parser with haveUartEvent := parser.haveUartEvent - 1, handling := none } := by
  have count := noticed.count
  rw [running] at count
  exact ⟨fun some => absurd empty some, Nat.sub_eq_of_eq_add count⟩

theorem Parser.Noticed.filled : parser.filled.terminate.Noticed :=
  ⟨fun some => absurd rfl some, noticed.count⟩

theorem Parser.Noticed.empty (rest : parser.Rest) : parser.uart = [] := by
  by_contra some
  rcases noticed.unread some with queued | running
  · exact absurd rest.1 (Nat.ne_of_gt queued)
  · exact running rest.2

end

/-! ## Bytes that arrive at a parser at rest -/

structure Parser.Still (parser : Parser) : Prop where
  rest : parser.Rest
  events : parser.haveUartEvent = 0
  uart : parser.uart = []
  mode : parser.mode ≠ .oob
  resCmd : parser.resCmd = none

theorem Parser.Still.arrive (still : parser.Still) (analysisLine : List UInt8 → List UInt8 → Int)
    {guard : Parser → Action → Prop} {bytes : List UInt8} (result : CallbackResult)
    (nonempty : bytes ≠ []) (room : parser.recvSize + 1 < bufferSize)
    (fits : parser.recvSize + bytes.length < bufferSize)
    (quiet : ∀ oob ∈ parser.oobHead, oob.Whole ∧ ¬ oob.prefixText <:+: parser.text ++ bytes)
    (allowed : guard parser (.arrive bytes))
    (own : ∀ s, guard s .interrupt ∧ guard s (.iterate result)) :
    ∃ parser', Reaches (step analysisLine) guard parser parser' ∧ parser'.Still ∧
      parser'.text = (if parser.recvSize + bytes.length + 1 = bufferSize
        then (parser.text ++ bytes).dropLast else parser.text ++ bytes) ∧
      parser'.mode = parser.mode ∧ parser'.oobHead = parser.oobHead ∧
      parser'.history = { parser.history with arrived := parser.history.arrived ++ bytes } := by
  obtain ⟨⟨queued, ended⟩, events, uart, mode, resCmd⟩ := still
  let history := { parser.history with arrived := parser.history.arrived ++ bytes }
  let noticed : Parser := { parser with uart := bytes, history, haveUartEvent := 1, queued := 1 }
  let running : Parser := { noticed with queued := 0, handling := some false }
  let read : Parser := running.filled.terminate
  have arrives : step analysisLine parser (.arrive bytes) = .ok noticed := by
    simp [step, Parser.uartEvent, events, uart, queued, noticed, history]
  have starts : step analysisLine noticed .interrupt = .ok running :=
    interrupt_starts analysisLine ended Nat.one_pos
  have text : read.text = parser.text ++ bytes := by
    rw [text_terminate, text_filled]
    rfl
  have nothing : read.findOob = none :=
    findOob_eq_none (fun oob registered => (quiet oob registered).1) fun oob registered => by
      rw [text]
      exact (quiet oob registered).2
  have reads : step analysisLine running (.iterate result) = .ok read :=
    (@iterate_reads running analysisLine result rfl nonempty room fits).trans
      (@process_quiet read analysisLine result rfl mode nothing fun _ => resCmd)
  have path : Reaches _ guard parser read :=
    ((Reaches.tail .refl allowed arrives).tail (own _).1 starts).tail (own _).2 reads
  by_cases full : parser.recvSize + bytes.length + 1 = bufferSize
  · refine ⟨_, path.tail (own _).2 (@iterate_full read analysisLine result rfl mode full),
      ⟨⟨rfl, rfl⟩, rfl, rfl, mode, resCmd⟩, ?_, rfl, rfl, rfl⟩
    have part := take_drop_load read.buffer 0
      (show 0 + (read.recvSize - 1) ≤ read.recvSize by omega)
    rw [if_pos full, ← text, dropLast_eq_take, length_text]
    exact part.symm
  refine ⟨_, path.tail (own _).2 (@iterate_empty read analysisLine result rfl mode ?_ rfl),
    ⟨⟨rfl, rfl⟩, rfl, rfl, mode, resCmd⟩, ?_, rfl, rfl, rfl⟩
  · show parser.recvSize + bytes.length + 1 < bufferSize
    omega
  · rw [if_neg full]
    exact text

end Phy6212.AtParser
