import Phy6212.CLib.Memory
import Phy6212.Misc.Crc16
import Phy6212.Runs.Reach
import Mathlib.Data.List.Perm.Subperm

/-!
# Blocks of an image over the serial line

`serial_read` asks for a block with `+OTAREQ` and waits on a semaphore; the host answers with
`AT+OTAPOST` and the bytes, which the AT server hands to `pass_th_cb` in pass-through mode.
-/

namespace Phy6212.Fota.Serial

open CLib Misc

/-- `recv_t`; the address 0 is `NULL`. -/
structure Recv where
  buffer : Nat
  bufSize : Nat
  recvLen : Nat
  lenNeed : Nat
  uartRecvLen : Nat
  deriving DecidableEq, Repr

/-- The work of the AT server: `ATSERVER_INTERRUPT_CMD` and `ATSERVER_PASS_THROUGH_CMD`. -/
inductive Command where
  | interrupt
  | passThrough (on : Bool)
  deriving DecidableEq, Repr

/-- Where the AT server is: it takes the next command, reads command lines, is in
`at_cmd_otapost` before the check of the length or behind it, or is in `pass_th_cb` before
`uart_recv`, behind it with a complete block, or before `aos_sem_signal`. -/
inductive Server where
  | idle
  | reading
  | posting (len : Nat)
  | accepting (len : Nat)
  | receiving (dest size : Nat)
  | completing
  | signalling
  deriving DecidableEq, Repr

/-- Where the update task is: outside `serial_read`, before `buf_size` is set, before the
request, in `aos_sem_wait`, before the checks of the length, before the check of the
checksum, or on the way out with an error. -/
inductive Reader where
  | idle
  | starting (length : Nat)
  | asking (length : Nat)
  | waiting (length : Nat)
  | checking (length : Nat)
  | verifying (contentLen : Nat)
  | failing
  deriving DecidableEq, Repr

inductive Reply where
  | ok
  | error
  | otareq
  deriving DecidableEq, Repr

/-- A block that the host posts: how many requests were made before, how long it is to be and
what has come of it. -/
structure Block where
  asked : Nat
  len : Nat
  bytes : List UInt8
  deriving DecidableEq, Repr

structure Return where
  call : Nat
  content : List UInt8
  deriving DecidableEq, Repr

/-- The two tasks with `g_recv` and the semaphore. The blocks and the returns have the last one
in front. -/
structure State where
  recv : Recv
  sem : Nat
  mem : Memory
  uart : List UInt8
  passThrough : Bool
  queue : List Command
  server : Server
  reader : Reader
  sent : List Reply
  blocks : List Block
  returned : List Return

def State.init (mem : Memory) : State where
  recv := ⟨0, 0, 0, 0, 0⟩
  sem := 0
  mem := mem
  uart := []
  passThrough := false
  queue := []
  server := .idle
  reader := .idle
  sent := []
  blocks := []
  returned := []

def State.asked (s : State) : Nat := s.sent.count .otareq

/-- `at_cmd_otapost` up to the check of the length. -/
def atCmdOtapost (s : State) (len : Option Nat) : State :=
  let s := { s with recv.lenNeed := 0, recv.uartRecvLen := 0 }
  match len with
  | none => s
  | some len => { s with server := .posting len, blocks := ⟨s.asked, len, []⟩ :: s.blocks }

def otapostCheck (s : State) (len : Nat) : State :=
  if len > s.recv.bufSize then
    { s with server := .reading, sent := s.sent ++ [.error] }
  else
    { s with server := .accepting len }

def otapostAccept (s : State) (len : Nat) : State :=
  { s with
    recv.lenNeed := len
    recv.recvLen := 0
    queue := s.queue ++ [.passThrough true]
    sent := s.sent ++ [.ok]
    server := .reading }

def passThCb (s : State) : State :=
  if s.recv.buffer = 0 ∨ s.recv.lenNeed = 0 then
    { s with queue := s.queue ++ [.passThrough false] }
  else
    { s with
      server := .receiving (s.recv.buffer + s.recv.uartRecvLen)
        (s.recv.lenNeed - s.recv.uartRecvLen) }

def record (data : List UInt8) : List Block → List Block
  | [] => []
  | block :: older => { block with bytes := block.bytes ++ data } :: older

def passThRecv (s : State) (dest size : Nat) : State :=
  let data := s.uart.take size
  let uartRecvLen := s.recv.uartRecvLen + data.length
  { s with
    mem := store s.mem dest data
    uart := s.uart.drop size
    recv.uartRecvLen := uartRecvLen
    blocks := record data s.blocks
    server := if uartRecvLen ≥ s.recv.lenNeed then .completing else .idle }

def passThComplete (s : State) : State :=
  { s with
    recv.recvLen := s.recv.lenNeed
    queue := s.queue ++ [.passThrough false]
    server := .signalling }

inductive Fault where
  | blocked
  | outOfBounds
  deriving DecidableEq, Repr

/-- Bytes come in at the UART, with a call of `uart_event` or without. -/
def uartEvent (s : State) (bytes : List UInt8) (notice : Bool) : State :=
  { s with
    uart := s.uart ++ bytes
    queue := if notice then s.queue ++ [.interrupt] else s.queue }

def serve (s : State) : Except Fault State :=
  match s.server with
  | .idle =>
    match s.queue with
    | [] => .error .blocked
    | .passThrough on :: queue => .ok { s with queue := queue, passThrough := on }
    | .interrupt :: queue =>
      let s := { s with queue := queue }
      .ok (if s.passThrough then passThCb s else { s with server := .reading })
  | .reading => .ok { s with server := .idle, uart := [] }
  | .posting len => .ok (otapostCheck s len)
  | .accepting len => .ok (otapostAccept s len)
  | .receiving dest size => .ok (passThRecv s dest size)
  | .completing => .ok (passThComplete s)
  | .signalling => .ok { s with sem := s.sem + 1, server := .idle }

def crcOf (high low : UInt8) : UInt16 := high.toUInt16 <<< 8 ||| low.toUInt16

def serialRead (s : State) (buffer length : Nat) : State :=
  if buffer = 0 ∨ length = 0 then s
  else { s with recv.buffer := buffer, reader := .starting length }

def crcVerified (s : State) : Bool :=
  crc16 0 (load s.mem s.recv.buffer (s.recv.recvLen - 2)) =
    crcOf (s.mem (s.recv.buffer + (s.recv.recvLen - 2)))
      (s.mem (s.recv.buffer + (s.recv.recvLen - 1)))

def read (s : State) : Except Fault State :=
  match s.reader with
  | .idle => .error .blocked
  | .starting length => .ok { s with recv.bufSize := length, reader := .asking length }
  | .asking length => .ok { s with sent := s.sent ++ [.otareq], reader := .waiting length }
  | .waiting length =>
    if s.sem = 0 then .error .blocked
    else .ok { s with sem := s.sem - 1, reader := .checking length }
  | .checking length =>
    .ok { s with
      reader :=
        if s.recv.recvLen > length then .failing
        else if s.recv.recvLen ≤ 2 then .failing
        else .verifying s.recv.recvLen }
  | .verifying contentLen =>
    if s.recv.recvLen < 2 then .error .outOfBounds
    else if crcVerified s then
      .ok { s with
        sent := s.sent ++ [.ok]
        returned := ⟨s.asked, load s.mem s.recv.buffer (contentLen - 2)⟩ :: s.returned
        reader := .idle }
    else
      .ok { s with reader := .failing }
  | .failing => .ok { s with recv.recvLen := 0, sent := s.sent ++ [.error], reader := .idle }

inductive Action where
  | call (buffer length : Nat)
  | read
  | timeout
  | arrive (bytes : List UInt8) (notice : Bool)
  | otapost (len : Option Nat)
  | serve
  deriving DecidableEq, Repr

def Reader.isWaiting : Reader → Bool
  | .waiting _ => true
  | _ => false

def State.step (s : State) : Action → Except Fault State
  | .call buffer length =>
    if s.reader = .idle then .ok (serialRead s buffer length) else .error .blocked
  | .read => read s
  | .timeout =>
    if s.reader.isWaiting then .ok { s with reader := .failing } else .error .blocked
  | .arrive bytes notice => .ok (uartEvent s bytes notice)
  | .otapost len =>
    if s.server = .reading then .ok (atCmdOtapost s len) else .error .blocked
  | .serve => serve s

/-- The call returned the contents of the block, which is complete, was posted behind the request of
the call and has the checksum of the contents at its end. -/
def Answers (r : Return) (block : Block) : Prop :=
  r.call ≤ block.asked ∧ block.bytes.length = block.len ∧
    ∃ high low, block.bytes = r.content ++ [high, low] ∧ crc16 0 r.content = crcOf high low

/-- **Every call is answered**: the calls that succeeded return the contents of blocks posted behind
their requests, and no two calls the same one. -/
def State.Answered (s : State) : Prop :=
  ∃ answers, List.Forall₂ Answers s.returned answers ∧ answers.Subperm s.blocks

end Phy6212.Fota.Serial
