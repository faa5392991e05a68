import Mathlib.Data.List.FinRange
import Phy6212.Runs.Reach

/-!
# The UART driver

The receive interrupt fills a ring buffer and calls the user unless the flag `USART_EVENT_READ` is
set, which it then sets (`usartEvent`).
-/

namespace Phy6212.Uart

def rbSize : Nat := 2048

inductive Notice where
  | read
  | write
  | overflow
  deriving DecidableEq, Repr

/-- Where a call of `uart_csky_recv` is: before the reading of the ring buffer, before the check
of the time, before `aos_event_get`, waiting in it, and before the clearing of the flag. -/
inductive Place where
  | read
  | check
  | get
  | blocked
  | clear
  deriving DecidableEq, Repr

structure Call where
  place : Place
  size : Nat
  timeoutMs : Nat
  timeEnter : Int
  tempCount : Int
  data : List UInt8
  deriving DecidableEq, Repr

/-- What has happened since the last reading of the ring buffer: who has read it, how the user
has been called and which bytes have come; and for each call, whether a receive interrupt
has found the flag set since its own last reading. -/
structure History (n : Nat) where
  reader : Option (Fin n)
  notices : List Notice
  arrived : List UInt8
  late : Fin n → Bool

/-- `uart_dev_t` with its `uartdev_priv_t`, the calls of `uart_csky_recv` in progress and what
they have returned. -/
structure UartDev (n : Nat) where
  readBuffer : List UInt8
  eventRead : Bool
  eventWrite : Bool
  stateRead : Bool
  stateWrite : Bool
  writeEvent : Bool
  calls : Fin n → Option Call
  returned : List (Int × List UInt8)
  history : History n

def UartDev.init (n : Nat) (writeEvent : Bool) : UartDev n where
  readBuffer := []
  eventRead := false
  eventWrite := false
  stateRead := false
  stateWrite := false
  writeEvent := writeEvent
  calls := fun _ => none
  returned := []
  history := ⟨none, [], [], fun _ => false⟩

inductive Event where
  | sendComplete
  | received (bytes : List UInt8)
  | rxOverflow
  | other
  deriving DecidableEq, Repr

variable {n : Nat}

def UartDev.notify (s : UartDev n) (notice : Notice) : UartDev n :=
  if s.writeEvent then
    { s with history := { s.history with notices := s.history.notices ++ [notice] } }
  else s

def Call.isBlocked (c : Call) : Bool := c.place = .blocked

def Call.wake (c : Call) : Call := if c.place = .blocked then { c with place := .read } else c

/-- `aos_event_set` with `EVENT_READ`: the event is consumed when a call waits for it. -/
def UartDev.eventSetRead (s : UartDev n) : UartDev n :=
  if (List.finRange n).any fun i => (s.calls i).any Call.isBlocked then
    { s with calls := fun i => (s.calls i).map Call.wake, eventRead := false }
  else { s with eventRead := true }

/-- `ringbuffer_write` of the bytes, as many as there is room for. -/
def UartDev.ringbufferWrite (s : UartDev n) (bytes : List UInt8) : Nat × UartDev n :=
  let stored := bytes.take (rbSize - 1 - s.readBuffer.length)
  (stored.length, { s with
    readBuffer := s.readBuffer ++ stored
    history := { s.history with arrived := s.history.arrived ++ stored } })

/-- The receive interrupt behind the ring buffer: the user is called unless the flag is set. -/
def UartDev.noticeRead (s : UartDev n) (bytes : List UInt8) : UartDev n :=
  if s.stateRead = false then
    if s.writeEvent then { s with stateRead := true }.notify .read else s
  else if bytes ≠ [] then { s with history := { s.history with late := fun _ => true } }
  else s

def UartDev.usartEvent (s : UartDev n) : Event → UartDev n
  | .sendComplete =>
    let s := if s.stateWrite = false then { s with stateWrite := true }.notify .write else s
    { s with eventWrite := true }
  | .received bytes =>
    let (ret, s) := s.ringbufferWrite bytes
    if ret ≠ bytes.length then s.notify .overflow
    else (s.noticeRead bytes).eventSetRead
  | .rxOverflow =>
    { s with
      readBuffer := []
      stateRead := false
      history := { s.history with arrived := [] } }
  | .other => s

/-- What may happen next: an interrupt, the start of a call, a step of a call at some time, and the
end of the time that a call waits. -/
inductive Action (n : Nat) where
  | event (e : Event)
  | recv (i : Fin n) (size timeoutMs : Nat) (now : Int)
  | work (i : Fin n) (now : Int)
  | expire (i : Fin n)
  deriving DecidableEq, Repr

inductive Refused where
  | noCall
  | busy
  | waiting
  deriving DecidableEq, Repr

def UartDev.setCall (s : UartDev n) (i : Fin n) (c : Option Call) : UartDev n :=
  { s with calls := Function.update s.calls i c }

def ringbufferRead (ring : List UInt8) (amount : Int) : Int × List UInt8 :=
  if amount = 0 then (-1, [])
  else
    let taken := ring.take amount.toNat
    (taken.length, taken)

def UartDev.recvRead (s : UartDev n) (i : Fin n) (c : Call) : UartDev n :=
  let (ret, taken) := ringbufferRead s.readBuffer c.tempCount
  { s with
    readBuffer := s.readBuffer.drop taken.length
    calls := Function.update s.calls i (some { c with
      place := .check
      tempCount := c.tempCount - ret
      data := c.data ++ taken })
    history := ⟨some i, [], [], Function.update s.history.late i false⟩ }

def UartDev.recvCheck (s : UartDev n) (i : Fin n) (c : Call) (now : Int) : UartDev n :=
  let usedTime := now - c.timeEnter
  if c.timeoutMs ≤ usedTime ∨ c.tempCount = 0 then s.setCall i (some { c with place := .clear })
  else s.setCall i (some { c with place := .get })

def UartDev.recvGet (s : UartDev n) (i : Fin n) (c : Call) : UartDev n :=
  if s.eventRead then { s with eventRead := false }.setCall i (some { c with place := .read })
  else s.setCall i (some { c with place := .blocked })

def UartDev.recvClear (s : UartDev n) (i : Fin n) (c : Call) : UartDev n :=
  { s.setCall i none with
    stateRead := false
    returned := s.returned ++ [(c.size - c.tempCount, c.data)] }

def UartDev.step (s : UartDev n) : Action n → Except Refused (UartDev n)
  | .event e => .ok (s.usartEvent e)
  | .recv i size timeoutMs now =>
    match s.calls i with
    | some _ => .error .busy
    | none => .ok (s.setCall i (some ⟨.read, size, timeoutMs, now, size, []⟩))
  | .work i now =>
    match s.calls i with
    | none => .error .noCall
    | some c =>
      match c.place with
      | .read => .ok (s.recvRead i c)
      | .check => .ok (s.recvCheck i c now)
      | .get => .ok (s.recvGet i c)
      | .blocked => .error .waiting
      | .clear => .ok (s.recvClear i c)
  | .expire i =>
    match s.calls i with
    | none => .error .noCall
    | some c =>
      -- a wait of no ticks ends at once, if the event is not there
      if c.place = .blocked ∨ c.place = .get ∧ s.eventRead = false then
        .ok (s.setCall i (some { c with place := .clear }))
      else .error .busy

end Phy6212.Uart
