import Mathlib.Algebra.Group.Nat.Defs
import Phy6212.Heap.Pointers

/-!
# Remote procedure calls of a service task

A client and the task of a service share the buffer of a call. The client allocates it, sends the
pointer, waits on the semaphore in it when the call is synchronous, and ends with `rpc_deinit`; the
task ends with `rpc_reply`, which calls `rpc_deinit` too.
-/

namespace Phy6212.UService

open Pointers

def einval : Int := 22

def enomem : Int := 12

def etimedout : Int := 110

def aosWaitForever : Int := -1

/-- `rpc_buffer_t`. The semaphore is `none` as long as it is not valid; the link to the
next buffer on the list is the order of `State.gcCache`. -/
structure RpcBuffer where
  timeoutMs : Int := 0
  buffer : Option (List UInt8) := none
  bufSize : Nat := 0
  pos : Nat := 0
  sem : Option Nat := none
  deriving DecidableEq, Repr

structure Rpc where
  srv : Option Nat := none
  cmdId : Nat := 0
  data : Option Ptr := none
  deriving DecidableEq, Repr

inductive Fault where
  | useAfterFree (p : Ptr)
  | nullPointer
  | outOfRange
  deriving DecidableEq, Repr

def touch (heap : Heap RpcBuffer) (p : Ptr) : Except Fault RpcBuffer :=
  match heap.read p with
  | some b => .ok b
  | none => .error (.useAfterFree p)

def aosSemNew (count : Nat) : Int × Nat := (0, count)

def rpcInit (heap : Heap RpcBuffer) (addr cmdId : Nat) (timeoutMs : Int) :
    Int × Rpc × Heap RpcBuffer :=
  if timeoutMs = 0 then (0, { cmdId := cmdId }, heap)
  else match heap.alloc addr { timeoutMs := timeoutMs } with
    | none => (-enomem, { cmdId := cmdId }, heap)
    | some (p, heap) =>
      let (ret, sem) := aosSemNew 0
      if ret ≠ 0 then (ret, { cmdId := cmdId }, heap.free p)
      else (ret, { cmdId := cmdId, data := some p },
        heap.write p { timeoutMs := timeoutMs, sem := some sem })

def uint32Bytes (n : Nat) : List UInt8 :=
  [UInt8.ofNat n, UInt8.ofNat (n / 2 ^ 8), UInt8.ofNat (n / 2 ^ 16), UInt8.ofNat (n / 2 ^ 24)]

def uint32At (bytes : List UInt8) (i : Nat) : Nat :=
  (bytes.getD i 0).toNat + (bytes.getD (i + 1) 0).toNat * 2 ^ 8 +
    (bytes.getD (i + 2) 0).toNat * 2 ^ 16 + (bytes.getD (i + 3) 0).toNat * 2 ^ 24

/-- `rpc_buffer_need_size` and the copy after it: the first `buf_size` bytes move to a larger buffer
and the new entry, its length first, follows them. -/
def rpcBufferPut (heap : Heap RpcBuffer) (p : Ptr) (data : List UInt8) (room : Bool) :
    Except Fault (Int × Heap RpcBuffer) := do
  let b ← touch heap p
  if room then
    .ok (0, heap.write p { b with
      buffer := some ((b.buffer.getD []).take b.bufSize ++ uint32Bytes data.length ++ data)
      bufSize := (b.bufSize + (data.length + 4)) % 2 ^ 16 })
  else .ok (-enomem, heap)

def rpcPutBuffer (heap : Heap RpcBuffer) (rpc : Rpc) (data : List UInt8) (addr : Nat)
    (room : Bool) : Except Fault (Int × Rpc × Heap RpcBuffer) :=
  if data = [] then .ok (-einval, rpc, heap)
  else match rpc.data with
    | some p => do
        let (ret, heap) ← rpcBufferPut heap p data room
        .ok (ret, rpc, heap)
    | none => match heap.alloc addr {} with
        | none => .ok (-enomem, rpc, heap)
        | some (p, heap) => do
            let (ret, heap) ← rpcBufferPut heap p data room
            .ok (ret, { rpc with data := some p }, heap)

/-- `rpc_get_buffer`: the next entry, or `none` when there is no buffer. -/
def rpcGetBuffer (heap : Heap RpcBuffer) (rpc : Rpc) :
    Except Fault (Option (List UInt8) × Heap RpcBuffer) :=
  match rpc.data with
  | none => .ok (none, heap)
  | some p => do
      let b ← touch heap p
      match b.buffer with
      | none => .error .nullPointer
      | some bytes =>
        if bytes.length < b.pos + 4 then .error .outOfRange
        else
          let len := uint32At bytes b.pos
          .ok (some ((bytes.drop (b.pos + 4)).take len),
            heap.write p { b with pos := (b.pos + 4 + len) % 2 ^ 16 })

def rpcPutReset (heap : Heap RpcBuffer) (rpc : Rpc) : Except Fault (Heap RpcBuffer) :=
  match rpc.data with
  | none => .ok heap
  | some p => do
      let b ← touch heap p
      match b.buffer with
      | none => .ok heap
      | some _ => .ok (heap.write p { b with buffer := none, bufSize := 0, pos := 0 })

def rpcGetReset (heap : Heap RpcBuffer) (rpc : Rpc) : Except Fault (Heap RpcBuffer) :=
  match rpc.data with
  | none => .ok heap
  | some p => do
      let b ← touch heap p
      .ok (heap.write p { b with pos := 0 })

inductive Access where
  | put (data : List UInt8) (addr : Nat) (room : Bool)
  | get
  | putReset
  | getReset
  deriving DecidableEq, Repr

def access (heap : Heap RpcBuffer) (rpc : Rpc) : Access → Except Fault (Rpc × Heap RpcBuffer)
  | .put data addr room => do
      let (_, rpc, heap) ← rpcPutBuffer heap rpc data addr room
      .ok (rpc, heap)
  | .get => do
      let (_, heap) ← rpcGetBuffer heap rpc
      .ok (rpc, heap)
  | .putReset => do
      let heap ← rpcPutReset heap rpc
      .ok (rpc, heap)
  | .getReset => do
      let heap ← rpcGetReset heap rpc
      .ok (rpc, heap)

/-- How far a client has come with its call. -/
inductive Client where
  | idle
  /-- After `rpc_init`. -/
  | prepared (rpc : Rpc)
  /-- In the loop of `uservice_call`, with the number of attempts left. -/
  | calling (rpc : Rpc) (count : Nat)
  /-- The queue has taken the message; the client is in `rpc_wait`. -/
  | waiting (rpc : Rpc)
  | returned (rpc : Rpc) (ret : Int)
  deriving DecidableEq, Repr

/-- What the task has done with a message that it has received. A handler may keep the
message and answer it later, while the task receives others. -/
inductive Job where
  | none
  | received (rpc : Rpc)
  /-- In `rpc_reply`, after the signal. -/
  | replying (rpc : Rpc)
  deriving DecidableEq, Repr

inductive Side where
  | client | server
  deriving DecidableEq, Repr

inductive Note where
  /-- One side has called `rpc_deinit` on the buffer. -/
  | deinit (side : Side) (p : Ptr)
  | freed (p : Ptr)
  deriving DecidableEq, Repr

structure State where
  heap : Heap RpcBuffer
  /-- `rpc_buffer_gc_cache` -/
  gcCache : List Ptr
  queue : List Rpc
  clients : Nat → Client
  jobs : Nat → Job
  trace : List Note

def State.init : State where
  heap := Heap.empty
  gcCache := []
  queue := []
  clients := fun _ => .idle
  jobs := fun _ => .none
  trace := []

/-- The search of `rpc_deinit`: the first buffer on the list with the address. -/
def gcSearch (heap : Heap RpcBuffer) (p : Ptr) : List Ptr → Except Fault (Option Ptr)
  | [] => .ok none
  | q :: rest =>
    if q.addr = p.addr then .ok (some q)
    else do
      let _ ← touch heap q
      gcSearch heap p rest

def rpcBufferFree (heap : Heap RpcBuffer) (p : Ptr) : Except Fault (Heap RpcBuffer) := do
  let _ ← touch heap p
  .ok (heap.free p)

def rpcDeinit (s : State) (side : Side) (rpc : Rpc) : Except Fault State :=
  match rpc.data with
  | none => .ok s
  | some p =>
    if rpc.srv = none then .error .nullPointer
    else do
      match ← gcSearch s.heap p s.gcCache with
      | some q =>
        let heap ← rpcBufferFree s.heap q
        .ok { s with
          heap := heap
          gcCache := s.gcCache.eraseP fun r => r.addr = q.addr
          trace := s.trace ++ [.deinit side p, .freed q] }
      | none =>
        -- `slist_add_tail` writes the link of the new last buffer
        let _ ← touch s.heap p
        .ok { s with
          gcCache := s.gcCache ++ [p]
          trace := s.trace ++ [.deinit side p] }

/-- `rpc_wait`: the return value, or `none` while the client stays blocked. -/
def rpcWait (heap : Heap RpcBuffer) (rpc : Rpc) (timeout : Bool) :
    Except Fault (Option Int × Heap RpcBuffer) :=
  match rpc.data with
  | none => .ok (some 0, heap)
  | some p => do
      let b ← touch heap p
      match b.sem with
      | none => .ok (some 0, heap)
      | some (count + 1) => .ok (some 0, heap.write p { b with sem := some count })
      | some 0 =>
        if timeout ∧ b.timeoutMs ≠ aosWaitForever then .ok (some (-etimedout), heap)
        else .ok (none, heap)

def rpcSignal (heap : Heap RpcBuffer) (rpc : Rpc) : Except Fault (Heap RpcBuffer) :=
  match rpc.data with
  | none => .ok heap
  | some p => do
      let b ← touch heap p
      match b.sem with
      | none => .ok heap
      | some count => .ok (heap.write p { b with sem := some (count + 1) })

inductive Action where
  | init (c addr cmdId : Nat) (timeoutMs : Int)
  | use (c : Nat) (what : Access)
  | call (c srv : Nat)
  /-- One attempt of `uservice_call` to send the message. -/
  | send (c : Nat) (accepted : Bool)
  | wait (c : Nat) (timeout : Bool)
  | deinit (c : Nat)
  /-- The task takes a message from the queue. -/
  | recv (j : Nat)
  | handle (j : Nat) (what : Access)
  | reply (j : Nat)
  | finish (j : Nat)
  /-- The handler returns without a reply and forgets the message. -/
  | dismiss (j : Nat)
  deriving DecidableEq, Repr

def State.setClient (s : State) (c : Nat) (client : Client) : State :=
  { s with clients := Function.update s.clients c client }

def State.setJob (s : State) (j : Nat) (job : Job) : State :=
  { s with jobs := Function.update s.jobs j job }

/-- One action. `queueCount` is the length of the queue, and with it the number of
attempts to send a message. An action of a client or a message that is elsewhere in the
program changes nothing. -/
def step (queueCount : Nat) (s : State) : Action → Except Fault State
  | .init c addr cmdId timeoutMs =>
    match s.clients c with
    | .idle =>
      let (ret, rpc, heap) := rpcInit s.heap addr cmdId timeoutMs
      if ret = 0 then .ok ({ s with heap := heap }.setClient c (.prepared rpc))
      else .ok { s with heap := heap }
    | _ => .ok s
  | .use c what =>
    match s.clients c with
    | .prepared rpc => do
        let (rpc, heap) ← access s.heap rpc what
        .ok ({ s with heap := heap }.setClient c (.prepared rpc))
    | .returned rpc ret => do
        let (rpc, heap) ← access s.heap rpc what
        .ok ({ s with heap := heap }.setClient c (.returned rpc ret))
    | _ => .ok s
  | .call c srv =>
    match s.clients c with
    | .prepared rpc => .ok (s.setClient c (.calling { rpc with srv := some srv } queueCount))
    | _ => .ok s
  | .send c accepted =>
    match s.clients c with
    | .calling rpc 0 => .ok (s.setClient c (.returned rpc (-1)))
    | .calling rpc (count + 1) =>
      if accepted then .ok ({ s with queue := s.queue ++ [rpc] }.setClient c (.waiting rpc))
      else .ok (s.setClient c (.calling rpc count))
    | _ => .ok s
  | .wait c timeout =>
    match s.clients c with
    | .waiting rpc => do
        match ← rpcWait s.heap rpc timeout with
        | (some ret, heap) => .ok ({ s with heap := heap }.setClient c (.returned rpc ret))
        | (none, heap) => .ok { s with heap := heap }
    | _ => .ok s
  | .deinit c =>
    match s.clients c with
    | .returned rpc _ => do
        let s ← rpcDeinit s .client rpc
        .ok (s.setClient c .idle)
    | _ => .ok s
  | .recv j =>
    match s.jobs j, s.queue with
    | .none, rpc :: rest => .ok ({ s with queue := rest }.setJob j (.received rpc))
    | _, _ => .ok s
  | .handle j what =>
    match s.jobs j with
    | .received rpc => do
        let (rpc, heap) ← access s.heap rpc what
        .ok ({ s with heap := heap }.setJob j (.received rpc))
    | _ => .ok s
  | .reply j =>
    match s.jobs j with
    | .received rpc => do
        let heap ← rpcSignal s.heap rpc
        .ok ({ s with heap := heap }.setJob j (.replying rpc))
    | _ => .ok s
  | .finish j =>
    match s.jobs j with
    | .replying rpc => do
        let s ← rpcDeinit s .server rpc
        .ok (s.setJob j .none)
    | _ => .ok s
  | .dismiss j =>
    match s.jobs j with
    | .received _ => .ok (s.setJob j .none)
    | _ => .ok s

end Phy6212.UService
