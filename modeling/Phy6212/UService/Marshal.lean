import Mathlib.Data.List.GetD
import Phy6212.CLib.Strings
import Phy6212.Runs.Simulation
import Phy6212.UService.Rpc

/-!
# Values through the buffer of a call

`rpc_put_int` and its relatives append a value and its length to the buffer (`encode`, `Carries`),
and `rpc_get_int` and its relatives read them in order (`Reading`).
-/

namespace Phy6212.UService

open List Pointers Runs CLib

/-! ## The functions -/

structure Text where
  bytes : List UInt8
  nonzero : 0 ∉ bytes
  deriving DecidableEq

/-- What can be put into a call: an `int`, a byte, the 64 bits of a `double`, a pointer, a string
and a buffer. -/
inductive Value where
  | int (i : BitVec 32)
  | uint8 (c : UInt8)
  | double (c : BitVec 64)
  | point (p : BitVec 32)
  | string (text : Text)
  | buffer (data : List UInt8)
  deriving DecidableEq

inductive Kind where
  | int
  | uint8
  | double
  | point
  | string
  | buffer
  deriving DecidableEq, Repr

def Value.kind : Value → Kind
  | .int _ => .int
  | .uint8 _ => .uint8
  | .double _ => .double
  | .point _ => .point
  | .string _ => .string
  | .buffer _ => .buffer

def uint64Bytes (n : Nat) : List UInt8 := uint32Bytes (n % 2 ^ 32) ++ uint32Bytes (n / 2 ^ 32)

def uint64At (bytes : List UInt8) (i : Nat) : Nat := uint32At bytes i + uint32At bytes (i + 4) * 2 ^ 32

/-- A value with what the allocator does when it is put. -/
structure Put where
  value : Value
  addr : Nat
  room : Bool

def rpcPutVariable (bytes : List UInt8) (s : Rpc × Heap RpcBuffer) (addr : Nat) (room : Bool) :
    Except Fault (Int × Rpc × Heap RpcBuffer) :=
  rpcPutBuffer s.2 s.1 bytes addr room

def rpcPutInt (i : BitVec 32) := rpcPutVariable (uint32Bytes i.toNat)

def rpcPutUint8 (c : UInt8) := rpcPutVariable [c]

def rpcPutDouble (c : BitVec 64) := rpcPutVariable (uint64Bytes c.toNat)

def rpcPutPoint (p : BitVec 32) := rpcPutVariable (uint32Bytes p.toNat)

def rpcPutString (text : Text) (s : Rpc × Heap RpcBuffer) (addr : Nat) (room : Bool) :
    Except Fault (Int × Rpc × Heap RpcBuffer) :=
  rpcPutBuffer s.2 s.1 (text.bytes ++ [0]) addr room

def rpcPut (s : Rpc × Heap RpcBuffer) (put : Put) : Except Fault (Int × Rpc × Heap RpcBuffer) :=
  match put.value with
  | .int i => rpcPutInt i s put.addr put.room
  | .uint8 c => rpcPutUint8 c s put.addr put.room
  | .double c => rpcPutDouble c s put.addr put.room
  | .point p => rpcPutPoint p s put.addr put.room
  | .string text => rpcPutString text s put.addr put.room
  | .buffer data => rpcPutBuffer s.2 s.1 data put.addr put.room

inductive Stop where
  | fault (f : Fault)
  | assertion
  deriving DecidableEq, Repr

def ofFault {α : Type} : Except Fault α → Except Stop α
  | .ok a => .ok a
  | .error f => .error (.fault f)

def lengthInt (n : Nat) : Int := (BitVec.ofNat 32 n).toInt

/-- `rpc_get_buffer` with the length that it stores in `*count`. -/
def rpcGetEntry (s : Rpc × Heap RpcBuffer) : Except Stop ((List UInt8 × Int) × Heap RpcBuffer) :=
  match s.1.data with
  | none => .error (.fault .nullPointer)
  | some p => do
      let b ← ofFault (touch s.2 p)
      let count := lengthInt (uint32At (b.buffer.getD []) b.pos)
      let (entry, heap) ← ofFault (rpcGetBuffer s.2 s.1)
      match entry with
      | none => .error (.fault .nullPointer)
      | some bytes =>
        if bytes.length = count then .ok ((bytes, count), heap) else .error (.fault .outOfRange)

def rpcGetSized (size : Nat) (s : Rpc × Heap RpcBuffer) : Except Stop (List UInt8 × Heap RpcBuffer) := do
  let ((bytes, count), heap) ← rpcGetEntry s
  if count = size then .ok (bytes, heap) else .error .assertion

def rpcGetInt (s : Rpc × Heap RpcBuffer) : Except Stop (BitVec 32 × Heap RpcBuffer) := do
  let (bytes, heap) ← rpcGetSized 4 s
  .ok (BitVec.ofNat 32 (uint32At bytes 0), heap)

def rpcGetUint8 (s : Rpc × Heap RpcBuffer) : Except Stop (UInt8 × Heap RpcBuffer) := do
  let (bytes, heap) ← rpcGetSized 1 s
  .ok (bytes.getD 0 0, heap)

def rpcGetDouble (s : Rpc × Heap RpcBuffer) : Except Stop (BitVec 64 × Heap RpcBuffer) := do
  let (bytes, heap) ← rpcGetSized 8 s
  .ok (BitVec.ofNat 64 (uint64At bytes 0), heap)

def rpcGetPoint (s : Rpc × Heap RpcBuffer) : Except Stop (BitVec 32 × Heap RpcBuffer) := do
  let (bytes, heap) ← rpcGetSized 4 s
  .ok (BitVec.ofNat 32 (uint32At bytes 0), heap)

theorem zero_not_mem_takeWhile (bytes : List UInt8) : 0 ∉ bytes.takeWhile (· ≠ 0) := by
  intro member
  simpa using mem_takeWhile_imp member

/-- `rpc_get_string`: the string at the pointer, as far as the entry has it. -/
def rpcGetString (s : Rpc × Heap RpcBuffer) : Except Stop (Text × Heap RpcBuffer) := do
  let ((bytes, _), heap) ← rpcGetEntry s
  if 0 ∈ bytes then .ok (⟨bytes.takeWhile (· ≠ 0), zero_not_mem_takeWhile bytes⟩, heap)
  else .error (.fault .outOfRange)

def rpcGet (s : Rpc × Heap RpcBuffer) (kind : Kind) : Except Stop (Value × Rpc × Heap RpcBuffer) :=
  match kind with
  | .int => do
      let (i, heap) ← rpcGetInt s
      .ok (.int i, s.1, heap)
  | .uint8 => do
      let (c, heap) ← rpcGetUint8 s
      .ok (.uint8 c, s.1, heap)
  | .double => do
      let (c, heap) ← rpcGetDouble s
      .ok (.double c, s.1, heap)
  | .point => do
      let (p, heap) ← rpcGetPoint s
      .ok (.point p, s.1, heap)
  | .string => do
      let (text, heap) ← rpcGetString s
      .ok (.string text, s.1, heap)
  | .buffer => do
      let ((bytes, _), heap) ← rpcGetEntry s
      .ok (.buffer bytes, s.1, heap)

/-! ## The encoding of values -/

def Value.bytes : Value → List UInt8
  | .int i => uint32Bytes i.toNat
  | .uint8 c => [c]
  | .double c => uint64Bytes c.toNat
  | .point p => uint32Bytes p.toNat
  | .string text => text.bytes ++ [0]
  | .buffer data => data

def entry (value : Value) : List UInt8 := uint32Bytes value.bytes.length ++ value.bytes

def encode (values : List Value) : List UInt8 := values.flatMap entry

@[simp] theorem length_uint32Bytes (n : Nat) : (uint32Bytes n).length = 4 := rfl

variable {n : Nat}

theorem uint32At_uint32Bytes (small : n < 2 ^ 32) (rest : List UInt8) :
    uint32At (uint32Bytes n ++ rest) 0 = n := by
  simp only [uint32At, uint32Bytes, cons_append, getD_cons_zero, getD_cons_succ,
    UInt8.toNat_ofNat']
  omega

theorem uint32At_append (before rest : List UInt8) (i : Nat) :
    uint32At (before ++ rest) (before.length + i) = uint32At rest i := by
  have byte : ∀ j, (before ++ rest).getD (before.length + j) 0 = rest.getD j 0 := by
    intro j
    rw [getD_append_right _ _ _ _ (Nat.le_add_right _ _), Nat.add_sub_cancel_left]
  simp only [uint32At, Nat.add_assoc, byte]

theorem uint64At_uint64Bytes (small : n < 2 ^ 64) : uint64At (uint64Bytes n) 0 = n := by
  have high := uint32At_append (uint32Bytes (n % 2 ^ 32)) (uint32Bytes (n / 2 ^ 32)) 0
  have last := uint32At_uint32Bytes (n := n / 2 ^ 32) (by omega) []
  rw [append_nil] at last
  rw [uint64At, uint64Bytes, uint32At_uint32Bytes (Nat.mod_lt _ (by decide))]
  rw [length_uint32Bytes, last] at high
  rw [high]
  omega

theorem lengthInt_of_lt (small : n < 2 ^ 31) : lengthInt n = n := by
  rw [lengthInt, BitVec.toInt_eq_toNat_bmod, BitVec.toNat_ofNat, Int.bmod_def]
  omega

theorem encode_append (values more : List Value) :
    encode (values ++ more) = encode values ++ encode more :=
  flatMap_append

theorem encode_singleton (value : Value) : encode [value] = entry value := by
  rw [encode, flatMap_singleton]

theorem encode_cons (value : Value) (more : List Value) :
    encode (value :: more) = entry value ++ encode more :=
  flatMap_cons

theorem length_entry (value : Value) : (entry value).length = value.bytes.length + 4 := by
  rw [entry, length_append, length_uint32Bytes, Nat.add_comm]

theorem rpcPut_eq (s : Rpc × Heap RpcBuffer) (put : Put) :
    rpcPut s put = rpcPutBuffer s.2 s.1 put.value.bytes put.addr put.room := by
  obtain ⟨value, addr, room⟩ := put
  cases value <;> rfl

/-! ## Writing -/

def Carries (s : Rpc × Heap RpcBuffer) (values : List Value) : Prop :=
  match s.1.data with
  | none => values = []
  | some p => ∃ b, s.2.read p = some b ∧ b.buffer.getD [] = encode values ∧
      b.bufSize = (encode values).length % 2 ^ 16

variable {s s' : Rpc × Heap RpcBuffer} {heap heap' : Heap RpcBuffer} {p : Ptr} {b : RpcBuffer}
  {values : List Value} {data : List UInt8}

theorem rpcBufferPut_read (there : heap.read p = some b) {room : Bool}
    (ok : rpcBufferPut heap p data room = .ok (0, heap')) :
    heap'.read p = some { b with
      buffer := some ((b.buffer.getD []).take b.bufSize ++ uint32Bytes data.length ++ data)
      bufSize := (b.bufSize + (data.length + 4)) % 2 ^ 16 } := by
  unfold rpcBufferPut touch at ok
  rw [there] at ok
  cases room with
  | false => exact absurd (Prod.mk.inj (Except.ok.inj ok)).1 (by decide)
  | true =>
    obtain ⟨-, rfl⟩ := Prod.mk.inj (Except.ok.inj ok)
    exact Heap.read_write_self ⟨b, there⟩

theorem rpcPut_read {put : Put} (ok : rpcPut s put = .ok (0, s')) (holds : Carries s values) :
    ∃ p b, s'.1.data = some p ∧ s'.2.read p = some b ∧
      b.buffer = some ((encode values).take ((encode values).length % 2 ^ 16) ++ entry put.value) ∧
      b.bufSize = ((encode values).length % 2 ^ 16 + (entry put.value).length) % 2 ^ 16 := by
  obtain ⟨rpc, heap⟩ := s
  rw [rpcPut_eq, rpcPutBuffer] at ok
  split at ok
  · exact absurd (Prod.mk.inj (Except.ok.inj ok)).1 (by decide)
  -- the buffer that is written to, in both ways to come by it
  have written : ∀ heap p b, heap.read p = some b → b.buffer.getD [] = encode values →
      b.bufSize = (encode values).length % 2 ^ 16 → ∀ rpc' : Rpc, rpc'.data = some p →
      ((rpcBufferPut heap p put.value.bytes put.room).bind fun r => .ok (r.1, rpc', r.2)) =
        .ok (0, s') →
      ∃ p b, s'.1.data = some p ∧ s'.2.read p = some b ∧
        b.buffer = some ((encode values).take ((encode values).length % 2 ^ 16) ++ entry put.value) ∧
        b.bufSize = ((encode values).length % 2 ^ 16 + (entry put.value).length) % 2 ^ 16 := by
    intro heap p b there buffer bufSize rpc' data ok
    cases result : rpcBufferPut heap p put.value.bytes put.room with
    | error f => rw [result] at ok; cases ok
    | ok pair =>
      obtain ⟨ret, heap'⟩ := pair
      rw [result] at ok
      obtain ⟨rfl, rfl⟩ := Prod.mk.inj (Except.ok.inj ok)
      refine ⟨p, _, data, rpcBufferPut_read there result, ?_, ?_⟩
      · rw [buffer, bufSize, append_assoc, entry]
      · rw [bufSize, length_entry]
  unfold Carries at holds
  split at ok
  next p pointer =>
    rw [pointer] at holds
    obtain ⟨b, there, buffer, bufSize⟩ := holds
    exact written heap p b there buffer bufSize rpc pointer ok
  rename_i missing
  rw [missing] at holds
  subst holds
  cases got : heap.alloc put.addr {} with
  | none =>
    rw [got] at ok
    exact absurd (Prod.mk.inj (Except.ok.inj ok)).1 (by decide)
  | some pair =>
    obtain ⟨p, heap'⟩ := pair
    rw [got] at ok
    exact written heap' p _ (Heap.read_alloc got) rfl rfl _ rfl ok

theorem Carries.put {put : Put} (holds : Carries s values) (short : (encode values).length < 2 ^ 16)
    (ok : rpcPut s put = .ok (0, s')) : Carries s' (values ++ [put.value]) := by
  obtain ⟨p, b, pointer, there, buffer, bufSize⟩ := rpcPut_read ok holds
  rw [Nat.mod_eq_of_lt short] at bufSize buffer
  rw [Carries, pointer]
  refine ⟨b, there, ?_, ?_⟩
  · rw [buffer, take_length, encode_append, encode_singleton]
    rfl
  · rw [bufSize, encode_append, encode_singleton, length_append]

theorem carries_puts (puts : List Put) {s values rets s'} (holds : Carries s values)
    (short : (encode (values ++ (puts.map Put.value).dropLast)).length < 2 ^ 16 ∨ puts = [])
    (ok : run rpcPut s puts = .ok (rets, s')) (success : ∀ ret ∈ rets, ret = 0) :
    Carries s' (values ++ puts.map Put.value) := by
  induction puts generalizing s values rets s' with
  | nil =>
    obtain ⟨-, rfl⟩ := Prod.mk.inj (Except.ok.inj ok)
    rw [map_nil, append_nil]
    exact holds
  | cons put puts ih =>
    obtain ⟨ret, next, rets', first, rest, rfl⟩ := run_cons_ok ok
    have zero : ret = 0 := success ret mem_cons_self
    subst zero
    have fits := short.resolve_right (cons_ne_nil put puts)
    have before : (encode values).length < 2 ^ 16 := by
      rw [encode_append, length_append] at fits
      omega
    have appended := holds.put before first
    rw [map_cons, ← singleton_append, ← append_assoc]
    refine ih appended ?_ rest fun ret member => success ret (mem_cons_of_mem _ member)
    cases puts with
    | nil => exact .inr rfl
    | cons put' puts =>
      left
      rw [map_cons, map_cons, dropLast_cons_cons, ← singleton_append,
        ← append_assoc] at fits
      exact fits

/-! ## Reading -/

def Reading (s : Rpc × Heap RpcBuffer) (done rest : List Value) : Prop :=
  ∃ p b, s.1.data = some p ∧ s.2.read p = some b ∧ b.buffer = some (encode (done ++ rest)) ∧
    b.pos = (encode done).length % 2 ^ 16

variable {done rest : List Value} {value : Value}

theorem rpcGetEntry_reading (reading : Reading s done (value :: rest))
    (short : (encode done).length < 2 ^ 16) (small : value.bytes.length < 2 ^ 31) :
    ∃ heap, rpcGetEntry s = .ok ((value.bytes, value.bytes.length), heap) ∧
      Reading (s.1, heap) (done ++ [value]) rest := by
  obtain ⟨p, b, pointer, there, buffer, pos⟩ := reading
  rw [Nat.mod_eq_of_lt short] at pos
  have split : encode (done ++ value :: rest) =
      encode done ++ (uint32Bytes value.bytes.length ++ (value.bytes ++ encode rest)) := by
    rw [encode_append, encode_cons, entry, append_assoc]
  have length : uint32At (encode (done ++ value :: rest)) b.pos = value.bytes.length := by
    have here := uint32At_append (encode done)
      (uint32Bytes value.bytes.length ++ (value.bytes ++ encode rest)) 0
    rw [Nat.add_zero] at here
    rw [split, pos, here, uint32At_uint32Bytes (by omega)]
  have inside : ¬ (encode (done ++ value :: rest)).length < b.pos + 4 := by
    rw [split, length_append, length_append, length_uint32Bytes]
    omega
  have bytes : ((encode (done ++ value :: rest)).drop (b.pos + 4)).take value.bytes.length =
      value.bytes := by
    rw [split, pos, ← drop_drop, drop_left]
    exact (congrArg _ (@drop_left _ (uint32Bytes value.bytes.length) _)).trans take_left
  refine ⟨s.2.write p { b with pos := (b.pos + 4 + value.bytes.length) % 2 ^ 16 }, ?_, ?_⟩
  · have entry : rpcGetBuffer s.2 s.1 = .ok (some value.bytes,
        s.2.write p { b with pos := (b.pos + 4 + value.bytes.length) % 2 ^ 16 }) := by
      simp only [rpcGetBuffer, pointer, touch, there, bind, Except.bind, buffer, if_neg inside,
        length, bytes]
    simp only [rpcGetEntry, pointer, touch, there, ofFault, bind, Except.bind, entry, buffer,
      Option.getD_some, length, lengthInt_of_lt small, if_true]
  refine ⟨p, _, pointer, Heap.read_write_self ⟨b, there⟩, ?_, ?_⟩
  · rw [buffer, append_assoc, singleton_append]
  rw [encode_append, encode_singleton, length_append, length_entry, pos]
  show (_) % 2 ^ 16 = _
  congr 1
  omega

theorem rpcGet_entry {heap : Heap RpcBuffer}
    (entry : rpcGetEntry s = .ok ((value.bytes, value.bytes.length), heap)) :
    rpcGet s value.kind = .ok (value, s.1, heap) := by
  have word : ∀ n < 2 ^ 32, uint32At (uint32Bytes n) 0 = n := by
    intro n small
    have read := uint32At_uint32Bytes small []
    rwa [append_nil] at read
  cases value with
  | int i =>
    simp only [Value.bytes] at entry
    simp [rpcGet, Value.kind, rpcGetInt, rpcGetSized, entry, bind, Except.bind, word _ i.isLt]
  | uint8 c =>
    simp only [Value.bytes] at entry
    simp [rpcGet, Value.kind, rpcGetUint8, rpcGetSized, entry, bind, Except.bind]
  | double c =>
    simp only [Value.bytes] at entry
    have length : (uint64Bytes c.toNat).length = 8 := rfl
    simp [rpcGet, Value.kind, rpcGetDouble, rpcGetSized, entry, bind, Except.bind, length,
      uint64At_uint64Bytes c.isLt]
  | point p =>
    simp only [Value.bytes] at entry
    simp [rpcGet, Value.kind, rpcGetPoint, rpcGetSized, entry, bind, Except.bind, word _ p.isLt]
  | string text =>
    simp only [Value.bytes] at entry
    have stops : (text.bytes ++ [0]).takeWhile (· ≠ 0) = text.bytes := by
      have whole := takeWhile_text text.nonzero [0]
      simpa using whole
    simp only [rpcGet, Value.kind, rpcGetString, entry, bind, Except.bind]
    rw [if_pos (mem_append_right _ mem_cons_self)]
    simp only [stops]
  | buffer data =>
    simp only [Value.bytes] at entry
    simp [rpcGet, Value.kind, entry, bind, Except.bind]

theorem run_rpcGet (rest : List Value) {s done} (reading : Reading s done rest)
    (short : (encode (done ++ rest.dropLast)).length < 2 ^ 16)
    (small : ∀ value ∈ rest, value.bytes.length < 2 ^ 31) :
    ∃ s', run rpcGet s (rest.map Value.kind) = .ok (rest, s') := by
  induction rest generalizing s done with
  | nil => exact ⟨s, rfl⟩
  | cons value rest ih =>
    have before : (encode done).length < 2 ^ 16 := by
      rw [encode_append, length_append] at short
      omega
    obtain ⟨heap, entry, next⟩ :=
      rpcGetEntry_reading reading before (small value mem_cons_self)
    cases rest with
    | nil => exact ⟨(s.1, heap), run_cons (rpcGet_entry entry) rfl⟩
    | cons value' rest =>
      rw [dropLast_cons_cons, ← singleton_append, ← append_assoc] at short
      obtain ⟨s', ran⟩ := ih next short fun other member =>
        small other (mem_cons_of_mem _ member)
      exact ⟨s', run_cons (rpcGet_entry entry) ran⟩

/-! ## The round trip -/

/-- A call whose buffer has nothing in it: as `rpc_init` leaves it, or as `rpc_put_reset` does. -/
def Fresh (s : Rpc × Heap RpcBuffer) : Prop :=
  match s.1.data with
  | none => True
  | some p => ∃ b, s.2.read p = some b ∧ b.buffer = none ∧ b.bufSize = 0

/-- The sizes that the buffer can keep: before the last value, the entries have fewer bytes than
`buf_size` and `pos` can count, and all of them have fewer than an `int` can. -/
def Fits (values : List Value) : Prop :=
  (encode values.dropLast).length < 2 ^ 16 ∧ (encode values).length < 2 ^ 31

theorem length_bytes_le {value : Value} (member : value ∈ values) :
    value.bytes.length ≤ (encode values).length := by
  obtain ⟨before, after, rfl⟩ := append_of_mem member
  rw [encode_append, encode_cons, length_append, length_append, length_entry]
  omega

theorem Fresh.holds (fresh : Fresh s) : Carries s [] := by
  unfold Fresh at fresh
  unfold Carries
  split
  · rfl
  rename_i p pointer
  rw [pointer] at fresh
  obtain ⟨b, there, buffer, bufSize⟩ := fresh
  exact ⟨b, there, by rw [buffer]; rfl, bufSize⟩

theorem reading_reset (holds : Carries s values) (some_ : values ≠ []) :
    ∃ heap, rpcGetReset s.2 s.1 = .ok heap ∧ Reading (s.1, heap) [] values := by
  unfold Carries at holds
  split at holds
  · exact absurd holds some_
  rename_i p pointer
  obtain ⟨b, there, buffer, -⟩ := holds
  have whole : b.buffer = some (encode values) := by
    cases content : b.buffer with
    | some bytes =>
      rw [content] at buffer
      rw [← buffer]
      rfl
    | none =>
      obtain ⟨value, rest, rfl⟩ := exists_cons_of_ne_nil some_
      rw [content, encode_cons, entry] at buffer
      cases buffer
  refine ⟨s.2.write p { b with pos := 0 }, ?_, ?_⟩
  · simp only [rpcGetReset, pointer, touch, there, bind, Except.bind]
  · exact ⟨p, _, pointer, Heap.read_write_self ⟨b, there⟩, whole, rfl⟩

theorem rpcGetReset_fresh (fresh : Fresh s) : ∃ heap, rpcGetReset s.2 s.1 = .ok heap := by
  unfold Fresh at fresh
  unfold rpcGetReset
  split
  · exact ⟨_, rfl⟩
  rename_i p pointer
  rw [pointer] at fresh
  obtain ⟨b, there, -⟩ := fresh
  exact ⟨_, by simp only [touch, there, bind, Except.bind]; rfl⟩

/-- **What was put is got**: behind puts on a call with an empty buffer that all succeed, and whose
sizes fit, as many gets behind `rpc_get_reset` return the same values in order, each with its
length. -/
theorem gets_return_puts (s : Rpc × Heap RpcBuffer) (fresh : Fresh s) (puts : List Put)
    (fits : Fits (puts.map Put.value)) (rets : List Int) (s' : Rpc × Heap RpcBuffer)
    (ok : run rpcPut s puts = .ok (rets, s')) (success : ∀ ret ∈ rets, ret = 0) :
    ∃ heap, rpcGetReset s'.2 s'.1 = .ok heap ∧
      ∃ s'', run rpcGet (s'.1, heap) ((puts.map Put.value).map Value.kind) =
        .ok (puts.map Put.value, s'') := by
  cases puts with
  | nil =>
    obtain ⟨-, rfl⟩ := Prod.mk.inj (Except.ok.inj ok)
    obtain ⟨heap, reset⟩ := rpcGetReset_fresh fresh
    exact ⟨heap, reset, (s.1, heap), rfl⟩
  | cons put puts =>
    have holds := carries_puts _ fresh.holds (.inl fits.1) ok success
    obtain ⟨heap, reset, reading⟩ := reading_reset holds (cons_ne_nil _ _)
    obtain ⟨s'', ran⟩ := run_rpcGet _ reading fits.1 fun value member =>
      Nat.lt_of_le_of_lt (length_bytes_le member) fits.2
    exact ⟨heap, reset, s'', ran⟩

def someValues : List Value := [.int 5, .string ⟨[0x61], by decide⟩, .buffer [1, 2, 3]]

theorem gets_return_puts_three :
    ∃ rets s', run rpcPut ({}, Heap.empty) (someValues.map (⟨·, 0, true⟩)) = .ok (rets, s') ∧
      (∀ ret ∈ rets, ret = 0) ∧ ∃ heap, rpcGetReset s'.2 s'.1 = .ok heap ∧
        ∃ s'', run rpcGet (s'.1, heap) [.int, .string, .buffer] = .ok (someValues, s'') :=
  ⟨[0, 0, 0], _, rfl, by decide, gets_return_puts ({}, Heap.empty) trivial
    (someValues.map (⟨·, 0, true⟩)) ⟨by decide, by decide⟩ [0, 0, 0] _ rfl (by decide)⟩

/-! ## Too many bytes -/

theorem Carries.put_wrapped {s' : Rpc × Heap RpcBuffer} {put : Put} (holds : Carries s values)
    (wrapped : (encode values).length % 2 ^ 16 = 0) (ok : rpcPut s put = .ok (0, s')) :
    Carries s' [put.value] := by
  obtain ⟨p, b, pointer, there, buffer, bufSize⟩ := rpcPut_read ok holds
  rw [wrapped] at bufSize buffer
  rw [Carries, pointer]
  refine ⟨b, there, ?_, ?_⟩
  · rw [buffer, take_zero, nil_append, encode_singleton]
    rfl
  · rw [bufSize, Nat.zero_add, encode_singleton]

theorem rpcGetEntry_end {done : List Value} (reading : Reading s done [])
    (short : (encode done).length < 2 ^ 16) : rpcGetEntry s = .error (.fault .outOfRange) := by
  obtain ⟨p, b, pointer, there, buffer, pos⟩ := reading
  rw [append_nil] at buffer
  have outside : (encode done).length < b.pos + 4 := by omega
  simp only [rpcGetEntry, rpcGetBuffer, pointer, touch, there, ofFault, bind, Except.bind, buffer,
    if_pos outside]

def bufferAndByte (data : List UInt8) : List Put := [⟨.buffer data, 0, true⟩, ⟨.uint8 1, 0, true⟩]

theorem bufferAndByte_lost (data : List UInt8) (size : data.length = 65532) :
    ∃ rets s' heap, run rpcPut ({}, Heap.empty) (bufferAndByte data) = .ok (rets, s') ∧
      (∀ ret ∈ rets, ret = 0) ∧ rpcGetReset s'.2 s'.1 = .ok heap ∧
      run rpcGet (s'.1, heap) [.buffer, .uint8] = .error (.fault .outOfRange) := by
  have nonempty : data ≠ [] := by
    rintro rfl
    cases size
  obtain ⟨s₁, first⟩ : ∃ s₁, rpcPut ({}, Heap.empty) ⟨.buffer data, 0, true⟩ = .ok (0, s₁) := by
    have bytes : Value.bytes (.buffer data) ≠ [] := nonempty
    rw [rpcPut_eq, rpcPutBuffer, if_neg bytes]
    exact ⟨_, rfl⟩
  have start : Carries ({}, Heap.empty) [] := rfl
  have holds₁ : Carries s₁ [.buffer data] := start.put (by decide) first
  obtain ⟨s₂, second⟩ : ∃ s₂, rpcPut s₁ ⟨.uint8 1, 0, true⟩ = .ok (0, s₂) := by
    unfold Carries at holds₁
    split at holds₁
    · cases holds₁
    rename_i p pointer
    obtain ⟨b, there, -⟩ := holds₁
    have bytes : Value.bytes (.uint8 1) ≠ [] := cons_ne_nil _ _
    rw [rpcPut_eq, rpcPutBuffer, if_neg bytes, pointer]
    exact ⟨_, by simp only [rpcBufferPut, touch, there, bind, Except.bind, if_true]; rfl⟩
  have wrapped : (encode [.buffer data]).length % 2 ^ 16 = 0 := by
    rw [encode_singleton, length_entry, Value.bytes, size]
    rfl
  have holds₂ := holds₁.put_wrapped wrapped second
  obtain ⟨heap, reset, reading⟩ := reading_reset holds₂ (cons_ne_nil _ _)
  obtain ⟨heap', got, next⟩ := rpcGetEntry_reading reading (by decide) (by decide)
  refine ⟨[0, 0], s₂, heap, run_cons first (run_cons second rfl), by decide, reset, ?_⟩
  have gone := rpcGetEntry_end next (by decide)
  simp only [run, rpcGet, rpcGetUint8, rpcGetSized, got, gone, bind, Except.bind]

/-- **A buffer of 65532 bytes and a byte**: both puts succeed, and the gets do not return them. -/
theorem large_buffer_lost :
    ∃ rets s' heap,
      run rpcPut ({}, Heap.empty) (bufferAndByte (replicate 65532 0)) = .ok (rets, s') ∧
      (∀ ret ∈ rets, ret = 0) ∧ rpcGetReset s'.2 s'.1 = .ok heap ∧
      run rpcGet (s'.1, heap) [.buffer, .uint8] = .error (.fault .outOfRange) :=
  bufferAndByte_lost _ length_replicate

end Phy6212.UService
