import Mathlib.Data.List.Basic

/-!
# The AT server collects its command lines

A notification makes the server read the UART until it is dry. `atserver_get_cmdline` drops bytes
until it has seen `AT` and collects the line behind it; how far it has come in the search for `AT`
is forgotten in between (`Assembly.feed`).
-/

namespace Phy6212.AtServer

open List

def uartBufSize : Nat := 16

def bufferMaxSize : Nat := 1024

def charA : UInt8 := 65

def charT : UInt8 := 84

def endsLine (c : UInt8) : Bool := c = 10 ∨ c = 13

/-- `atserver_uservice_t`: the first `recv_size` bytes of `buffer`, the bytes of `uart_buffer` that
have not been read, the bytes that wait in the UART, and the lines that were dispatched. -/
structure Server where
  buffer : List UInt8
  uartBuffer : List UInt8
  uart : List UInt8
  lines : List (List UInt8)
  deriving DecidableEq, Repr

def Server.init : Server := ⟨[], [], [], []⟩

def atserverUartRecv (s : Server) : Option (UInt8 × Server) :=
  let s := if s.uartBuffer = [] then
    { s with uartBuffer := s.uart.take uartBufSize, uart := s.uart.drop uartBufSize } else s
  match s.uartBuffer with
  | [] => none
  | c :: rest => some (c, { s with uartBuffer := rest })

/-- The local variables of `atserver_get_cmdline`: `flag`, and the first `len` bytes of the
buffer. -/
structure Assembly where
  flag : Bool
  text : List UInt8
  deriving DecidableEq, Repr

inductive Fed where
  | more (a : Assembly)
  | line (text : List UInt8)
  deriving DecidableEq, Repr

def Assembly.put (a : Assembly) (c : UInt8) : List UInt8 :=
  (if bufferMaxSize - 1 ≤ a.text.length then [] else a.text) ++ [c]

/-- The loop of `atserver_get_cmdline` behind the reading of a byte. -/
def Assembly.feed (a : Assembly) (c : UInt8) : Fed :=
  let text := a.put c
  if a.flag = false ∧ 1 < text.length then
    if text.drop (text.length - 2) = [charA, charT] then .more ⟨true, [charA, charT]⟩
    else .more ⟨false, text⟩
  else if a.flag = true ∧ endsLine c then .line text.dropLast
  else .more ⟨a.flag, text⟩

def getCmdlineLoop : Nat → Assembly → Server → Nat × Server
  | 0, _, s => (0, s)
  | fuel + 1, a, s =>
    match atserverUartRecv s with
    | none => (0, if a.flag then { s with buffer := a.text } else s)
    | some (c, s) =>
      match a.feed c with
      | .more a => getCmdlineLoop fuel a s
      | .line text => (text.length, { s with buffer := text })

def Server.waiting (s : Server) : List UInt8 := s.uartBuffer ++ s.uart

def Server.start (s : Server) : Assembly := ⟨s.buffer ≠ [], s.buffer⟩

def atserverGetCmdline (s : Server) : Nat × Server :=
  getCmdlineLoop (s.waiting.length + 1) s.start s

def interruptCmdHandleLoop : Nat → Server → Server
  | 0, s => s
  | fuel + 1, s =>
    let (ret, s) := atserverGetCmdline s
    if 0 < ret then
      interruptCmdHandleLoop fuel { s with buffer := [], lines := s.lines ++ [s.buffer] }
    else s

def interruptCmdHandle (s : Server) : Server := interruptCmdHandleLoop (s.waiting.length + 1) s

def Server.notify (s : Server) (chunk : List UInt8) : Server :=
  interruptCmdHandle { s with uart := s.uart ++ chunk }

def dispatched (chunks : List (List UInt8)) : List (List UInt8) :=
  (chunks.foldl Server.notify Server.init).lines

inductive Sym where
  | byte (c : UInt8)
  | dry
  deriving DecidableEq, Repr

/-- What is left of the local variables when the UART has run dry. -/
def Assembly.settle (a : Assembly) : Assembly := if a.flag then a else ⟨false, []⟩

def collected : Assembly → List Sym → List (List UInt8)
  | _, [] => []
  | a, .dry :: syms => collected a.settle syms
  | a, .byte c :: syms =>
    match a.feed c with
    | .more a => collected a syms
    | .line text => text :: collected ⟨false, []⟩ syms

def marks (chunks : List (List UInt8)) : List Sym :=
  chunks.flatMap fun chunk => chunk.map .byte ++ [.dry]

def advance : Assembly → List UInt8 → Except Assembly (List UInt8 × List UInt8)
  | a, [] => .error a
  | a, c :: rest =>
    match a.feed c with
    | .more a => advance a rest
    | .line text => .ok (text, rest)

variable {s : Server} {a : Assembly}

theorem uartRecv_dry (dry : s.waiting = []) : atserverUartRecv s = none := by
  obtain ⟨empty, none⟩ := append_eq_nil_iff.mp dry
  simp [atserverUartRecv, empty, none]

variable {rest bytes : List UInt8} {a' : Assembly} (c : UInt8)

theorem uartRecv_cons {c : UInt8} (here : s.waiting = c :: rest) :
    ∃ s', atserverUartRecv s = some (c, s') ∧ s'.waiting = rest ∧ s'.buffer = s.buffer ∧
      s'.lines = s.lines := by
  unfold atserverUartRecv
  cases buffer : s.uartBuffer with
  | nil =>
    have uart : s.uart = c :: rest := by simpa [Server.waiting, buffer] using here
    refine ⟨{ s with
      uartBuffer := rest.take (uartBufSize - 1)
      uart := rest.drop (uartBufSize - 1) }, ?_, ?_, rfl, rfl⟩
    · simp [uart, uartBufSize]
    · simp [Server.waiting]
  | cons c' left =>
    have both : c' :: (left ++ s.uart) = c :: rest := by
      simpa [Server.waiting, buffer] using here
    obtain ⟨rfl, rest_eq⟩ := List.cons.inj both
    exact ⟨{ s with uartBuffer := left }, by simp [buffer], rest_eq, rfl, rfl⟩

theorem getCmdlineLoop_eq {fuel : Nat} (here : s.waiting = bytes) (enough : bytes.length < fuel) :
    ∃ s', s'.lines = s.lines ∧
      match advance a bytes with
      | .ok (text, rest) =>
        getCmdlineLoop fuel a s = (text.length, s') ∧ s'.waiting = rest ∧ s'.buffer = text
      | .error a' => getCmdlineLoop fuel a s = (0, s') ∧ s'.waiting = [] ∧
          s'.buffer = if a'.flag then a'.text else s.buffer := by
  induction bytes generalizing a s fuel with
  | nil =>
    obtain ⟨fuel, rfl⟩ := Nat.exists_eq_succ_of_ne_zero (Nat.ne_of_gt enough)
    refine ⟨if a.flag then { s with buffer := a.text } else s, ?_, ?_, ?_, ?_⟩
    · split <;> rfl
    · rw [getCmdlineLoop, uartRecv_dry here]
    · split <;> exact here
    · split <;> rfl
  | cons c rest ih =>
    obtain ⟨fuel, rfl⟩ := Nat.exists_eq_succ_of_ne_zero (Nat.ne_of_gt (Nat.zero_lt_of_lt enough))
    obtain ⟨s', read, left, buffer, lines⟩ := uartRecv_cons here
    simp only [getCmdlineLoop, read, advance]
    cases fed : a.feed c with
    | more a' =>
      obtain ⟨t, lines', found⟩ := ih (a := a') left (Nat.lt_of_succ_lt_succ enough)
      refine ⟨t, lines'.trans lines, ?_⟩
      rw [buffer] at found
      exact found
    | line text => exact ⟨{ s' with buffer := text }, lines, rfl, left, rfl⟩

theorem collected_portion (bytes : List UInt8) (syms : List Sym) :
    collected a (bytes.map .byte ++ .dry :: syms) =
      match advance a bytes with
      | .ok (text, rest) => text :: collected ⟨false, []⟩ (rest.map .byte ++ .dry :: syms)
      | .error a' => collected a'.settle syms := by
  induction bytes generalizing a with
  | nil => rfl
  | cons c rest ih =>
    rw [map_cons, cons_append, collected, advance]
    cases fed : a.feed c with
    | more a' => exact ih
    | line text => rfl

theorem feed_collect (text : List UInt8) (c : UInt8) :
    Assembly.feed ⟨true, text⟩ c =
      if endsLine c then .line (Assembly.put ⟨true, text⟩ c).dropLast
      else .more ⟨true, Assembly.put ⟨true, text⟩ c⟩ := by
  simp [Assembly.feed]

theorem feed_hunt (text : List UInt8) (c : UInt8) :
    Assembly.feed ⟨false, text⟩ c =
      if [charA, charT] <:+ Assembly.put ⟨false, text⟩ c then .more ⟨true, [charA, charT]⟩
      else .more ⟨false, Assembly.put ⟨false, text⟩ c⟩ := by
  have last_two : [charA, charT] <:+ Assembly.put ⟨false, text⟩ c ↔
      1 < (Assembly.put ⟨false, text⟩ c).length ∧
        (Assembly.put ⟨false, text⟩ c).drop ((Assembly.put ⟨false, text⟩ c).length - 2) =
          [charA, charT] := by
    rw [suffix_iff_eq_drop]
    constructor
    · intro here
      refine ⟨?_, here.symm⟩
      have lengths := congrArg length here
      rw [length_drop] at lengths
      simp only [length_cons, length_nil] at lengths
      omega
    · exact fun here => here.2.symm
  by_cases long : 1 < (Assembly.put ⟨false, text⟩ c).length
  · simp [Assembly.feed, last_two, long]
  · simp [Assembly.feed, last_two, long]

theorem put_ne_nil : a.put c ≠ [] := by
  simp [Assembly.put]

theorem more_cases {c : UInt8} (fed : a.feed c = .more a') :
    (a.flag = true → a'.flag = true) ∧ a'.text ≠ [] := by
  obtain ⟨flag, text⟩ := a
  cases flag with
  | true =>
    rw [feed_collect] at fed
    split at fed
    · cases fed
    · cases fed
      exact ⟨id, put_ne_nil c⟩
  | false =>
    rw [feed_hunt] at fed
    split at fed
    · cases fed
      exact ⟨fun _ => rfl, cons_ne_nil _ _⟩
    · cases fed
      exact ⟨id, put_ne_nil c⟩

/-- Local variables that may be behind a dry UART: a line that is collected has a byte. -/
def Assembly.Proper (a : Assembly) : Prop := a.flag = true → a.text ≠ []

theorem advance_error (proper : a.Proper) (ran_out : advance a bytes = .error a') :
    a'.Proper ∧ (a.flag = true → a'.flag = true) := by
  induction bytes generalizing a with
  | nil =>
    cases ran_out
    exact ⟨proper, id⟩
  | cons c rest ih =>
    rw [advance] at ran_out
    cases fed : a.feed c with
    | more b =>
      rw [fed] at ran_out
      obtain ⟨proper', flag'⟩ := ih (fun _ => (more_cases fed).2) ran_out
      exact ⟨proper', fun flag => flag' ((more_cases fed).1 flag)⟩
    | line text =>
      rw [fed] at ran_out
      cases ran_out

theorem advance_ok_length {text : List UInt8} (found : advance a bytes = .ok (text, rest)) :
    rest.length < bytes.length := by
  induction bytes generalizing a with
  | nil => cases found
  | cons c left ih =>
    rw [advance] at found
    cases fed : a.feed c with
    | more b =>
      rw [fed] at found
      exact Nat.lt_succ_of_lt (ih found)
    | line t =>
      rw [fed] at found
      cases found
      exact Nat.lt_succ_self _

theorem start_proper (s : Server) : s.start.Proper := by
  intro flag
  simpa [Server.start] using flag

theorem start_of_buffer_nil (cleared : s.buffer = []) : s.start = ⟨false, []⟩ := by
  simp [Server.start, cleared]

theorem start_eq_settle {s' : Server} (ran_out : advance s.start bytes = .error a')
    (buffer : s'.buffer = if a'.flag then a'.text else s.buffer) : s'.start = a'.settle := by
  obtain ⟨proper, flag_kept⟩ := advance_error (start_proper s) ran_out
  obtain ⟨flag, text⟩ := a'
  cases flag with
  | true =>
    have nonempty : text ≠ [] := proper rfl
    simp [Server.start, Assembly.settle, buffer, nonempty]
  | false =>
    have cleared : s.buffer = [] := by
      by_contra kept
      have flagged : s.start.flag = true := by simp [Server.start, kept]
      exact Bool.noConfusion (flag_kept flagged)
    rw [start_of_buffer_nil (buffer.trans cleared)]
    rfl

theorem interruptCmdHandleLoop_eq {fuel : Nat} {syms : List Sym} (here : s.waiting = bytes)
    (enough : bytes.length < fuel)
    (nonempty : ∀ text ∈ collected s.start (bytes.map .byte ++ .dry :: syms), text ≠ []) :
    ∃ new, (interruptCmdHandleLoop fuel s).lines = s.lines ++ new ∧
      (interruptCmdHandleLoop fuel s).waiting = [] ∧
      collected s.start (bytes.map .byte ++ .dry :: syms) =
        new ++ collected (interruptCmdHandleLoop fuel s).start syms := by
  induction fuel generalizing s bytes with
  | zero => exact absurd enough (Nat.not_lt_zero _)
  | succ fuel ih =>
    obtain ⟨s', lines, outcome⟩ :=
      getCmdlineLoop_eq (a := s.start) here (Nat.lt_succ_self bytes.length)
    rw [← here] at outcome
    rw [collected_portion] at nonempty ⊢
    rw [interruptCmdHandleLoop, atserverGetCmdline]
    rw [← here] at nonempty ⊢
    cases found : advance s.start s.waiting with
    | error a' =>
      simp only [found] at outcome nonempty ⊢
      obtain ⟨run, dry, buffer⟩ := outcome
      simp only [run, Nat.lt_irrefl, if_false]
      refine ⟨[], ?_, dry, ?_⟩
      · rw [append_nil]
        exact lines
      · rw [start_eq_settle found buffer]
        rfl
    | ok result =>
      obtain ⟨text, rest⟩ := result
      simp only [found] at outcome nonempty ⊢
      obtain ⟨run, left, buffer⟩ := outcome
      have some_byte : 0 < text.length :=
        length_pos_iff.mpr (nonempty text mem_cons_self)
      have shorter : rest.length < fuel := by
        have := advance_ok_length found
        rw [here] at this
        exact Nat.lt_of_lt_of_le this (Nat.le_of_lt_succ enough)
      obtain ⟨new, lines', dry, split⟩ :=
        ih (s := { s' with buffer := [], lines := s'.lines ++ [s'.buffer] }) left shorter
          fun t mem => nonempty t (mem_cons_of_mem _ mem)
      simp only [run, some_byte, if_true]
      refine ⟨text :: new, ?_, dry, ?_⟩
      · rw [lines', lines, buffer]
        simp
      · exact congrArg _ split

theorem foldl_notify_eq (chunks : List (List UInt8)) (dry : s.waiting = [])
    (nonempty : ∀ text ∈ collected s.start (marks chunks), text ≠ []) :
    (chunks.foldl Server.notify s).lines = s.lines ++ collected s.start (marks chunks) := by
  induction chunks generalizing s with
  | nil => simp [marks, collected]
  | cons chunk chunks ih =>
    have portions : marks (chunk :: chunks) = chunk.map .byte ++ .dry :: marks chunks := by
      simp [marks]
    have here : Server.waiting { s with uart := s.uart ++ chunk } = chunk := by
      obtain ⟨empty, none⟩ := append_eq_nil_iff.mp dry
      simp [Server.waiting, empty, none]
    rw [portions] at nonempty ⊢
    obtain ⟨new, lines, dry', split⟩ := interruptCmdHandleLoop_eq
      (s := { s with uart := s.uart ++ chunk }) here (Nat.lt_succ_self _) nonempty
    have handled : s.notify chunk = interruptCmdHandleLoop (chunk.length + 1)
        { s with uart := s.uart ++ chunk } := by
      rw [Server.notify, interruptCmdHandle, here]
    rw [← handled] at lines dry' split
    have start_eq : Server.start { s with uart := s.uart ++ chunk } = s.start := rfl
    rw [start_eq] at split
    rw [foldl_cons, split, ih dry', lines, append_assoc]
    intro text mem
    exact nonempty text (split ▸ mem_append_right _ mem)

theorem dispatched_eq (chunks : List (List UInt8))
    (nonempty : ∀ text ∈ collected ⟨false, []⟩ (marks chunks), text ≠ []) :
    dispatched chunks = collected ⟨false, []⟩ (marks chunks) := by
  rw [dispatched, foldl_notify_eq (s := Server.init) chunks rfl nonempty]
  rfl

end Phy6212.AtServer
