import Phy6212.Fota.Serial

/-!
# What holds between the AT server and `serial_read`

While a call of `serial_read` waits, a signal means that the last block is complete and was posted
behind its request (`Expecting`, `Delivered`), if nothing was left before the call (`Quiet`).
-/

namespace Phy6212.Fota.Serial

open List CLib Misc

/-! ## Between two blocks -/

def Server.inPost : Server → Bool
  | .posting _ => true
  | .accepting _ => true
  | _ => false

def Server.resting : Server → Bool
  | .idle => true
  | .reading => true
  | _ => false

/-- No byte of an earlier block can come any more: the AT server is in the normal mode, or next
goes back to it. -/
structure State.Closed (s : State) : Prop where
  leaving : s.passThrough = false ∨ s.queue.head? = some (.passThrough false)
  queue : .passThrough true ∉ s.queue
  resting : s.server.resting = true

/-- No signal is left, and none can come without a new block. -/
structure State.Quiet (s : State) : Prop where
  sem : s.sem = 0
  closed : s.Closed

instance (s : State) : Decidable s.Closed :=
  decidable_of_iff
    ((s.passThrough = false ∨ s.queue.head? = some (.passThrough false)) ∧
      .passThrough true ∉ s.queue ∧ s.server.resting = true)
    ⟨fun all => ⟨all.1, all.2.1, all.2.2⟩, fun closed => ⟨closed.leaving, closed.queue, closed.resting⟩⟩

instance (s : State) : Decidable s.Quiet :=
  decidable_of_iff (s.sem = 0 ∧ s.Closed)
    ⟨fun both => ⟨both.1, both.2⟩, fun quiet => ⟨quiet.sem, quiet.closed⟩⟩

/-! ## What holds between the two tasks -/

/-- The last block is complete in the buffer, and was posted behind the last request. -/
structure State.Delivered (s : State) (block : Block) (older : List Block) : Prop where
  blocks : s.blocks = block :: older
  asked : block.asked = s.asked
  loaded : load s.mem s.recv.buffer block.bytes.length = block.bytes
  complete : block.bytes.length = block.len
  recvLen : s.recv.recvLen = block.len
  server : s.server.inPost = false

/-- The last block was posted behind the last request, and what has come of it is in the buffer. -/
def State.Fresh (s : State) : Prop :=
  ∃ block older, s.blocks = block :: older ∧ block.asked = s.asked ∧
    load s.mem s.recv.buffer block.bytes.length = block.bytes

/-- What a waiting call may rely on where the AT server is: a signal is for a block that is
delivered, and the next bytes go behind those that have come. -/
def State.ExpectingAt (s : State) : Server → Prop
  | .signalling => ∃ block older, s.Delivered block older
  | .receiving dest _ => dest = s.recv.buffer + s.recv.uartRecvLen
  | _ => True

structure State.Expecting (s : State) : Prop where
  fresh : s.Closed ∨ s.Fresh
  signalled : 0 < s.sem → ∃ block older, s.Delivered block older
  server : s.ExpectingAt s.server

def State.Earlier (s : State) : Prop := ∀ r ∈ s.returned, r.call < s.asked

def State.ReaderAt (s : State) : Reader → Prop
  | .idle => True
  | .starting _ => s.Quiet
  | .asking _ => s.Quiet
  | .waiting _ => s.Earlier ∧ s.Expecting
  | .checking _ => s.Earlier ∧ ∃ block older, s.Delivered block older
  | .verifying contentLen =>
    s.Earlier ∧ ∃ block older, s.Delivered block older ∧ contentLen = block.len ∧ 2 < contentLen
  | .failing => True

def State.ServerAt (s : State) : Server → Prop
  | .idle => True
  | .reading => s.passThrough = false
  | .posting len =>
    s.passThrough = false ∧ s.recv.uartRecvLen = 0 ∧
      ∃ block older, s.blocks = block :: older ∧ block.len = len ∧ block.bytes = []
  | .accepting len =>
    s.passThrough = false ∧ s.recv.uartRecvLen = 0 ∧
      ∃ block older, s.blocks = block :: older ∧ block.len = len ∧ block.bytes = []
  | .receiving _ size =>
    s.passThrough = true ∧ s.recv.lenNeed ≠ 0 ∧ size = s.recv.lenNeed - s.recv.uartRecvLen
  | .completing =>
    s.passThrough = true ∧ s.recv.lenNeed ≠ 0 ∧ s.recv.uartRecvLen = s.recv.lenNeed
  | .signalling => s.passThrough = true

def State.Counted (s : State) : Prop :=
  s.recv.lenNeed ≠ 0 → ∃ block older, s.blocks = block :: older ∧ block.len = s.recv.lenNeed ∧
    block.bytes.length = s.recv.uartRecvLen ∧ s.recv.uartRecvLen ≤ s.recv.lenNeed

/-- The call returned a block that was posted between its request and the next one. -/
def Settles (r : Return) (block : Block) : Prop := Answers r block ∧ r.call = block.asked

structure State.Settled (s : State) : Prop where
  answers : ∃ answers, List.Forall₂ Settles s.returned answers ∧ answers.Sublist s.blocks
  calls : ∀ r ∈ s.returned, r.call ≤ s.asked

structure State.Consistent (s : State) : Prop where
  server : s.ServerAt s.server
  reader : s.ReaderAt s.reader
  counted : s.Counted
  settled : s.Settled

/-! ## Steps beside a call -/

/-- What a step of the AT server or of the UART leaves for the update task. -/
structure Leaves (s s' : State) : Prop where
  reader : s'.reader = s.reader
  asked : s'.asked = s.asked
  returned : s'.returned = s.returned
  quiet : s.Quiet → s'.Quiet
  expecting : s.Expecting → s'.Expecting
  delivered : ∀ block older, s.Delivered block older → s'.Delivered block older

variable {s s' : State}

theorem Leaves.earlier (leaves : Leaves s s') (earlier : s.Earlier) : s'.Earlier := by
  intro r member
  rw [leaves.asked]
  rw [leaves.returned] at member
  exact earlier r member

theorem Leaves.readerAt (leaves : Leaves s s') (ok : s.ReaderAt s.reader) :
    s'.ReaderAt s'.reader := by
  rw [leaves.reader]
  cases place : s.reader with
  | idle => trivial
  | failing => trivial
  | starting length =>
    rw [place] at ok
    exact leaves.quiet ok
  | asking length =>
    rw [place] at ok
    exact leaves.quiet ok
  | waiting length =>
    rw [place] at ok
    exact ⟨leaves.earlier ok.1, leaves.expecting ok.2⟩
  | checking length =>
    rw [place] at ok
    obtain ⟨earlier, block, older, delivered⟩ := ok
    exact ⟨leaves.earlier earlier, block, older, leaves.delivered _ _ delivered⟩
  | verifying contentLen =>
    rw [place] at ok
    obtain ⟨earlier, block, older, delivered, lengths⟩ := ok
    exact ⟨leaves.earlier earlier, block, older, leaves.delivered _ _ delivered, lengths⟩

/-- A step that changes neither the blocks nor what has come of them. -/
structure Same (s s' : State) : Prop where
  reader : s'.reader = s.reader
  asked : s'.asked = s.asked
  returned : s'.returned = s.returned
  blocks : s'.blocks = s.blocks
  mem : s'.mem = s.mem
  buffer : s'.recv.buffer = s.recv.buffer
  sem : s'.sem = s.sem
  recvLen : s.server.inPost = false → s'.recv.recvLen = s.recv.recvLen
  inPost : s.server.inPost = false → s'.server.inPost = false
  closed : s.Closed → s'.Closed
  server : s'.server = s.server ∧ s'.recv = s.recv ∨ s'.ExpectingAt s'.server

section

variable (same : Same s s')

include same

theorem Same.delivered {block : Block} {older : List Block}
    (delivered : s.Delivered block older) : s'.Delivered block older where
  blocks := same.blocks.trans delivered.blocks
  asked := delivered.asked.trans same.asked.symm
  loaded := by rw [same.mem, same.buffer, delivered.loaded]
  complete := delivered.complete
  recvLen := (same.recvLen delivered.server).trans delivered.recvLen
  server := same.inPost delivered.server

theorem Same.expecting (expecting : s.Expecting) : s'.Expecting where
  fresh := by
    apply expecting.fresh.imp same.closed
    rintro ⟨block, older, blocks, asked, loaded⟩
    refine ⟨block, older, same.blocks.trans blocks, asked.trans same.asked.symm, ?_⟩
    rw [same.mem, same.buffer, loaded]
  signalled := by
    intro positive
    rw [same.sem] at positive
    obtain ⟨block, older, delivered⟩ := expecting.signalled positive
    exact ⟨block, older, same.delivered delivered⟩
  server := by
    rcases same.server with ⟨server, recv⟩ | there
    · have before := expecting.server
      rw [server]
      cases place : s.server with
      | signalling =>
        rw [place] at before
        obtain ⟨block, older, delivered⟩ := before
        exact ⟨block, older, same.delivered delivered⟩
      | receiving dest size =>
        rw [place] at before
        show dest = s'.recv.buffer + s'.recv.uartRecvLen
        rw [recv]
        exact before
      | _ => trivial
    · exact there

theorem Same.leaves : Leaves s s' where
  reader := same.reader
  asked := same.asked
  returned := same.returned
  quiet := fun quiet => ⟨same.sem.trans quiet.sem, same.closed quiet.closed⟩
  expecting := same.expecting
  delivered := fun _ _ => same.delivered

theorem Same.settled (settled : s.Settled) : s'.Settled := by
  obtain ⟨answers, calls⟩ := settled
  refine ⟨?_, ?_⟩
  · rw [same.returned, same.blocks]
    exact answers
  · rw [same.returned, same.asked]
    exact calls

theorem Same.counted (lenNeed : s'.recv.lenNeed = s.recv.lenNeed)
    (uartRecvLen : s'.recv.uartRecvLen = s.recv.uartRecvLen) (counted : s.Counted) :
    s'.Counted := by
  unfold State.Counted at counted ⊢
  rw [lenNeed, uartRecvLen, same.blocks]
  exact counted

end

theorem State.Closed.not_inside (closed : s.Closed) (inside : s.server.resting = false) :
    False := by
  rw [closed.resting] at inside
  cases inside

theorem count_reply {reply : Reply} (other : reply ≠ .otareq) (sent : List Reply) :
    (sent ++ [reply]).count .otareq = sent.count .otareq := by
  rw [count_append, count_singleton, if_neg (by simpa using other), Nat.add_zero]

variable {queue : List Command} {older : List Block} {block : Block}

theorem same_passThrough {on : Bool} (commands : s.queue = .passThrough on :: queue) :
    Same s { s with queue := queue, passThrough := on } := by
  refine ⟨rfl, rfl, rfl, rfl, rfl, rfl, rfl, fun _ => rfl, id, ?_, .inl ⟨rfl, rfl⟩⟩
  intro closed
  have rest : Command.passThrough true ∉ queue := fun member =>
    closed.queue (commands ▸ mem_cons_of_mem _ member)
  have off : on = false := by
    cases on with
    | false => rfl
    | true => exact absurd (commands ▸ mem_cons_self) closed.queue
  exact ⟨.inl off, rest, closed.resting⟩

theorem same_reading (commands : s.queue = .interrupt :: queue) (normal : s.passThrough = false) :
    Same s { s with queue := queue, server := .reading } := by
  refine ⟨rfl, rfl, rfl, rfl, rfl, rfl, rfl, fun _ => rfl, fun _ => rfl, ?_, .inr trivial⟩
  intro closed
  have rest : Command.passThrough true ∉ queue := fun member =>
    closed.queue (commands ▸ mem_cons_of_mem _ member)
  exact ⟨.inl normal, rest, rfl⟩

theorem same_passThCb (commands : s.queue = .interrupt :: queue) (passing : s.passThrough = true) :
    Same s (passThCb { s with queue := queue }) := by
  have notClosed : ¬ s.Closed := by
    intro closed
    rcases closed.leaving with normal | off
    · rw [passing] at normal
      cases normal
    · rw [commands] at off
      cases off
  unfold passThCb
  split
  · exact ⟨rfl, rfl, rfl, rfl, rfl, rfl, rfl, fun _ => rfl, id,
      fun closed => absurd closed notClosed, .inl ⟨rfl, rfl⟩⟩
  · exact ⟨rfl, rfl, rfl, rfl, rfl, rfl, rfl, fun _ => rfl, fun _ => rfl,
      fun closed => absurd closed notClosed, .inr rfl⟩

theorem State.Consistent.same (consistent : s.Consistent) (same : Same s s')
    (recv : s'.recv = s.recv) (server : s'.ServerAt s'.server) : s'.Consistent :=
  ⟨server, same.leaves.readerAt consistent.reader,
    same.counted (congrArg Recv.lenNeed recv) (congrArg Recv.uartRecvLen recv) consistent.counted,
    same.settled consistent.settled⟩

theorem serverAt_idle (place : s.server = .idle) : s.ServerAt s.server := by
  rw [place]
  trivial

theorem State.Consistent.passThCb (consistent : s.Consistent) (place : s.server = .idle)
    (commands : s.queue = .interrupt :: queue) (passing : s.passThrough = true) :
    (passThCb { s with queue := queue }).Consistent := by
  apply consistent.same (same_passThCb commands passing)
  · unfold Serial.passThCb
    split
    · rfl
    · rfl
  unfold Serial.passThCb
  split
  · exact serverAt_idle place
  · next usable =>
    rw [not_or] at usable
    exact ⟨passing, usable.2, rfl⟩

theorem State.Consistent.otapostCheck {len : Nat} (consistent : s.Consistent)
    (place : s.server = .posting len) : (otapostCheck s len).Consistent := by
  have server := consistent.server
  rw [place] at server
  have notClosed : ¬ s.Closed := fun closed => closed.not_inside (by rw [place]; rfl)
  unfold Serial.otapostCheck
  split
  · refine consistent.same ?_ rfl server.1
    exact ⟨rfl, count_reply (by decide) _, rfl, rfl, rfl, rfl, rfl, fun _ => rfl, fun _ => rfl,
      fun closed => absurd closed notClosed, .inr trivial⟩
  refine consistent.same ?_ rfl server
  refine ⟨rfl, rfl, rfl, rfl, rfl, rfl, rfl, fun _ => rfl, ?_,
    fun closed => absurd closed notClosed, .inr trivial⟩
  intro outside
  rw [place] at outside
  cases outside

theorem State.Consistent.otapostAccept {len : Nat} (consistent : s.Consistent)
    (place : s.server = .accepting len) : (otapostAccept s len).Consistent := by
  obtain ⟨server, reader, counted, settled⟩ := consistent
  rw [place] at server
  obtain ⟨normal, none, block, older, blocks, length, empty⟩ := server
  have same : Same s (Serial.otapostAccept s len) := by
    refine ⟨rfl, count_reply (by decide) _, rfl, rfl, rfl, rfl, rfl, ?_, fun _ => rfl, ?_,
      .inr trivial⟩
    · intro outside
      rw [place] at outside
      cases outside
    · intro closed
      exact (closed.not_inside (by rw [place]; rfl)).elim
  refine ⟨normal, same.leaves.readerAt reader, ?_, same.settled settled⟩
  intro _
  refine ⟨block, older, blocks, length, ?_, ?_⟩
  · show block.bytes.length = s.recv.uartRecvLen
    rw [empty, none]
    rfl
  · show s.recv.uartRecvLen ≤ len
    rw [none]
    exact Nat.zero_le len

theorem sublist_record {returned : List Return} {answers : List Block} {data : List UInt8}
    (settles : List.Forall₂ Settles returned answers) (among : answers.Sublist (block :: older))
    (full : block.bytes.length = block.len → data = []) :
    answers.Sublist (record data (block :: older)) := by
  cases among with
  | cons _ among => exact .cons _ among
  | cons_cons _ among =>
    cases settles with
    | cons settles _ =>
      rw [full settles.1.2.1, record, append_nil]
      exact .cons_cons _ among

theorem passThRecv_server (s : State) (dest size : Nat) :
    (passThRecv s dest size).server = .completing ∧
        s.recv.lenNeed ≤ s.recv.uartRecvLen + (s.uart.take size).length ∨
      (passThRecv s dest size).server = .idle := by
  unfold passThRecv
  dsimp only
  split
  · next enough => exact .inl ⟨rfl, enough⟩
  · exact .inr rfl

theorem passThRecv_delivered {dest size : Nat} (delivered : s.Delivered block older)
    (none : s.uart.take size = []) : (passThRecv s dest size).Delivered block older where
  blocks := by
    show record _ s.blocks = _
    rw [none, delivered.blocks, record, append_nil]
  asked := delivered.asked
  loaded := by
    show load (store s.mem dest _) s.recv.buffer _ = _
    rw [none, store_nil, delivered.loaded]
  complete := delivered.complete
  recvLen := delivered.recvLen
  server := by
    rcases passThRecv_server s dest size with ⟨completing, -⟩ | idle
    · rw [completing]
      rfl
    · rw [idle]
      rfl

theorem passThRecv_fresh {size : Nat} (blocks : s.blocks = block :: older)
    (asked : block.asked = s.asked)
    (loaded : load s.mem s.recv.buffer block.bytes.length = block.bytes)
    (come : block.bytes.length = s.recv.uartRecvLen) :
    (passThRecv s (s.recv.buffer + s.recv.uartRecvLen) size).Fresh := by
  refine ⟨{ block with bytes := block.bytes ++ s.uart.take size }, older, ?_, asked, ?_⟩
  · show record _ s.blocks = _
    rw [blocks, record]
  · show load (store s.mem _ _) s.recv.buffer _ = _
    rw [length_append, ← come, load_store, loaded]

section

variable (consistent : s.Consistent)

include consistent

theorem State.Consistent.receive {dest size : Nat} (place : s.server = .receiving dest size) :
    (passThRecv s dest size).Consistent := by
  obtain ⟨server, reader, counted, settled⟩ := consistent
  rw [place] at server
  obtain ⟨passing, needed, rest⟩ := server
  obtain ⟨block, older, blocks, length, come, most⟩ := counted needed
  have taken : (s.uart.take size).length ≤ size := length_take_le size s.uart
  have full : block.bytes.length = block.len → s.uart.take size = [] := by
    intro complete
    apply eq_nil_of_length_eq_zero
    omega
  have notClosed : ¬ s.Closed := fun closed => closed.not_inside (by rw [place]; rfl)
  have delivered : ∀ block older, s.Delivered block older →
      (passThRecv s dest size).Delivered block older := by
    intro block' older' delivered
    apply passThRecv_delivered delivered
    obtain ⟨rfl, rfl⟩ := List.cons.inj (blocks.symm.trans delivered.blocks)
    exact full delivered.complete
  have leaves : Leaves s (passThRecv s dest size) := by
    refine ⟨rfl, rfl, rfl, fun quiet => absurd quiet.closed notClosed, ?_, delivered⟩
    intro expecting
    have behind := expecting.server
    rw [place] at behind
    refine ⟨?_, ?_, ?_⟩
    · obtain ⟨block', older', blocks', asked, loaded⟩ := expecting.fresh.resolve_left notClosed
      obtain ⟨rfl, rfl⟩ := List.cons.inj (blocks.symm.trans blocks')
      cases behind
      exact .inr (passThRecv_fresh blocks asked loaded come)
    · intro positive
      obtain ⟨block', older', delivered'⟩ := expecting.signalled positive
      exact ⟨block', older', delivered _ _ delivered'⟩
    rcases passThRecv_server s dest size with ⟨completing, -⟩ | idle
    · rw [completing]
      trivial
    · rw [idle]
      trivial
  have inside : s.recv.uartRecvLen + (s.uart.take size).length ≤ s.recv.lenNeed := by omega
  refine ⟨?_, leaves.readerAt reader, ?_, ?_, settled.calls⟩
  · rcases passThRecv_server s dest size with ⟨completing, enough⟩ | idle
    · rw [completing]
      exact ⟨passing, needed, Nat.le_antisymm inside enough⟩
    · rw [idle]
      trivial
  · intro _
    refine ⟨{ block with bytes := block.bytes ++ s.uart.take size }, older, ?_, length, ?_, inside⟩
    · show record _ s.blocks = _
      rw [blocks, record]
    · rw [length_append, come]
      rfl
  obtain ⟨answers, settles, among⟩ := settled.answers
  rw [blocks] at among
  refine ⟨answers, settles, ?_⟩
  show answers.Sublist (record _ s.blocks)
  rw [blocks]
  exact sublist_record settles among full

theorem State.Consistent.passThComplete (place : s.server = .completing) :
    (passThComplete s).Consistent := by
  obtain ⟨server, reader, counted, settled⟩ := consistent
  rw [place] at server
  obtain ⟨passing, needed, all⟩ := server
  obtain ⟨block, older, blocks, length, come, -⟩ := counted needed
  have notClosed : ¬ s.Closed := fun closed => closed.not_inside (by rw [place]; rfl)
  have leaves : Leaves s (Serial.passThComplete s) := by
    refine ⟨rfl, rfl, rfl, fun quiet => absurd quiet.closed notClosed, ?_, ?_⟩
    · intro expecting
      have fresh := expecting.fresh.resolve_left notClosed
      have delivered : (Serial.passThComplete s).Delivered block older := by
        obtain ⟨block', older', blocks', asked, loaded⟩ := fresh
        obtain ⟨rfl, rfl⟩ := List.cons.inj (blocks.symm.trans blocks')
        exact ⟨blocks, asked, loaded, come.trans (all.trans length.symm), length.symm, rfl⟩
      exact ⟨.inr fresh, fun _ => ⟨block, older, delivered⟩, block, older, delivered⟩
    · intro block' older' delivered
      obtain ⟨rfl, rfl⟩ := List.cons.inj (blocks.symm.trans delivered.blocks)
      exact ⟨blocks, delivered.asked, delivered.loaded, delivered.complete, length.symm, rfl⟩
  exact ⟨passing, leaves.readerAt reader, counted, settled.answers, settled.calls⟩

theorem State.Consistent.signal (place : s.server = .signalling) :
    { s with sem := s.sem + 1, server := .idle }.Consistent := by
  obtain ⟨server, reader, counted, settled⟩ := consistent
  have notClosed : ¬ s.Closed := fun closed => closed.not_inside (by rw [place]; rfl)
  have delivered : ∀ block older, s.Delivered block older →
      { s with sem := s.sem + 1, server := .idle }.Delivered block older := by
    intro block older delivered
    exact ⟨delivered.blocks, delivered.asked, delivered.loaded, delivered.complete,
      delivered.recvLen, rfl⟩
  have leaves : Leaves s { s with sem := s.sem + 1, server := .idle } := by
    refine ⟨rfl, rfl, rfl, fun quiet => absurd quiet.closed notClosed, ?_, delivered⟩
    intro expecting
    have signalled := expecting.server
    rw [place] at signalled
    obtain ⟨block, older, before⟩ := signalled
    exact ⟨.inr (expecting.fresh.resolve_left notClosed),
      fun _ => ⟨block, older, delivered _ _ before⟩, trivial⟩
  exact ⟨trivial, leaves.readerAt reader, counted, settled.answers, settled.calls⟩

theorem State.Consistent.serve (ok : serve s = .ok s') : s'.Consistent := by
  unfold Serial.serve at ok
  split at ok
  · next place =>
    split at ok
    · cases ok
    · next on queue commands =>
      cases ok
      exact consistent.same (same_passThrough commands) rfl (serverAt_idle place)
    · next queue commands =>
      cases ok
      split
      · next passing => exact consistent.passThCb place commands passing
      · next normal =>
        have off := eq_false_of_ne_true normal
        exact consistent.same (same_reading commands off) rfl off
  · next place =>
    cases ok
    refine consistent.same ?_ rfl trivial
    exact ⟨rfl, rfl, rfl, rfl, rfl, rfl, rfl, fun _ => rfl, fun _ => rfl,
      fun closed => ⟨closed.leaving, closed.queue, rfl⟩, .inr trivial⟩
  · next place =>
    cases ok
    exact consistent.otapostCheck place
  · next place =>
    cases ok
    exact consistent.otapostAccept place
  · next place =>
    cases ok
    exact consistent.receive place
  · next place =>
    cases ok
    exact consistent.passThComplete place
  · next place =>
    cases ok
    exact consistent.signal place

theorem State.Consistent.uartEvent (bytes : List UInt8)
    (notice : Bool) : (uartEvent s bytes notice).Consistent := by
  refine consistent.same ?_ rfl consistent.server
  refine ⟨rfl, rfl, rfl, rfl, rfl, rfl, rfl, fun _ => rfl, id, ?_, .inl ⟨rfl, rfl⟩⟩
  intro closed
  cases notice with
  | false => exact ⟨closed.leaving, closed.queue, closed.resting⟩
  | true =>
    refine ⟨closed.leaving.imp_right ?_, ?_, closed.resting⟩
    · intro off
      show (s.queue ++ [Command.interrupt]).head? = _
      rw [head?_append, off]
      rfl
    intro member
    rcases mem_append.mp member with before | last
    · exact closed.queue before
    · cases mem_singleton.mp last

theorem State.Consistent.otapost_none (place : s.server = .reading) :
    (atCmdOtapost s none).Consistent := by
  have same : Same s (atCmdOtapost s none) := by
    refine ⟨rfl, rfl, rfl, rfl, rfl, rfl, rfl, fun _ => rfl, id,
      fun closed => ⟨closed.leaving, closed.queue, closed.resting⟩, .inr ?_⟩
    show (atCmdOtapost s none).ExpectingAt s.server
    rw [place]
    trivial
  refine ⟨?_, same.leaves.readerAt consistent.reader, ?_, same.settled consistent.settled⟩
  · have server := consistent.server
    rw [place] at server
    show (atCmdOtapost s none).ServerAt s.server
    rw [place]
    exact server
  · intro needed
    exact absurd rfl needed

theorem State.Consistent.otapost_some {len : Nat} (place : s.server = .reading)
    (waiting : s.reader.isWaiting = true) (sem : s.sem = 0) :
    (atCmdOtapost s (some len)).Consistent := by
  obtain ⟨server, reader, counted, settled⟩ := consistent
  rw [place] at server
  refine ⟨⟨server, rfl, ⟨s.asked, len, []⟩, s.blocks, rfl, rfl, rfl⟩, ?_, ?_, ?_, settled.calls⟩
  · show (atCmdOtapost s _).ReaderAt s.reader
    cases asked : s.reader with
    | waiting length =>
      rw [asked] at reader
      refine ⟨reader.1, .inr ⟨⟨s.asked, len, []⟩, s.blocks, rfl, rfl, rfl⟩, ?_, trivial⟩
      intro positive
      exact absurd sem (Nat.ne_of_gt positive)
    | _ =>
      rw [asked] at waiting
      cases waiting
  · intro needed
    exact absurd rfl needed
  · obtain ⟨answers, settles, among⟩ := settled.answers
    exact ⟨answers, settles, among.cons _⟩

end

/-! ## Steps of a call -/

theorem State.Consistent.serialRead (consistent : s.Consistent) (quiet : s.Quiet)
    (buffer length : Nat) : (serialRead s buffer length).Consistent := by
  obtain ⟨server, reader, counted, settled⟩ := consistent
  unfold Serial.serialRead
  split
  · exact ⟨server, reader, counted, settled⟩
  · obtain ⟨sem, leaving, queue, resting⟩ := quiet
    exact ⟨server, ⟨sem, leaving, queue, resting⟩, counted, settled.answers, settled.calls⟩

theorem State.Quiet.expecting (quiet : s.Quiet) : s.Expecting := by
  refine ⟨.inl quiet.closed, ?_, ?_⟩
  · intro positive
    exact absurd quiet.sem (Nat.ne_of_gt positive)
  have resting := quiet.closed.resting
  cases place : s.server with
  | idle => trivial
  | reading => trivial
  | _ =>
    rw [place] at resting
    cases resting

theorem count_request (sent : List Reply) :
    (sent ++ [Reply.otareq]).count .otareq = sent.count .otareq + 1 := by
  rw [count_append]
  rfl

theorem State.Delivered.answers (delivered : s.Delivered block older) (long : 2 < block.len)
    (verified : crcVerified s = true) :
    Answers ⟨s.asked, load s.mem s.recv.buffer (block.len - 2)⟩ block := by
  refine ⟨Nat.le_of_eq delivered.asked.symm, delivered.complete,
    s.mem (s.recv.buffer + (block.len - 2)), s.mem (s.recv.buffer + (block.len - 1)), ?_, ?_⟩
  · have cut : block.bytes.length = (block.len - 2) + 2 := by
      rw [delivered.complete]
      omega
    have last : s.recv.buffer + (block.len - 2) + 1 = s.recv.buffer + (block.len - 1) := by omega
    calc block.bytes = load s.mem s.recv.buffer block.bytes.length := delivered.loaded.symm
      _ = load s.mem s.recv.buffer (block.len - 2) ++
            load s.mem _ 2 := by rw [cut, load_add]
      _ = _ := by
        rw [← last]
        rfl
  · unfold crcVerified at verified
    rw [delivered.recvLen] at verified
    exact of_decide_eq_true verified

theorem State.Settled.cons {content : List UInt8} (settled : s.Settled) (earlier : s.Earlier)
    (blocks : s.blocks = block :: older) (asked : block.asked = s.asked)
    (answers : Answers ⟨s.asked, content⟩ block) :
    ∃ answers, List.Forall₂ Settles (⟨s.asked, content⟩ :: s.returned) answers ∧
      answers.Sublist s.blocks := by
  obtain ⟨taken, settles, among⟩ := settled.answers
  refine ⟨block :: taken, .cons ⟨answers, asked.symm⟩ settles, ?_⟩
  rw [blocks] at among ⊢
  cases among with
  | cons _ among => exact .cons_cons _ among
  | cons_cons _ among =>
    generalize same : s.returned = returned at settles
    cases settles with
    | cons first _ =>
      have before := earlier _ (same ▸ mem_cons_self)
      rw [first.2, asked] at before
      exact absurd before (Nat.lt_irrefl _)

theorem State.Consistent.read (consistent : s.Consistent) (ok : read s = .ok s') :
    s'.Consistent := by
  obtain ⟨server, reader, counted, settled⟩ := consistent
  unfold Serial.read at ok
  split at ok
  · cases ok
  · next length place =>
    cases ok
    rw [place] at reader
    obtain ⟨sem, leaving, queue, resting⟩ := reader
    exact ⟨server, ⟨sem, leaving, queue, resting⟩, counted, settled.answers, settled.calls⟩
  · next length place =>
    cases ok
    rw [place] at reader
    obtain ⟨sem, leaving, queue, resting⟩ := reader
    have before : ∀ r ∈ s.returned, r.call < (s.sent ++ [Reply.otareq]).count .otareq := by
      intro r member
      rw [count_request]
      exact Nat.lt_succ_of_le (settled.calls r member)
    refine ⟨server, ⟨before, ?_⟩, counted, settled.answers, ?_⟩
    · apply State.Quiet.expecting
      exact ⟨sem, leaving, queue, resting⟩
    · intro r member
      exact Nat.le_of_lt (before r member)
  · next length place =>
    split at ok
    · cases ok
    rename_i positive
    cases ok
    rw [place] at reader
    obtain ⟨earlier, expecting⟩ := reader
    obtain ⟨block, older, blocks, asked, loaded, complete, recvLen, outside⟩ :=
      expecting.signalled (Nat.pos_of_ne_zero positive)
    refine ⟨server, ⟨earlier, block, older, ?_⟩, counted, settled.answers, settled.calls⟩
    exact ⟨blocks, asked, loaded, complete, recvLen, outside⟩
  · next length place =>
    cases ok
    rw [place] at reader
    obtain ⟨earlier, block, older, blocks, asked, loaded, complete, recvLen, outside⟩ := reader
    refine ⟨server, ?_, counted, settled.answers, settled.calls⟩
    split
    · trivial
    split
    · trivial
    · next long =>
      refine ⟨earlier, block, older, ?_, recvLen, Nat.lt_of_not_le long⟩
      exact ⟨blocks, asked, loaded, complete, recvLen, outside⟩
  · next contentLen place =>
    rw [place] at reader
    obtain ⟨earlier, block, older, delivered, rfl, long⟩ := reader
    split at ok
    · cases ok
    split at ok
    · next verified =>
      cases ok
      have answers := delivered.answers long verified
      refine ⟨server, trivial, counted, ?_, ?_⟩
      · exact settled.cons earlier delivered.blocks delivered.asked answers
      intro r member
      show r.call ≤ (s.sent ++ [Reply.ok]).count .otareq
      rw [count_reply (by decide)]
      rcases mem_cons.mp member with rfl | before
      · exact Nat.le_refl _
      · exact settled.calls r before
    · cases ok
      exact ⟨server, trivial, counted, settled.answers, settled.calls⟩
  · next place =>
    cases ok
    refine ⟨server, trivial, counted, settled.answers, ?_⟩
    intro r member
    show r.call ≤ (s.sent ++ [Reply.error]).count .otareq
    rw [count_reply (by decide)]
    exact settled.calls r member

end Phy6212.Fota.Serial
