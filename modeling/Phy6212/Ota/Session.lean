import Phy6212.Ota.Moves
import Phy6212.Runs.Reach
import Phy6212.Runs.Trace

/-!
# Sessions

After any events the session is the one announced last, the packet that is being received began with
a header that was sent and is not longer than it says, and no more slots are filled than packets are
expected (`Sound`).
-/

namespace Phy6212.Ota

open List Misc Runs

/-! ## Traces -/

def Note.announcement : Note → Option (Nat × Nat)
  | .announced firmwareSize packetSize => some (firmwareSize, packetSize)
  | _ => none

def Note.offset? : Note → Option Nat
  | .programmed offset _ _ => some offset
  | _ => none

def announced (trace : List Note) : Option (Nat × Nat) :=
  trace.reverse.findSome? Note.announcement

@[simp] theorem announced_append (trace : List Note) (n : Note) :
    announced (trace ++ [n]) = n.announcement.or (announced trace) := by
  unfold announced
  rw [reverse_append, reverse_singleton, singleton_append, findSome?_cons]
  cases n.announcement <;> rfl

/-- The trace ends with the writes of a packet: the first one begins with the header,
and the stream is what the client has sent behind it. -/
def Sends (trace : List Note) (id crc : Nat) (stream : List UInt8) : Prop :=
  ∃ old header frames, trace = old ++ (header :: frames).map .received ∧ IsHeader header ∧
    word16 header 2 = id ∧ word16 header 4 = crc ∧ stream = header.drop 6 ++ frames.flatten

theorem sends_header (trace : List Note) {data : List UInt8} (header : IsHeader data) :
    Sends (trace ++ [.received data]) (word16 data 2) (word16 data 4) (data.drop 6) :=
  ⟨trace, data, [], rfl, header, rfl, rfl, by simp⟩

variable {trace : List Note}

theorem Sends.more {id crc : Nat} {stream : List UInt8} (sends : Sends trace id crc stream)
    (data : List UInt8) : Sends (trace ++ [.received data]) id crc (stream ++ data) := by
  obtain ⟨old, header, frames, rfl, begins, isId, isCrc, rfl⟩ := sends
  refine ⟨old, header, frames ++ [data], ?_, begins, isId, isCrc, ?_⟩
  · simp
  · simp

/-! ## The invariant -/

structure InSession (trace : List Note) (firmwareSize packetSize expectPacketCount : Nat) :
    Prop where
  announcement : announced trace = some (firmwareSize, packetSize)
  positive : 0 < packetSize
  small : packetSize ≤ otaPacketSize
  count : expectPacketCount = packetCount firmwareSize packetSize % 2 ^ 16

abbrev Server.InSession (s : Server) : Prop :=
  Ota.InSession s.trace s.ctrl.firmwareSize s.ctrl.packetSize s.ctrl.expectPacketCount

structure Begun (ctrl : OtaCtrl) (rx : OtaRx) : Prop where
  known : rx.packetId < ctrl.expectPacketCount
  expected : rx.expectLen = expectLenOf ctrl rx.packetId

structure Receiving (ctrl : OtaCtrl) (rx : OtaRx) (trace : List Note) : Prop extends
    Begun ctrl rx where
  sends : Sends trace rx.packetId rx.packetCrc rx.rxBuf
  incomplete : rx.rxLen < rx.expectLen

structure Received (ctrl : OtaCtrl) (rx : OtaRx) (trace : List Note) : Prop extends
    Begun ctrl rx where
  sends : ∃ stream, Sends trace rx.packetId rx.packetCrc stream ∧ rx.rxBuf <+: stream
  complete : rx.rxLen = rx.expectLen
  expects : rx.expectLen ≠ 0
  checked : (crc16 0 rx.rxBuf).toNat = rx.packetCrc

/-- A slot is still to be filled, unless there is none. -/
def Pending (ctrl : OtaCtrl) : Prop :=
  ctrl.recvPacketCount < ctrl.expectPacketCount ∨ ctrl.expectPacketCount = 0

def Server.Active (s : Server) : Prop := s.ctrl.st ≠ .idle ∧ s.ctrl.st ≠ .stop

structure Sound (s : Server) : Prop where
  session : s.ctrl.st ≠ .idle → s.ctrl.st ≠ .stop → s.InSession
  fresh : s.ctrl.st = .idle ∨ s.ctrl.st = .stop ∨ s.ctrl.st = .start → s.ctrl.recvPacketCount = 0
  armed : s.ctrl.timer ≠ none → s.ctrl.st = .dl ∨ s.ctrl.st = .complete
  pending : s.ctrl.st = .request ∨ s.ctrl.st = .dl ∨ s.ctrl.st = .flash ∨ s.ctrl.timer ≠ none →
    Pending s.ctrl
  empty : s.ctrl.st = .dl → s.rx.expectLen = 0 → s.rx.rxBuf = []
  receiving : s.ctrl.st = .dl → s.rx.expectLen ≠ 0 → Receiving s.ctrl s.rx s.trace
  received : s.ctrl.st = .flash → Received s.ctrl s.rx s.trace

theorem InSession.note {firmwareSize packetSize expectPacketCount : Nat}
    (session : InSession trace firmwareSize packetSize expectPacketCount) {n : Note}
    (other : n.announcement = none) :
    InSession (trace ++ [n]) firmwareSize packetSize expectPacketCount := by
  refine ⟨?_, session.positive, session.small, session.count⟩
  rw [announced_append, other, Option.none_or, session.announcement]

variable {cfg : Config} {s : Server} {st : OtaState}

theorem Sound.session_of (sound : Sound s) (state : s.ctrl.st = st) (notIdle : st ≠ .idle)
    (notStop : st ≠ .stop) : s.InSession :=
  sound.session (state ▸ notIdle) (state ▸ notStop)

theorem Sound.stopped (sound : Sound s) (state : s.ctrl.st = st) (notDl : st ≠ .dl)
    (notComplete : st ≠ .complete) : s.ctrl.timer = none := by
  by_contra armed
  rcases sound.armed armed with downloads | complete
  · exact notDl (state ▸ downloads)
  · exact notComplete (state ▸ complete)

theorem Server.InSession.expectLenOf_le (session : s.InSession) (k : Nat) :
    expectLenOf s.ctrl k ≤ s.ctrl.packetSize := by
  unfold expectLenOf
  split
  · exact Nat.le_of_lt (Nat.mod_lt _ session.positive)
  · exact Nat.le_refl _

theorem sound_resting (resting : s.ctrl.st = .idle ∨ s.ctrl.st = .stop)
    (none_ : s.ctrl.recvPacketCount = 0) (stopped : s.ctrl.timer = none) : Sound s := by
  have others : s.ctrl.st ≠ .request ∧ s.ctrl.st ≠ .dl ∧ s.ctrl.st ≠ .flash := by
    rcases resting with state | state <;> rw [state] <;> decide
  refine ⟨?_, fun _ => none_, fun armed => absurd stopped armed, ?_,
    fun downloads => absurd downloads others.2.1, fun downloads => absurd downloads others.2.1,
    fun flashing => absurd flashing others.2.2⟩
  · intro notIdle notStop
    rcases resting with idle | stop
    · exact absurd idle notIdle
    · exact absurd stop notStop
  rintro (state | state | state | armed)
  · exact absurd state others.1
  · exact absurd state others.2.1
  · exact absurd state others.2.2
  · exact absurd stopped armed

section

variable (session : s.InSession)

include session

theorem sound_requesting (requesting : s.ctrl.st = .request)
    (stopped : s.ctrl.timer = none) (pending : Pending s.ctrl) : Sound s := by
  have others : s.ctrl.st ≠ .idle ∧ s.ctrl.st ≠ .stop ∧ s.ctrl.st ≠ .start ∧ s.ctrl.st ≠ .dl ∧
      s.ctrl.st ≠ .flash := by
    rw [requesting]
    decide
  refine ⟨fun _ _ => session, ?_, fun armed => absurd stopped armed, fun _ => pending,
    fun downloads => absurd downloads others.2.2.2.1,
    fun downloads => absurd downloads others.2.2.2.1,
    fun flashing => absurd flashing others.2.2.2.2⟩
  rintro (state | state | state)
  · exact absurd state others.1
  · exact absurd state others.2.1
  · exact absurd state others.2.2.1

theorem sound_complete (complete : s.ctrl.st = .complete)
    (pending : s.ctrl.timer ≠ none → Pending s.ctrl) : Sound s := by
  refine ⟨fun _ _ => session, ?_, fun _ => .inr complete, ?_, ?_, ?_, ?_⟩
  · rw [complete]
    rintro (state | state | state) <;> cases state
  · rw [complete]
    rintro (state | state | state | armed)
    · cases state
    · cases state
    · cases state
    · exact pending armed
  · rw [complete]
    intro downloads
    cases downloads
  · rw [complete]
    intro downloads
    cases downloads
  · rw [complete]
    intro flashing
    cases flashing

theorem sound_downloading (downloads : s.ctrl.st = .dl)
    (pending : Pending s.ctrl) (empty : s.rx.expectLen = 0 → s.rx.rxBuf = [])
    (receiving : s.rx.expectLen ≠ 0 → Receiving s.ctrl s.rx s.trace) : Sound s := by
  refine ⟨fun _ _ => session, ?_, fun _ => .inl downloads, fun _ => pending, fun _ => empty,
    fun _ => receiving, ?_⟩
  · rw [downloads]
    rintro (state | state | state) <;> cases state
  · rw [downloads]
    intro flashing
    cases flashing

theorem sound_packetEnd {buffer stream : List UInt8} (pending : Pending s.ctrl)
    (begun : Begun s.ctrl s.rx) (expects : s.rx.expectLen ≠ 0)
    (sends : Sends s.trace s.rx.packetId s.rx.packetCrc stream) (isPrefix : buffer <+: stream)
    (length : buffer.length = s.rx.expectLen) : Sound (packetEnd s buffer) := by
  by_cases right : (crc16 0 buffer).toNat = s.rx.packetCrc
  · have flash : (packetEnd s buffer).ctrl.st = .flash := if_pos right
    refine ⟨fun _ _ => session, ?_, fun armed => absurd rfl armed, fun _ => pending, ?_, ?_,
      fun _ => ⟨⟨begun.known, begun.expected⟩, ⟨stream, sends, isPrefix⟩, length, expects, right⟩⟩
    · rw [flash]
      rintro (state | state | state) <;> cases state
    · rw [flash]
      intro downloads
      cases downloads
    · rw [flash]
      intro downloads
      cases downloads
  · exact sound_requesting session (if_neg right) rfl pending

theorem sound_piece {data : List UInt8} (downloads : s.ctrl.st = .dl)
    (pending : Pending s.ctrl) (begun : Begun s.ctrl s.rx)
    (sends : Sends s.trace s.rx.packetId s.rx.packetCrc (s.rx.rxBuf ++ data))
    (incomplete : s.rx.rxLen < s.rx.expectLen) : Sound (otaRecvData s data).2 := by
  have expects : s.rx.expectLen ≠ 0 := Nat.ne_of_gt (Nat.zero_lt_of_lt incomplete)
  have fits : s.rx.expectLen < 2 ^ 16 := by
    have inPacket := session.expectLenOf_le s.rx.packetId
    have small := session.small
    rw [← begun.expected] at inPacket
    unfold otaPacketSize at small
    omega
  rw [otaRecvData_cases s data incomplete fits]
  split
  · next short =>
    refine sound_downloading session downloads pending (fun nothing => absurd nothing expects)
      fun _ => ⟨⟨begun.known, begun.expected⟩, sends, ?_⟩
    simpa [OtaRx.rxLen] using short
  rename_i enough
  refine sound_packetEnd session pending begun expects sends ?_ ?_
  · exact (prefix_append_right_inj _).mpr ( take_prefix _ _)
  · rw [length_append, length_take]
    unfold OtaRx.rxLen at enough incomplete ⊢
    omega

end

section

variable (sound : Sound s)

include sound

theorem Sound.ignored (data : List UInt8)
    (waits : s.ctrl.st = .dl → s.rx.expectLen = 0) : Sound (s.note (.received data)) where
  session := fun notIdle notStop => (sound.session notIdle notStop).note rfl
  fresh := sound.fresh
  armed := sound.armed
  pending := sound.pending
  empty := sound.empty
  receiving := fun downloads expects => absurd (waits downloads) expects
  received := by
    intro flashing
    have received := sound.received flashing
    obtain ⟨stream, sends, isPrefix⟩ := received.sends
    exact ⟨⟨received.known, received.expected⟩,
      ⟨stream ++ data, sends.more data, isPrefix.trans (prefix_append _ _)⟩,
      received.complete, received.expects, received.checked⟩

theorem Sound.opened {data : List UInt8} (opens : Opens s data) :
    Sound (otaRecvData { s.note (.received data) with rx := headerRx s data } (data.drop 6)).2 := by
  have session := (sound.session_of opens.downloads (by decide) (by decide)).note
    (n := .received data) rfl
  have pending := sound.pending (.inr (.inl opens.downloads))
  have buffer : s.rx.rxBuf = [] := sound.empty opens.downloads opens.empty
  by_cases nothing : expectLenOf s.ctrl (word16 data 2) = 0
  · rw [otaRecvData_unexpected _ nothing]
    exact sound_downloading session opens.downloads pending (fun _ => buffer)
      fun expects => absurd nothing expects
  refine sound_piece session opens.downloads pending ⟨opens.known, rfl⟩ ?_ ?_
  · show Sends _ _ _
      (s.rx.rxBuf ++ data.drop 6)
    rw [buffer, nil_append]
    exact sends_header s.trace opens.header
  · show s.rx.rxBuf.length < expectLenOf s.ctrl _
    rw [buffer]
    exact Nat.pos_of_ne_zero nothing

theorem Sound.continued {data : List UInt8} (downloads : s.ctrl.st = .dl)
    (expects : s.rx.expectLen ≠ 0) : Sound (otaRecvData (s.note (.received data)) data).2 := by
  have session := sound.session_of downloads (by decide) (by decide)
  have receiving := sound.receiving downloads expects
  exact sound_piece (session.note rfl) downloads (sound.pending (.inr (.inl downloads)))
    receiving.toBegun (receiving.sends.more data) receiving.incomplete

theorem Sound.wrote (flashing : s.ctrl.st = .flash) :
    s.ctrl.recvPacketCount < s.ctrl.expectPacketCount ∧
      (s.ctrl.recvPacketCount + 1) % 2 ^ 16 = s.ctrl.recvPacketCount + 1 := by
  have received := sound.received flashing
  have session := sound.session_of flashing (by decide) (by decide)
  have within : s.ctrl.recvPacketCount < s.ctrl.expectPacketCount := by
    rcases sound.pending (.inr (.inr (.inl flashing))) with within | none_
    · exact within
    · exact absurd (none_ ▸ received.known) (Nat.not_lt_zero _)
  refine ⟨within, Nat.mod_eq_of_lt ?_⟩
  have count := session.count
  omega

theorem sound_step {e : Event} {s' : Server} (move : Move cfg s e s') : Sound s' := by
  cases move with
  | nothing => exact sound
  | connected connHandle =>
    exact { sound with }
  | subscribed value =>
    exact { sound with }
  | lost connHandle works event mem done => exact sound_resting (.inl rfl) rfl rfl
  | ignored heard waits => exact sound.ignored _ waits
  | began heard begins =>
    have stopped := sound.stopped begins.idle (by decide) (by decide)
    refine ⟨fun _ _ => ?_, fun _ => sound.fresh (.inl begins.idle),
      fun armed => absurd stopped armed, ?_, ?_, ?_, ?_⟩
    · exact ⟨announced_append _ _, begins.positive, begins.small, rfl⟩
    · rintro (state | state | state | armed)
      · cases state
      · cases state
      · cases state
      · exact absurd stopped armed
    · intro downloads
      cases downloads
    · intro downloads
      cases downloads
    · intro flashing
      cases flashing
  | stopped heard downloads command => exact sound_resting (.inr rfl) rfl rfl
  | finished heard downloads command =>
    exact sound_complete ((sound.session_of downloads (by decide) (by decide)).note rfl) rfl
      fun _ => sound.pending (.inr (.inl downloads))
  | opened heard opens => exact sound.opened opens
  | continued heard downloads expects => exact sound.continued downloads expects
  | welcomed starting =>
    have session := sound.session_of starting (by decide) (by decide)
    refine sound_requesting (session.note rfl) rfl
      (sound.stopped starting (by decide) (by decide)) ?_
    have none_ := sound.fresh (.inr (.inr starting))
    show s.ctrl.recvPacketCount < s.ctrl.expectPacketCount ∨ s.ctrl.expectPacketCount = 0
    omega
  | gaveUp requesting => exact sound_resting (.inl rfl) rfl rfl
  | requested requesting patient =>
    have session := sound.session_of requesting (by decide) (by decide)
    exact sound_downloading (session.note rfl) rfl (sound.pending (.inl requesting))
      (fun _ => rfl) fun expects => absurd rfl expects
  | wrote works event flashing st next =>
    have session := sound.session_of flashing (by decide) (by decide)
    have stopped := sound.stopped flashing (by decide) (by decide)
    split at next
    · next more => exact sound_requesting (session.note rfl) next stopped (.inl more)
    · exact sound_complete (session.note rfl) next fun armed => absurd stopped armed
  | rested stopping =>
    exact sound_resting (.inl rfl) (sound.fresh (.inr (.inl stopping)))
      (sound.stopped stopping (by decide) (by decide))
  | rebooted complete =>
    have session := sound.session_of complete (by decide) (by decide)
    rw [append_cons]
    exact sound_complete ((session.note rfl).note rfl) complete
      fun armed => sound.pending (.inr (.inr (.inr armed)))
  | expired armed =>
    have running : s.ctrl.timer ≠ none := by
      rw [armed]
      exact Option.some_ne_none _
    have session : s.InSession := by
      rcases sound.armed running with state | state
      · exact sound.session_of state (by decide) (by decide)
      · exact sound.session_of state (by decide) (by decide)
    exact sound_requesting session rfl rfl (sound.pending (.inr (.inr (.inr running))))

end

/-- The server at the start: nothing has happened but the erase of the partition. -/
theorem bleOtaInit_eq (cfg : Config) (works : Bool) (mem : NorFlash.Mem) :
    ∃ erased done, bleOtaInit cfg works mem = { partition := erased, trace := [.erased done] } ∧
      Sound { partition := erased, trace := [.erased done] } := by
  obtain ⟨erased, done, init⟩ := otaPartitionErase_eq cfg works (otaReset { partition := mem })
  exact ⟨erased, done, init, sound_resting (.inl rfl) rfl rfl⟩

/-! ## The course of a session -/

/-- The note neither announces a session nor tells of a write. -/
def Note.Passes (n : Note) : Prop := n.announcement = none ∧ n.offset? = none

abbrev Server.Packet (s : Server) : Prop :=
  s.ctrl.st = .dl ∧ s.rx.expectLen ≠ 0 ∨ s.ctrl.st = .flash

/-- The session goes on: only the packet that is being received changes. -/
structure GoesOn (cfg : Config) (s : Server) (e : Event) (notes : List Note) (s' : Server) :
    Prop where
  trace : s'.trace = s.trace ++ notes
  passes : ∀ n ∈ notes, n.Passes
  active : s'.Active → s.Active
  sizes : s'.ctrl.firmwareSize = s.ctrl.firmwareSize ∧ s'.ctrl.packetSize = s.ctrl.packetSize
  slot : s'.ctrl.recvPacketCount = s.ctrl.recvPacketCount
  partition : s'.partition = s.partition
  packet : s'.Packet →
    s.Packet ∧ s'.rx.packetId = s.rx.packetId ∧ s'.rx.expectLen = s.rx.expectLen ∨
    ∃ data, Hears cfg s e data ∧ Opens s data ∧ s'.rx.packetId = word16 data 2 ∧
      s'.rx.expectLen = expectLenOf s.ctrl (word16 data 2)
  complete : s'.ctrl.st = .complete →
    s.ctrl.st = .complete ∨ ∃ data, IsCommand .complete data ∧ .received data ∈ notes
  reboots : .rebooted ∈ notes →
    s.ctrl.st = .complete ∧ ∃ n, n ≠ .rebooted ∧ n.Passes ∧ notes = [n, .rebooted]

structure Over (s : Server) (e : Event) (notes : List Note) (s' : Server) : Prop where
  trace : s'.trace = s.trace ++ notes
  passes : ∀ n ∈ notes, n.Passes ∧ n ≠ .rebooted
  resting : ¬ s'.Active
  partition : s'.partition = s.partition ∨
    ∃ connHandle works, e = .connChange false connHandle works

structure Wrote (cfg : Config) (works : Bool) (s s' : Server) : Prop where
  flashing : s.ctrl.st = .flash
  trace : s'.trace = s.trace ++ [.programmed (s.ctrl.recvPacketCount * s.ctrl.packetSize) s.rx.rxBuf
    (programs cfg works (s.ctrl.recvPacketCount * s.ctrl.packetSize) s.rx.rxBuf)]
  sizes : s'.ctrl.firmwareSize = s.ctrl.firmwareSize ∧ s'.ctrl.packetSize = s.ctrl.packetSize
  slot : s'.ctrl.recvPacketCount = s.ctrl.recvPacketCount + 1
  partition : s'.partition = flashAfter cfg works s.partition
    (s.ctrl.recvPacketCount * s.ctrl.packetSize) s.rx.rxBuf
  next : s'.ctrl.st = .request ∨
    s'.ctrl.st = .complete ∧ s.ctrl.expectPacketCount ≤ s.ctrl.recvPacketCount + 1

variable {s' : Server} {e : Event}

theorem Server.active_of (state : s.ctrl.st = st) (open_ : st ≠ .idle ∧ st ≠ .stop) : s.Active := by
  rw [Server.Active, state]
  exact open_

theorem Over.no_packet {notes : List Note} (ended : Over s e notes s') : ¬ s'.Packet := by
  rintro (⟨downloads, -⟩ | flashing)
  · exact ended.resting (Server.active_of downloads (by decide))
  · exact ended.resting (Server.active_of flashing (by decide))

theorem Wrote.no_packet {works : Bool} (wrote : Wrote cfg works s s') : ¬ s'.Packet := by
  rintro (⟨state, -⟩ | state)
  · rcases wrote.next with next | ⟨next, -⟩ <;> rw [state] at next <;> cases next
  · rcases wrote.next with next | ⟨next, -⟩ <;> rw [state] at next <;> cases next

theorem passes_received (data : List UInt8) : ∀ n ∈ [Note.received data], n.Passes :=
  forall_mem_singleton.mpr ⟨rfl, rfl⟩

/-- **Every event lets the session go on, ends it, begins one or writes a packet.** -/
theorem Move.course (sound : Sound s) (move : Move cfg s e s') :
    (∃ notes, GoesOn cfg s e notes s') ∨ (∃ notes, Over s e notes s') ∨
    (∃ data, Hears cfg s e data ∧ Begins cfg s data ∧
      s' = beginSession (s.note (.received data)) (word24 data 2) (word16 data 5)
        (data.getD 7 0).toNat) ∨
    ∃ works, e = .process works ∧ Wrote cfg works s s' := by
  have silent {P : Note → Prop} : ∀ n ∈ ([]), P n :=
    fun n member => absurd member not_mem_nil
  have same : GoesOn cfg s e [] s := ⟨(append_nil _).symm, silent, id, ⟨rfl, rfl⟩, rfl, rfl,
    fun packet => .inl ⟨packet, rfl, rfl⟩, .inl, by simp⟩
  cases move with
  | nothing => exact .inl ⟨_, same⟩
  | connected connHandle => exact .inl ⟨_, { same with }⟩
  | subscribed value => exact .inl ⟨_, { same with }⟩
  | lost connHandle works event mem done =>
    exact .inr (.inl ⟨_, rfl, forall_mem_singleton.mpr ⟨⟨rfl, rfl⟩, by simp⟩, fun active =>
      active.1 rfl, .inr ⟨connHandle, works, event⟩⟩)
  | ignored heard waits =>
    exact .inl ⟨_, { same with
      trace := rfl
      passes := passes_received _
      complete := .inl
      reboots := by simp }⟩
  | began heard begins => exact .inr (.inr (.inl ⟨_, heard, begins, rfl⟩))
  | stopped heard downloads command =>
    exact .inr (.inl ⟨_, rfl, forall_mem_singleton.mpr ⟨⟨rfl, rfl⟩, by simp⟩, fun active =>
      active.2 rfl, .inl rfl⟩)
  | finished heard downloads command =>
    exact .inl ⟨_, rfl, passes_received _, fun _ => Server.active_of downloads (by decide),
      ⟨rfl, rfl⟩, rfl, rfl, by rintro (⟨⟨⟩, -⟩ | ⟨⟨⟩⟩),
      fun _ => .inr ⟨_, command, mem_singleton_self _⟩, by simp⟩
  | @opened data heard opens =>
    obtain ⟨buffer, st, timer, next, received⟩ := otaRecvData_frame
      { s.note _ with rx := headerRx s data } _
    rw [received]
    refine .inl ⟨_, rfl, passes_received _, fun _ => Server.active_of opens.downloads (by decide),
      ⟨rfl, rfl⟩, rfl, rfl, fun _ => .inr ⟨data, heard, opens, rfl, rfl⟩, ?_, by simp⟩
    rintro ⟨⟩
    rcases next with state | ⟨⟨⟩⟩ | ⟨⟨⟩⟩
    exact absurd (state.trans opens.downloads) (by decide)
  | @continued data heard downloads expects =>
    obtain ⟨buffer, st, timer, next, received⟩ := otaRecvData_frame _ data
    rw [received]
    refine .inl ⟨_, rfl, passes_received _, fun _ => Server.active_of downloads (by decide),
      ⟨rfl, rfl⟩, rfl, rfl, fun _ => .inl ⟨.inl ⟨downloads, expects⟩, rfl, rfl⟩, ?_, by simp⟩
    rintro ⟨⟩
    rcases next with state | ⟨⟨⟩⟩ | ⟨⟨⟩⟩
    exact absurd (state.trans downloads) (by decide)
  | welcomed starting =>
    exact .inl ⟨_, rfl, forall_mem_singleton.mpr ⟨rfl, rfl⟩,
      fun _ => Server.active_of starting (by decide), ⟨rfl, rfl⟩, rfl, rfl,
      by rintro (⟨⟨⟩, -⟩ | ⟨⟨⟩⟩), by rintro ⟨⟩, by simp⟩
  | gaveUp requesting =>
    exact .inr (.inl ⟨_, rfl, forall_mem_singleton.mpr ⟨⟨rfl, rfl⟩, by simp⟩, fun active =>
      active.1 rfl, .inl rfl⟩)
  | requested requesting patient =>
    refine .inl ⟨_, rfl, forall_mem_singleton.mpr ⟨rfl, rfl⟩,
      fun _ => Server.active_of requesting (by decide), ⟨rfl, rfl⟩, rfl, rfl, ?_, by rintro ⟨⟩,
      by simp⟩
    rintro (⟨-, expects⟩ | ⟨⟨⟩⟩)
    exact absurd rfl expects
  | wrote works event flashing st next =>
    refine .inr (.inr (.inr ⟨works, event, flashing, rfl, ⟨rfl, rfl⟩, (sound.wrote flashing).2, rfl,
      ?_⟩))
    rw [(sound.wrote flashing).2] at next
    split at next
    · exact .inl next
    · next done => exact .inr ⟨next, Nat.le_of_not_lt done⟩
  | rested stopping =>
    exact .inr (.inl ⟨[], (append_nil _).symm, silent, fun active => active.1 rfl, .inl rfl⟩)
  | rebooted complete =>
    exact .inl ⟨_, { same with
      trace := rfl
      passes := forall_mem_cons.mpr ⟨⟨rfl, rfl⟩, forall_mem_singleton.mpr ⟨rfl, rfl⟩⟩
      complete := .inl
      reboots := fun _ => ⟨complete, _, by simp, ⟨rfl, rfl⟩, rfl⟩ }⟩
  | expired armed =>
    refine .inl ⟨_, { same with
      active := fun _ => ?_
      packet := by rintro (⟨⟨⟩, -⟩ | ⟨⟨⟩⟩)
      complete := by rintro ⟨⟩ }⟩
    rcases sound.armed (by rw [armed]; exact Option.some_ne_none _) with state | state
    · exact Server.active_of state (by decide)
    · exact Server.active_of state (by decide)

end Phy6212.Ota
