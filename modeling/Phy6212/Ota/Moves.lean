import Phy6212.Ota.Server

/-!
# What an event does to the server

An event changes the server in one of the ways that `Move` lists (`step_move`), and every statement
about runs goes through them.
-/

namespace Phy6212.Ota

open NorFlash Phy6212.Partition Misc

def heard (cfg : Config) (s : Server) : Event → Option (List UInt8)
  | .charWrite w => rxData cfg s w
  | _ => none

abbrev Hears (cfg : Config) (s : Server) (e : Event) (data : List UInt8) : Prop :=
  data ∈ heard cfg s e

/-- Whether a packet is programmed: it stays in the partition, and the flash works. -/
def programs (cfg : Config) (works : Bool) (offset : Nat) (buffer : List UInt8) : Bool :=
  decide (offset + 2 * cfg.info.sectorSize + buffer.length ≤ cfg.info.length) && works

def flashAfter (cfg : Config) (works : Bool) (mem : Mem) (offset : Nat) (buffer : List UInt8) :
    Mem :=
  if programs cfg works offset buffer then
    program mem (offset + 2 * cfg.info.sectorSize) buffer
  else mem

theorem otaPartitionWrite_eq (cfg : Config) (works : Bool) (s : Server) (buffer : List UInt8)
    (offset : Nat) :
    (otaPartitionWrite cfg works s buffer offset).2 =
      { s with
        partition := flashAfter cfg works s.partition offset buffer
        trace := s.trace ++ [.programmed offset buffer (programs cfg works offset buffer)] } := by
  unfold otaPartitionWrite partitionWrite flashAfter programs
  by_cases succeeds : offset + 2 * cfg.info.sectorSize + buffer.length ≤ cfg.info.length ∧ works
  · simp [succeeds.1, succeeds.2, Server.note]
  rw [if_neg succeeds]
  have fails : (decide (offset + 2 * cfg.info.sectorSize + buffer.length ≤ cfg.info.length) &&
      works) = false := by
    simpa using succeeds
  simp [fails, Server.note]

theorem otaPartitionErase_eq (cfg : Config) (works : Bool) (s : Server) :
    ∃ mem done, otaPartitionErase cfg works s =
      { s with partition := mem, trace := s.trace ++ [.erased done] } := by
  unfold otaPartitionErase
  split
  · next mem _ => exact ⟨mem, true, rfl⟩
  · exact ⟨s.partition, false, rfl⟩

def headerRx (s : Server) (data : List UInt8) : OtaRx :=
  { s.rx with
    expectLen := expectLenOf s.ctrl (word16 data 2), packetId := word16 data 2,
    packetCrc := word16 data 4 }

structure Begins (cfg : Config) (s : Server) (data : List UInt8) : Prop where
  idle : s.ctrl.st = .idle
  starts : IsStart data
  fits : word24 data 2 ≤ otaPartitionSize cfg
  small : word16 data 5 ≤ otaPacketSize
  positive : 0 < word16 data 5

structure Opens (s : Server) (data : List UInt8) : Prop where
  downloads : s.ctrl.st = .dl
  header : IsHeader data
  empty : s.rx.expectLen = 0
  known : word16 data 2 < s.ctrl.expectPacketCount

/-- The ways in which an event changes the server. -/
inductive Move (cfg : Config) (s : Server) (e : Event) : Server → Prop where
  | nothing : Move cfg s e s
  | connected (connHandle : Int) : Move cfg s e { s with connHandle := connHandle }
  | subscribed (value : CccValue) : Move cfg s e { s with txCccValue := value }
  | lost (connHandle : Int) (works : Bool) (event : e = .connChange false connHandle works)
      (mem : Mem) (done : Bool) : Move cfg s e
      { s with connHandle := -1, ctrl := {}, rx := {}, partition := mem,
               trace := s.trace ++ [.erased done] }
  | ignored {data : List UInt8} (heard : Hears cfg s e data)
      (waits : s.ctrl.st = .dl → s.rx.expectLen = 0) :
      Move cfg s e (s.note (.received data))
  | began {data : List UInt8} (heard : Hears cfg s e data) (begins : Begins cfg s data) :
      Move cfg s e (beginSession (s.note (.received data)) (word24 data 2) (word16 data 5)
        (data.getD 7 0).toNat)
  | stopped {data : List UInt8} (heard : Hears cfg s e data) (downloads : s.ctrl.st = .dl)
      (command : IsCommand .stop data) :
      Move cfg s e (otaStatusChange (otaReset (s.note (.received data))) .stop)
  | finished {data : List UInt8} (heard : Hears cfg s e data) (downloads : s.ctrl.st = .dl)
      (command : IsCommand .complete data) :
      Move cfg s e (otaStatusChange (s.note (.received data)) .complete)
  | opened {data : List UInt8} (heard : Hears cfg s e data) (opens : Opens s data) :
      Move cfg s e (otaRecvData { s.note (.received data) with rx := headerRx s data }
        (data.drop 6)).2
  | continued {data : List UInt8} (heard : Hears cfg s e data) (downloads : s.ctrl.st = .dl)
      (expects : s.rx.expectLen ≠ 0) :
      Move cfg s e (otaRecvData (s.note (.received data)) data).2
  | welcomed (starting : s.ctrl.st = .start) : Move cfg s e
      (otaStatusChange (s.note (.notified
        [otaPacketStart, OtaCmd.start.code, 0x01, otaPacketEnd])) .request)
  | gaveUp (requesting : s.ctrl.st = .request) : Move cfg s e
      { s with ctrl := {}, rx := {}, trace := s.trace ++ [.disconnected] }
  | requested (requesting : s.ctrl.st = .request)
      (patient : (s.ctrl.retryCount + 1) % 2 ^ 8 ≤ 10) : Move cfg s e
      { s with
        ctrl := { s.ctrl with
          st := .dl, retryCount := (s.ctrl.retryCount + 1) % 2 ^ 8,
          timer := some (s.ctrl.timeout * 1000) }
        rx := {}
        trace := s.trace ++
          [.notified (requestFrame (s.ctrl.packetSize * s.ctrl.recvPacketCount))] }
  | wrote (works : Bool) (event : e = .process works) (flashing : s.ctrl.st = .flash)
      (st : OtaState)
      (next : st = if (s.ctrl.recvPacketCount + 1) % 2 ^ 16 < s.ctrl.expectPacketCount
        then .request else .complete) : Move cfg s e
      { s with
        ctrl := { s.ctrl with
          st := st
          retryCount := 0, recvPacketCount := (s.ctrl.recvPacketCount + 1) % 2 ^ 16 }
        partition := flashAfter cfg works s.partition
          (s.ctrl.recvPacketCount * s.ctrl.packetSize) s.rx.rxBuf
        trace := s.trace ++ [.programmed (s.ctrl.recvPacketCount * s.ctrl.packetSize) s.rx.rxBuf
          (programs cfg works (s.ctrl.recvPacketCount * s.ctrl.packetSize) s.rx.rxBuf)] }
  | rested (stopping : s.ctrl.st = .stop) : Move cfg s e (otaStatusChange s .idle)
  | rebooted (complete : s.ctrl.st = .complete) : Move cfg s e
      { s with
        rebooted := true
        trace := s.trace ++ [.notified
          [otaPacketStart, OtaCmd.complete.code, 0x00, otaPacketEnd], .rebooted] }
  | expired {period : Nat} (armed : s.ctrl.timer = some period) : Move cfg s e
      { s with ctrl := { s.ctrl with st := .request, timer := none }, rx := {} }

variable {cfg : Config} {s s' : Server}

theorem connChange_move (connected : Bool) (connHandle : Int) (works : Bool) :
    Move cfg s (.connChange connected connHandle works)
      (connChange cfg s connected connHandle works) := by
  unfold connChange
  cases connected with
  | true => exact .connected connHandle
  | false =>
    obtain ⟨mem, done, erased⟩ :=
      otaPartitionErase_eq cfg works _
    rw [if_neg Bool.false_ne_true, erased]
    exact .lost connHandle works rfl mem done

variable {e : Event} {data : List UInt8}

theorem startSession_move (heard : Hears cfg s e data) (idle : s.ctrl.st = .idle)
    (starts : IsStart data) (ok : startSession cfg (s.note (.received data)) data = .ok s') :
    Move cfg s e s' := by
  unfold startSession at ok
  dsimp only at ok
  split at ok
  · cases ok
    exact .ignored heard fun downloads => by rw [idle] at downloads; cases downloads
  rename_i accepted
  rw [not_or, Nat.not_lt, Nat.not_lt] at accepted
  split at ok
  · cases ok
  · next nonzero =>
    cases ok
    exact .began heard ⟨idle, starts, accepted.1, accepted.2, Nat.pos_of_ne_zero nonzero⟩

theorem beginPacket_move (heard : Hears cfg s e data) (downloads : s.ctrl.st = .dl)
    (header : IsHeader data) (empty : s.rx.expectLen = 0) :
    Move cfg s e (beginPacket (s.note (.received data)) data) := by
  unfold beginPacket
  dsimp only
  split
  · exact .ignored heard fun _ => empty
  · next known => exact .opened heard ⟨downloads, header, empty, Nat.lt_of_not_le known⟩

theorem writeRxVal_move (heard : Hears cfg s e data)
    (ok : writeRxVal cfg (s.note (.received data)) data = .ok s') : Move cfg s e s' := by
  have unchanged : (s.note (.received data)).ctrl.st = s.ctrl.st := rfl
  unfold writeRxVal at ok
  cases state : s.ctrl.st with
  | idle =>
    simp only [unchanged, state] at ok
    split at ok
    · next starts => exact startSession_move heard state starts ok
    · cases ok
      exact .ignored heard fun downloads => by rw [state] at downloads; cases downloads
  | dl =>
    simp only [unchanged, state] at ok
    split at ok
    · next command =>
      cases ok
      exact .stopped heard state command
    split at ok
    · next command =>
      cases ok
      exact .finished heard state command
    split at ok
    · next header =>
      cases ok
      exact beginPacket_move heard state header.1 header.2
    split at ok
    · next expects =>
      cases ok
      exact .continued heard state expects
    · next waits =>
      cases ok
      exact .ignored heard fun _ => not_not.mp waits
  | start | request | flash | stop | complete =>
    simp only [unchanged, state] at ok
    cases ok
    exact .ignored heard fun downloads => by rw [state] at downloads; cases downloads

variable (works : Bool)

theorem bleOtaProcess_move : Move cfg s (.process works) (bleOtaProcess cfg s works) := by
  unfold bleOtaProcess
  split
  · exact .nothing
  cases state : s.ctrl.st with
  | idle | dl => exact .nothing
  | start =>
    dsimp only
    split
    · have same : otaStatusChange s .start = s := by
        unfold otaStatusChange
        rw [← state]
      rw [same]
      exact .nothing
    · exact .welcomed state
  | request =>
    dsimp only
    split
    · exact .gaveUp state
    · next patient => exact .requested state (Nat.le_of_not_lt patient)
  | flash =>
    dsimp only
    rw [otaPartitionWrite_eq]
    split
    · next more => exact .wrote works rfl state .request (if_pos more).symm
    · next done => exact .wrote works rfl state .complete (if_neg done).symm
  | stop => exact .rested state
  | complete =>
    have rebooted : Move cfg s (.process works) _ := .rebooted state
    rw [List.append_cons] at rebooted
    exact rebooted

theorem step_move (ok : step cfg s e = .ok s') : Move cfg s e s' := by
  unfold step at ok
  split at ok
  · cases ok
    exact .nothing
  cases e with
  | connChange connected connHandle works =>
    cases ok
    exact connChange_move connected connHandle works
  | charWrite w =>
    simp only [eventCharWrite] at ok
    cases heard : rxData cfg s w with
    | none =>
      rw [heard] at ok
      cases ok
      exact .nothing
    | some data =>
      rw [heard] at ok
      exact writeRxVal_move heard ok
  | cccChange charHandle value =>
    cases ok
    unfold eventCharCccChange
    split
    · exact .nothing
    · exact .subscribed value
  | process works =>
    cases ok
    exact bleOtaProcess_move works
  | timeout =>
    dsimp only at ok
    split at ok
    · next period armed =>
      cases ok
      exact .expired armed
    · cases ok
      exact .nothing

def packetEnd (s : Server) (buffer : List UInt8) : Server :=
  { s with
    ctrl := { s.ctrl with
      timer := none
      st := if (crc16 0 buffer).toNat = s.rx.packetCrc then .flash else .request }
    rx := { s.rx with rxBuf := buffer } }

theorem otaRecvEnd_incomplete (incomplete : s.rx.rxLen < s.rx.expectLen) : otaRecvEnd s = s := by
  simp only [otaRecvEnd, if_neg (Nat.not_le.mpr incomplete), if_neg (Nat.lt_asymm incomplete)]

theorem otaRecvEnd_complete (complete : s.rx.rxLen = s.rx.expectLen) :
    otaRecvEnd s = packetEnd s s.rx.rxBuf := by
  simp only [otaRecvEnd, complete, if_pos (Nat.le_refl _)]
  unfold packetEnd
  split
  · exact if_neg (complete ▸ Nat.lt_irrefl _)
  · exact if_neg (complete ▸ Nat.lt_irrefl _)

variable (s : Server) (data : List UInt8)

theorem otaRecvData_cases (short : s.rx.rxLen < s.rx.expectLen) (fits : s.rx.expectLen < 2 ^ 16) :
    (otaRecvData s data).2 =
      if s.rx.rxLen + data.length < s.rx.expectLen then
        { s with rx := { s.rx with rxBuf := s.rx.rxBuf ++ data } }
      else packetEnd s (s.rx.rxBuf ++ data.take (s.rx.expectLen - s.rx.rxLen)) := by
  by_cases empty : data = []
  · subst empty
    rw [if_pos (by simpa using short)]
    simp [otaRecvData]
  have expects : ¬ (data = [] ∨ s.rx.expectLen = 0) := by
    rw [not_or]
    exact ⟨empty, Nat.ne_of_gt (Nat.zero_lt_of_lt short)⟩
  have copied : (min ((s.rx.expectLen : Int) - s.rx.rxLen) data.length % 2 ^ 16).toNat =
      min (s.rx.expectLen - s.rx.rxLen) data.length := by
    omega
  simp only [otaRecvData, if_neg expects, copied]
  split
  · next incomplete =>
    have all : data.take (min (s.rx.expectLen - s.rx.rxLen) data.length) = data :=
      List.take_of_length_le (by omega)
    rw [all]
    apply otaRecvEnd_incomplete
    simpa [OtaRx.rxLen] using incomplete
  · next complete =>
    have part : min (s.rx.expectLen - s.rx.rxLen) data.length = s.rx.expectLen - s.rx.rxLen := by
      omega
    rw [part]
    apply otaRecvEnd_complete
    simp only [OtaRx.rxLen, List.length_append, List.length_take] at complete short ⊢
    omega

theorem otaRecvData_unexpected {s : Server} (none_ : s.rx.expectLen = 0) :
    (otaRecvData s data).2 = s := by
  simp [otaRecvData, none_]

theorem otaRecvData_frame : ∃ buffer st timer,
    (st = s.ctrl.st ∨ st = .flash ∨ st = .request) ∧
    (otaRecvData s data).2 =
      { s with ctrl := { s.ctrl with st := st, timer := timer },
               rx := { s.rx with rxBuf := buffer } } := by
  unfold otaRecvData otaRecvEnd
  dsimp only
  split
  · exact ⟨s.rx.rxBuf, s.ctrl.st, s.ctrl.timer, .inl rfl, rfl⟩
  split
  · split
    · split
      · exact ⟨_, _, _, .inr (.inr rfl), rfl⟩
      · exact ⟨_, _, _, .inr (.inl rfl), rfl⟩
    · split <;> exact ⟨_, _, _, .inr (.inr rfl), rfl⟩
  · split
    · exact ⟨_, _, _, .inr (.inr rfl), rfl⟩
    · exact ⟨_, _, _, .inl rfl, rfl⟩

end Phy6212.Ota
