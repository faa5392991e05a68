import Mathlib.Algebra.Group.Int.Defs
import Mathlib.Algebra.Group.Nat.Defs
import Phy6212.Misc.Crc16
import Phy6212.Partition.Access

/-!
# The firmware update server

The server receives a firmware and programs it into a partition, behind two free sectors.
-/

namespace Phy6212.Ota

open NorFlash Phy6212.Partition Misc

def otaPacketSize : Nat := 8192

def otaPacketStart : UInt8 := 0xFF

def otaPacketEnd : UInt8 := 0xFE

inductive OtaCmd where
  | start | stop | request | complete
  deriving DecidableEq, Repr

def OtaCmd.code : OtaCmd → UInt8
  | .start => 0x01
  | .stop => 0x02
  | .request => 0x03
  | .complete => 0x04

inductive OtaState where
  | idle | start | request | dl | flash | stop | complete
  deriving DecidableEq, Repr

/-- The packet that is being received: the bytes that `rx_buf` has so far (as many as
`rx_len`), and what its header says about it. -/
structure OtaRx where
  rxBuf : List UInt8 := []
  expectLen : Nat := 0
  packetId : Nat := 0
  packetCrc : Nat := 0
  deriving DecidableEq, Repr

def OtaRx.rxLen (rx : OtaRx) : Nat := rx.rxBuf.length

structure OtaCtrl where
  st : OtaState := .idle
  firmwareSize : Nat := 0
  packetSize : Nat := 0
  timeout : Nat := 0
  expectPacketCount : Nat := 0
  recvPacketCount : Nat := 0
  retryCount : Nat := 0
  timer : Option Nat := none
  deriving DecidableEq, Repr

inductive CccValue where
  | none | notify | indicate
  deriving DecidableEq, Repr

inductive Note where
  /-- The connected client has written to the RX value. -/
  | received (data : List UInt8)
  | announced (firmwareSize packetSize : Nat)
  | notified (data : List UInt8)
  | erased (works : Bool)
  /-- Firmware has been programmed at an offset, or that has failed. -/
  | programmed (offset : Nat) (data : List UInt8) (works : Bool)
  | disconnected
  | rebooted
  deriving DecidableEq, Repr

structure Config where
  otaHandle : Int
  info : LogicPartition

structure Server where
  connHandle : Int := -1
  txCccValue : CccValue := .none
  ctrl : OtaCtrl := {}
  rx : OtaRx := {}
  partition : Mem
  rebooted : Bool := false
  trace : List Note := []

def Server.note (s : Server) (n : Note) : Server := { s with trace := s.trace ++ [n] }

def idxRxVal : Int := 2

def idxTxCcc : Int := 6

def idxMax : Int := 8

def otaStatusChange (s : Server) (st : OtaState) : Server := { s with ctrl := { s.ctrl with st := st } }

def otaReset (s : Server) : Server := { s with ctrl := {}, rx := {} }

def otaResetRx (s : Server) : Server := { s with rx := {} }

def otaPartitionErase (cfg : Config) (works : Bool) (s : Server) : Server :=
  match partitionErase cfg.info works s.partition 0
      ((cfg.info.length + cfg.info.sectorSize - 1) / cfg.info.sectorSize) with
  | some mem => { s with partition := mem }.note (.erased true)
  | none => s.note (.erased false)

/-- Program a packet behind the two sectors that are kept free. -/
def otaPartitionWrite (cfg : Config) (works : Bool) (s : Server) (buffer : List UInt8)
    (offset : Nat) : Int × Server :=
  match partitionWrite cfg.info works s.partition (offset + 2 * cfg.info.sectorSize) buffer with
  | some mem => (buffer.length, { s with partition := mem }.note (.programmed offset buffer true))
  | none => (-1, s.note (.programmed offset buffer false))

def otaPartitionSize (cfg : Config) : Nat :=
  (cfg.info.length + 2 ^ 32 - 2 * cfg.info.sectorSize % 2 ^ 32) % 2 ^ 32

def connChange (cfg : Config) (s : Server) (connected : Bool) (connHandle : Int) (works : Bool) :
    Server :=
  if connected then { s with connHandle := connHandle }
  else
    otaStatusChange (otaPartitionErase cfg works (otaReset { s with connHandle := -1 })) .idle

/-- The second half of `ota_recv_data`: the packet is complete when it has the
expected length. -/
def otaRecvEnd (s : Server) : Server :=
  let s := if s.rx.expectLen ≤ s.rx.rxLen then { s with ctrl := { s.ctrl with timer := none } } else s
  let s :=
    if s.rx.expectLen ≤ s.rx.rxLen then
      if (crc16 0 s.rx.rxBuf).toNat = s.rx.packetCrc then otaStatusChange s .flash
      else otaStatusChange s .request
    else s
  if s.rx.expectLen < s.rx.rxLen then otaStatusChange s .request else s

/-- Append data to the packet. -/
def otaRecvData (s : Server) (data : List UInt8) : Int × Server :=
  if data = [] ∨ s.rx.expectLen = 0 then (-1, s)
  else
    let cpSize := (min ((s.rx.expectLen : Int) - s.rx.rxLen) data.length % 2 ^ 16).toNat
    (0, otaRecvEnd { s with rx := { s.rx with rxBuf := s.rx.rxBuf ++ data.take cpSize } })

def word16 (data : List UInt8) (i : Nat) : Nat :=
  (data.getD i 0).toNat * 256 + (data.getD (i + 1) 0).toNat

def word24 (data : List UInt8) (i : Nat) : Nat :=
  (data.getD i 0).toNat * 65536 + word16 data (i + 1)

def IsStart (data : List UInt8) : Prop :=
  data.length = 9 ∧ data.getD 0 0 = otaPacketStart ∧ data.getD 1 0 = OtaCmd.start.code ∧
    data.getD 8 0 = otaPacketEnd

instance (data : List UInt8) : Decidable (IsStart data) :=
  inferInstanceAs (Decidable (_ ∧ _))

def IsCommand (cmd : OtaCmd) (data : List UInt8) : Prop :=
  data.length = 3 ∧ data.getD 0 0 = otaPacketStart ∧ data.getD 1 0 = cmd.code ∧
    data.getD 2 0 = otaPacketEnd

instance (cmd : OtaCmd) (data : List UInt8) : Decidable (IsCommand cmd data) :=
  inferInstanceAs (Decidable (_ ∧ _))

/-- The frame that begins a packet: after the head come its number and its CRC, and
at least one byte of it. -/
def IsHeader (data : List UInt8) : Prop :=
  6 < data.length ∧ data.getD 0 0 = otaPacketStart ∧ data.getD 1 0 = otaPacketEnd

instance (data : List UInt8) : Decidable (IsHeader data) :=
  inferInstanceAs (Decidable (_ ∧ _))

inductive Fault where
  | divisionByZero
  deriving DecidableEq, Repr

def packetCount (firmwareSize packetSize : Nat) : Nat := (firmwareSize + packetSize - 1) / packetSize

def beginSession (s : Server) (firmwareSize packetSize timeout : Nat) : Server :=
  let ctrl := { s.ctrl with
    firmwareSize := firmwareSize, packetSize := packetSize, timeout := timeout,
    expectPacketCount := packetCount firmwareSize packetSize % 2 ^ 16 }
  otaStatusChange ({ s with ctrl := ctrl }.note (.announced firmwareSize packetSize)) .start

def startSession (cfg : Config) (s : Server) (data : List UInt8) : Except Fault Server :=
  let firmwareSize := word24 data 2
  let packetSize := word16 data 5
  let timeout := (data.getD 7 0).toNat
  if otaPartitionSize cfg < firmwareSize ∨ otaPacketSize < packetSize then .ok s
  else if packetSize = 0 then .error .divisionByZero
  else .ok (beginSession s firmwareSize packetSize timeout)

def expectLenOf (ctrl : OtaCtrl) (packetId : Nat) : Nat :=
  if packetId = ctrl.expectPacketCount - 1 then ctrl.firmwareSize % ctrl.packetSize
  else ctrl.packetSize

def beginPacket (s : Server) (data : List UInt8) : Server :=
  let packetId := word16 data 2
  let packetCrc := word16 data 4
  if s.ctrl.expectPacketCount ≤ packetId then s
  else
    let rx : OtaRx := { s.rx with
      expectLen := expectLenOf s.ctrl packetId, packetId := packetId, packetCrc := packetCrc }
    (otaRecvData { s with rx := rx } (data.drop 6)).2

def writeRxVal (cfg : Config) (s : Server) (data : List UInt8) : Except Fault Server :=
  match s.ctrl.st with
  | .idle => if IsStart data then startSession cfg s data else .ok s
  | .dl =>
    if IsCommand .stop data then .ok (otaStatusChange (otaReset s) .stop)
    else if IsCommand .complete data then .ok (otaStatusChange s .complete)
    else if IsHeader data ∧ s.rx.expectLen = 0 then .ok (beginPacket s data)
    else if s.rx.expectLen ≠ 0 then .ok (otaRecvData s data).2
    else .ok s
  | _ => .ok s

/-- A GATT write. An attribute value has at most 512 bytes, so the length fits the 16
bits in which `ota_recv_data` takes it. -/
structure CharWrite where
  connHandle : Int
  charHandle : Int
  data : List UInt8
  short : data.length < 2 ^ 16
  deriving DecidableEq, Repr

def rxData (cfg : Config) (s : Server) (e : CharWrite) : Option (List UInt8) :=
  if s.connHandle ≠ e.connHandle then none
  else if cfg.otaHandle < e.charHandle ∧ e.charHandle < cfg.otaHandle + idxMax ∧
      e.charHandle - cfg.otaHandle = idxRxVal then some e.data
  else none

def eventCharWrite (cfg : Config) (s : Server) (e : CharWrite) : Except Fault Server :=
  match rxData cfg s e with
  | some data => writeRxVal cfg (s.note (.received data)) data
  | none => .ok s

def eventCharCccChange (cfg : Config) (s : Server) (charHandle : Int) (value : CccValue) : Server :=
  if charHandle ≠ cfg.otaHandle + idxTxCcc then s else { s with txCccValue := value }

def requestFrame (offset : Nat) : List UInt8 :=
  [otaPacketStart, OtaCmd.request.code, .ofNat (offset / 65536), .ofNat (offset / 256),
    .ofNat offset, otaPacketEnd]

def otaRequest (s : Server) (offset : Nat) : Server :=
  let s := otaResetRx s
  let s := { s with ctrl := { s.ctrl with timer := some (s.ctrl.timeout * 1000) } }
  s.note (.notified (requestFrame offset))

/-- One step of the task that drives the session. -/
def bleOtaProcess (cfg : Config) (s : Server) (works : Bool) : Server :=
  if s.connHandle = -1 then s
  else
    match s.ctrl.st with
    | .start =>
      if s.txCccValue ≠ .notify then otaStatusChange s .start
      else
        otaStatusChange (s.note (.notified
          [otaPacketStart, OtaCmd.start.code, 0x01, otaPacketEnd])) .request
    | .request =>
      let offset := s.ctrl.packetSize * s.ctrl.recvPacketCount
      let s := { s with ctrl := { s.ctrl with retryCount := (s.ctrl.retryCount + 1) % 2 ^ 8 } }
      if 10 < s.ctrl.retryCount then (otaStatusChange (otaReset s) .idle).note .disconnected
      else otaStatusChange (otaRequest s offset) .dl
    | .flash =>
      let s := { s with ctrl := { s.ctrl with retryCount := 0 } }
      let s := (otaPartitionWrite cfg works s s.rx.rxBuf
        (s.ctrl.recvPacketCount * s.ctrl.packetSize)).2
      let s := { s with
        ctrl := { s.ctrl with recvPacketCount := (s.ctrl.recvPacketCount + 1) % 2 ^ 16 } }
      if s.ctrl.recvPacketCount < s.ctrl.expectPacketCount then otaStatusChange s .request
      else otaStatusChange s .complete
    | .stop => otaStatusChange s .idle
    | .complete =>
      { s.note (.notified [otaPacketStart, OtaCmd.complete.code, 0x00, otaPacketEnd]) with
        rebooted := true }.note .rebooted
    | _ => s

def otaTimeout (s : Server) : Server := otaStatusChange (otaResetRx s) .request

def bleOtaInit (cfg : Config) (works : Bool) (mem : Mem) : Server :=
  otaPartitionErase cfg works (otaReset { partition := mem })

inductive Event where
  | connChange (connected : Bool) (connHandle : Int) (works : Bool)
  | charWrite (e : CharWrite)
  | cccChange (charHandle : Int) (value : CccValue)
  | process (works : Bool)
  /-- The timer expires; it runs once. -/
  | timeout
  deriving DecidableEq, Repr

/-- One event. Nothing happens any more after the reboot, and a timer that does not
run does not expire. -/
def step (cfg : Config) (s : Server) (e : Event) : Except Fault Server :=
  if s.rebooted then .ok s
  else
    match e with
    | .connChange connected connHandle works => .ok (connChange cfg s connected connHandle works)
    | .charWrite e => eventCharWrite cfg s e
    | .cccChange charHandle value => .ok (eventCharCccChange cfg s charHandle value)
    | .process works => .ok (bleOtaProcess cfg s works)
    | .timeout =>
      match s.ctrl.timer with
      | some _ => .ok (otaTimeout { s with ctrl := { s.ctrl with timer := none } })
      | none => .ok s

end Phy6212.Ota
