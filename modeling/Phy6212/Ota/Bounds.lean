import Mathlib.Algebra.Order.Floor.Div
import Phy6212.Ota.Packets

/-!
# The numbers of a session

Whatever the client sends and whenever the timer fires, a packet that is being received stays inside
the buffer of `OTA_PACKET_SIZE` bytes (`rx_within`, `stepLate`).
-/

namespace Phy6212.Ota

open NorFlash Misc Runs

/-- Where `ota_recv_data` copies the data to in `rx_buf`, and how many bytes. -/
def recvCopy (rx : OtaRx) (data : List UInt8) : Option (Nat × Nat) :=
  if data = [] ∨ rx.expectLen = 0 then none
  else some (rx.rxLen, (min ((rx.expectLen : Int) - rx.rxLen) data.length % 2 ^ 16).toNat)

def writeCopy (s : Server) (data : List UInt8) : Option (Nat × Nat) :=
  if s.ctrl.st = .dl ∧ ¬ IsCommand .stop data ∧ ¬ IsCommand .complete data then
    if IsHeader data ∧ s.rx.expectLen = 0 then
      if s.ctrl.expectPacketCount ≤ word16 data 2 then none
      else recvCopy (headerRx s data) (data.drop 6)
    else recvCopy s.rx data
  else none

/-- The packet is not longer than expected, and that is not more than the size of a packet. -/
def RxWithin (packetSize : Nat) (rx : OtaRx) : Prop :=
  rx.rxLen ≤ rx.expectLen ∧ rx.expectLen ≤ packetSize

def RxEmpty (rx : OtaRx) : Prop := rx.expectLen = 0 ∧ rx.rxLen = 0

theorem recvCopy_within {rx : OtaRx} {data : List UInt8} {packetSize dest size : Nat}
    (within : RxWithin packetSize rx) (copy : recvCopy rx data = some (dest, size)) :
    dest = rx.rxLen ∧ size ≤ data.length ∧ dest + size ≤ rx.expectLen := by
  unfold recvCopy at copy
  split at copy
  · cases copy
  obtain ⟨rfl, rfl⟩ := Prod.mk.inj (Option.some.inj copy)
  obtain ⟨short, expected⟩ := within
  refine ⟨rfl, ?_, ?_⟩
  · omega
  · omega

theorem otaRecvData_copy (s : Server) {data : List UInt8} {dest size : Nat}
    (copy : recvCopy s.rx data = some (dest, size)) :
    (otaRecvData s data).2.rx = { s.rx with rxBuf := s.rx.rxBuf ++ data.take size } := by
  unfold recvCopy at copy
  split at copy
  · cases copy
  rename_i expects
  obtain ⟨rfl, rfl⟩ := Prod.mk.inj (Option.some.inj copy)
  unfold otaRecvData
  rw [if_neg expects]
  unfold otaRecvEnd
  dsimp only
  split
  · split
    · split <;> rfl
    · split <;> rfl
  · split <;> rfl

theorem otaRecvData_rx_within {s : Server} (data : List UInt8)
    (within : RxWithin s.ctrl.packetSize s.rx) :
    RxWithin s.ctrl.packetSize (otaRecvData s data).2.rx := by
  cases copy : recvCopy s.rx data with
  | none =>
    have nothing : data = [] ∨ s.rx.expectLen = 0 := by
      by_contra expects
      simp [recvCopy, if_neg expects] at copy
    unfold otaRecvData
    rw [if_pos nothing]
    exact within
  | some place =>
    obtain ⟨dest, size⟩ := place
    obtain ⟨rfl, taken, inside⟩ := recvCopy_within within copy
    rw [otaRecvData_copy s copy]
    refine ⟨?_, within.2⟩
    simp only [OtaRx.rxLen, List.length_append, List.length_take] at inside ⊢
    omega

/-- One event, when the callback of the timer may also run after the timer was stopped. -/
def stepLate (cfg : Config) (s : Server) (e : Event) : Except Fault Server :=
  if e = .timeout ∧ s.rebooted = false then
    .ok (otaTimeout { s with ctrl := { s.ctrl with timer := none } })
  else step cfg s e

structure RxBounded (s : Server) : Prop where
  small : s.ctrl.packetSize ≤ otaPacketSize
  counted : s.ctrl.packetSize = 0 → s.ctrl.expectPacketCount = 0
  rx : RxWithin s.ctrl.packetSize s.rx ∨ RxEmpty s.rx
  resting : s.ctrl.st = .idle ∨ s.ctrl.st = .stop → RxEmpty s.rx

variable {cfg : Config} {s : Server}

theorem rxEmpty_reset : RxEmpty {} := ⟨rfl, rfl⟩

theorem headerRx_within (bounded : RxBounded s) {data : List UInt8}
    (known : word16 data 2 < s.ctrl.expectPacketCount) (empty : s.rx.expectLen = 0) :
    RxWithin s.ctrl.packetSize (headerRx s data) := by
  have positive : 0 < s.ctrl.packetSize := by
    rcases Nat.eq_zero_or_pos s.ctrl.packetSize with zero | positive
    · rw [bounded.counted zero] at known
      exact absurd known (Nat.not_lt_zero _)
    · exact positive
  have nothing : s.rx.rxLen = 0 := by
    rcases bounded.rx with within | resting
    · exact Nat.le_zero.mp (empty ▸ within.1)
    · exact resting.2
  refine ⟨?_, ?_⟩
  · exact nothing.trans_le (Nat.zero_le _)
  show expectLenOf s.ctrl _ ≤ s.ctrl.packetSize
  unfold expectLenOf
  split
  · exact Nat.le_of_lt (Nat.mod_lt _ positive)
  · exact Nat.le_refl _

theorem rxBounded_received (small : s.ctrl.packetSize ≤ otaPacketSize)
    (counted : s.ctrl.packetSize = 0 → s.ctrl.expectPacketCount = 0) (downloads : s.ctrl.st = .dl)
    (within : RxWithin s.ctrl.packetSize s.rx) (data : List UInt8) :
    RxBounded (otaRecvData s data).2 := by
  have rx := otaRecvData_rx_within data within
  obtain ⟨buffer, st, timer, next, same⟩ := otaRecvData_frame s data
  rw [same] at rx ⊢
  refine ⟨small, counted, .inl rx, ?_⟩
  rw [downloads] at next
  rintro (rfl | rfl)
  · simp at next
  · simp at next

theorem rxBounded_step (bounded : RxBounded s) {e : Event} {s' : Server} (move : Move cfg s e s') :
    RxBounded s' := by
  cases move with
  | nothing => exact bounded
  | connected connHandle => exact { bounded with }
  | subscribed value => exact { bounded with }
  | lost connHandle works event mem done =>
    exact ⟨Nat.zero_le _, fun _ => rfl, .inr rxEmpty_reset, fun _ => rxEmpty_reset⟩
  | ignored heard waits => exact { bounded with }
  | began heard begins =>
    have empty := bounded.resting (.inl begins.idle)
    refine ⟨begins.small, fun zero => ?_, .inr empty, fun _ => empty⟩
    exact absurd zero (Nat.ne_of_gt begins.positive)
  | stopped heard downloads command =>
    exact ⟨Nat.zero_le _, fun _ => rfl, .inr rxEmpty_reset, fun _ => rxEmpty_reset⟩
  | finished heard downloads command =>
    refine ⟨bounded.small, bounded.counted, bounded.rx, ?_⟩
    rintro (state | state) <;> cases state
  | opened heard opens =>
    apply rxBounded_received
    · exact bounded.small
    · exact bounded.counted
    · exact opens.downloads
    · exact headerRx_within bounded opens.known opens.empty
  | continued heard downloads expects =>
    apply rxBounded_received
    · exact bounded.small
    · exact bounded.counted
    · exact downloads
    · exact bounded.rx.resolve_right fun empty => expects empty.1
  | welcomed starting =>
    refine ⟨bounded.small, bounded.counted, bounded.rx, ?_⟩
    rintro (state | state) <;> cases state
  | gaveUp requesting =>
    exact ⟨Nat.zero_le _, fun _ => rfl, .inr rxEmpty_reset, fun _ => rxEmpty_reset⟩
  | requested requesting patient =>
    exact ⟨bounded.small, bounded.counted, .inr rxEmpty_reset, fun _ => rxEmpty_reset⟩
  | wrote works event flashing st next =>
    refine ⟨bounded.small, bounded.counted, bounded.rx, ?_⟩
    split at next
    · rw [next]
      rintro (state | state) <;> cases state
    · rw [next]
      rintro (state | state) <;> cases state
  | rested stopping =>
    exact ⟨bounded.small, bounded.counted, bounded.rx, fun _ => bounded.resting (.inr stopping)⟩
  | rebooted complete => exact { bounded with }
  | expired armed =>
    exact ⟨bounded.small, bounded.counted, .inr rxEmpty_reset, fun _ => rxEmpty_reset⟩

theorem rxBounded_stepLate (bounded : RxBounded s) {e : Event} {s' : Server}
    (ok : stepLate cfg s e = .ok s') : RxBounded s' := by
  unfold stepLate at ok
  split at ok
  · cases ok
    exact ⟨bounded.small, bounded.counted, .inr rxEmpty_reset, fun _ => rxEmpty_reset⟩
  · exact rxBounded_step bounded (step_move ok)

theorem rxBounded_init (cfg : Config) (works : Bool) (mem : Mem) :
    RxBounded (bleOtaInit cfg works mem) := by
  obtain ⟨erased, done, init, -⟩ := bleOtaInit_eq cfg works mem
  rw [init]
  exact ⟨Nat.zero_le _, fun _ => rfl, .inr rxEmpty_reset, fun _ => rxEmpty_reset⟩

theorem RxBounded.copy (bounded : RxBounded s) {data : List UInt8} {dest size : Nat}
    (copy : writeCopy s data = some (dest, size)) : dest + size ≤ otaPacketSize := by
  unfold writeCopy at copy
  split at copy
  · split at copy
    · next header =>
      split at copy
      · cases copy
      · next known =>
        have within := headerRx_within bounded (Nat.lt_of_not_le known) header.2
        obtain ⟨-, -, inside⟩ := recvCopy_within within copy
        exact inside.trans (within.2.trans bounded.small)
    rcases bounded.rx with within | empty
    · obtain ⟨-, -, inside⟩ := recvCopy_within within copy
      exact inside.trans (within.2.trans bounded.small)
    · simp [recvCopy, empty.1] at copy
  · cases copy

/-- **The buffer is never left**, after any events, also when the callback of the timer runs late.
-/
theorem rx_within (cfg : Config) (works : Bool) (mem : Mem) (s : Server)
    (run : Reaches (stepLate cfg) (fun _ _ => True) (bleOtaInit cfg works mem) s) :
    ((s.rx.rxLen ≤ s.rx.expectLen ∧ s.rx.expectLen ≤ s.ctrl.packetSize ∧
        s.ctrl.packetSize ≤ otaPacketSize) ∨
      (s.rx.expectLen = 0 ∧ s.rx.rxLen = 0)) ∧
    ∀ data dest size, writeCopy s data = some (dest, size) → dest + size ≤ otaPacketSize := by
  have bounded : RxBounded s := run.invariant (rxBounded_init cfg works mem)
    fun _ _ _ held _ ok => rxBounded_stepLate held ok
  refine ⟨?_, fun data dest size copy => bounded.copy copy⟩
  rcases bounded.rx with within | empty
  · exact .inl ⟨within.1, within.2, bounded.small⟩
  · exact .inr empty

def halfPacket : List Event :=
  requestedFirst ++ [rxWrite [0xFF, 0xFE, 0x00, 0x00, 0x49, 0x8C, 0x11] (by decide)]

theorem rx_within_half : ∃ s,
    halfPacket.foldlM (stepLate board) (bleOtaInit board true blankFlash) = .ok s ∧
    s.rx.rxLen = 1 ∧ s.rx.expectLen = 2 ∧
    ∀ data dest size, writeCopy s data = some (dest, size) → dest + size ≤ otaPacketSize := by
  refine ⟨_, rfl, by decide, by decide, ?_⟩
  exact (rx_within board true blankFlash _ (reaches_foldlM (fun _ _ _ => trivial)
    (show halfPacket.foldlM (stepLate board) _ = .ok _ from rfl))).2

def Accepts (cfg : Config) (data : List UInt8) : Prop :=
  IsStart data ∧ word24 data 2 ≤ otaPartitionSize cfg ∧ word16 data 5 ≤ otaPacketSize

def CountExact (firmwareSize packetSize : Nat) (result : Except Fault Server) : Prop :=
  ∃ s, result = .ok s ∧ s.ctrl.expectPacketCount = firmwareSize ⌈/⌉ packetSize ∧
    firmwareSize ≤ s.ctrl.expectPacketCount * packetSize

theorem packetCount_eq (firmwareSize packetSize : Nat) :
    packetCount firmwareSize packetSize = firmwareSize ⌈/⌉ packetSize :=
  (Nat.ceilDiv_eq_add_pred_div firmwareSize packetSize).symm

theorem packetCount_le_iff {firmwareSize packetSize : Nat} (positive : 0 < packetSize) (n : Nat) :
    packetCount firmwareSize packetSize ≤ n ↔ firmwareSize ≤ n * packetSize := by
  rw [← Nat.not_lt, lt_packetCount positive, Nat.not_lt]

theorem writeRxVal_accepted {cfg : Config} {s : Server} {data : List UInt8}
    (idle : s.ctrl.st = .idle) (accepts : Accepts cfg data) :
    writeRxVal cfg s data =
      if word16 data 5 = 0 then .error .divisionByZero
      else .ok (beginSession s (word24 data 2) (word16 data 5) (data.getD 7 0).toNat) := by
  obtain ⟨starts, fits, small⟩ := accepts
  unfold writeRxVal
  rw [idle]
  rw [if_pos starts]
  unfold startSession
  rw [if_neg (by omega)]

/-- **An accepted START sets the exact count of packets** if and only if the packets are not
empty, and 65535 of them hold the firmware. -/
theorem start_count_iff (cfg : Config) (s : Server) (idle : s.ctrl.st = .idle) (data : List UInt8)
    (accepts : Accepts cfg data) :
    CountExact (word24 data 2) (word16 data 5) (writeRxVal cfg s data) ↔
      0 < word16 data 5 ∧ word24 data 2 ≤ 65535 * word16 data 5 := by
  rw [writeRxVal_accepted idle accepts]
  constructor
  · rintro ⟨s', ok, exact_, -⟩
    split at ok
    · cases ok
    rename_i nonzero
    cases ok
    have positive := Nat.pos_of_ne_zero nonzero
    refine ⟨positive, (packetCount_le_iff positive 65535).mp ?_⟩
    have kept : packetCount _ _ % 2 ^ 16 = packetCount _ _ := exact_
    omega
  rintro ⟨positive, enough⟩
  have few := (packetCount_le_iff positive 65535).mpr enough
  have kept : packetCount _ _ % 2 ^ 16 =
      packetCount (word24 data 2) (word16 data 5) := Nat.mod_eq_of_lt (by omega)
  rw [if_neg (Nat.ne_of_gt positive)]
  refine ⟨_, rfl, ?_, ?_⟩
  · exact kept.trans (packetCount_eq _ _)
  · show word24 data 2 ≤ packetCount _ _ % 2 ^ 16 * word16 data 5
    rw [kept]
    exact (packetCount_le_iff positive _).mp (Nat.le_refl _)

def announcing (firmwareHigh firmwareLow packetSize : UInt8) : List UInt8 :=
  [0xFF, 0x01, firmwareHigh, 0x00, firmwareLow, 0x00, packetSize, 0x0A, 0xFE]

def largeBoard : Config := ⟨16, ⟨0x39000, 0x1000⟩⟩

theorem start_count_iff_five :
    (bleOtaInit largeBoard true blankFlash).ctrl.st = .idle ∧ Accepts largeBoard (announcing 0 5 2) ∧
      CountExact 5 2 (writeRxVal largeBoard (bleOtaInit largeBoard true blankFlash)
        (announcing 0 5 2)) := by
  have idle : (bleOtaInit largeBoard true blankFlash).ctrl.st = .idle := rfl
  have accepts : Accepts largeBoard (announcing 0 5 2) := ⟨by decide, by decide, by decide⟩
  exact ⟨idle, accepts, (start_count_iff _ _ idle _ accepts).mpr ⟨by decide, by decide⟩⟩

/-- **The count of packets is wrong** for packets of size 0, by which the server divides, and for
a firmware of 65537 packets, of which it expects one. -/
theorem start_count_wrong :
    Accepts largeBoard (announcing 0 5 0) ∧
      writeRxVal largeBoard (bleOtaInit largeBoard true blankFlash) (announcing 0 5 0) =
        .error .divisionByZero ∧
    Accepts largeBoard (announcing 1 1 1) ∧
      ∃ s, writeRxVal largeBoard (bleOtaInit largeBoard true blankFlash) (announcing 1 1 1) = .ok s ∧
        word24 (announcing 1 1 1) 2 = 65537 ∧ s.ctrl.expectPacketCount = 1 := by
  have empty : Accepts largeBoard (announcing 0 5 0) := ⟨by decide, by decide, by decide⟩
  have many : Accepts largeBoard (announcing 1 1 1) := ⟨by decide, by decide, by decide⟩
  refine ⟨empty, ?_, many, _, (writeRxVal_accepted rfl many).trans (if_neg (by decide)),
    by decide, by decide⟩
  rw [writeRxVal_accepted rfl empty, if_pos (by decide)]

end Phy6212.Ota
