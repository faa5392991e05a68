import Mathlib.Algebra.GroupWithZero.Nat
import Mathlib.Data.List.SplitLengths
import Phy6212.Ota.Packets

/-!
# Transferring a firmware

A client announces its firmware and answers every request, in writes of given sizes; nothing is lost
(`turn`).
-/

namespace Phy6212.Ota

open List NorFlash Misc Runs

/-! ## The client -/

/-- A client with its firmware; `cuts` are the sizes of the writes for each packet. -/
structure Client where
  connHandle : Int
  firmware : List UInt8
  packetSize : Nat
  timeout : Nat
  cuts : Nat → List Nat

namespace Client

def startFrame (c : Client) : List UInt8 :=
  [otaPacketStart, OtaCmd.start.code, .ofNat (c.firmware.length / 65536),
    .ofNat (c.firmware.length / 256), .ofNat c.firmware.length, .ofNat (c.packetSize / 256),
    .ofNat c.packetSize, .ofNat c.timeout, otaPacketEnd]

def payload (c : Client) (k : Nat) : List UInt8 :=
  (c.firmware.drop (k * c.packetSize)).take c.packetSize

abbrev count (c : Client) : Nat := packetCount c.firmware.length c.packetSize

def crc (c : Client) (k : Nat) : Nat := (crc16 0 (c.payload k)).toNat

def packet (c : Client) (k : Nat) : List UInt8 :=
  otaPacketStart :: otaPacketEnd :: .ofNat (k / 256) :: .ofNat k :: .ofNat (c.crc k / 256) ::
    .ofNat (c.crc k) :: c.payload k

def answer (c : Client) (k : Nat) : List (List UInt8) := (c.cuts k).splitLengths (c.packet k)

def write (c : Client) (cfg : Config) (data : List UInt8) : Event :=
  .charWrite ⟨c.connHandle, cfg.otaHandle + idxRxVal, data.take (2 ^ 16 - 1), by
    rw [length_take]
    omega⟩

end Client

def Note.requested? : Note → Option Nat
  | .notified frame =>
    if frame.length = 6 ∧ frame.getD 1 0 = OtaCmd.request.code then some (word24 frame 2) else none
  | _ => none

def turn (cfg : Config) (c : Client) (s : Server) : Except Fault Server := do
  let s₁ ← step cfg s (.process true)
  match (s₁.trace.drop s.trace.length).findSome? Note.requested? with
  | none => .ok s₁
  | some offset =>
    let s₂ ← ((c.answer (offset / c.packetSize)).map (c.write cfg)).foldlM (step cfg) s₁
    if s₂.ctrl.st = .dl then step cfg s₂ .timeout else .ok s₂

def turns (cfg : Config) (c : Client) : Nat → Server → Except Fault Server
  | 0, s => .ok s
  | n + 1, s => turn cfg c s >>= turns cfg c n

def Contains (cfg : Config) (mem : Mem) (firmware : List UInt8) : Prop :=
  ∀ i < firmware.length, mem (2 * cfg.info.sectorSize + i) = firmware.getD i 0

/-- The client starts a session, and after some turns it is complete and the
partition has the firmware. -/
def Delivers (cfg : Config) (s : Server) (c : Client) : Prop :=
  ∃ n s₁ s₂, step cfg s (c.write cfg c.startFrame) = .ok s₁ ∧ turns cfg c n s₁ = .ok s₂ ∧
    s₂.ctrl.st = .complete ∧ Contains cfg s₂.partition c.firmware

/-- The sizes cut a packet into writes, the first of which has more than the header. -/
structure Cuts (sizes : List Nat) (length : Nat) : Prop where
  sum : sizes.sum = length
  positive : ∀ n ∈ sizes, 0 < n
  header : ∃ n rest, sizes = n :: rest ∧ 6 < n

/-- The firmware fits the partition and the fields of `OTA_CMD_START`. -/
structure Fit (cfg : Config) (c : Client) : Prop where
  nonempty : 0 < c.firmware.length
  inPartition : 2 * cfg.info.sectorSize + c.firmware.length ≤ cfg.info.length
  addressable : cfg.info.length < 2 ^ 32
  announceable : c.firmware.length < 2 ^ 24
  positive : 0 < c.packetSize
  small : c.packetSize ≤ otaPacketSize
  connected : c.connHandle ≠ -1
  cuts : ∀ k < packetCount c.firmware.length c.packetSize,
    Cuts (c.cuts k) (slotLength c.firmware.length c.packetSize k + 6)

structure Ready (cfg : Config) (c : Client) (s : Server) : Prop where
  connected : s.connHandle = c.connHandle
  notifies : s.txCccValue = .notify
  running : s.rebooted = false
  ctrl : s.ctrl = {}
  rx : s.rx = {}
  erased : ∀ i < c.firmware.length, s.partition (2 * cfg.info.sectorSize + i) = blank

variable {cfg : Config} {c : Client} {s : Server}

theorem payload_length (c : Client) (k : Nat) :
    (c.payload k).length = slotLength c.firmware.length c.packetSize k := by
  unfold Client.payload slotLength
  rw [length_take, length_drop]

variable {n : Nat}

theorem word16_ofNat (small : n < 2 ^ 16) :
    (UInt8.ofNat (n / 256)).toNat * 256 + (UInt8.ofNat n).toNat = n := by
  rw [UInt8.toNat_ofNat', UInt8.toNat_ofNat']
  omega

theorem word24_ofNat (small : n < 2 ^ 24) :
    (UInt8.ofNat (n / 65536)).toNat * 65536 +
      ((UInt8.ofNat (n / 256)).toNat * 256 + (UInt8.ofNat n).toNat) = n := by
  rw [UInt8.toNat_ofNat', UInt8.toNat_ofNat', UInt8.toNat_ofNat']
  omega

theorem crc_lt (c : Client) (k : Nat) : c.crc k < 2 ^ 16 := UInt16.toNat_lt _

def firstFrame (c : Client) (k n : Nat) : List UInt8 :=
  otaPacketStart :: otaPacketEnd :: .ofNat (k / 256) :: .ofNat k :: .ofNat (c.crc k / 256) ::
    .ofNat (c.crc k) :: (c.payload k).take n

theorem firstFrame_header {k : Nat} (more : 0 < n) (data : 0 < (c.payload k).length) :
    IsHeader (firstFrame c k n) := by
  refine ⟨?_, rfl, rfl⟩
  simp only [firstFrame, length_cons, length_take]
  omega

theorem firstFrame_id {k : Nat} (n : Nat) (small : k < 2 ^ 16) :
    word16 (firstFrame c k n) 2 = k := word16_ofNat small

theorem firstFrame_crc (k n : Nat) : word16 (firstFrame c k n) 4 = c.crc k :=
  word16_ofNat (crc_lt c k)

theorem step_write {data : List UInt8} (connected : s.connHandle = c.connHandle)
    (running : s.rebooted = false) (short : data.length < 2 ^ 16) :
    step cfg s (c.write cfg data) = writeRxVal cfg (s.note (.received data)) data := by
  have whole : data.take (2 ^ 16 - 1) = data := take_of_length_le (by omega)
  have heard : rxData cfg s ⟨c.connHandle, cfg.otaHandle + idxRxVal, data.take (2 ^ 16 - 1), by
      rw [length_take]; omega⟩ = some data := by
    unfold rxData
    rw [if_neg (not_not.mpr connected), if_pos]
    · exact congrArg some whole
    · show cfg.otaHandle < cfg.otaHandle + 2 ∧ cfg.otaHandle + 2 < cfg.otaHandle + 8 ∧
        cfg.otaHandle + 2 - cfg.otaHandle = 2
      omega
  unfold step
  rw [running]
  simp only [Bool.false_eq_true, if_false, Client.write, eventCharWrite, heard]

/-! ## Receiving a packet -/

def Stored (cfg : Config) (c : Client) (k : Nat) (mem : Mem) : Prop :=
  ∀ i < c.firmware.length, mem (2 * cfg.info.sectorSize + i) =
    if i < k * c.packetSize then c.firmware.getD i 0 else blank

/-- A session of the client in which `k` slots are stored, after `r` requests for the
next one. -/
structure Serving (cfg : Config) (c : Client) (k r : Nat) (s : Server) : Prop where
  connected : s.connHandle = c.connHandle
  notifies : s.txCccValue = .notify
  running : s.rebooted = false
  firmwareSize : s.ctrl.firmwareSize = c.firmware.length
  packetSize : s.ctrl.packetSize = c.packetSize
  count : s.ctrl.expectPacketCount = packetCount c.firmware.length c.packetSize
  slot : s.ctrl.recvPacketCount = k
  retries : s.ctrl.retryCount = r
  stored : Stored cfg c k s.partition

def Taking (c : Client) (k m : Nat) (s : Server) : Prop :=
  s.ctrl.st = .dl ∧ s.rx = ⟨(c.payload k).take m, (c.payload k).length, k, c.crc k⟩

def Filled (c : Client) (k : Nat) (s : Server) : Prop :=
  s.ctrl.st = .flash ∧ s.rx.rxBuf = c.payload k

def Progress (c : Client) (k m : Nat) (s : Server) : Prop :=
  if m < (c.payload k).length then Taking c k m s else Filled c k s

def Plain (data : List UInt8) : Prop := ¬ IsCommand .stop data ∧ ¬ IsCommand .complete data

variable {k r m : Nat} {data : List UInt8}

theorem plain_of_length (other : data.length ≠ 3) : Plain data :=
  ⟨fun command => other command.1, fun command => other command.1⟩

theorem Serving.frame (serving : Serving cfg c k r s) (st : OtaState) (timer : Option Nat)
    (rx : OtaRx) (trace : List Note) :
    Serving cfg c k r
      { s with ctrl := { s.ctrl with st := st, timer := timer }, rx := rx, trace := trace } :=
  { serving with }

theorem Serving.received (serving : Serving cfg c k r s) (rx : OtaRx) (n : Note)
    (data : List UInt8) :
    Serving cfg c k r (otaRecvData { s.note n with rx := rx } data).2 := by
  obtain ⟨buffer, st, timer, -, received⟩ := otaRecvData_frame { s.note n with rx := rx } data
  rw [received]
  exact serving.frame _ _ _ _

theorem Taking.progress (taking : Taking c k m s) (short : m < (c.payload k).length)
    (small : (c.payload k).length < 2 ^ 16) (inside : m + n ≤ (c.payload k).length) :
    Progress c k (m + n) (otaRecvData s (((c.payload k).drop m).take n)).2 := by
  obtain ⟨downloads, rx⟩ := taking
  have have_ : s.rx.rxLen = m := by
    rw [rx]
    simp only [OtaRx.rxLen, length_take]
    omega
  have expects : s.rx.expectLen = (c.payload k).length := by rw [rx]
  have piece : (((c.payload k).drop m).take n).length = n := by
    rw [length_take, length_drop]
    omega
  rw [otaRecvData_cases s _ (by omega) (by omega), have_, expects, piece]
  unfold Progress
  split
  · next more =>
    refine ⟨downloads, ?_⟩
    rw [rx]
    simp only [take_add]
  rename_i done
  have all : (c.payload k).take m ++ (((c.payload k).drop m).take n).take
      ((c.payload k).length - m) = c.payload k := by
    have rest : (((c.payload k).drop m).take n).take ((c.payload k).length - m) =
        (c.payload k).drop m := by
      rw [take_take]
      exact take_of_length_le (by rw [length_drop]; omega)
    rw [rest, take_append_drop]
  rw [rx]
  refine ⟨if_pos ?_, all⟩
  rw [all, rx]
  rfl

theorem writeRxVal_piece (downloads : s.ctrl.st = .dl) (plain : Plain data)
    (expects : s.rx.expectLen ≠ 0) : writeRxVal cfg s data = .ok (otaRecvData s data).2 := by
  unfold writeRxVal
  simp only [downloads]
  rw [if_neg plain.1, if_neg plain.2, if_neg (fun header => expects header.2), if_pos expects]

theorem writeRxVal_header (downloads : s.ctrl.st = .dl) (plain : Plain data)
    (header : IsHeader data) (empty : s.rx.expectLen = 0)
    (known : word16 data 2 < s.ctrl.expectPacketCount) :
    writeRxVal cfg s data = .ok (otaRecvData { s with rx := headerRx s data } (data.drop 6)).2 := by
  unfold writeRxVal
  simp only [downloads]
  rw [if_neg plain.1, if_neg plain.2, if_pos ⟨header, empty⟩]
  unfold beginPacket
  rw [if_neg (Nat.not_le.mpr known)]
  rfl

theorem step_piece (serving : Serving cfg c k r s) (taking : Taking c k m s)
    (short : m < (c.payload k).length) (small : (c.payload k).length < 2 ^ 16)
    (inside : m + n ≤ (c.payload k).length) (plain : Plain (((c.payload k).drop m).take n)) :
    ∃ s', step cfg s (c.write cfg (((c.payload k).drop m).take n)) = .ok s' ∧
      Serving cfg c k r s' ∧ Progress c k (m + n) s' := by
  have fits : (((c.payload k).drop m).take n).length < 2 ^ 16 := by
    rw [length_take, length_drop]
    omega
  have expects : s.rx.expectLen ≠ 0 := by
    rw [taking.2]
    exact Nat.ne_of_gt (Nat.zero_lt_of_lt short)
  have noted : Taking c k m (s.note (.received (((c.payload k).drop m).take n))) := taking
  refine ⟨_, ?_, serving.received s.rx _ _, noted.progress short small inside⟩
  rw [step_write serving.connected serving.running fits]
  exact writeRxVal_piece noted.1 plain expects

theorem feed_pieces (small : (c.payload k).length < 2 ^ 16) (sizes : List Nat)
    (serving : Serving cfg c k r s) (progress : Progress c k m s)
    (total : m + sizes.sum ≤ (c.payload k).length) (positive : ∀ n ∈ sizes, 0 < n)
    (plain : ∀ f ∈ sizes.splitLengths ((c.payload k).drop m), Plain f) :
    ∃ s', ((sizes.splitLengths ((c.payload k).drop m)).map (c.write cfg)).foldlM (step cfg) s =
      .ok s' ∧ Serving cfg c k r s' ∧ Progress c k (m + sizes.sum) s' := by
  induction sizes generalizing m s with
  | nil => exact ⟨s, rfl, serving, progress⟩
  | cons n sizes feedSizes =>
    rw [sum_cons, ← Nat.add_assoc] at total ⊢
    have some_ := positive n mem_cons_self
    have short : m < (c.payload k).length := by omega
    unfold Progress at progress
    rw [if_pos short] at progress
    rw [splitLengths_cons, drop_drop] at plain ⊢
    obtain ⟨next, first, serving', progress'⟩ := step_piece serving progress short small
      (n := n) (by omega) (plain _ mem_cons_self)
    obtain ⟨s', rest, finished⟩ := feedSizes serving' progress' total
      (fun n' member => positive n' (mem_cons_of_mem _ member))
      (fun f member => plain f (mem_cons_of_mem _ member))
    refine ⟨s', ?_, finished⟩
    rw [map_cons, foldlM_cons, first]
    exact rest

theorem Serving.expectLen (serving : Serving cfg c k r s) (fit : Fit cfg c)
    (known : k < c.count) (whole : k + 1 < c.count ∨ c.firmware.length % c.packetSize ≠ 0) :
    expectLenOf s.ctrl k = (c.payload k).length := by
  unfold Client.count at known whole
  rw [payload_length]
  unfold expectLenOf
  rw [serving.count, serving.firmwareSize, serving.packetSize]
  split
  · next last =>
    refine (slotLength_last fit.positive (by omega) ?_).symm
    exact whole.resolve_left (by omega)
  · next notLast => exact (slotLength_full fit.positive (by omega)).symm

section

variable (fit : Fit cfg c)

include fit

theorem Fit.payload_small (k : Nat) : (c.payload k).length ≤ 8192 :=
  Nat.le_trans (length_take_le _ _) fit.small

theorem Fit.payload_pos (known : k < c.count) : 0 < (c.payload k).length := by
  have inside := (lt_packetCount fit.positive).mp known
  rw [payload_length]
  unfold slotLength
  have positive := fit.positive
  omega

theorem step_firstFrame (serving : Serving cfg c k r s)
    (counted : c.count < 2 ^ 16) (known : k < c.count) (downloads : s.ctrl.st = .dl)
    (empty : s.rx = {}) (more : 0 < n) :
    step cfg s (c.write cfg (firstFrame c k n)) =
      .ok (otaRecvData { s.note (.received (firstFrame c k n)) with
        rx := ⟨[], expectLenOf s.ctrl k, k, c.crc k⟩ } ((c.payload k).take n)).2 := by
  have small := fit.payload_small k
  have positive := fit.payload_pos known
  have length : (firstFrame c k n).length = min n (c.payload k).length + 6 := by
    simp only [firstFrame, length_cons, length_take]
  have isId : word16 (firstFrame c k n) 2 = k := firstFrame_id n (by omega)
  have begun : headerRx (s.note (.received (firstFrame c k n))) (firstFrame c k n) =
      ⟨[], expectLenOf s.ctrl k, k, c.crc k⟩ := by
    unfold headerRx
    rw [isId, firstFrame_crc]
    show OtaRx.mk s.rx.rxBuf (expectLenOf s.ctrl k) k _ = _
    rw [empty]
  have empty' : (s.note (.received (firstFrame c k n))).rx.expectLen = 0 := by
    show s.rx.expectLen = 0
    rw [empty]
  have known' : word16 (firstFrame c k n) 2 <
      (s.note (.received (firstFrame c k n))).ctrl.expectPacketCount := by
    rw [isId]
    exact known.trans_eq serving.count.symm
  rw [step_write serving.connected serving.running (by omega), ← begun]
  exact writeRxVal_header downloads (plain_of_length (by omega)) (firstFrame_header more positive)
    empty' known'

theorem step_header (serving : Serving cfg c k r s) (counted : c.count < 2 ^ 16)
    (known : k < c.count) (whole : k + 1 < c.count ∨
      c.firmware.length % c.packetSize ≠ 0) (downloads : s.ctrl.st = .dl) (empty : s.rx = {})
    (more : 0 < n) (inside : n ≤ (c.payload k).length) :
    ∃ s', step cfg s (c.write cfg (firstFrame c k n)) = .ok s' ∧ Serving cfg c k r s' ∧
      Progress c k n s' := by
  have small := fit.payload_small k
  have taking : Taking c k 0 { s.note (.received (firstFrame c k n)) with
      rx := ⟨[], expectLenOf s.ctrl k, k, c.crc k⟩ } :=
    ⟨downloads, by rw [serving.expectLen fit known whole]; rfl⟩
  have progress := taking.progress (fit.payload_pos known) (by omega) (n := n) (by omega)
  rw [Nat.zero_add, drop_zero] at progress
  exact ⟨_, step_firstFrame fit serving counted known downloads empty more,
    serving.received _ _ _, progress⟩

theorem answer_eq (known : k < c.count) :
    ∃ first sizes, c.cuts k = (first + 6) :: sizes ∧ 0 < first ∧
      first + sizes.sum = (c.payload k).length ∧ (∀ n ∈ sizes, 0 < n) ∧
      c.answer k = firstFrame c k first :: sizes.splitLengths ((c.payload k).drop first) := by
  obtain ⟨n, sizes, cut, long⟩ := (fit.cuts k known).header
  have total := (fit.cuts k known).sum
  have positive := (fit.cuts k known).positive
  obtain ⟨first, rfl⟩ : ∃ first, n = first + 6 := ⟨n - 6, by omega⟩
  rw [cut, sum_cons, ← payload_length] at total
  rw [cut] at positive
  refine ⟨first, sizes, cut, by omega, by omega,
    fun n member => positive n (mem_cons_of_mem _ member), ?_⟩
  unfold Client.answer
  rw [cut, splitLengths_cons]
  rfl

theorem feed_packet (serving : Serving cfg c k r s) (counted : c.count < 2 ^ 16)
    (known : k < c.count) (whole : k + 1 < c.count ∨
      c.firmware.length % c.packetSize ≠ 0)
    (downloads : s.ctrl.st = .dl) (empty : s.rx = {}) (plain : ∀ f ∈ (c.answer k).tail, Plain f) :
    ∃ s', ((c.answer k).map (c.write cfg)).foldlM (step cfg) s = .ok s' ∧
      Serving cfg c k r s' ∧ Filled c k s' := by
  obtain ⟨first, sizes, -, some_, total, positive, frames⟩ := answer_eq fit known
  have small := fit.payload_small k
  rw [frames, tail_cons] at plain
  rw [frames, map_cons, foldlM_cons]
  obtain ⟨next, header, serving', progress⟩ := step_header fit serving counted known whole downloads
    empty some_ (by omega)
  obtain ⟨s', rest, serving'', finished⟩ := feed_pieces (by omega) sizes serving' progress
    (by omega) positive plain
  refine ⟨s', by rw [header]; exact rest, serving'', ?_⟩
  unfold Progress at finished
  rwa [total, if_neg (Nat.lt_irrefl _)] at finished

end

/-! ## The turns of a session -/

theorem requested?_requestFrame {offset : Nat} (small : offset < 2 ^ 24) :
    (Note.notified (requestFrame offset)).requested? = some offset := by
  exact congrArg some (word24_ofNat small)

theorem step_process (running : s.rebooted = false) (works : Bool) :
    step cfg s (.process works) = .ok (bleOtaProcess cfg s works) := by
  simp [step, running]

def reply (cfg : Config) (c : Client) (k : Nat) (s : Server) : Except Fault Server := do
  let s₂ ← ((c.answer k).map (c.write cfg)).foldlM (step cfg) s
  if s₂.ctrl.st = .dl then step cfg s₂ .timeout else .ok s₂

theorem turn_requesting (fit : Fit cfg c) (serving : Serving cfg c k r s)
    (known : k < c.count) (requesting : s.ctrl.st = .request) (patient : r < 10) :
    ∃ s₁, turn cfg c s = reply cfg c k s₁ ∧ Serving cfg c k (r + 1) s₁ ∧ s₁.ctrl.st = .dl ∧
      s₁.rx = {} ∧ s₁.ctrl.timer ≠ none := by
  have inside := (lt_packetCount fit.positive).mp known
  have online : s.connHandle ≠ -1 := serving.connected ▸ fit.connected
  have next : (s.ctrl.retryCount + 1) % 2 ^ 8 = r + 1 := by
    rw [serving.retries]
    omega
  have requested : bleOtaProcess cfg s true =
      { s with
        ctrl := { s.ctrl with
          st := .dl, retryCount := r + 1, timer := some (s.ctrl.timeout * 1000) }
        rx := {}
        trace := s.trace ++ [.notified (requestFrame (c.packetSize * k))] } := by
    unfold bleOtaProcess
    rw [if_neg online]
    simp only [requesting, next]
    rw [if_neg (by omega), serving.packetSize, serving.slot]
    rfl
  have offset : (c.packetSize * k) / c.packetSize = k := Nat.mul_div_cancel_left k fit.positive
  have below : c.packetSize * k < 2 ^ 24 := by
    rw [Nat.mul_comm]
    exact Nat.lt_trans inside fit.announceable
  refine ⟨bleOtaProcess cfg s true, ?_, ?_, ?_, ?_, ?_⟩
  · unfold turn reply
    rw [step_process serving.running]
    simp only [bind, Except.bind]
    have asked : ((bleOtaProcess cfg s true).trace.drop s.trace.length).findSome? Note.requested? =
        some (c.packetSize * k) := by
      rw [requested]
      simp only [drop_left, findSome?_cons, requested?_requestFrame below]
    rw [asked]
    simp only [offset]
  · rw [requested]
    exact { serving with retries := rfl }
  · rw [requested]
  · rw [requested]
  · rw [requested]
    exact Option.some_ne_none _

theorem turn_answered (fit : Fit cfg c) (serving : Serving cfg c k r s) (counted : c.count < 2 ^ 16)
    (known : k < c.count) (whole : k + 1 < c.count ∨
      c.firmware.length % c.packetSize ≠ 0)
    (plain : ∀ f ∈ (c.answer k).tail, Plain f) (requesting : s.ctrl.st = .request)
    (patient : r < 10) :
    ∃ s', turn cfg c s = .ok s' ∧ Serving cfg c k (r + 1) s' ∧ Filled c k s' := by
  obtain ⟨s₁, turned, serving₁, downloads, empty, -⟩ :=
    turn_requesting fit serving known requesting patient
  obtain ⟨s', fed, serving', filled⟩ :=
    feed_packet fit serving₁ counted known whole downloads empty plain
  refine ⟨s', ?_, serving', filled⟩
  rw [turned, reply, fed]
  simp only [bind, Except.bind]
  rw [if_neg (by rw [filled.1]; decide)]

theorem payload_getD {j : Nat} (inside : j < (c.payload k).length) :
    (c.payload k).getD j 0 = c.firmware.getD (k * c.packetSize + j) 0 := by
  unfold Client.payload at inside ⊢
  rw [length_take, length_drop] at inside
  rw [getD_eq_getElem?_getD, getD_eq_getElem?_getD, getElem?_take_of_lt (by omega),
    getElem?_drop]

theorem Stored.program {mem : Mem} (stored : Stored cfg c k mem) :
    Stored cfg c (k + 1)
      (program mem (k * c.packetSize + 2 * cfg.info.sectorSize) (c.payload k)) := by
  intro i below
  have length := payload_length c k
  unfold slotLength at length
  have before := stored i below
  rw [Nat.add_mul, Nat.one_mul]
  by_cases inside : k * c.packetSize ≤ i ∧ i < k * c.packetSize + (c.payload k).length
  · rw [if_neg (by omega)] at before
    rw [program_erased (by omega) (by omega) before, if_pos (by omega)]
    have position : 2 * cfg.info.sectorSize + i - (k * c.packetSize + 2 * cfg.info.sectorSize) =
        i - k * c.packetSize := by omega
    have default {j : Nat} (inside : j < (c.payload k).length) :
        (c.payload k).getD j blank = (c.payload k).getD j 0 := by
      rw [getD_eq_getElem, getD_eq_getElem _ _ inside]
    rw [position, default (by omega), payload_getD (by omega)]
    congr 1
    omega
  rw [program_outside (by omega), before]
  by_cases earlier : i < k * c.packetSize
  · rw [if_pos earlier, if_pos (by omega)]
  · rw [if_neg earlier, if_neg (by omega)]

theorem turn_silent (running : s.rebooted = false) {notes : List Note}
    (trace : (bleOtaProcess cfg s true).trace = s.trace ++ notes)
    (silent : ∀ n ∈ notes, n.requested? = none) :
    turn cfg c s = .ok (bleOtaProcess cfg s true) := by
  have nothing : ((bleOtaProcess cfg s true).trace.drop s.trace.length).findSome? Note.requested? =
      none := by
    rw [trace, drop_left]
    exact findSome?_eq_none_iff.mpr silent
  unfold turn
  rw [step_process running]
  simp only [bind, Except.bind]
  rw [nothing]

theorem turn_flashing (fit : Fit cfg c) (serving : Serving cfg c k r s) (counted : c.count < 2 ^ 16)
    (known : k < c.count) (filled : Filled c k s) :
    ∃ s', turn cfg c s = .ok s' ∧ Serving cfg c (k + 1) 0 s' ∧
      s'.ctrl.st = if k + 1 < c.count then .request
        else .complete := by
  have inside := (lt_packetCount fit.positive).mp known
  have online : s.connHandle ≠ -1 := serving.connected ▸ fit.connected
  have succeeds : programs cfg true (k * c.packetSize) (c.payload k) = true := by
    have bounds := fit.inPartition
    have length := payload_length c k
    unfold slotLength at length
    unfold programs
    rw [Bool.and_true, decide_eq_true_iff]
    omega
  have written : bleOtaProcess cfg s true =
      { s with
        ctrl := { s.ctrl with
          st := if k + 1 < c.count then .request else .complete
          retryCount := 0, recvPacketCount := k + 1 }
        partition := program s.partition (k * c.packetSize + 2 * cfg.info.sectorSize) (c.payload k)
        trace := s.trace ++ [.programmed (k * c.packetSize) (c.payload k) true] } := by
    have next : (s.ctrl.recvPacketCount + 1) % 2 ^ 16 = k + 1 := by
      rw [serving.slot]
      omega
    unfold bleOtaProcess
    rw [if_neg online]
    simp only [filled.1, otaPartitionWrite_eq, next, serving.count]
    rw [serving.slot, serving.packetSize, filled.2, flashAfter, succeeds]
    split <;> rfl
  refine ⟨_, turn_silent serving.running (congrArg Server.trace written) ?_, ?_, ?_⟩
  · intro n member
    rw [mem_singleton.mp member]
    rfl
  · rw [written]
    exact { serving with slot := rfl, retries := rfl, stored := serving.stored.program }
  · rw [written]

theorem turn_starting (fit : Fit cfg c) (serving : Serving cfg c k r s)
    (starting : s.ctrl.st = .start) :
    ∃ s', turn cfg c s = .ok s' ∧ Serving cfg c k r s' ∧ s'.ctrl.st = .request := by
  have online : s.connHandle ≠ -1 := serving.connected ▸ fit.connected
  have welcomed : bleOtaProcess cfg s true = otaStatusChange (s.note (.notified
      [otaPacketStart, OtaCmd.start.code, 0x01, otaPacketEnd])) .request := by
    unfold bleOtaProcess
    rw [if_neg online]
    simp only [starting]
    rw [if_neg (not_not.mpr serving.notifies)]
  refine ⟨_, turn_silent serving.running (congrArg Server.trace welcomed) ?_, ?_, ?_⟩
  · intro n member
    rw [mem_singleton.mp member]
    rfl
  · rw [welcomed]
    exact serving.frame .request s.ctrl.timer s.rx _
  · rw [welcomed]
    rfl

theorem Fit.otaPartitionSize_eq (fit : Fit cfg c) :
    otaPartitionSize cfg = cfg.info.length - 2 * cfg.info.sectorSize := by
  have inPartition := fit.inPartition
  have addressable := fit.addressable
  unfold otaPartitionSize
  omega

theorem step_start (fit : Fit cfg c) (ready : Ready cfg c s) :
    step cfg s (c.write cfg c.startFrame) = .ok (beginSession (s.note (.received c.startFrame))
      c.firmware.length c.packetSize (UInt8.ofNat c.timeout).toNat) := by
  have isSize : word24 c.startFrame 2 = c.firmware.length := word24_ofNat fit.announceable
  have packetSmall := fit.small
  unfold otaPacketSize at packetSmall
  have isPacketSize : word16 c.startFrame 5 = c.packetSize := word16_ofNat (by omega)
  have short : c.startFrame.length < 2 ^ 16 := by
    show 9 < 2 ^ 16
    decide
  rw [step_write ready.connected ready.running short]
  have idle : (s.note (.received c.startFrame)).ctrl.st = .idle := by
    show s.ctrl.st = .idle
    rw [ready.ctrl]
  unfold writeRxVal
  simp only [idle]
  rw [if_pos ⟨rfl, rfl, rfl, rfl⟩]
  unfold startSession
  simp only [isSize, isPacketSize]
  have inPartition := fit.inPartition
  rw [if_neg, if_neg (Nat.ne_of_gt fit.positive)]
  · rfl
  · rw [fit.otaPartitionSize_eq, not_or, Nat.not_lt, Nat.not_lt]
    exact ⟨by omega, fit.small⟩

theorem serving_start (ready : Ready cfg c s) (counted : c.count < 2 ^ 16) (timeout : Nat) :
    Serving cfg c 0 0 (beginSession (s.note (.received c.startFrame)) c.firmware.length
      c.packetSize timeout) := by
  refine ⟨ready.connected, ready.notifies, ready.running, rfl, rfl, Nat.mod_eq_of_lt counted, ?_,
    ?_, ?_⟩
  · show s.ctrl.recvPacketCount = 0
    rw [ready.ctrl]
  · show s.ctrl.retryCount = 0
    rw [ready.ctrl]
  · intro i below
    rw [Nat.zero_mul, if_neg (Nat.not_lt_zero i)]
    exact ready.erased i below

theorem turns_add (n m : Nat) (s : Server) :
    turns cfg c (n + m) s = turns cfg c n s >>= turns cfg c m := by
  induction n generalizing s with
  | zero =>
    rw [Nat.zero_add]
    rfl
  | succ n ih =>
    rw [Nat.add_right_comm]
    show (turn cfg c s >>= turns cfg c _) = (turn cfg c s >>= turns cfg c n) >>= turns cfg c m
    cases turn cfg c s with
    | error fault => rfl
    | ok next => exact ih next

theorem turns_succ {s₁ s₂ : Server} (before : turns cfg c n s = .ok s₁)
    (last : turn cfg c s₁ = .ok s₂) : turns cfg c (n + 1) s = .ok s₂ := by
  rw [turns_add, before]
  show (turn cfg c s₁ >>= turns cfg c 0) = .ok s₂
  rw [last]
  rfl

theorem turns_packets (fit : Fit cfg c) (counted : c.count < 2 ^ 16)
    (remainder : c.firmware.length % c.packetSize ≠ 0)
    (plain : ∀ k < c.count, ∀ f ∈ (c.answer k).tail, Plain f)
    (serving : Serving cfg c 0 0 s) (starting : s.ctrl.st = .start) :
    ∀ k ≤ c.count, ∃ n s', turns cfg c n s = .ok s' ∧
      Serving cfg c k 0 s' ∧
      s'.ctrl.st = if k < c.count then .request
        else .complete := by
  intro k
  induction k with
  | zero =>
    intro _
    obtain ⟨s', turned, serving', requesting⟩ := turn_starting fit serving starting
    have some_ : 0 < c.count :=
      (lt_packetCount fit.positive).mpr (by rw [Nat.zero_mul]; exact fit.nonempty)
    refine ⟨1, s', ?_, serving', by rw [if_pos some_, requesting]⟩
    exact turns_succ (n := 0) rfl turned
  | succ k arrived =>
    intro atMost
    obtain ⟨n, s₁, turned, serving₁, state⟩ := arrived (Nat.le_of_lt atMost)
    have known : k < c.count := atMost
    rw [if_pos known] at state
    obtain ⟨s₂, answered, serving₂, filled⟩ := turn_answered fit serving₁ counted known
      (.inr remainder) (plain k known) state (by decide)
    obtain ⟨s₃, written, serving₃, next⟩ := turn_flashing fit serving₂ counted known filled
    exact ⟨n + 1 + 1, s₃, turns_succ (turns_succ turned answered) written, serving₃, next⟩

theorem delivers (fit : Fit cfg c) (ready : Ready cfg c s) (counted : c.count < 2 ^ 16)
    (remainder : c.firmware.length % c.packetSize ≠ 0)
    (plain : ∀ k < c.count, ∀ f ∈ (c.answer k).tail, Plain f) :
    Delivers cfg s c := by
  obtain ⟨n, s', turned, serving, complete⟩ := turns_packets fit counted remainder plain
    (serving_start ready counted _) rfl _ (Nat.le_refl _)
  refine ⟨n, _, s', step_start fit ready, turned, ?_, ?_⟩
  · rw [complete, if_neg (Nat.lt_irrefl _)]
  intro i below
  have all := firmware_le fit.positive
    (Nat.le_refl c.count)
  rw [serving.stored i below, if_pos (Nat.lt_of_lt_of_le below all)]

end Phy6212.Ota
