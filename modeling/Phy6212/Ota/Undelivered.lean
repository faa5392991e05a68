import Phy6212.Ota.Transfer

/-!
# Transfers that fail

A transfer does not get past a slot whose packet is never taken (`Blocked.not_delivers`): the last
one when the size is a multiple of the packet size, or one with a write of three bytes that looks
like a command.
-/

namespace Phy6212.Ota

open List NorFlash Misc Runs

/-- The server never takes the packet of the slot: it requests it again, or the
session stops. -/
def Blocked (cfg : Config) (c : Client) (b : Nat) : Prop :=
  ∀ r s, Serving cfg c b r s → s.ctrl.st = .dl → s.rx = {} → s.ctrl.timer ≠ none →
    ∃ s', reply cfg c b s = .ok s' ∧
      (Serving cfg c b r s' ∧ s'.ctrl.st = .request ∨ s'.ctrl.st = .stop)

def Stalled (cfg : Config) (c : Client) (b : Nat) (s : Server) : Prop :=
  (∃ k r, k ≤ b ∧ r ≤ 10 ∧ Serving cfg c k r s ∧
    (s.ctrl.st = .start ∨ s.ctrl.st = .request ∨ Filled c k s ∧ k < b)) ∨
  s.ctrl.st = .stop ∨ s.ctrl.st = .idle

variable {cfg : Config} {c : Client} {s : Server} {b k r : Nat}

theorem Stalled.not_complete (stalled : Stalled cfg c b s) : s.ctrl.st ≠ .complete := by
  rcases stalled with ⟨k, r, -, -, -, state | state | ⟨⟨state, -⟩, -⟩⟩ | state | state <;>
    rw [state] <;> decide

theorem turn_gaveUp (fit : Fit cfg c) (serving : Serving cfg c k 10 s)
    (requesting : s.ctrl.st = .request) :
    ∃ s', turn cfg c s = .ok s' ∧ s'.ctrl.st = .idle := by
  have online : s.connHandle ≠ -1 := serving.connected ▸ fit.connected
  have gaveUp : bleOtaProcess cfg s true =
      { s with ctrl := {}, rx := {}, trace := s.trace ++ [.disconnected] } := by
    unfold bleOtaProcess
    rw [if_neg online]
    simp only [requesting]
    rw [if_pos (by rw [serving.retries]; decide)]
    rfl
  refine ⟨_, turn_silent serving.running (congrArg Server.trace gaveUp) ?_, ?_⟩
  · intro n member
    rw [mem_singleton.mp member]
    rfl
  · rw [gaveUp]

theorem turn_resting (resting : s.ctrl.st = .stop ∨ s.ctrl.st = .idle) :
    ∃ s', turn cfg c s = .ok s' ∧ (s'.ctrl.st = .stop ∨ s'.ctrl.st = .idle) := by
  have rests : ∃ s', step cfg s (.process true) = .ok s' ∧ s'.trace = s.trace ∧
      (s'.ctrl.st = .stop ∨ s'.ctrl.st = .idle) := by
    by_cases rebooted : s.rebooted = true
    · exact ⟨s, by simp [step, rebooted], rfl, resting⟩
    refine ⟨_, step_process (by simpa using rebooted) true, ?_⟩
    unfold bleOtaProcess
    split
    · exact ⟨rfl, resting⟩
    rcases resting with state | state
    · simp only [state]
      exact ⟨rfl, .inr rfl⟩
    · simp [state]
  obtain ⟨s', stepped, silent, rests⟩ := rests
  refine ⟨s', ?_, rests⟩
  unfold turn
  rw [stepped]
  simp only [bind, Except.bind]
  rw [silent, drop_length]
  rfl

theorem Stalled.turn (fit : Fit cfg c) (counted : c.count < 2 ^ 16) (inside : b < c.count)
    (plain : ∀ k < b, ∀ f ∈ (c.answer k).tail, Plain f) (blocked : Blocked cfg c b)
    (stalled : Stalled cfg c b s) : ∃ s', Ota.turn cfg c s = .ok s' ∧ Stalled cfg c b s' := by
  rcases stalled with ⟨k, r, atMost, patient, serving, state⟩ | resting
  · have known := Nat.lt_of_le_of_lt atMost inside
    rcases state with starting | requesting | ⟨filled, before⟩
    · obtain ⟨s', turned, serving', requesting⟩ := turn_starting fit serving starting
      exact ⟨s', turned, .inl ⟨k, r, atMost, patient, serving', .inr (.inl requesting)⟩⟩
    · rcases Nat.lt_or_ge r 10 with fewer | many
      · rcases Nat.lt_or_ge k b with before | here
        · obtain ⟨s', turned, serving', filled⟩ := turn_answered fit serving counted known
            (.inl (by omega)) (plain k before) requesting fewer
          exact ⟨s', turned,
            .inl ⟨k, r + 1, atMost, fewer, serving', .inr (.inr ⟨filled, before⟩)⟩⟩
        obtain rfl : k = b := Nat.le_antisymm atMost here
        obtain ⟨s₁, turned, serving₁, downloads, empty, armed⟩ :=
          turn_requesting fit serving known requesting fewer
        obtain ⟨s', replied, ⟨serving', again⟩ | stopped⟩ :=
          blocked _ s₁ serving₁ downloads empty armed
        · exact ⟨s', turned.trans replied,
            .inl ⟨k, r + 1, atMost, fewer, serving', .inr (.inl again)⟩⟩
        · exact ⟨s', turned.trans replied, .inr (.inl stopped)⟩
      · obtain rfl : r = 10 := Nat.le_antisymm patient many
        obtain ⟨s', turned, idle⟩ := turn_gaveUp fit serving requesting
        exact ⟨s', turned, .inr (.inr idle)⟩
    · obtain ⟨s', turned, serving', next⟩ := turn_flashing fit serving counted known filled
      rw [if_pos (by omega)] at next
      exact ⟨s', turned, .inl ⟨k + 1, 0, before, Nat.zero_le _, serving', .inr (.inl next)⟩⟩
  · obtain ⟨s', turned, rests⟩ := turn_resting resting
    exact ⟨s', turned, .inr rests⟩

theorem Stalled.turns (fit : Fit cfg c) (counted : c.count < 2 ^ 16) (inside : b < c.count)
    (plain : ∀ k < b, ∀ f ∈ (c.answer k).tail, Plain f) (blocked : Blocked cfg c b) (n : Nat)
    (stalled : Stalled cfg c b s) : ∃ s', Ota.turns cfg c n s = .ok s' ∧ Stalled cfg c b s' := by
  induction n generalizing s with
  | zero => exact ⟨s, rfl, stalled⟩
  | succ n following =>
    obtain ⟨s₁, turned, stalled₁⟩ := stalled.turn fit counted inside plain blocked
    obtain ⟨s', rest, stalled'⟩ := following stalled₁
    refine ⟨s', ?_, stalled'⟩
    show (Ota.turn cfg c s >>= Ota.turns cfg c n) = .ok s'
    rw [turned]
    exact rest

theorem Blocked.not_delivers (blocked : Blocked cfg c b) (fit : Fit cfg c) (ready : Ready cfg c s)
    (counted : c.count < 2 ^ 16) (inside : b < c.count)
    (plain : ∀ k < b, ∀ f ∈ (c.answer k).tail, Plain f) : ¬ Delivers cfg s c := by
  rintro ⟨n, s₁, s₂, started, turned, complete, -⟩
  rw [step_start fit ready] at started
  cases started
  have begins : Stalled cfg c b (beginSession _ c.firmware.length
      c.packetSize (UInt8.ofNat c.timeout).toNat) :=
    .inl ⟨0, 0, Nat.zero_le _, Nat.zero_le _, serving_start ready counted _, .inl rfl⟩
  obtain ⟨s', turned', stalled⟩ := begins.turns fit counted inside plain blocked n
  rw [turned] at turned'
  cases turned'
  exact stalled.not_complete complete

/-! ## The last packet of a firmware that fills its slots -/

variable {f : List UInt8} {sizes : List Nat} {α : Type}

theorem eq_of_mem_splitLengths {l f : List α} (member : f ∈ sizes.splitLengths l) :
    ∃ i n, f = (l.drop i).take n := by
  induction sizes generalizing l with
  | nil => cases member
  | cons n sizes inRest =>
    rw [splitLengths_cons] at member
    rcases mem_cons.mp member with rfl | later
    · exact ⟨0, n, by rw [drop_zero]⟩
    · obtain ⟨i, m, rfl⟩ := inRest later
      exact ⟨n + i, m, by rw [drop_drop]⟩

theorem sublist_of_mem_splitLengths {l f : List α} (member : f ∈ sizes.splitLengths l) :
    f.Sublist l := by
  obtain ⟨i, n, rfl⟩ := eq_of_mem_splitLengths member
  exact (take_sublist _ _).trans (drop_sublist _ _)

theorem writeRxVal_unheeded {data : List UInt8} (downloads : s.ctrl.st = .dl) (plain : Plain data)
    (noHeader : ¬ IsHeader data) (empty : s.rx.expectLen = 0) :
    writeRxVal cfg s data = .ok s := by
  unfold writeRxVal
  simp only [downloads]
  rw [if_neg plain.1, if_neg plain.2, if_neg (fun header => noHeader header.1),
    if_neg (not_not.mpr empty)]

theorem feed_unheeded (frames : List (List UInt8))
    (dropped : ∀ f ∈ frames, Plain f ∧ ¬ IsHeader f ∧ f.length < 2 ^ 16)
    (serving : Serving cfg c k r s) (downloads : s.ctrl.st = .dl) (empty : s.rx.expectLen = 0) :
    ∃ s', (frames.map (c.write cfg)).foldlM (step cfg) s = .ok s' ∧ Serving cfg c k r s' ∧
      s'.ctrl = s.ctrl := by
  induction frames generalizing s with
  | nil => exact ⟨s, rfl, serving, rfl⟩
  | cons f frames feedRest =>
    obtain ⟨plain, noHeader, short⟩ := dropped f mem_cons_self
    have first : step cfg s (c.write cfg f) = .ok (s.note (.received f)) := by
      rw [step_write serving.connected serving.running short]
      exact writeRxVal_unheeded downloads plain noHeader empty
    obtain ⟨s', rest, serving', ctrl⟩ := feedRest (s := s.note _)
      (fun g member => dropped g (mem_cons_of_mem _ member))
      (serving.frame s.ctrl.st s.ctrl.timer s.rx _) downloads empty
    refine ⟨s', ?_, serving', ctrl⟩
    rw [map_cons, foldlM_cons, first]
    exact rest

theorem step_timeout (serving : Serving cfg c k r s) (armed : s.ctrl.timer ≠ none) :
    ∃ s', step cfg s .timeout = .ok s' ∧ Serving cfg c k r s' ∧ s'.ctrl.st = .request := by
  obtain ⟨period, running⟩ := Option.ne_none_iff_exists'.mp armed
  refine ⟨otaTimeout { s with ctrl := { s.ctrl with timer := none } }, ?_,
    serving.frame .request none {} s.trace, rfl⟩
  unfold step
  rw [serving.running]
  simp only [Bool.false_eq_true, if_false, running]

theorem blocked_last (fit : Fit cfg c) (counted : c.count < 2 ^ 16)
    (whole : c.firmware.length % c.packetSize = 0) (last : b + 1 = c.count)
    (dropped : ∀ f ∈ (c.answer b).tail, Plain f ∧ ¬ IsHeader f) : Blocked cfg c b := by
  intro r s serving downloads empty armed
  have known : b < c.count := by omega
  obtain ⟨first, sizes, -, some_, total, -, frames⟩ := answer_eq fit known
  have small := fit.payload_small b
  rw [frames, tail_cons] at dropped
  have nothing : expectLenOf s.ctrl b = 0 := by
    have lastSlot : b = c.count - 1 := by omega
    rw [expectLenOf, serving.count, serving.firmwareSize, serving.packetSize, if_pos lastSlot, whole]
  have header := step_firstFrame fit serving counted known downloads empty some_
  rw [otaRecvData_unexpected _ nothing] at header
  have short : ∀ f ∈ sizes.splitLengths ((c.payload b).drop first),
      Plain f ∧ ¬ IsHeader f ∧ f.length < 2 ^ 16 := by
    intro f member
    refine ⟨(dropped f member).1, (dropped f member).2, ?_⟩
    have fewer := (sublist_of_mem_splitLengths member).length_le
    rw [length_drop] at fewer
    omega
  obtain ⟨s₂, rest, serving₂, ctrl⟩ := feed_unheeded _ short
    (serving.frame s.ctrl.st s.ctrl.timer ⟨[], expectLenOf s.ctrl b, b, c.crc b⟩
      _) downloads nothing
  have fed : ((c.answer b).map (c.write cfg)).foldlM (step cfg) s = .ok s₂ := by
    rw [frames, map_cons, foldlM_cons, header]
    exact rest
  have waiting : s₂.ctrl.st = .dl := by
    rw [ctrl]
    exact downloads
  obtain ⟨s', expired, serving', requesting⟩ := step_timeout serving₂ (by rw [ctrl]; exact armed)
  refine ⟨s', ?_, .inl ⟨serving', requesting⟩⟩
  unfold reply
  rw [fed]
  simp only [bind, Except.bind]
  rw [if_pos waiting, expired]

/-! ## A write that looks like a command -/

theorem feed_stopped (cfg : Config) (c : Client) (frames : List (List UInt8))
    (short : ∀ f ∈ frames, f.length < 2 ^ 16) (connected : s.connHandle = c.connHandle)
    (running : s.rebooted = false) (stopped : s.ctrl.st = .stop) :
    ∃ s', (frames.map (c.write cfg)).foldlM (step cfg) s = .ok s' ∧ s'.ctrl.st = .stop := by
  induction frames generalizing s with
  | nil => exact ⟨s, rfl, stopped⟩
  | cons f frames feedRest =>
    have first : step cfg s (c.write cfg f) = .ok (s.note (.received f)) := by
      rw [step_write connected running (short f mem_cons_self)]
      unfold writeRxVal
      simp only [show (s.note _).ctrl.st = .stop from stopped]
    obtain ⟨s', rest, stopped'⟩ := feedRest (s := s.note _)
      (fun g member => short g (mem_cons_of_mem _ member)) connected running stopped
    refine ⟨s', ?_, stopped'⟩
    rw [map_cons, foldlM_cons, first]
    exact rest

theorem step_stop (serving : Serving cfg c k r s) (downloads : s.ctrl.st = .dl)
    (command : IsCommand .stop f) :
    step cfg s (c.write cfg f) =
      .ok (otaStatusChange (otaReset (s.note (.received f))) .stop) := by
  rw [step_write serving.connected serving.running (by rw [command.1]; decide)]
  unfold writeRxVal
  simp only [show (s.note _).ctrl.st = .dl from downloads]
  rw [if_pos command]

theorem splitLengths_append (first second : List Nat) (l : List α) :
    (first ++ second).splitLengths l =
      first.splitLengths l ++ second.splitLengths (l.drop first.sum) := by
  induction first generalizing l with
  | nil => rfl
  | cons n first ih =>
    rw [cons_append, splitLengths_cons, splitLengths_cons, ih, cons_append,
      sum_cons, drop_drop]

theorem blocked_stop (fit : Fit cfg c) (counted : c.count < 2 ^ 16) (known : b < c.count)
    (whole : c.firmware.length % c.packetSize ≠ 0) {first : Nat} {before after : List Nat}
    (cut : c.cuts b = (first + 6) :: (before ++ 3 :: after))
    (plain : ∀ f ∈ before.splitLengths ((c.payload b).drop first), Plain f)
    (command : IsCommand .stop (((c.payload b).drop (first + before.sum)).take 3)) :
    Blocked cfg c b := by
  intro r s serving downloads empty armed
  obtain ⟨first', sizes, cut', some_, total, positive, frames⟩ := answer_eq fit known
  rw [cut] at cut'
  obtain ⟨same, rfl⟩ := List.cons.inj cut'
  obtain rfl : first = first' := by omega
  have small := fit.payload_small b
  rw [sum_append, sum_cons] at total
  obtain ⟨s₁, header, serving₁, progress₁⟩ := step_header fit serving counted known (.inr whole)
    downloads empty some_ (by omega)
  obtain ⟨s₂, pieces, serving₂, progress₂⟩ := feed_pieces (by omega) before serving₁ progress₁
    (by omega) (fun n member => positive n (mem_append_left _ member)) plain
  unfold Progress at progress₂
  rw [if_pos (by omega)] at progress₂
  have stop := step_stop serving₂ progress₂.1 command
  obtain ⟨s', rest, stopped⟩ := feed_stopped cfg c
    (after.splitLengths ((c.payload b).drop (first + before.sum + 3)))
    (s := otaStatusChange (otaReset (s₂.note _)) .stop)
    (by
      intro f member
      have fewer := (sublist_of_mem_splitLengths member).length_le
      rw [length_drop] at fewer
      omega)
    serving₂.connected serving₂.running rfl
  have fed : ((c.answer b).map (c.write cfg)).foldlM (step cfg) s = .ok s' := by
    rw [frames, splitLengths_append, splitLengths_cons, drop_drop, drop_drop,
      map_cons, foldlM_cons, header, map_append]
    show (((before.splitLengths _).map _ ++ _).foldlM (step cfg) s₁) = .ok s'
    rw [foldlM_append, pieces]
    show ((map _ _).foldlM (step cfg) s₂) = .ok s'
    rw [map_cons, foldlM_cons, stop]
    exact rest
  refine ⟨s', ?_, .inr stopped⟩
  unfold reply
  rw [fed]
  simp only [bind, Except.bind]
  rw [if_neg (by rw [stopped]; decide)]

/-! ## More packets than can be counted -/

def Exchanged (cfg : Config) (c : Client) (_ : Server) (e : Event) : Prop :=
  e = .process true ∨ e = .timeout ∨ ∃ k, ∃ f ∈ c.answer k, e = c.write cfg f

variable {s' : Server}

theorem turn_reaches (ok : turn cfg c s = .ok s') : Reaches (step cfg) (Exchanged cfg c) s s' := by
  unfold turn at ok
  cases processed : step cfg s (.process true) with
  | error fault => simp [processed, bind, Except.bind] at ok
  | ok s₁ =>
    have first : Reaches _ (Exchanged cfg c) s s₁ := .tail .refl (.inl rfl) processed
    rw [processed] at ok
    simp only [bind, Except.bind] at ok
    split at ok
    · cases ok
      exact first
    rename_i offset requested
    split at ok
    · cases ok
    rename_i s₂ fed
    have answered : Reaches (step cfg) (Exchanged cfg c) s₁ s₂ := by
      refine reaches_foldlM ?_ fed
      intro e member s
      obtain ⟨f, inAnswer, rfl⟩ := mem_map.mp member
      exact .inr (.inr ⟨_, f, inAnswer, rfl⟩)
    split at ok
    · exact first.trans (answered.tail (.inr (.inl rfl)) ok)
    · cases ok
      exact first.trans answered

theorem turns_reaches (n : Nat) (ok : turns cfg c n s = .ok s') :
    Reaches (step cfg) (Exchanged cfg c) s s' := by
  induction n generalizing s with
  | zero =>
    cases ok
    exact .refl
  | succ n following =>
    have ok' : (turn cfg c s >>= turns cfg c n) = .ok s' := ok
    cases first : turn cfg c s with
    | error fault => simp [first, bind, Except.bind] at ok'
    | ok s₁ =>
      rw [first] at ok'
      exact (turn_reaches first).trans (following ok')

theorem answer_not_start (zeros : ∀ byte ∈ c.firmware, byte = 0) (member : f ∈ c.answer k) :
    ¬ IsStart f := by
  obtain ⟨i, n, rfl⟩ := eq_of_mem_splitLengths member
  rintro ⟨length, -, -, last⟩
  rw [length_take] at length
  -- the last of nine bytes lies behind the header
  have position : (((c.packet k).drop i).take n)[8]? = (c.payload k)[i + 2]? := by
    rw [getElem?_take_of_lt (by omega), getElem?_drop]
    exact congrArg _ (show i + 8 = i + 2 + 6 from rfl)
  rw [getD_eq_getElem?_getD, position] at last
  cases byte : (c.payload k)[i + 2]? with
  | none =>
    rw [byte] at last
    exact absurd last (by decide)
  | some value =>
    rw [byte] at last
    have inFirmware : value ∈ c.firmware :=
      mem_of_mem_drop (mem_of_mem_take (mem_of_getElem? byte))
    rw [zeros value inFirmware] at last
    exact absurd last (by decide)

structure EndBlank (cfg : Config) (c : Client) (s : Server) : Prop extends Sound s where
  sizes : s.ctrl.st ≠ .idle → s.ctrl.st ≠ .stop →
    s.ctrl.firmwareSize = c.firmware.length ∧ s.ctrl.packetSize = c.packetSize
  erased : s.partition (2 * cfg.info.sectorSize + (c.firmware.length - 1)) = blank

theorem EndBlank.spared (endBlank : EndBlank cfg c s) (flashing : s.ctrl.st = .flash)
    (uncounted : 2 ^ 16 ≤ c.count) (works : Bool) :
    flashAfter cfg works s.partition (s.ctrl.recvPacketCount * s.ctrl.packetSize) s.rx.rxBuf
      (2 * cfg.info.sectorSize + (c.firmware.length - 1)) = blank := by
  have session := endBlank.session_of flashing (by decide) (by decide)
  have sizes := endBlank.sizes (by rw [flashing]; decide) (by rw [flashing]; decide)
  have received := endBlank.received flashing
  have slot := (endBlank.wrote flashing).1
  have count := session.count
  unfold Client.count at uncounted
  have positive : 0 < c.packetSize := sizes.2 ▸ session.positive
  have inside : (s.ctrl.recvPacketCount + 1) * c.packetSize < c.firmware.length :=
    (lt_packetCount positive).mp (by omega)
  have length : s.rx.rxBuf.length ≤ c.packetSize := by
    have inPacket := session.expectLenOf_le s.rx.packetId
    rw [← received.expected, ← received.complete, sizes.2] at inPacket
    exact inPacket
  rw [Nat.add_mul, Nat.one_mul] at inside
  unfold flashAfter
  rw [sizes.2]
  split
  · rw [program_outside (by omega)]
    exact endBlank.erased
  · exact endBlank.erased

theorem endBlank_step (endBlank : EndBlank cfg c s) (uncounted : 2 ^ 16 ≤ c.count) {e : Event}
    (connected : ∀ connected connHandle works, e ≠ .connChange connected connHandle works)
    (noStart : ∀ data, Hears cfg s e data → ¬ IsStart data) (ok : step cfg s e = .ok s') :
    EndBlank cfg c s' := by
  have move := step_move ok
  have sound := sound_step endBlank.toSound move
  rcases move.course endBlank.toSound with
    ⟨notes, goesOn⟩ | ⟨notes, ended⟩ | ⟨data, heard, begins, -⟩ | ⟨works, -, wrote⟩
  · refine ⟨sound, fun notIdle notStop => ?_, goesOn.partition ▸ endBlank.erased⟩
    have active := goesOn.active ⟨notIdle, notStop⟩
    rw [goesOn.sizes.1, goesOn.sizes.2]
    exact endBlank.sizes active.1 active.2
  · refine ⟨sound, fun notIdle notStop => absurd ⟨notIdle, notStop⟩ ended.resting, ?_⟩
    rcases ended.partition with same | ⟨connHandle, works, event⟩
    · exact same ▸ endBlank.erased
    · exact absurd event (connected _ _ _)
  · exact absurd begins.starts (noStart _ heard)
  · have active := Server.active_of wrote.flashing (by decide)
    refine ⟨sound, fun _ _ => ?_, ?_⟩
    · rw [wrote.sizes.1, wrote.sizes.2]
      exact endBlank.sizes active.1 active.2
    · rw [wrote.partition]
      exact endBlank.spared wrote.flashing uncounted works

variable {data : List UInt8}

theorem hears_write (heard : Hears cfg s (c.write cfg f) data) : data = f.take (2 ^ 16 - 1) := by
  have heard' : rxData cfg s _ = some data := heard
  unfold rxData at heard'
  split at heard'
  · cases heard'
  · split at heard'
    · exact (Option.some.inj heard').symm
    · cases heard'

theorem exchanged_not_start (zeros : ∀ byte ∈ c.firmware, byte = 0) {e : Event}
    (exchanged : Exchanged cfg c s e) (heard : Hears cfg s e data) : ¬ IsStart data := by
  rcases exchanged with rfl | rfl | ⟨k, f, member, rfl⟩
  · cases heard
  · cases heard
  intro starts
  rw [hears_write heard] at starts
  have length := starts.1
  rw [length_take] at length
  rw [take_of_length_le (by omega)] at starts
  exact answer_not_start zeros member starts

theorem Ready.sound (ready : Ready cfg c s) : Sound s :=
  sound_resting (.inl (by rw [ready.ctrl])) (by rw [ready.ctrl]) (by rw [ready.ctrl])

theorem not_delivers_uncounted (fit : Fit cfg c) (ready : Ready cfg c s)
    (uncounted : 2 ^ 16 ≤ c.count)
    (zeros : ∀ byte ∈ c.firmware, byte = 0) : ¬ Delivers cfg s c := by
  rintro ⟨n, s₁, s₂, started, turned, -, contains⟩
  have nonempty := fit.nonempty
  have sound := sound_step ready.sound (step_move started)
  rw [step_start fit ready] at started
  cases started
  have begins : EndBlank cfg c _ :=
    ⟨sound, fun _ _ => ⟨rfl, rfl⟩, ready.erased _ (by omega)⟩
  have endBlank := (turns_reaches n turned).invariant begins fun _ e _ held exchanged ok =>
    endBlank_step held uncounted
      (by rcases exchanged with rfl | rfl | ⟨k, f, -, rfl⟩ <;> intros <;> exact Event.noConfusion)
      (fun _ heard => exchanged_not_start zeros exchanged heard) ok
  have last := contains (c.firmware.length - 1) (by omega)
  rw [endBlank.erased, getD_eq_getElem _ _ (by omega), zeros _ (getElem_mem _)] at last
  exact absurd last (by decide)

/-! ## The firmwares of a size -/

variable {n p : Nat} {α : Type} {firmware : List UInt8}

theorem Fit.refill (fit : Fit cfg c) (same : firmware.length = c.firmware.length) :
    Fit cfg { c with firmware := firmware } := by
  refine ⟨?_, ?_, fit.addressable, ?_, fit.positive, fit.small, fit.connected, ?_⟩
  · exact fit.nonempty.trans_eq same.symm
  · rw [same]
    exact fit.inPartition
  · rw [same]
    exact fit.announceable
  · rw [same]
    exact fit.cuts

theorem Ready.refill (ready : Ready cfg c s) (same : firmware.length = c.firmware.length) :
    Ready cfg { c with firmware := firmware } s := by
  refine { ready with erased := ?_ }
  rw [same]
  exact ready.erased

theorem dropped_of_zeros (zeros : ∀ byte ∈ f, byte = 0) : Plain f ∧ ¬ IsHeader f := by
  have first : f.getD 0 0 ≠ otaPacketStart := by
    cases f with
    | nil => decide
    | cons byte rest =>
      show byte ≠ otaPacketStart
      rw [zeros byte mem_cons_self]
      decide
  exact ⟨⟨fun command => first command.2.1, fun command => first command.2.1⟩,
    fun header => first header.2.1⟩

theorem mem_take_add {l : List α} {i : Nat} {x : α} (member : x ∈ (l.drop i).take n) :
    x ∈ l.take (i + n) := by
  rw [take_add]
  exact mem_append_right _ member

theorem mem_take_mono {l : List α} {m : Nat} {x : α} (member : x ∈ l.take m) (less : m ≤ n) :
    x ∈ l.take n := by
  obtain ⟨d, rfl⟩ := Nat.exists_eq_add_of_le less
  rw [take_add]
  exact mem_append_left _ member

theorem payload_zeros (zeros : ∀ byte ∈ c.firmware.take p, byte = 0)
    (before : k * c.packetSize + n ≤ p) : ∀ byte ∈ (c.payload k).take n, byte = 0 := by
  intro byte member
  have inFirmware : byte ∈ ((c.firmware.drop (k * c.packetSize)).take n) := by
    unfold Client.payload at member
    rw [take_take] at member
    exact mem_take_mono member (Nat.min_le_left _ _)
  exact zeros byte (mem_take_mono (mem_take_add inFirmware) before)

theorem mem_take_of_mem_splitLengths {l f : List α} (member : f ∈ sizes.splitLengths l) {x : α}
    (inside : x ∈ f) : x ∈ l.take sizes.sum := by
  induction sizes generalizing l with
  | nil => cases member
  | cons n sizes inRest =>
    rw [splitLengths_cons] at member
    rcases mem_cons.mp member with rfl | later
    · exact mem_take_mono inside (Nat.le_add_right _ _)
    · exact mem_take_add (inRest later)

theorem pieces_zeros {first : Nat} (zeros : ∀ byte ∈ c.firmware.take p, byte = 0)
    (before : k * c.packetSize + (first + sizes.sum) ≤ p)
    (member : f ∈ sizes.splitLengths ((c.payload k).drop first)) : Plain f ∧ ¬ IsHeader f := by
  refine dropped_of_zeros fun byte inside => payload_zeros zeros before byte ?_
  exact mem_take_add (mem_take_of_mem_splitLengths member inside)

theorem answer_zeros (fit : Fit cfg c) (zeros : ∀ byte ∈ c.firmware.take p, byte = 0)
    (known : k < c.count) (before : k * c.packetSize + (c.payload k).length ≤ p) :
    ∀ f ∈ (c.answer k).tail, Plain f ∧ ¬ IsHeader f := by
  intro f member
  obtain ⟨first, sizes, -, -, total, -, frames⟩ := answer_eq fit known
  rw [frames, tail_cons] at member
  exact pieces_zeros zeros (by omega) member

theorem payload_length_le (c : Client) (k : Nat) : (c.payload k).length ≤ c.packetSize :=
  length_take_le _ _

def stopAt (size p : Nat) : List UInt8 :=
  replicate p 0 ++ [otaPacketStart, OtaCmd.stop.code, otaPacketEnd] ++
    replicate (size - (p + 3)) 0

theorem stopAt_length {size : Nat} (inside : p + 3 ≤ size) : (stopAt size p).length = size := by
  simp only [stopAt, length_append, length_replicate, length_cons, length_nil]
  omega

theorem stopAt_take (size p : Nat) : (stopAt size p).take p = replicate p 0 := by
  rw [stopAt, append_assoc]
  exact take_left' (length_replicate ..)

theorem stopAt_drop (size p : Nat) :
    ((stopAt size p).drop p).take 3 = [otaPacketStart, OtaCmd.stop.code, otaPacketEnd] := by
  rw [stopAt, append_assoc, drop_left' (length_replicate ..)]
  rfl

theorem not_delivers_stop (fit : Fit cfg c) (ready : Ready cfg c s) (counted : c.count < 2 ^ 16)
    (remainder : c.firmware.length % c.packetSize ≠ 0) (known : k < c.count)
    (three : 3 ∈ (c.cuts k).tail) :
    ∃ firmware, firmware.length = c.firmware.length ∧
      ¬ Delivers cfg s { c with firmware := firmware } := by
  obtain ⟨first, sizes, cut, -, total, -, -⟩ := answer_eq fit known
  rw [cut, tail_cons] at three
  obtain ⟨before, after, rfl⟩ := append_of_mem three
  rw [payload_length, slotLength, sum_append, sum_cons] at total
  -- the place of the write in the firmware
  obtain ⟨p, place⟩ : ∃ p, p = k * c.packetSize + (first + before.sum) := ⟨_, rfl⟩
  have same : (stopAt c.firmware.length p).length = c.firmware.length :=
    stopAt_length (by omega)
  refine ⟨stopAt c.firmware.length p, same, ?_⟩
  have fit' := fit.refill same
  have zeros : ∀ byte ∈ (stopAt c.firmware.length p).take p, byte = 0 := by
    intro byte member
    rw [stopAt_take] at member
    exact eq_of_mem_replicate member
  have counted' : packetCount (stopAt c.firmware.length p).length c.packetSize < 2 ^ 16 := by
    rwa [same]
  have known' : k < packetCount (stopAt c.firmware.length p).length c.packetSize := by
    rwa [same]
  have remainder' : (stopAt c.firmware.length p).length % c.packetSize ≠ 0 := by
    rwa [same]
  refine (blocked_stop fit' counted' known' remainder' cut ?_ ?_).not_delivers fit'
    (ready.refill same) counted' known' ?_
  · intro f member
    exact (pieces_zeros (c := { c with firmware := stopAt c.firmware.length p }) zeros
      (Nat.le_of_eq place.symm) member).1
  · have piece : ((({ c with firmware := stopAt c.firmware.length p }).payload k).drop
        (first + before.sum)).take 3 = [otaPacketStart, OtaCmd.stop.code, otaPacketEnd] := by
      show ((((stopAt c.firmware.length p).drop _).take c.packetSize).drop _).take 3 = _
      rw [drop_take, drop_drop, take_take, ← place, Nat.min_eq_left (by omega)]
      exact stopAt_drop _ _
    rw [piece]
    decide
  intro j earlier f member
  refine (answer_zeros fit' zeros (Nat.lt_trans earlier known') ?_ f member).1
  have length := payload_length_le { c with firmware := stopAt c.firmware.length p } j
  have slots : (j + 1) * c.packetSize ≤ k * c.packetSize := Nat.mul_le_mul_right _ earlier
  rw [Nat.add_mul, Nat.one_mul] at slots
  show j * c.packetSize + _ ≤ p
  have length' : (({ c with firmware := stopAt c.firmware.length p }).payload j).length ≤
    c.packetSize := length
  omega

theorem not_delivers_whole (fit : Fit cfg c) (ready : Ready cfg c s) (counted : c.count < 2 ^ 16)
    (whole : c.firmware.length % c.packetSize = 0) (zeros : ∀ byte ∈ c.firmware, byte = 0) :
    ¬ Delivers cfg s c := by
  have some_ : 0 < c.count :=
    (lt_packetCount fit.positive).mpr (by rw [Nat.zero_mul]; exact fit.nonempty)
  obtain ⟨b, last⟩ : ∃ b, b + 1 = c.count :=
    ⟨c.count - 1, by omega⟩
  have dropped : ∀ k < c.count, ∀ f ∈ (c.answer k).tail,
      Plain f ∧ ¬ IsHeader f := by
    intro k known
    refine answer_zeros (p := k * c.packetSize + (c.payload k).length) fit ?_ known (Nat.le_refl _)
    exact fun byte member => zeros byte (mem_of_mem_take member)
  exact (blocked_last fit counted whole last (dropped b (by omega))).not_delivers fit ready counted
    (by omega) fun k earlier f member => (dropped k (by omega) f member).1

def listening : Server :=
  { bleOtaInit board true blankFlash with connHandle := 0, txCccValue := .notify }

def byteClient (byte : UInt8) (packetSize : Nat) : Client := ⟨0, [byte], packetSize, 10, fun _ => [7]⟩

theorem ready_byteClient (byte : UInt8) (packetSize : Nat) :
    Ready board (byteClient byte packetSize) listening := by
  refine ⟨rfl, rfl, rfl, rfl, rfl, ?_⟩
  intro i _
  show erase blankFlash 0 0x4000 _ = blank
  unfold erase
  split
  · rfl
  · rfl

theorem fit_byteClient (byte : UInt8) {packetSize : Nat} (positive : 0 < packetSize)
    (small : packetSize ≤ otaPacketSize) : Fit board (byteClient byte packetSize) := by
  refine ⟨show 0 < 1 by decide, show 0x2001 ≤ 0x4000 by decide, by decide,
    show 1 < 2 ^ 24 by decide, positive, small, show 0 ≠ -1 by decide, ?_⟩
  intro k known
  obtain rfl : k = 0 := by
    have inside : k * packetSize < 1 := (lt_packetCount positive).mp known
    rcases Nat.eq_zero_or_pos k with zero | some_
    · exact zero
    · exact absurd inside (Nat.not_lt.mpr (Nat.mul_pos some_ positive))
  have slot : slotLength 1 packetSize 0 = 1 := by
    unfold slotLength
    omega
  refine ⟨?_, show ∀ n ∈ [7], 0 < n by decide, 7, [], rfl, by decide⟩
  show 7 = slotLength 1 packetSize 0 + 6
  rw [slot]

end Phy6212.Ota
